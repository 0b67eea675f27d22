import OpenGda.Ofi.GpuBarrierSafety

set_option autoImplicit false

-- What the barriers of a rank leave behind when single barriers and continuous runs
-- follow each other.
namespace OpenGda.GpuBarrier

open Dissemination Machine DeferredWork

variable {size : Nat}

-- A barrier or a run begins when the monitor thread is through with the run before it.
def Sequential (state : State size) : Action size → Prop
  | .move self .single => (state self).monitor = .top
  | .move self (.startContinuous _) => (state self).monitor = .top
  | _ => True

def NonEmpty : Action size → Prop
  | .move _ (.startContinuous numBarriers) => 1 ≤ numBarriers
  | _ => True

def Phased (state : State size) (action : Action size) : Prop := Sequential state action ∧ NonEmpty action

def queuedPuts (rank : Rank size) : List (Cntr × Nat) :=
  rank.executed ++ rank.nic.pending.map fun work => (work.triggering, work.threshold)

def SetsUp (rank : Rank size) : Move → Prop
  | .single => rank.app = .idle ∧ rank.monitor = .top
  | .app => ∃ numBarriers, rank.app = .armed numBarriers
  | .monitor => rank.monitor = .queueing
  | _ => False

def QueuedOnce (rank : Rank size) : Prop :=
  ∀ k threshold, (queuedPuts rank).count (.trigger k, threshold) =
    if k < nRounds size ∧ 1 ≤ threshold ∧ threshold ≤ rank.readyCounter then 1 else 0

structure Accounted (rank : Rank size) : Prop where
  counters : rank.app = .idle → rank.monitor = .top → rank.readyCounter = rank.departed.length ∧
    rank.doneCounter = rank.departed.length ∧ rank.barrierCount = rank.departed.length
  queuedOnce : QueuedOnce rank
  completed : ∀ move, SetsUp rank move → rank.nic.pending = [] ∧
    ∀ k < nRounds size, rank.nic.counters (.completion k) = rank.readyCounter

theorem orderly_of_phased (state : State size) (action : Action size) (phased : Phased state action) :
    Orderly state action := by
  obtain ⟨sequential, nonempty⟩ := phased
  unfold Orderly
  split
  · exact ⟨nonempty, sequential⟩
  · trivial

def roundPuts (size threshold : Nat) : List (Cntr × Nat) :=
  (List.range (nRounds size)).map fun k => (.trigger k, threshold)

theorem round_puts_count (size threshold k other : Nat) :
    (roundPuts size threshold).count (.trigger k, other) = if k < nRounds size ∧ other = threshold then 1 else 0 := by
  have distinct : (roundPuts size threshold).Nodup :=
    List.nodup_range.map fun first second same => by simpa using same
  have member : (.trigger k, other) ∈ roundPuts size threshold ↔ k < nRounds size ∧ other = threshold := by
    simp [roundPuts, eq_comm]
  rw [distinct.count]
  simp only [member]

theorem setup_queues (config : Config size) (self : Fin size) (rank next : Rank size)
    (level : rank.readyCounter = rank.barrierCount) (taken : setup config self rank = some next) :
    next.readyCounter = rank.readyCounter + 1 ∧
      queuedPuts next = queuedPuts rank ++ roundPuts size (rank.readyCounter + 1) := by
  obtain ⟨_, rfl⟩ := setup_result config self rank next taken
  refine ⟨rfl, ?_⟩
  simp only [queuedPuts, queue_rounds_result, List.map_append, List.map_map, List.append_assoc, roundPuts, level]
  rfl

theorem move_queues (config : Config size) (self : Fin size) (before after : Rank size) (move : Move)
    (host : HostInv before) (taken : rankStep config self before move = some after) :
    (after.readyCounter = before.readyCounter ∧ queuedPuts after = queuedPuts before) ∨
    (after.readyCounter = before.readyCounter + 1 ∧
      queuedPuts after = queuedPuts before ++ roundPuts size (before.readyCounter + 1)) := by
  have phase := host.phase
  cases move with
  | single =>
      simp only [rankStep] at taken
      split_ifs at taken with idle
      rw [Option.map_eq_some_iff] at taken
      obtain ⟨next, taken, rfl⟩ := taken
      simp only [Phase, idle] at phase
      exact .inr (setup_queues config self before next phase.2.1.1 taken)
  | startContinuous numBarriers =>
      simp only [rankStep] at taken
      split_ifs at taken
      cases taken
      exact .inl ⟨rfl, rfl⟩
  | app =>
      cases app_moves config self before after taken with
      | queue numBarriers next app queued =>
          simp only [Phase, app] at phase
          obtain ⟨_, _, ⟨level, _⟩, _⟩ := phase
          exact .inr (setup_queues config self before next level queued)
      | _ => exact .inl ⟨rfl, rfl⟩
  | monitor =>
      cases monitor_moves config self before after taken with
      | queue next monitor queued =>
          obtain ⟨_, level⟩ := monitor_queueing before phase monitor
          exact .inr (setup_queues config self before next level queued)
      | _ => exact .inl ⟨rfl, rfl⟩
  | gpu =>
      simp only [rankStep, Option.bind_eq_some_iff] at taken
      obtain ⟨kernel, _, taken⟩ := taken
      cases kernel_moves before after kernel taken with
      | _ => exact .inl ⟨rfl, rfl⟩

theorem move_queued_once (config : Config size) (self : Fin size) (before after : Rank size) (move : Move)
    (host : HostInv before) (once : QueuedOnce before) (taken : rankStep config self before move = some after) :
    QueuedOnce after := by
  intro k threshold
  rcases move_queues config self before after move host taken with ⟨ready, queued⟩ | ⟨ready, queued⟩
  · rw [queued, ready]
    exact once k threshold
  · rw [queued, ready, List.count_append, once k threshold, round_puts_count]
    split_ifs <;> omega

theorem fired_queued_once (rank : Rank size) (nic : Nic Cntr (RmaWrite size)) (work : Work Cntr (RmaWrite size))
    (fired : Fired rank.nic nic work) (once : QueuedOnce rank) :
    QueuedOnce { rank with nic := nic, executed := (work.triggering, work.threshold) :: rank.executed } := by
  intro k threshold
  let put : Work Cntr (RmaWrite size) → Cntr × Nat := fun work => (work.triggering, work.threshold)
  have same : (queuedPuts rank).Perm (rank.executed ++ put work :: nic.pending.map put) :=
    (fired.perm.map put).append_left rank.executed
  rw [← once k threshold]
  exact ((same.trans List.perm_middle).count_eq _).symm

theorem land_keeps (config : Config size) (state : State size) (op : Op Cntr (RmaWrite size)) (values : Nat → Nat)
    (rank : Fin size) : ∃ signals, land config state op values rank = { state rank with signals := signals } := by
  cases op with
  | cntrAdd _ _ => exact ⟨(state rank).signals, rfl⟩
  | write write =>
      simp only [land]
      by_cases target : rank = write.peer
      · rw [target, Function.update_self]
        unfold receive
        split_ifs
        · exact ⟨_, rfl⟩
        · exact ⟨(state write.peer).signals, rfl⟩
      · rw [Function.update_of_ne target]
        exact ⟨(state rank).signals, rfl⟩

theorem step_queued_once (config : Config size) (before after : State size) (action : Action size)
    (inv : Inv config before) (once : ∀ rank, QueuedOnce (before rank)) (taken : step config before action = some after)
    (rank : Fin size) : QueuedOnce (after rank) := by
  cases action with
  | move self move =>
      simp only [step, Option.map_eq_some_iff] at taken
      obtain ⟨next, taken, rfl⟩ := taken
      by_cases own : rank = self
      · rw [own, Function.update_self]
        exact move_queued_once config self (before self) next move (inv.host self) (once self) taken
      · rw [Function.update_of_ne own]
        exact once rank
  | execute self index =>
      simp only [step, Option.map_eq_some_iff, Prod.exists] at taken
      obtain ⟨work, nic, taken, rfl⟩ := taken
      have fired := fire_fired _ nic index work taken
      obtain ⟨signals, landed⟩ := land_keeps config (Function.update before self { before self with
        nic := nic, executed := (work.triggering, work.threshold) :: (before self).executed })
        work.op (before self).signalValues rank
      rw [landed]
      by_cases own : rank = self
      · rw [own, Function.update_self]
        exact fired_queued_once (before self) nic work fired (once self)
      · rw [Function.update_of_ne own]
        exact once rank

theorem reachable_history (config : Config size) (state : State size)
    (reached : Reach (step config) Phased (initial size) state) :
    Inv config state ∧ ∀ rank, QueuedOnce (state rank) := by
  refine reach_invariant (step config) Phased (fun state => Inv config state ∧ ∀ rank, QueuedOnce (state rank))
    (initial size) state ⟨initial_inv config, fun rank k threshold => ?_⟩ ?_ reached
  · have none : ¬ (k < nRounds size ∧ 1 ≤ threshold ∧ threshold ≤ (initial size rank).readyCounter) :=
      fun ⟨_, least, most⟩ => absurd (Nat.le_trans least most) (Nat.not_succ_le_zero 0)
    rw [if_neg none]
    rfl
  · intro before after action ⟨inv, once⟩ phased taken
    exact ⟨step_inv config before after action inv (orderly_of_phased before action phased) taken,
      step_queued_once config before after action inv once taken⟩

theorem sets_up_level (rank : Rank size) (move : Move) (phase : Phase rank) (setsUp : SetsUp rank move) :
    rank.readyCounter = rank.barrierCount ∧ (∀ expected, rank.app ≠ .draining expected) ∧
      ∀ expected, rank.monitor ≠ .draining expected := by
  cases move with
  | single =>
      obtain ⟨idle, top⟩ := setsUp
      simp only [Phase, idle] at phase
      exact ⟨phase.2.1.1, by simp [idle], by simp [top]⟩
  | app =>
      obtain ⟨numBarriers, app⟩ := setsUp
      simp only [Phase, app] at phase
      obtain ⟨_, _, level, _, _, _, turn⟩ := phase
      refine ⟨level.1, by simp [app], ?_⟩
      rcases turn with top | checked
      · simp [top]
      · simp [checked]
  | monitor =>
      obtain ⟨app, level⟩ := monitor_queueing rank phase setsUp
      exact ⟨level, by simp [app], by simp [show rank.monitor = .queueing from setsUp]⟩
  | startContinuous numBarriers => exact absurd setsUp id
  | gpu => exact absurd setsUp id

theorem accounted_of_inv (config : Config size) (self : Fin size) (rank : Rank size) (host : HostInv rank)
    (queue : QueueInv config self rank) (once : QueuedOnce rank) : Accounted rank where
  counters := by
    intro idle _
    have phase := host.phase
    simp only [Phase, idle] at phase
    obtain ⟨_, ⟨ready, left⟩, _⟩ := phase
    exact ⟨ready.trans left.symm, host.done, left.symm⟩
  queuedOnce := once
  completed := by
    intro move setsUp
    obtain ⟨level, app, monitor⟩ := sets_up_level rank move host.phase setsUp
    have empty := queue.settled level app (monitor rank.readyCounter)
    refine ⟨empty, fun k bound => ?_⟩
    have total := queue.completions k bound
    rwa [empty, List.countP_nil, Nat.add_zero] at total

def Going (_ : Rank size) (move : Move) : Prop := move = .app ∨ move = .gpu

theorem reach_lift (config : Config size) (state : State size) (self : Fin size) (before after : Rank size)
    (reached : Reach (rankStep config self) Going before after) :
    Reach (step config) Phased (Function.update state self before) (Function.update state self after) := by
  induction reached with
  | start => exact .start
  | step middle after move _ going taken ih =>
      refine .step _ _ (.move self move) ih ?_ ?_
      · rcases going with rfl | rfl
        · exact ⟨trivial, trivial⟩
        · exact ⟨trivial, trivial⟩
      · simp [step, taken]

theorem kernel_ends (config : Config size) (self : Fin size) (rank : Rank size) (gpu : GpuInv rank)
    (finished : rank.remaining = 0) : ∃ expected, Reach (rankStep config self) Going rank
      { rank with expectedSignal := expected, gpu := none } := by
  have leave : ∀ (rank : Rank size) (continuous : Bool) (wanted : Nat),
      rank.gpu = some ⟨continuous, 0, wanted, .loop⟩ →
      Reach (rankStep config self) Going rank { rank with gpu := none } :=
    fun rank continuous wanted running =>
      .step rank _ .gpu .start (.inr rfl) (by simp [rankStep, running, kernelStep])
  cases running : rank.gpu with
  | none =>
      refine ⟨rank.expectedSignal, ?_⟩
      rw [← running]
      exact .start
  | some kernel =>
      obtain ⟨continuous, todo, wanted, pc⟩ := kernel
      simp only [GpuInv, running] at gpu
      obtain ⟨_, turn⟩ := gpu
      simp only [Rank.remaining, running, Kernel.remaining] at finished
      cases pc with
      | loop =>
          simp only at finished
          exact ⟨rank.expectedSignal, leave rank continuous wanted (finished ▸ running)⟩
      | advance =>
          simp only at finished
          refine ⟨if continuous then rank.expectedSignal + 1 else rank.expectedSignal, ?_⟩
          exact reach_head (rankStep config self) Going rank _ _ .gpu (.inr rfl)
            (by simp [rankStep, running, kernelStep, finished]; rfl) (leave _ continuous wanted rfl)
      | ready => exact absurd turn.2.2.2 (Nat.not_lt_of_le finished.le)
      | trigger k => exact absurd turn.1.2.2.2 (Nat.not_lt_of_le finished.le)
      | poll k => exact absurd turn.1.2.2.2 (Nat.not_lt_of_le finished.le)
      | notify => exact absurd turn.1.2.2.2 (Nat.not_lt_of_le finished.le)

theorem empty_run_ends (config : Config size) (self : Fin size) (rank : Rank size) (app : rank.app = .launching 0)
    (idle : rank.gpu = none) (target : rank.targetBarrierCount ≤ rank.barrierCount) :
    Reach (rankStep config self) Going rank
      { rank with gpu := some ⟨true, 0, 0, .loop⟩, continuousMode := false, app := .idle } := by
  have going : ∀ rank : Rank size, Going rank .app := fun _ => .inl rfl
  refine reach_head _ Going rank { rank with gpu := some ⟨true, 0, 0, .loop⟩, app := .waiting } _ .app (going _) ?_ ?_
  · simp [rankStep, appStep, app, launch, idle]
  · refine reach_head _ Going _ { rank with gpu := some ⟨true, 0, 0, .loop⟩, app := .stopping } _ .app (going _) ?_ ?_
    · simp [rankStep, appStep, Nat.not_lt_of_le target]
    · exact .step _ _ .app .start (going _) (by simp [rankStep, appStep])

theorem empty_run_sets_up (config : Config size) (self : Fin size) (rank : Rank size) (app : rank.app = .starting 0)
    (idle : rank.gpu = none) (target : rank.targetBarrierCount ≤ rank.barrierCount) :
    ∃ later, Reach (rankStep config self) Going rank later ∧ later.app = .idle ∧ later.monitor = rank.monitor ∧
      later.readyCounter = rank.readyCounter + 1 ∧ later.departed = rank.departed := by
  have going : ∀ rank : Rank size, Going rank .app := fun _ => .inl rfl
  let armed : Rank size :=
    { rank with expectedSignal := rank.barrierCount + 1, continuousMode := true, app := .armed 0 }
  have first : rankStep config self rank .app = some armed := by simp [rankStep, appStep, app, idle, armed]
  obtain ⟨next, set⟩ : ∃ next, setup config self armed = some next := by
    simp only [setup, armed, Bool.true_eq_false, false_and, if_false]
    split_ifs
    · exact ⟨_, rfl⟩
    · exact ⟨_, rfl⟩
  have second : rankStep config self armed .app = some { next with app := .launching 0 } := by
    change (setup config self armed).map _ = _
    rw [set]
    rfl
  obtain ⟨_, rfl⟩ := setup_result config self armed next set
  exact ⟨_, reach_head _ Going rank armed _ .app (going _) first (reach_head _ Going armed _ _ .app (going _) second
    (empty_run_ends config self _ rfl idle target)), rfl, rfl, rfl, rfl⟩

theorem empty_run_unaccounted (config : Config size) (before after : State size) (self : Fin size)
    (inv : Inv config before) (top : (before self).monitor = .top)
    (taken : step config before (.move self (.startContinuous 0)) = some after) :
    ∃ later, Reach (step config) Phased after later ∧ ¬ Accounted (later self) := by
  simp only [step, rankStep, Option.map_eq_some_iff] at taken
  obtain ⟨next, taken, rfl⟩ := taken
  split_ifs at taken with idle
  cases taken
  have phase := (inv.host self).phase
  simp only [Phase, idle] at phase
  obtain ⟨_, ⟨level, left⟩, finished, _⟩ := phase
  let started : Rank size :=
    { before self with targetBarrierCount := (before self).barrierCount + 0, app := .starting 0 }
  obtain ⟨expected, drained⟩ := kernel_ends config self started (inv.host self).gpu finished
  obtain ⟨later, ended, app, monitor, ready, departed⟩ := empty_run_sets_up config self
    { started with expectedSignal := expected, gpu := none } rfl rfl (Nat.le_refl _)
  refine ⟨_, reach_lift config before self started later (reach_trans _ Going _ _ _ drained ended), fun accounted => ?_⟩
  rw [Function.update_self] at accounted
  have same := (accounted.counters app (monitor.trans top)).1
  rw [ready, departed] at same
  simp only [started] at same
  omega

-- Where every continuous run is of at least one barrier the counters, the puts and the buffers
-- are in step; a run of none puts them out of step.
theorem accounted_iff_nonempty (config : Config size) :
    (∀ state, Reach (step config) Phased (initial size) state → ∀ rank, Accounted (state rank)) ∧
    ∀ before after action, Reach (step config) Phased (initial size) before → Sequential before action →
      step config before action = some after →
      ((∀ later, Reach (step config) Phased after later → ∀ rank, Accounted (later rank)) ↔ NonEmpty action) := by
  have accounted : ∀ state, Reach (step config) Phased (initial size) state → ∀ rank, Accounted (state rank) := by
    intro state reached rank
    obtain ⟨inv, once⟩ := reachable_history config state reached
    exact accounted_of_inv config rank (state rank) (inv.host rank) (inv.queue rank) (once rank)
  refine ⟨accounted, fun before after action reached sequential taken => ⟨fun holds => ?_, fun nonempty later more => ?_⟩⟩
  · obtain ⟨inv, _⟩ := reachable_history config before reached
    unfold NonEmpty
    split
    · rename_i self numBarriers
      by_contra few
      obtain rfl : numBarriers = 0 := Nat.lt_one_iff.mp (Nat.lt_of_not_le few)
      obtain ⟨later, more, unaccounted⟩ := empty_run_unaccounted config before after self inv sequential taken
      exact unaccounted (holds later more self)
    · trivial
  · have first := Reach.step before after action reached ⟨sequential, nonempty⟩ taken
    exact accounted later (reach_trans (step config) Phased (initial size) after later first more)

instance (state : State size) (action : Action size) : Decidable (Sequential state action) :=
  match action with
  | .move self .single => inferInstanceAs (Decidable ((state self).monitor = .top))
  | .move self (.startContinuous _) => inferInstanceAs (Decidable ((state self).monitor = .top))
  | .move _ .app => isTrue trivial
  | .move _ .monitor => isTrue trivial
  | .move _ .gpu => isTrue trivial
  | .execute _ _ => isTrue trivial

def emptyRun : List (Action 2) :=
  moves 0 (.startContinuous 0) 1 ++ moves 0 .app 5 ++ moves 0 .gpu 1 ++ moves 0 .single 1

theorem empty_run_doubles_put : ¬ ∀ (size : Nat) (config : Config size) (state : State size),
    Reach (step config) Sequential (initial size) state → ∀ rank, Accounted (state rank) := by
  intro holds
  obtain ⟨state, reached, twice⟩ := reach_of_decided (step (sampleConfig 2)) Sequential emptyRun (initial 2)
    (fun state => (queuedPuts (state 0)).count (.trigger 0, 1) = 2) (by decide +kernel)
  have once := (holds 2 (sampleConfig 2) state reached 0).queuedOnce 0 1
  rw [twice] at once
  split_ifs at once
  cases once

end OpenGda.GpuBarrier
