import OpenGda.Ofi.GpuBarrierPhase

set_option autoImplicit false

-- The deferred puts of one rank: which are queued, what they will read, and
-- what the counters say about them.
namespace OpenGda.GpuBarrier

open Dissemination Machine DeferredWork

variable {size : Nat}

def Kernel.passedRounds (size : Nat) (kernel : Kernel) : Nat :=
  match kernel.pc with
  | .ready => 0
  | .trigger k => k
  | .poll k => k
  | _ => nRounds size

def Kernel.sentRounds (size : Nat) (kernel : Kernel) : Nat :=
  match kernel.pc with
  | .ready => 0
  | .trigger k => k
  | .poll k => k + 1
  | _ => nRounds size

def Rank.passedRounds (rank : Rank size) : Nat := (rank.gpu.map (Kernel.passedRounds size)).getD (nRounds size)
def Rank.sentRounds (rank : Rank size) : Nat := (rank.gpu.map (Kernel.sentRounds size)).getD (nRounds size)

def Lagging (app : App) : Prop :=
  match app with
  | .queued => True
  | .running => True
  | .synced => True
  | .draining _ => True
  | _ => False

structure QueueInv (config : Config size) (place : Fin size) (rank : Rank size) : Prop where
  work : ∀ work ∈ rank.nic.pending, ∃ k threshold, k < nRounds size ∧ 1 ≤ threshold ∧
    work = rmaWork config place ((threshold - 1) % nSignalBuffers) threshold k ∧
    (threshold = rank.readyCounter ∨ (threshold + 1 = rank.readyCounter ∧ Lagging rank.app))
  settled : rank.readyCounter = rank.barrierCount → (∀ expected, rank.app ≠ .draining expected) →
    rank.monitor ≠ .draining rank.readyCounter → rank.nic.pending = []
  values : 0 < nRounds size → ∀ threshold, 1 ≤ threshold → threshold ≤ rank.readyCounter →
    rank.readyCounter ≤ threshold + 1 → rank.signalValues ((threshold - 1) % nSignalBuffers) = threshold
  completions : ∀ k < nRounds size, rank.nic.counters (.completion k) +
    rank.nic.pending.countP (fun work => work.triggering = .trigger k) = rank.readyCounter
  triggers : ∀ k < nRounds size, rank.nic.counters (.trigger k) =
    if k < rank.sentRounds then rank.entered.length else rank.entered.length - 1
  executedBound : ∀ k threshold, (.trigger k, threshold) ∈ rank.executed →
    k < nRounds size ∧ 1 ≤ threshold ∧ threshold ≤ rank.readyCounter ∧ threshold ≤ rank.nic.counters (.trigger k)
  executedAll : ∀ k threshold, k < nRounds size → 1 ≤ threshold → threshold ≤ rank.readyCounter →
    (∃ work ∈ rank.nic.pending, work.triggering = .trigger k ∧ work.threshold = threshold) ∨
      (.trigger k, threshold) ∈ rank.executed

theorem initial_queue (config : Config size) (self : Fin size) : QueueInv config self (initialRank size) where
  work := by simp [initialRank]
  settled := fun _ _ _ => rfl
  values := fun _ threshold positive bound _ => absurd bound (by simp [initialRank]; omega)
  completions := by simp [initialRank]
  triggers := by simp [initialRank]
  executedBound := by simp [initialRank]
  executedAll := fun k threshold _ positive bound => absurd bound (by simp [initialRank]; omega)

theorem queue_rounds_result (config : Config size) (self : Fin size) (nic : Nic Cntr (RmaWrite size))
    (buffer threshold : Nat) :
    queueRounds config self nic buffer threshold =
      ⟨nic.counters, nic.pending ++ (List.range (nRounds size)).map (rmaWork config self buffer threshold)⟩ := by
  unfold queueRounds
  generalize List.range (nRounds size) = rounds
  induction rounds generalizing nic with
  | nil => simp
  | cons k rounds ih =>
      rw [List.foldl_cons, ih]
      simp [queueWork]

theorem round_queued_once (config : Config size) (self : Fin size) (buffer threshold k : Nat)
    (bound : k < nRounds size) :
    ((List.range (nRounds size)).map (rmaWork config self buffer threshold)).countP
      (fun work => work.triggering = .trigger k) = 1 := by
  rw [List.countP_map]
  have same : ((fun work : Work Cntr (RmaWrite size) => decide (work.triggering = .trigger k)) ∘
      rmaWork config self buffer threshold) = fun j => j == k := by
    funext j
    rw [Bool.eq_iff_iff]
    simp [rmaWork]
  rw [same]
  exact List.count_eq_one_of_mem List.nodup_range (List.mem_range.mpr bound)

theorem drained_empty (config : Config size) (self : Fin size) (rank : Rank size) (inv : QueueInv config self rank)
    (expected : Nat) (reached : rank.readyCounter ≤ expected) (drained : Drained rank expected) :
    rank.nic.pending = [] := by
  apply List.eq_nil_iff_forall_not_mem.mpr
  intro work member
  obtain ⟨k, threshold, bound, _, form, _⟩ := inv.work work member
  have total := inv.completions k bound
  have count := drained k bound
  have counted : 0 < rank.nic.pending.countP (fun work => work.triggering = .trigger k) :=
    List.countP_pos_iff.mpr ⟨work, member, by simp [form, rmaWork]⟩
  omega

theorem queue_frame (config : Config size) (self : Fin size) (before after : Rank size)
    (inv : QueueInv config self before) (nic : after.nic = before.nic) (ready : after.readyCounter = before.readyCounter)
    (values : after.signalValues = before.signalValues) (executed : after.executed = before.executed)
    (entered : after.entered = before.entered) (sent : after.sentRounds = before.sentRounds)
    (lag : before.nic.pending = [] ∨ (Lagging before.app → Lagging after.app))
    (settled : before.readyCounter = after.barrierCount → (∀ expected, after.app ≠ .draining expected) →
      after.monitor ≠ .draining before.readyCounter → before.nic.pending = []) :
    QueueInv config self after where
  work := by
    intro work member
    rw [nic] at member
    obtain ⟨k, threshold, bound, positive, form, recent⟩ := inv.work work member
    refine ⟨k, threshold, bound, positive, form, ?_⟩
    rw [ready]
    rcases recent with latest | ⟨previous, lagging⟩
    · exact Or.inl latest
    · rcases lag with empty | keeps
      · simp [empty] at member
      · exact Or.inr ⟨previous, keeps lagging⟩
  settled := by
    rw [nic, ready]
    exact settled
  values := by
    rw [values, ready]
    exact inv.values
  completions := by
    rw [nic, ready]
    exact inv.completions
  triggers := by
    rw [nic, sent, entered]
    exact inv.triggers
  executedBound := by
    rw [executed, nic, ready]
    exact inv.executedBound
  executedAll := by
    rw [executed, nic, ready]
    exact inv.executedAll

theorem queue_setup (config : Config size) (self : Fin size) (before after : Rank size)
    (inv : QueueInv config self before) (level : before.readyCounter = before.barrierCount)
    (ready : after.readyCounter = before.readyCounter + 1)
    (nic : after.nic = queueRounds config self before.nic (before.barrierCount % nSignalBuffers)
      (before.barrierCount + 1))
    (values : after.signalValues = if nRounds size = 0 then before.signalValues
      else Function.update before.signalValues (before.barrierCount % nSignalBuffers) (before.barrierCount + 1))
    (count : after.barrierCount = before.barrierCount) (executed : after.executed = before.executed)
    (entered : after.entered = before.entered) (sent : after.sentRounds = before.sentRounds)
    (lag : before.nic.pending = [] ∨ (¬ Lagging before.app ∧ Lagging after.app)) : QueueInv config self after := by
  rw [queue_rounds_result] at nic
  refine ⟨?_, ?_, ?_, ?_, ?_, ?_, ?_⟩
  · intro work member
    rw [nic, List.mem_append, List.mem_map] at member
    rcases member with old | ⟨k, within, rfl⟩
    · obtain ⟨k, threshold, bound, positive, form, recent⟩ := inv.work work old
      refine ⟨k, threshold, bound, positive, form, Or.inr ?_⟩
      rcases lag with empty | ⟨wasLevel, lagging⟩
      · simp [empty] at old
      · rcases recent with latest | ⟨_, lagged⟩
        · exact ⟨by omega, lagging⟩
        · exact absurd lagged wasLevel
    · exact ⟨k, before.barrierCount + 1, List.mem_range.mp within, by omega, rfl, Or.inl (by omega)⟩
  · intro same
    omega
  · intro several threshold positive bound recent
    rw [values, if_neg (by omega)]
    by_cases latest : threshold = before.barrierCount + 1
    · subst latest
      exact Function.update_self _ _ _
    · rw [Function.update_of_ne (by simp only [nSignalBuffers]; omega)]
      exact inv.values several threshold positive (by omega) (by omega)
  · intro k bound
    have total := inv.completions k bound
    have once := round_queued_once config self (before.barrierCount % nSignalBuffers) (before.barrierCount + 1) k bound
    rw [nic, ready]
    simp only [List.countP_append, once]
    omega
  · intro k bound
    rw [nic, sent, entered]
    exact inv.triggers k bound
  · intro k threshold member
    rw [executed] at member
    obtain ⟨bound, positive, below, triggered⟩ := inv.executedBound k threshold member
    exact ⟨bound, positive, by omega, by rw [nic]; exact triggered⟩
  · intro k threshold bound positive below
    rw [nic, executed]
    by_cases latest : threshold = before.barrierCount + 1
    · refine Or.inl ⟨_, List.mem_append_right _ (List.mem_map.mpr ⟨k, List.mem_range.mpr bound, rfl⟩), rfl, latest.symm⟩
    · rcases inv.executedAll k threshold bound positive (by omega) with ⟨work, member, found⟩ | already
      · exact Or.inl ⟨work, List.mem_append_left _ member, found⟩
      · exact Or.inr already

theorem app_queue (config : Config size) (self : Fin size) (before after : Rank size)
    (inv : QueueInv config self before) (host : HostInv before)
    (taken : appStep config self before = some after) : QueueInv config self after := by
  have phase := host.phase
  cases app_moves config self before after taken with
  | launch app off =>
      simp only [Phase, app, Outstanding] at phase
      refine queue_frame config self before _ inv rfl rfl rfl rfl rfl ?_ (Or.inr fun _ => trivial) (fun level => ?_)
      · simp [Rank.sentRounds, Kernel.sentRounds, off]
      · simp only at level
        omega
  | synchronise app off =>
      simp only [Phase, app, Outstanding] at phase
      refine queue_frame config self before _ inv rfl rfl rfl rfl rfl rfl (Or.inr fun _ => trivial) (fun level => ?_)
      simp only at level
      omega
  | count app =>
      exact queue_frame config self before _ inv rfl rfl rfl rfl rfl rfl (Or.inr fun _ => trivial)
        (fun _ open_ => absurd rfl (open_ (before.barrierCount + 1)))
  | drain expected app drained =>
      simp only [Phase, app, Level] at phase
      have empty := drained_empty config self before inv expected (by omega) drained
      exact queue_frame config self before _ inv rfl rfl rfl rfl rfl rfl (Or.inl empty) (fun _ _ _ => empty)
  | seed numBarriers app off =>
      exact queue_frame config self before _ inv rfl rfl rfl rfl rfl rfl
        (Or.inr fun lagging => by simp [app, Lagging] at lagging)
        (fun level _ monitor => inv.settled level (by simp [app]) monitor)
  | queue numBarriers next app queued =>
      obtain ⟨mode, rfl⟩ := setup_result config self before next queued
      simp only [Phase, app, Level] at phase
      have empty : before.nic.pending = [] := by
        apply inv.settled phase.2.2.1.1 (by simp [app])
        rcases phase.2.2.2.2.2.2 with top | checked
        · simp [top]
        · simp [checked]
      exact queue_setup config self before _ inv phase.2.2.1.1 rfl rfl rfl rfl rfl rfl rfl (Or.inl empty)
  | launchRun numBarriers app off =>
      simp only [Phase, app, Outstanding] at phase
      refine queue_frame config self before _ inv rfl rfl rfl rfl rfl ?_
        (Or.inr fun lagging => by simp [app, Lagging] at lagging) (fun level => ?_)
      · simp [Rank.sentRounds, Kernel.sentRounds, off]
      · simp only at level
        omega
  | wait app _ | stop app =>
      exact queue_frame config self before _ inv rfl rfl rfl rfl rfl rfl
        (Or.inr fun lagging => by simp [app, Lagging] at lagging)
        (fun level _ monitor => inv.settled level (by simp [app]) monitor)

theorem monitor_counting (rank : Rank size) (phase : Phase rank) (counting : rank.monitor = .counting) :
    rank.readyCounter = rank.barrierCount + 1 := by
  unfold Phase at phase
  cases app : rank.app <;> simp [app, Winding, Waiting, Outstanding, counting] at phase
  exact phase.2.2.2.1.1

theorem monitor_queueing (rank : Rank size) (phase : Phase rank) (queueing : rank.monitor = .queueing) :
    rank.app = .waiting ∧ rank.readyCounter = rank.barrierCount := by
  unfold Phase at phase
  cases app : rank.app <;> simp [app, Winding, Waiting, Level, queueing] at phase
  exact ⟨rfl, phase.2.2.2.1⟩

theorem monitor_queue (config : Config size) (self : Fin size) (before after : Rank size)
    (inv : QueueInv config self before) (host : HostInv before)
    (taken : monitorStep config self before = some after) : QueueInv config self after := by
  have turn : ∀ mode monitor, (∀ expected, before.monitor = .draining expected → Drained before expected) →
      QueueInv config self { before with continuousMode := mode, monitor := monitor } := by
    intro mode monitor drained
    refine queue_frame config self before _ inv rfl rfl rfl rfl rfl rfl (Or.inr id) (fun level app _ => ?_)
    by_cases newest : before.monitor = .draining before.readyCounter
    · exact drained_empty config self before inv _ (Nat.le_refl _) (drained _ newest)
    · exact inv.settled level app newest
  cases monitor_moves config self before after taken with
  | rest monitor _ => exact inv
  | look monitor _ => exact turn before.continuousMode .checked (by simp [monitor])
  | find monitor _ => exact turn before.continuousMode .counting (by simp [monitor])
  | miss monitor _ => exact turn before.continuousMode .top (by simp [monitor])
  | count monitor =>
      have outstanding := monitor_counting before host.phase monitor
      exact queue_frame config self before _ inv rfl rfl rfl rfl rfl rfl (Or.inr id)
        (fun _ _ newest => absurd (by rw [outstanding]) newest)
  | drain expected monitor drained =>
      apply turn before.continuousMode .deciding
      intro other same
      rw [monitor, Monitor.draining.injEq] at same
      exact same ▸ drained
  | goOn monitor _ => exact turn before.continuousMode .queueing (by simp [monitor])
  | finish monitor _ => exact turn before.continuousMode .closing (by simp [monitor])
  | queue next monitor queued =>
      obtain ⟨_, rfl⟩ := setup_result config self before next queued
      obtain ⟨app, level⟩ := monitor_queueing before host.phase monitor
      have empty := inv.settled level (by simp [app]) (by simp [monitor])
      exact queue_setup config self before _ inv level rfl rfl rfl rfl rfl rfl rfl (Or.inl empty)
  | close monitor => exact turn false .top (by simp [monitor])

theorem queue_kernel (config : Config size) (self : Fin size) (before after : Rank size)
    (inv : QueueInv config self before) (pending : after.nic.pending = before.nic.pending)
    (completions : ∀ k, after.nic.counters (.completion k) = before.nic.counters (.completion k))
    (grow : ∀ k < nRounds size, before.nic.counters (.trigger k) ≤ after.nic.counters (.trigger k))
    (ready : after.readyCounter = before.readyCounter) (values : after.signalValues = before.signalValues)
    (count : after.barrierCount = before.barrierCount) (app : after.app = before.app)
    (monitor : after.monitor = before.monitor) (executed : after.executed = before.executed)
    (triggers : ∀ k < nRounds size, after.nic.counters (.trigger k) =
      if k < after.sentRounds then after.entered.length else after.entered.length - 1) :
    QueueInv config self after where
  work := by
    rw [pending, ready, app]
    exact inv.work
  settled := by
    rw [pending, ready, app, count, monitor]
    exact inv.settled
  values := by
    rw [values, ready]
    exact inv.values
  completions := by
    intro k bound
    rw [pending, completions, ready]
    exact inv.completions k bound
  triggers := triggers
  executedBound := by
    intro k threshold member
    rw [executed] at member
    obtain ⟨bound, positive, below, triggered⟩ := inv.executedBound k threshold member
    exact ⟨bound, positive, by omega, Nat.le_trans triggered (grow k bound)⟩
  executedAll := by
    rw [executed, pending, ready]
    exact inv.executedAll

theorem kernel_queue (config : Config size) (self : Fin size) (before after : Rank size) (kernel : Kernel)
    (inv : QueueInv config self before) (host : HostInv before) (gpu : before.gpu = some kernel)
    (taken : kernelStep before kernel = some after) : QueueInv config self after := by
  have single := host.gpu
  simp only [GpuInv, gpu] at single
  obtain ⟨_, turn⟩ := single
  have triggers := inv.triggers
  simp only [Rank.sentRounds, gpu, Option.map_some, Option.getD_some, Kernel.sentRounds] at triggers
  have still : ∀ after : Rank size, after.nic = before.nic → after.readyCounter = before.readyCounter →
      after.signalValues = before.signalValues → after.barrierCount = before.barrierCount → after.app = before.app →
      after.monitor = before.monitor → after.executed = before.executed →
      (∀ k < nRounds size, before.nic.counters (.trigger k) =
        if k < after.sentRounds then after.entered.length else after.entered.length - 1) →
      QueueInv config self after := by
    intro after nic ready values count app monitor executed counters
    exact queue_kernel config self before after inv (by rw [nic]) (by simp [nic]) (by simp [nic]) ready values count
      app monitor executed (by rw [nic]; exact counters)
  cases kernel_moves before after kernel taken with
  | leave pc _ =>
      simp only [pc] at triggers
      exact still _ rfl rfl rfl rfl rfl rfl rfl triggers
  | enter pc _ =>
      simp only [pc] at triggers
      refine still _ rfl rfl rfl rfl rfl rfl rfl ?_
      intro k bound
      rw [triggers k bound, if_pos bound]
      simp [Rank.sentRounds, Kernel.sentRounds]
  | begin pc _ =>
      simp only [pc] at triggers
      refine still _ rfl rfl rfl rfl rfl rfl rfl ?_
      intro k bound
      rw [triggers k bound]
      simp [Rank.sentRounds, Kernel.sentRounds, roundHead, Nat.zero_lt_of_lt bound]
  | trigger k pc =>
      simp only [pc] at triggers
      simp only [KernelInv, Inside, pc] at turn
      refine queue_kernel config self before _ inv rfl (fun j => ?_) (fun j bound => ?_) rfl rfl rfl rfl rfl rfl
        (fun j bound => ?_)
      · simp [setCounter]
      · by_cases same : j = k
        · subst j
          simp only [setCounter, Function.update_self, triggers k bound, Nat.lt_irrefl, if_false]
          omega
        · simp [setCounter, same]
      · have sent : ∀ rank : Rank size, rank.gpu = some { kernel with pc := .poll k } → rank.sentRounds = k + 1 := by
          intro rank now
          simp [Rank.sentRounds, Kernel.sentRounds, now]
        rw [sent _ rfl]
        by_cases same : j = k
        · subst j
          simp only [setCounter, Function.update_self]
          rw [if_pos (by omega)]
          exact turn.1.2.1
        · have unchanged := triggers j bound
          simp only [setCounter, Function.update_of_ne (show Cntr.trigger j ≠ Cntr.trigger k by simpa using same)]
          by_cases earlier : j < k
          · rw [if_pos (by omega), unchanged, if_pos earlier]
          · rw [if_neg (by omega), unchanged, if_neg earlier]
  | see k pc _ =>
      simp only [pc] at triggers
      simp only [KernelInv, pc] at turn
      refine still _ rfl rfl rfl rfl rfl rfl rfl ?_
      intro j bound
      rw [triggers j bound]
      by_cases more : k + 1 < nRounds size
      · simp [Rank.sentRounds, Kernel.sentRounds, roundHead, more]
      · have last : nRounds size = k + 1 := by omega
        simp [Rank.sentRounds, Kernel.sentRounds, roundHead, last]
  | notify pc | advance pc =>
      simp only [pc] at triggers
      exact still _ rfl rfl rfl rfl rfl rfl rfl triggers

theorem move_queue (config : Config size) (self : Fin size) (before after : Rank size) (move : Move)
    (inv : QueueInv config self before) (host : HostInv before)
    (taken : rankStep config self before move = some after) : QueueInv config self after := by
  cases move with
  | app => exact app_queue config self before after inv host taken
  | monitor => exact monitor_queue config self before after inv host taken
  | gpu =>
      simp only [rankStep, Option.bind_eq_some_iff] at taken
      obtain ⟨kernel, gpu, taken⟩ := taken
      exact kernel_queue config self before after kernel inv host gpu taken
  | single =>
      by_cases idle : before.app = .idle
      · simp only [rankStep, idle, if_true, Option.map_eq_some_iff] at taken
        obtain ⟨next, taken, rfl⟩ := taken
        obtain ⟨_, rfl⟩ := setup_result config self before next taken
        have phase := host.phase
        simp only [Phase, idle] at phase
        exact queue_setup config self before _ inv phase.2.1.1 rfl rfl rfl rfl rfl rfl rfl
          (Or.inr ⟨by simp [idle, Lagging], trivial⟩)
      · simp [rankStep, idle] at taken
  | startContinuous numBarriers =>
      by_cases idle : before.app = .idle
      · simp only [rankStep, idle, if_true, Option.some.injEq] at taken
        subst after
        exact queue_frame config self before _ inv rfl rfl rfl rfl rfl rfl
          (Or.inr fun lagging => by simp [idle, Lagging] at lagging)
          (fun level _ monitor => inv.settled level (by simp [idle]) monitor)
      · simp [rankStep, idle] at taken

theorem rma_work_credit (config : Config size) (self : Fin size) (buffer threshold k j : Nat) :
    credit (.trigger j) (rmaWork config self buffer threshold k) = 0 ∧
      credit (.completion j) (rmaWork config self buffer threshold k) = if k = j then 1 else 0 := by
  simp [credit, rmaWork]

theorem fire_queue (config : Config size) (self : Fin size) (before : Rank size) (nic : Nic Cntr (RmaWrite size))
    (work : Work Cntr (RmaWrite size)) (inv : QueueInv config self before) (fired : Fired before.nic nic work) :
    ∃ k threshold, k < nRounds size ∧ 1 ≤ threshold ∧
      work = rmaWork config self ((threshold - 1) % nSignalBuffers) threshold k ∧
      threshold ≤ before.readyCounter ∧ before.readyCounter ≤ threshold + 1 ∧
      QueueInv config self { before with
        nic := nic
        executed := (work.triggering, work.threshold) :: before.executed } := by
  obtain ⟨member, rest⟩ := fired_pending before.nic nic work fired
  obtain ⟨k, threshold, bound, positive, form, recent⟩ := inv.work work member
  have below : threshold ≤ before.readyCounter := by omega
  have credits := rma_work_credit config self ((threshold - 1) % nSignalBuffers) threshold k
  have triggerSame : ∀ j, nic.counters (.trigger j) = before.nic.counters (.trigger j) := by
    intro j
    rw [fired.counters, form, (credits j).1, Nat.add_zero]
  refine ⟨k, threshold, bound, positive, form, below, by omega, ?_, ?_, ?_, ?_, ?_, ?_, ?_⟩
  · exact fun other present => inv.work other (rest other present)
  · intro level app monitor
    have empty := inv.settled level app monitor
    simp [empty] at member
  · exact inv.values
  · intro j within
    have total := inv.completions j within
    have count := fired_count before.nic nic work fired (fun work => work.triggering = .trigger j)
    have gain := fired.counters (.completion j)
    rw [form, (credits j).2] at gain
    simp only [form, rmaWork, Cntr.trigger.injEq, decide_eq_true_eq] at count
    change nic.counters (.completion j) + nic.pending.countP _ = before.readyCounter
    omega
  · intro j within
    change nic.counters (.trigger j) = _
    rw [triggerSame]
    exact inv.triggers j within
  · intro j other present
    change _ ∧ _ ∧ _ ∧ other ≤ nic.counters (.trigger j)
    rw [triggerSame]
    rcases List.mem_cons.mp present with now | earlier
    · obtain ⟨same, value⟩ : j = k ∧ other = threshold := by simpa [form, rmaWork] using now
      subst same value
      have ready := fired.ready
      simp only [Ready, form, rmaWork] at ready
      exact ⟨bound, positive, below, ready⟩
    · exact inv.executedBound j other earlier
  · intro j other within least most
    rcases inv.executedAll j other within least most with ⟨queued, present, found⟩ | already
    · rcases List.mem_cons.mp ((fired.perm.mem_iff (a := queued)).mp present) with now | still
      · subst queued
        exact Or.inr (by simp [found.1, found.2])
      · exact Or.inl ⟨queued, still, found⟩
    · exact Or.inr (List.mem_cons_of_mem _ already)

end OpenGda.GpuBarrier
