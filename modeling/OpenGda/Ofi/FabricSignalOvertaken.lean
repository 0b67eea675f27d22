import OpenGda.Ofi.FabricSignalHonest

set_option autoImplicit false

-- A signaled write overtaken by a later put, and when that cannot happen.
namespace OpenGda.FabricSignal

open DeferredWork Machine OpenGda.Ofi OpenGda.Dwq

theorem host_queues (fabric : Fabric) (calls front rest : List Call) (batch : Batch)
    (planned : Planned fabric calls batch) (todo : batch.todo = front ++ rest)
    (known : ∀ call ∈ front, call.known fabric = true) :
    ∃ after, Reach batchStep inRange batch after ∧ after.made = batch.made ++ front ∧
      after.fabric.finished = batch.fabric.finished := by
  induction front generalizing batch with
  | nil => exact ⟨batch, .start, by simp, rfl⟩
  | cons call front ih =>
      have accepted : call.known batch.fabric = true := by
        rw [Call.known, call_write_same fabric batch.fabric planned.settings call]
        exact known call (by simp)
      obtain ⟨threshold, next, taken⟩ := queue_call_known batch.fabric call accepted
      have stepped : batchStep batch .host = some ⟨next, batch.made ++ [call], front ++ rest⟩ := by
        simp [batchStep, todo, taken]
      obtain ⟨after, reached, made, same⟩ := ih ⟨next, batch.made ++ [call], front ++ rest⟩
        (step_planned fabric calls batch _ .host planned stepped) rfl
        fun other member => known other (List.mem_cons_of_mem call member)
      refine ⟨after, reach_head batchStep inRange batch _ after .host trivial stepped reached, by simpa using made, ?_⟩
      exact same.trans (queue_call_queued batch.fabric next call threshold taken).2.finished

theorem kernel_stores (launched : List Nat) (batch : Batch) (threshold : Nat)
    (stream : batch.fabric.launched = launched ++ [threshold]) :
    ∃ after, Reach batchStep inRange batch after ∧ after.made = batch.made ∧
      after.fabric.finished = batch.fabric.finished ∧ after.fabric.nic.pending = batch.fabric.nic.pending ∧
      after.fabric.nic.counters .trigger = threshold := by
  induction launched generalizing batch with
  | nil =>
      refine ⟨{ batch with fabric := { batch.fabric with
          nic := setCounter batch.fabric.nic .trigger threshold, launched := [] } },
        .step batch _ .triggerKernel .start trivial ?_, rfl, rfl, rfl, ?_⟩
      · simp [batchStep, triggerKernel, stream]
      · simp [setCounter]
  | cons first rest ih =>
      have stored : batchStep batch .triggerKernel = some { batch with fabric := { batch.fabric with
          nic := setCounter batch.fabric.nic .trigger first, launched := rest ++ [threshold] } } := by
        simp [batchStep, triggerKernel, stream]
      obtain ⟨after, reached, same⟩ := ih { batch with fabric := { batch.fabric with
          nic := setCounter batch.fabric.nic .trigger first, launched := rest ++ [threshold] } } rfl
      exact ⟨after, reach_head batchStep inRange batch _ after .triggerKernel trivial stored reached, same⟩

theorem host_triggers (batch : Batch) :
    ∃ after, Reach batchStep inRange batch after ∧ after.made = batch.made ∧
      after.fabric.finished = batch.fabric.finished ∧ after.fabric.nic.pending = batch.fabric.nic.pending ∧
      after.fabric.nic.counters .trigger = batch.fabric.currentThreshold := by
  obtain ⟨after, reached, same⟩ := kernel_stores batch.fabric.launched
    { batch with fabric := trigger batch.fabric batch.fabric.currentThreshold } batch.fabric.currentThreshold rfl
  exact ⟨after, reach_head batchStep inRange batch _ after (.trigger batch.fabric.currentThreshold)
    (Nat.le_refl batch.fabric.currentThreshold) rfl reached, same⟩

theorem reach_fires (batch : Batch) (nic : Nic Cntr SignalMessage)
    (reached : Reach fireStep always batch.fabric.nic nic) :
    ∃ after, Reach batchStep inRange batch after ∧ after.made = batch.made ∧ after.fabric.nic = nic := by
  induction reached with
  | start => exact ⟨batch, .start, rfl, rfl⟩
  | step before next index _ _ taken ih =>
      obtain ⟨middle, reached, made, same⟩ := ih
      simp only [fireStep, Option.map_eq_some_iff] at taken
      obtain ⟨⟨work, nic⟩, fired, rfl⟩ := taken
      refine ⟨{ middle with fabric := { middle.fabric with
          nic := nic
          atomicResult := middle.fabric.atomicResult + atomicGain .atomicResult work
          finished := middle.fabric.finished ++ [work] } }, .step middle _ (.fire index) reached trivial ?_, made, rfl⟩
      simp [batchStep, fireWork, same, fired]

theorem not_pairwise_split {α : Type} (related : α → α → Prop) (items : List α) (broken : ¬ items.Pairwise related) :
    ∃ front x middle y rest, items = front ++ x :: (middle ++ y :: rest) ∧ ¬ related x y := by
  induction items with
  | nil => exact absurd .nil broken
  | cons first rest ih =>
      by_cases later : rest.Pairwise related
      · have : ∃ y ∈ rest, ¬ related first y := by
          by_contra all
          push Not at all
          exact broken (List.pairwise_cons.mpr ⟨all, later⟩)
        obtain ⟨y, member, unrelated⟩ := this
        obtain ⟨middle, after, split⟩ := List.append_of_mem member
        exact ⟨[], first, middle, y, after, by rw [split]; rfl, unrelated⟩
      · obtain ⟨front, x, middle, y, after, split, unrelated⟩ := ih later
        exact ⟨first :: front, x, middle, y, after, by rw [split]; rfl, unrelated⟩

def heldBack (position : Nat) (work : SignalWork) : Bool := isWrite work && decide (work.threshold = position)

theorem held_back_once (fabric : Fabric) (front rest : List Call) (call : Call) :
    (planWorks fabric 0 (front ++ call :: rest)).countP (heldBack (front.length + 1)) ≤ 1 := by
  have before : (planWorks fabric 0 front).countP (heldBack (front.length + 1)) = 0 := by
    refine List.countP_eq_zero.mpr fun work member held => ?_
    simp only [heldBack, Bool.and_eq_true, decide_eq_true_eq] at held
    cases plan_works_planned fabric 0 front work member <;>
      simp only [rmaDwqWork, atomicWork, atomicDwqWork] at held <;> omega
  have after : (planWorks fabric (front.length + 1) rest).countP (heldBack (front.length + 1)) = 0 := by
    refine List.countP_eq_zero.mpr fun work member held => ?_
    simp only [heldBack, Bool.and_eq_true, decide_eq_true_eq] at held
    cases plan_works_planned fabric (front.length + 1) rest work member <;>
      simp only [rmaDwqWork, atomicWork, atomicDwqWork] at held <;> omega
  have own : (callWorks fabric (front.length + 1) call).countP (heldBack (front.length + 1)) ≤ 1 := by
    unfold callWorks
    split
    · simp
    · split <;> simp [heldBack, isWrite, rmaDwqWork, atomicWork, atomicDwqWork]
  rw [plan_works_append, planWorks, Nat.zero_add, List.countP_append, List.countP_append, before, after]
  omega

theorem last_put_atomics (fabric : Fabric) (front : List Call) (last : Call) (work : SignalWork)
    (plain : last.signaled = false) (member : work ∈ planWorks fabric 0 (front ++ [last]))
    (atomic : isAtomic work = true) : work.triggering = .completion ∧ work.threshold ≤ front.length := by
  rw [plan_works_append, List.mem_append] at member
  rcases member with earlier | own
  · cases plan_works_planned fabric 0 front work earlier with
    | write message signaled threshold after upto => simp [isAtomic, rmaDwqWork] at atomic
    | atomic threshold after upto => exact ⟨rfl, (Nat.zero_add front.length) ▸ upto⟩
  · simp only [planWorks, callWorks, plain, Bool.false_eq_true, if_false, List.append_nil] at own
    split at own
    · simp at own
    · cases List.mem_singleton.mp own
      simp [isAtomic, rmaDwqWork] at atomic

structure Released (batch : Batch) (calls : List Call) : Prop where
  made : batch.made = calls
  finished : batch.fabric.finished = []
  trigger : batch.fabric.nic.counters .trigger = calls.length

theorem host_releases (fabric : Fabric) (quiet : Quiescent fabric) (calls made rest : List Call)
    (split : calls = made ++ rest) (known : ∀ call ∈ made, call.known fabric = true) :
    ∃ batch, Reach batchStep inRange (startBatch fabric calls) batch ∧ Released batch made := by
  obtain ⟨queued, reached, madeEq, finished⟩ := host_queues fabric calls made rest (startBatch fabric calls)
    (start_planned fabric quiet calls) split known
  obtain ⟨batch, later, same, finishedSame, _, stored⟩ := host_triggers queued
  have planned := reach_planned fabric quiet calls queued reached
  have madeEq : queued.made = made := madeEq
  refine ⟨batch, reach_trans batchStep inRange _ queued batch reached later, same.trans madeEq,
    finishedSame.trans finished, ?_⟩
  rw [stored, planned.threshold, madeEq]

theorem run_selection (batch : Batch) (chosen : SignalWork → Bool)
    (ready : ∀ work ∈ batch.fabric.nic.pending, chosen work = true → Ready batch.fabric.nic work) :
    ∃ after, Reach batchStep inRange batch after ∧ after.made = batch.made ∧
      after.fabric.nic.pending = batch.fabric.nic.pending.filter (fun work => ! chosen work) := by
  obtain ⟨nic, fires, left, _⟩ := fire_selection chosen batch.fabric.nic ready
  obtain ⟨after, reached, made, same⟩ := reach_fires batch nic fires
  exact ⟨after, reached, made, by rw [same, left]⟩

def overtaking (position : Nat) (work : SignalWork) : Bool := isWrite work && ! heldBack position work

theorem writes_overtake (fabric : Fabric) (quiet : Quiescent fabric) (calls front rest : List Call) (x : Call)
    (batch : Batch) (reached : Reach batchStep inRange (startBatch fabric calls) batch)
    (released : Released batch (front ++ x :: rest)) :
    ∃ halfway, Reach batchStep inRange batch halfway ∧ halfway.made = batch.made ∧
      halfway.fabric.nic.pending =
        batch.fabric.nic.pending.filter (fun work => ! overtaking (front.length + 1) work) ∧
      batch.made.length ≤ halfway.fabric.nic.counters .completion + 1 := by
  have planned := reach_planned fabric quiet calls batch reached
  have pending : batch.fabric.nic.pending.Perm (planWorks fabric 0 batch.made) := by
    have works := planned.works
    rwa [released.finished, List.nil_append] at works
  obtain ⟨halfway, further, made, left⟩ := run_selection batch (overtaking (front.length + 1)) (by
    intro work member selected
    simp only [overtaking, Bool.and_eq_true] at selected
    cases plan_works_planned fabric 0 batch.made work (pending.mem_iff.mp member) with
    | write message signaled threshold after upto =>
        rw [released.made, ← released.trigger, Nat.zero_add] at upto
        exact upto
    | atomic threshold after upto => simp [isWrite, atomicWork, atomicDwqWork] at selected)
  refine ⟨halfway, further, made, left, ?_⟩
  have plannedHalfway := reach_planned fabric quiet calls halfway
    (reach_trans batchStep inRange _ batch halfway reached further)
  have writes := planned_split fabric calls halfway plannedHalfway isWrite
  rw [made, (plan_write_counts fabric 0 batch.made planned.known).1, ← plannedHalfway.completion, left,
    List.countP_filter] at writes
  have one := held_back_once fabric front rest x
  rw [← released.made, ← pending.countP_eq] at one
  have held : batch.fabric.nic.pending.countP (fun work => isWrite work && ! overtaking (front.length + 1) work) ≤
      batch.fabric.nic.pending.countP (heldBack (front.length + 1)) := by
    refine List.countP_mono_left fun work _ both => ?_
    simp only [overtaking] at both
    grind
  omega

theorem overrun_dishonest (fabric : Fabric) (calls : List Call) (batch : Batch) (planned : Planned fabric calls batch)
    (noAtomic : batch.fabric.nic.pending.countP isAtomic = 0) (work : SignalWork)
    (member : work ∈ batch.fabric.nic.pending) (signaled : isSignaledWrite work = true) : ¬ batch.Honest := by
  intro honest
  obtain ⟨_, signaledPlan, atomicPlan⟩ := plan_write_counts fabric 0 batch.made planned.known
  have signaledSplit := planned_split fabric calls batch planned isSignaledWrite
  have atomicSplit := planned_split fabric calls batch planned isAtomic
  have queued : 0 < batch.fabric.nic.pending.countP isSignaledWrite := List.countP_pos_iff.mpr ⟨work, member, signaled⟩
  have counted := honest.counted
  rw [planned.result] at counted
  omega

theorem mixed_made_dishonest (fabric : Fabric) (quiet : Quiescent fabric) (calls front middle rest : List Call)
    (x y : Call) (split : calls = (front ++ x :: middle) ++ [y] ++ rest)
    (known : ∀ call ∈ (front ++ x :: middle) ++ [y], call.known fabric = true) (signaled : x.signaled = true)
    (plain : y.signaled = false) :
    ∃ batch, Reach batchStep inRange (startBatch fabric calls) batch ∧ ¬ batch.Honest := by
  obtain ⟨batch, reached, released⟩ := host_releases fabric quiet calls _ rest split known
  have shape : (front ++ x :: middle) ++ [y] = front ++ x :: (middle ++ [y]) := by simp
  obtain ⟨halfway, further, made, left, completed⟩ :=
    writes_overtake fabric quiet calls front (middle ++ [y]) x batch reached (shape ▸ released)
  have pending : batch.fabric.nic.pending.Perm (planWorks fabric 0 ((front ++ x :: middle) ++ [y])) := by
    have works := (reach_planned fabric quiet calls batch reached).works
    rwa [released.finished, released.made, List.nil_append] at works
  obtain ⟨final, last, madeFinal, leftFinal⟩ := run_selection halfway isAtomic (by
    intro work member atomic
    rw [left] at member
    obtain ⟨triggering, bound⟩ := last_put_atomics fabric (front ++ x :: middle) y work plain
      (pending.mem_iff.mp (List.mem_of_mem_filter member)) atomic
    rw [released.made, List.length_append, List.length_singleton] at completed
    rw [Ready, triggering]
    omega)
  have reachedFinal := reach_trans batchStep inRange _ halfway final
    (reach_trans batchStep inRange _ batch halfway reached further) last
  have planned := reach_planned fabric quiet calls final reachedFinal
  refine ⟨final, reachedFinal, ?_⟩
  obtain ⟨message, written⟩ := Option.isSome_iff_exists.mp (known x (by simp))
  refine overrun_dishonest fabric calls final planned ?_
    (rmaDwqWork message true .trigger .completion (front.length + 1)) ?_ rfl
  · rw [leftFinal, List.countP_filter]
    exact List.countP_eq_zero.mpr fun work _ both => by simp at both
  · rw [leftFinal, left]
    refine List.mem_filter.mpr ⟨List.mem_filter.mpr ⟨pending.mem_iff.mpr ?_, ?_⟩, rfl⟩
    · rw [shape, plan_works_append, planWorks, callWorks, written, signaled]
      simp
    · simp [overtaking, heldBack, rmaDwqWork, isWrite]

theorem mixed_dishonest (fabric : Fabric) (quiet : Quiescent fabric) (calls : List Call)
    (mixed : ¬ PutsFirst fabric calls) :
    ∃ batch, Reach batchStep inRange (startBatch fabric calls) batch ∧ ¬ batch.Honest := by
  obtain ⟨front, x, middle, y, rest, taken, unrelated⟩ := not_pairwise_split _ _ mixed
  obtain ⟨signaled, plain⟩ := Classical.not_imp.mp unrelated
  refine mixed_made_dishonest fabric quiet calls front middle (rest ++ calls.dropWhile (Call.known fabric)) x y ?_ ?_
    signaled (Bool.eq_false_iff.mpr plain)
  · conv_lhs => rw [← List.takeWhile_append_dropWhile (p := Call.known fabric) (l := calls), taken]
    simp
  · intro call member
    have inTaken : call ∈ calls.takeWhile (Call.known fabric) := by
      rw [taken]
      simp only [List.mem_append, List.mem_cons] at member ⊢
      grind
    exact List.mem_takeWhile_imp inTaken

theorem put_with_signal_honest_iff (fabric : Fabric) (quiet : Quiescent fabric) (calls : List Call) :
    (∀ batch, Reach batchStep inRange (startBatch fabric calls) batch → batch.Honest) ↔ PutsFirst fabric calls := by
  constructor
  · intro honest
    by_contra mixed
    obtain ⟨batch, reached, dishonest⟩ := mixed_dishonest fabric quiet calls mixed
    exact dishonest (honest batch reached)
  · intro putsFirst batch reached
    have planned := reach_planned fabric quiet calls batch reached
    rw [PutsFirst, plan_prefix fabric calls batch planned] at putsFirst
    exact puts_first_honest fabric calls batch planned (List.pairwise_append.mp putsFirst).1

def announced : Fabric := openFabric (fun key => if key = makeRemoteKey 1 0 then some ⟨1, 4096, 7, 4096⟩ else none) false 0 64

def bufferZero : Handle := ⟨0, 0, 0⟩

theorem put_with_signal_honest_announced : Quiescent announced ∧
    ((∀ batch, Reach batchStep inRange
        (startBatch announced [.put bufferZero 1 0 8, .putWithSignal bufferZero 1 0 8, .put bufferZero 1 9 8]) batch →
      batch.Honest) ↔
      PutsFirst announced [.put bufferZero 1 0 8, .putWithSignal bufferZero 1 0 8, .put bufferZero 1 9 8]) ∧
    PutsFirst announced [.put bufferZero 1 0 8, .putWithSignal bufferZero 1 0 8, .put bufferZero 1 9 8] :=
  ⟨⟨rfl, rfl⟩, put_with_signal_honest_iff announced ⟨rfl, rfl⟩ _, by decide⟩

theorem signal_overtaken : ¬ ∀ fabric calls batch, Quiescent fabric →
    Reach batchStep inRange (startBatch fabric calls) batch → batch.Honest := by
  intro claimed
  obtain ⟨batch, reached, signals, writes⟩ := reach_of_decided batchStep inRange
    [.host, .host, .trigger 2, .triggerKernel, .fire 2, .fire 1]
    (startBatch announced [.putWithSignal bufferZero 1 0 8, .put bufferZero 1 0 8])
    (fun batch => batch.fabric.atomicResult = 1 ∧ batch.fabric.finished.countP isSignaledWrite = 0) (by decide +kernel)
  have counted := (claimed announced _ batch ⟨rfl, rfl⟩ reached).counted
  omega

end OpenGda.FabricSignal
