import OpenGda.Ofi.Fabric

set_option autoImplicit false

namespace OpenGda.Ofi

open DeferredWork Machine

def Call.isPut : Call → Bool
  | .put .. => true
  | .putRaw .. => false

-- put() exits unless the remote buffer is known.
def Call.known (fabric : Fabric) : Call → Prop
  | .put _ destRank destBufIndex _ => (fabric.remoteInfo (makeRemoteKey destRank destBufIndex)).isSome
  | .putRaw .. => True

instance (fabric : Fabric) (call : Call) : Decidable (call.known fabric) := by
  cases call with
  | put srcHandle destRank destBufIndex size =>
      exact inferInstanceAs (Decidable ((fabric.remoteInfo (makeRemoteKey destRank destBufIndex)).isSome = true))
  | putRaw => exact isTrue trivial

def Overtakes (launched : List Nat) (count : Nat) (work : CntrWork) : Prop :=
  match work.triggering with
  | .trigger => ∃ value ∈ launched ++ [count], work.threshold ≤ value
  | .completion => work.threshold < count

-- Work from before the reset that can bump the completion counter while writes of a
-- batch of `count` calls are outstanding: in flight already, or released before they end.
def Disturbs (fabric : Fabric) (count : Nat) (work : CntrWork) : Prop :=
  Ready fabric.nic work ∨ Overtakes fabric.launched count work

def batchWrite (batch : Nat) (work : CntrWork) : Bool :=
  match work.op with
  | .write write => write.batch = batch
  | .cntrAdd .. => false

def Queued (fabric : Fabric) : Prop :=
  ∀ work ∈ fabric.nic.pending, (∃ write threshold, work = rmaWork write threshold ∧ write.batch ≤ fabric.batch) ∨
    ∃ threshold, work = writebackWork threshold

structure CallQueued (before after : Fabric) (call : Call) : Prop where
  threshold : after.currentThreshold = before.currentThreshold + 1
  counters : after.nic.counters = before.nic.counters
  pending : ∃ write, write.batch = before.batch ∧ after.nic.pending = before.nic.pending ++
    rmaWork write after.currentThreshold :: if call.isPut then [] else [writebackWork after.currentThreshold]
  launched : after.launched = before.launched
  batch : after.batch = before.batch
  remoteInfo : after.remoteInfo = before.remoteInfo

theorem queue_call_queued (before after : Fabric) (call : Call) (threshold : Nat)
    (taken : queueCall before call = some (threshold, after)) :
    threshold = after.currentThreshold ∧ CallQueued before after call := by
  cases call with
  | put srcHandle destRank destBufIndex size =>
      simp only [queueCall, put] at taken
      cases found : before.remoteInfo (makeRemoteKey destRank destBufIndex) with
      | none => simp [found] at taken
      | some ri =>
          simp only [found, Option.some.injEq, Prod.mk.injEq] at taken
          obtain ⟨rfl, rfl⟩ := taken
          refine ⟨rfl, rfl, rfl, ⟨_, ?_, rfl⟩, rfl, rfl, rfl⟩
          rfl
  | putRaw srcHandle destRank remoteAddr remoteKey size =>
      simp only [queueCall, putRaw, Option.some.injEq, Prod.mk.injEq] at taken
      obtain ⟨rfl, rfl⟩ := taken
      let write : RmaWrite := ⟨srcHandle.buf, srcHandle.localDesc, size, before.avAddrs destRank, remoteAddr,
        remoteKey, before.batch⟩
      refine ⟨rfl, rfl, rfl, ⟨write, rfl, ?_⟩, rfl, rfl, rfl⟩
      simp [queueCounterWriteback, queueRmaWrite, queueWork, Call.isPut, write]

theorem queue_call_known (fabric : Fabric) (call : Call) (known : call.known fabric) :
    ∃ threshold after, queueCall fabric call = some (threshold, after) := by
  cases call with
  | put srcHandle destRank destBufIndex size =>
      obtain ⟨ri, found⟩ := Option.isSome_iff_exists.mp known
      simp [queueCall, put, found]
  | putRaw => exact ⟨_, _, rfl⟩

theorem fire_work_fired (before after : Fabric) (index : Nat) (taken : fireWork before index = some after) :
    ∃ work nic, Fired before.nic nic work ∧ after = { before with nic := nic } := by
  simp only [fireWork, fireStep, Option.map_map, Option.map_eq_some_iff] at taken
  obtain ⟨⟨work, nic⟩, fired, result⟩ := taken
  exact ⟨work, nic, fire_fired before.nic nic index work fired, result.symm⟩

theorem call_queued_works (before after : Fabric) (call : Call) (queued : Queued before)
    (change : CallQueued before after call) : Queued after := by
  obtain ⟨write, stamp, pending⟩ := change.pending
  intro work member
  rw [pending] at member
  simp only [List.mem_append, List.mem_cons] at member
  rcases member with old | rfl | added
  · simpa only [change.batch] using queued work old
  · exact Or.inl ⟨write, _, rfl, by rw [stamp, change.batch]⟩
  · split at added
    · simp at added
    · exact Or.inr ⟨_, by simpa using added⟩

theorem release_rma_work (nic : Nic Cntr RmaWrite) (write : RmaWrite) (threshold : Nat) :
    ∃ left ≤ threshold, release nic (rmaWork write threshold) = rmaWork write left := by
  unfold release
  split
  · exact ⟨0, Nat.zero_le _, rfl⟩
  · exact ⟨threshold, Nat.le_refl _, rfl⟩

theorem release_writeback_work (nic : Nic Cntr RmaWrite) (threshold : Nat) :
    ∃ left ≤ threshold, release nic (writebackWork threshold) = writebackWork left := by
  unfold release
  split
  · exact ⟨0, Nat.zero_le _, rfl⟩
  · exact ⟨threshold, Nat.le_refl _, rfl⟩

theorem release_queued (fabric : Fabric) (queued : Queued fabric) :
    Queued { fabric with nic := releaseReady fabric.nic } := by
  intro work member
  obtain ⟨before, queuedBefore, rfl⟩ := List.mem_map.mp member
  rcases queued before queuedBefore with ⟨write, threshold, rfl, bound⟩ | ⟨threshold, rfl⟩
  · obtain ⟨left, _, same⟩ := release_rma_work fabric.nic write threshold
    exact Or.inl ⟨write, left, same, bound⟩
  · obtain ⟨left, _, same⟩ := release_writeback_work fabric.nic threshold
    exact Or.inr ⟨left, same⟩

@[simp]
theorem release_batch_writes (batch : Nat) (nic : Nic Cntr RmaWrite) :
    (releaseReady nic).pending.countP (batchWrite batch) = nic.pending.countP (batchWrite batch) := by
  simp only [releaseReady, List.countP_map]
  exact congrArg (List.countP · nic.pending) (funext fun work => by simp [batchWrite])

theorem store_trigger_stored (before after : Fabric) (taken : storeTrigger before = some after) :
    ∃ value rest, before.launched = value :: rest ∧
      after = { before with nic := setCounter (releaseReady before.nic) .trigger value, launched := rest } := by
  unfold storeTrigger triggerKernel at taken
  cases launched : before.launched with
  | nil => simp [launched] at taken
  | cons value rest => exact ⟨value, rest, rfl, by simpa [launched] using taken.symm⟩

theorem step_queued (before after : Fabric) (action : Action) (queued : Queued before)
    (taken : step before action = some after) : Queued after := by
  cases action with
  | call call =>
      simp only [step, Option.map_eq_some_iff] at taken
      obtain ⟨⟨threshold, fabric⟩, taken, rfl⟩ := taken
      exact call_queued_works before fabric call queued (queue_call_queued before fabric call threshold taken).2
  | setRemoteInfoByIndex destRank bufIndex remoteAddr remoteKey remoteBaseAddr =>
      cases taken
      exact queued
  | trigger threshold =>
      cases taken
      exact queued
  | resetCounters =>
      cases taken
      intro work member
      rcases release_queued before queued work member with ⟨write, threshold, same, bound⟩ | writeback
      · exact Or.inl ⟨write, threshold, same, Nat.le_succ_of_le bound⟩
      · exact Or.inr writeback
  | triggerKernel =>
      obtain ⟨value, rest, _, rfl⟩ := store_trigger_stored before after taken
      exact release_queued before queued
  | fire index =>
      obtain ⟨work, nic, fired, rfl⟩ := fire_work_fired before after index taken
      exact fun other member => queued other ((fired_pending _ _ _ fired).2 other member)

theorem reach_queued (avAddrs : Nat → Nat) (virtAddrMode : Bool) (fabric : Fabric)
    (reached : Reach step always (openFabric avAddrs virtAddrMode) fabric) : Queued fabric :=
  reach_invariant step always Queued _ fabric (fun work member => by simp [openFabric] at member)
    (fun before after action queued _ taken => step_queued before after action queued taken) reached

def Batch.WritesOver (batch : Batch) : Prop :=
  batch.fabric.nic.pending.countP (batchWrite batch.fabric.batch) = 0 ∧ batch.todo = []

def Harmless (launched : List Nat) (count : Nat) (batch : Batch) (work : CntrWork) : Prop :=
  (∃ write threshold, work = rmaWork write threshold ∧
    (write.batch = batch.fabric.batch ∨ ¬ Overtakes launched count work)) ∨
  ∃ threshold, work = writebackWork threshold ∧ (count ≤ threshold ∨ batch.WritesOver)

theorem harmless_keep (launched : List Nat) (count : Nat) (before after : Batch) (work : CntrWork)
    (harmless : Harmless launched count before work) (same : after.fabric.batch = before.fabric.batch)
    (settled : before.WritesOver → after.WritesOver) : Harmless launched count after work := by
  rcases harmless with ⟨write, threshold, form, kind⟩ | ⟨threshold, form, late⟩
  · exact Or.inl ⟨write, threshold, form, by rwa [same]⟩
  · exact Or.inr ⟨threshold, form, late.imp_right settled⟩

structure Calm (launched : List Nat) (count : Nat) (batch : Batch) : Prop where
  counted : batch.fabric.currentThreshold + batch.todo.length = count
  last : batch.lastThreshold = batch.fabric.currentThreshold
  calls : ∀ call ∈ batch.todo.dropLast, call.isPut = true
  drained : batch.triggered = true → batch.todo = []
  kernels : ∀ value ∈ batch.fabric.launched, value ∈ launched ++ [count]
  signal : batch.fabric.nic.counters .trigger = 0 ∨ batch.fabric.nic.counters .trigger ∈ launched ++ [count]
  works : ∀ work ∈ batch.fabric.nic.pending, Harmless launched count batch work
  balance : batch.fabric.nic.counters .completion +
      batch.fabric.nic.pending.countP (batchWrite batch.fabric.batch) + batch.todo.length = count ∨ batch.WritesOver

theorem start_no_batch_write (fabric : Fabric) (queued : Queued fabric) :
    fabric.nic.pending.countP (batchWrite (fabric.batch + 1)) = 0 := by
  rw [List.countP_eq_zero]
  intro work member
  rcases queued work member with ⟨write, threshold, rfl, bound⟩ | ⟨threshold, rfl⟩
  · simp [batchWrite, rmaWork]
    omega
  · simp [batchWrite, writebackWork]

theorem start_calm (fabric : Fabric) (queued : Queued fabric) (calls : List Call)
    (puts : ∀ call ∈ calls.dropLast, call.isPut = true)
    (leftover : ∀ work ∈ fabric.nic.pending, ¬ Disturbs fabric calls.length work) :
    Calm fabric.launched calls.length (startBatch fabric calls) where
  counted := by simp [startBatch, resetCounters]
  last := rfl
  calls := puts
  drained := by simp [startBatch]
  kernels := fun value member => List.mem_append_left _ member
  signal := Or.inl (by simp [startBatch, resetCounters, setCounter])
  works := by
    intro work member
    obtain ⟨before, left, rfl⟩ := List.mem_map.mp member
    obtain ⟨waiting, harmless⟩ := not_or.mp (leftover before left)
    rw [release, if_neg waiting]
    rcases queued before left with ⟨write, threshold, rfl, _⟩ | ⟨threshold, rfl⟩
    · exact Or.inl ⟨write, threshold, rfl, Or.inr harmless⟩
    · exact Or.inr ⟨threshold, rfl, Or.inl (Nat.le_of_not_lt harmless)⟩
  balance := Or.inl (by simp [startBatch, resetCounters, setCounter, start_no_batch_write fabric queued])

theorem host_call_calm (launched : List Nat) (count : Nat) (batch : Batch) (calm : Calm launched count batch)
    (call : Call) (rest : List Call) (todo : batch.todo = call :: rest) (fabric : Fabric)
    (change : CallQueued batch.fabric fabric call) :
    Calm launched count
      { batch with fabric := fabric, todo := rest, lastThreshold := fabric.currentThreshold } := by
  obtain ⟨write, stamp, pending⟩ := change.pending
  have length : batch.todo.length = rest.length + 1 := by simp [todo]
  have counted := calm.counted
  have threshold := change.threshold
  have lastOnly : call.isPut = false → rest = [] := by
    intro raw
    by_contra more
    have early := calm.calls call (by simp [todo, List.dropLast_cons_of_ne_nil more])
    simp [raw] at early
  refine ⟨?_, rfl, ?_, ?_, ?_, ?_, ?_, ?_⟩
  · simp only
    omega
  · intro other member
    refine calm.calls other ?_
    by_cases last : rest = []
    · simp [last] at member
    · simpa [todo, List.dropLast_cons_of_ne_nil last] using Or.inr member
  · intro triggered
    have emptied := calm.drained triggered
    simp [todo] at emptied
  · simpa only [change.launched] using calm.kernels
  · simpa only [change.counters] using calm.signal
  · intro work member
    simp only [pending, List.mem_append, List.mem_cons] at member
    rcases member with old | rfl | added
    · refine harmless_keep launched count batch _ work (calm.works work old) change.batch fun settled => ?_
      simp [settled.2] at todo
    · exact Or.inl ⟨write, _, rfl, Or.inl (by rw [stamp, change.batch])⟩
    · by_cases plain : call.isPut = true
      · simp [plain] at added
      · have emptied := lastOnly (by simpa using plain)
        refine Or.inr ⟨fabric.currentThreshold, by simpa [plain] using added, Or.inl ?_⟩
        simp [emptied] at length
        omega
  · refine Or.inl ?_
    have stays : fabric.nic.pending.countP (batchWrite fabric.batch) =
        batch.fabric.nic.pending.countP (batchWrite batch.fabric.batch) + 1 := by
      rw [pending, change.batch, List.countP_append, List.countP_cons_of_pos (by simp [batchWrite, rmaWork, stamp])]
      split <;> simp [batchWrite, writebackWork]
    simp only [change.counters, stays]
    rcases calm.balance with balance | ⟨_, emptied⟩
    · omega
    · simp [todo] at emptied

theorem signal_overtakes (launched : List Nat) (count : Nat) (batch : Batch) (calm : Calm launched count batch)
    (write : RmaWrite) (threshold : Nat) (ready : Ready batch.fabric.nic (rmaWork write threshold)) :
    Overtakes launched count (rmaWork write threshold) := by
  have reached : threshold ≤ batch.fabric.nic.counters .trigger := ready
  rcases calm.signal with zero | stored
  · exact ⟨count, by simp, by simp only [rmaWork]; omega⟩
  · exact ⟨_, stored, reached⟩

theorem writeback_ready_settled (launched : List Nat) (count : Nat) (batch : Batch)
    (calm : Calm launched count batch) (threshold : Nat) (late : count ≤ threshold ∨ batch.WritesOver)
    (ready : Ready batch.fabric.nic (writebackWork threshold)) : batch.WritesOver := by
  have reached : threshold ≤ batch.fabric.nic.counters .completion := ready
  rcases late with late | settled
  · rcases calm.balance with balance | settled
    · exact ⟨by omega, List.length_eq_zero_iff.mp (by omega)⟩
    · exact settled
  · exact settled

theorem fire_calm (launched : List Nat) (count : Nat) (batch : Batch) (calm : Calm launched count batch)
    (work : CntrWork) (nic : Nic Cntr RmaWrite) (fired : Fired batch.fabric.nic nic work) :
    Calm launched count { batch with fabric := { batch.fabric with nic := nic } } := by
  have counted := fired_count _ _ _ fired (batchWrite batch.fabric.batch)
  have completion := fired.counters .completion
  obtain ⟨member, remaining⟩ := fired_pending _ _ _ fired
  have positive : batchWrite batch.fabric.batch work = true →
      batch.fabric.nic.pending.countP (batchWrite batch.fabric.batch) ≠ 0 := by
    intro write none
    rw [List.countP_eq_zero] at none
    exact none work member write
  have triggerSame : nic.counters .trigger = batch.fabric.nic.counters .trigger := by
    rw [fired.counters .trigger]
    rcases calm.works work member with ⟨write, threshold, rfl, _⟩ | ⟨threshold, rfl, _⟩
    · simp [credit, rmaWork]
    · simp [credit, writebackWork]
  refine ⟨calm.counted, calm.last, calm.calls, calm.drained, calm.kernels, ?_, ?_, ?_⟩
  · simpa only [triggerSame] using calm.signal
  · intro other left
    refine harmless_keep launched count batch _ other (calm.works other (remaining other left)) rfl fun settled => ?_
    have none := settled.1
    exact ⟨by simp only; omega, settled.2⟩
  · simp only
    rcases calm.works work member with ⟨write, threshold, rfl, kind⟩ | ⟨threshold, rfl, late⟩
    · by_cases own : write.batch = batch.fabric.batch
      · have chosen : batchWrite batch.fabric.batch (rmaWork write threshold) = true := by
          simp [batchWrite, rmaWork, own]
        have some := positive chosen
        simp [chosen] at counted
        simp [credit, rmaWork] at completion
        rcases calm.balance with balance | ⟨none, _⟩
        · exact Or.inl (by omega)
        · exact absurd none some
      · exact absurd (signal_overtakes launched count batch calm write threshold fired.ready) (kind.resolve_left own)
    · simp [batchWrite, writebackWork] at counted
      obtain ⟨none, emptied⟩ := writeback_ready_settled launched count batch calm threshold late fired.ready
      exact Or.inr ⟨by simp only; omega, emptied⟩

theorem kernel_calm (launched : List Nat) (count : Nat) (batch : Batch) (calm : Calm launched count batch)
    (value : Nat) (rest : List Nat) (next : batch.fabric.launched = value :: rest) :
    Calm launched count { batch with fabric := { batch.fabric with
      nic := setCounter (releaseReady batch.fabric.nic) .trigger value, launched := rest } } := by
  have settles : batch.WritesOver → Batch.WritesOver { batch with fabric := { batch.fabric with
      nic := setCounter (releaseReady batch.fabric.nic) .trigger value, launched := rest } } :=
    fun settled => ⟨(release_batch_writes _ _).trans settled.1, settled.2⟩
  refine ⟨calm.counted, calm.last, calm.calls, calm.drained, ?_, ?_, ?_, ?_⟩
  · exact fun other member => calm.kernels other (by simp [next, member])
  · exact Or.inr (by simpa [setCounter] using calm.kernels value (by simp [next]))
  · intro work member
    obtain ⟨before, queued, rfl⟩ := List.mem_map.mp member
    have harmless := calm.works before queued
    by_cases ready : Ready batch.fabric.nic before
    · rcases harmless with ⟨write, threshold, rfl, kind⟩ | ⟨threshold, rfl, late⟩
      · obtain ⟨left, _, same⟩ := release_rma_work batch.fabric.nic write threshold
        have own := kind.resolve_right (not_not_intro (signal_overtakes launched count batch calm write threshold ready))
        exact Or.inl ⟨write, left, same, Or.inl own⟩
      · obtain ⟨left, _, same⟩ := release_writeback_work batch.fabric.nic threshold
        exact Or.inr ⟨left, same, Or.inr (settles (writeback_ready_settled launched count batch calm threshold late ready))⟩
    · rw [release, if_neg ready]
      exact harmless_keep launched count batch _ before harmless rfl settles
  · exact calm.balance.imp (fun balance => by simpa [setCounter] using balance) settles

theorem batch_step_calm (launched : List Nat) (count : Nat) (before after : Batch) (turn : Turn)
    (calm : Calm launched count before) (taken : batchStep before turn = some after) :
    Calm launched count after := by
  cases turn with
  | host =>
      cases todo : before.todo with
      | cons call rest =>
          simp only [batchStep, todo, Option.map_eq_some_iff] at taken
          obtain ⟨⟨threshold, fabric⟩, taken, rfl⟩ := taken
          obtain ⟨rfl, change⟩ := queue_call_queued before.fabric fabric call threshold taken
          exact host_call_calm launched count before calm call rest todo fabric change
      | nil =>
          simp only [batchStep, todo] at taken
          split at taken
          · simp at taken
          · cases taken
            have counted := calm.counted
            have last : before.lastThreshold = count := by
              rw [calm.last]
              simpa [todo] using counted
            have settles : before.WritesOver →
                Batch.WritesOver ⟨trigger before.fabric before.lastThreshold, [], before.lastThreshold, true⟩ :=
              fun settled => ⟨settled.1, rfl⟩
            refine ⟨by simpa [todo, trigger] using counted, calm.last, by simp, fun _ => rfl, ?_, calm.signal, ?_, ?_⟩
            · intro value member
              simp only [trigger, List.mem_append, List.mem_singleton] at member
              rcases member with old | rfl
              · exact calm.kernels value old
              · simp [last]
            · exact fun work member =>
                harmless_keep launched count before _ work (calm.works work member) rfl settles
            · exact calm.balance.imp (fun balance => by simpa [todo, trigger] using balance) settles
  | triggerKernel =>
      simp only [batchStep, Option.map_eq_some_iff] at taken
      obtain ⟨fabric, taken, rfl⟩ := taken
      obtain ⟨value, rest, launchedEq, rfl⟩ := store_trigger_stored before.fabric fabric taken
      exact kernel_calm launched count before calm value rest launchedEq
  | fire index =>
      simp only [batchStep, Option.map_eq_some_iff] at taken
      obtain ⟨fabric, taken, rfl⟩ := taken
      obtain ⟨work, nic, fired, rfl⟩ := fire_work_fired before.fabric fabric index taken
      exact fire_calm launched count before calm work nic fired

theorem calm_wait_done (launched : List Nat) (count : Nat) (batch : Batch) (calm : Calm launched count batch)
    (returns : batch.waitReturns) : batch.writesDone := by
  obtain ⟨triggered, reached⟩ := returns
  have emptied := calm.drained triggered
  have counted := calm.counted
  have last := calm.last
  have enough : batch.lastThreshold ≤ batch.fabric.nic.counters .completion := reached
  have none : batch.fabric.nic.pending.countP (batchWrite batch.fabric.batch) = 0 := by
    rcases calm.balance with balance | ⟨none, _⟩
    · simp only [emptied, List.length_nil] at counted balance
      omega
    · exact none
  intro write threshold member own
  rw [List.countP_eq_zero] at none
  exact absurd (by simp [batchWrite, rmaWork, own]) (none _ member)

end OpenGda.Ofi
