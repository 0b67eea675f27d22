import OpenGda.Ofi.CounterPool

set_option autoImplicit false

namespace OpenGda.CounterPool

open DeferredWork Machine OpenGda.Dwq

def ownWork (pool : Pool) (slot : SlotIndex) : List PoolWork := pool.nic.pending.filter (belongs slot)

def slotRma (slot : SlotIndex) (number : Nat) (message : RmaMessage) : PoolWork :=
  rmaDwqWork message (slot, number) (slot, .trigger) (slot, .completion) 1

def slotAtomic (slot : SlotIndex) (number : Nat) (signal : AtomicMessage SlotIndex) : PoolWork :=
  atomicDwqWork signal (slot, number) (slot, .completion) (slot, .atomicCompletion) 1

inductive Stage (pool : Pool) (slot : SlotIndex) : Prop where
  | idle (pending : ownWork pool slot = []) (completion : pool.nic.counters (slot, .completion) = 0)
      (result : pool.atomicResults slot = 0) (free : (pool.slotStates slot).streamId = -1)
      (silent : pool.reported slot = false)
  | queued (number : Nat) (message : RmaMessage) (signal : AtomicMessage SlotIndex)
      (ops : pool.queuedOps slot = number + 1) (target : signal.operand = 1 ∧ signal.result = slot)
      (pending : (ownWork pool slot).Perm [slotRma slot number message, slotAtomic slot number signal])
      (armed : pool.nic.counters (slot, .trigger) ≠ 0 → pool.triggeredOps slot = number + 1)
      (completion : pool.nic.counters (slot, .completion) = 0) (result : pool.atomicResults slot = 0)
      (silent : pool.reported slot = false)
  | written (number : Nat) (signal : AtomicMessage SlotIndex) (ops : pool.queuedOps slot = number + 1)
      (target : signal.operand = 1 ∧ signal.result = slot)
      (pending : ownWork pool slot = [slotAtomic slot number signal])
      (completion : pool.nic.counters (slot, .completion) = 1) (result : pool.atomicResults slot = 0)
      (wrote : (slot, number) ∈ pool.written) (silent : pool.reported slot = false)
  | signaled (number : Nat) (ops : pool.queuedOps slot = number + 1) (pending : ownWork pool slot = [])
      (result : pool.atomicResults slot = 1) (wrote : (slot, number) ∈ pool.written)

structure Inv (pool : Pool) : Prop where
  stage : ∀ slot, Stage pool slot
  triggered : ∀ slot, pool.triggeredOps slot ≤ pool.queuedOps slot
  written : ∀ tag ∈ pool.written, tag.2 < pool.queuedOps tag.1

structure Kept (before after : Pool) (slot : SlotIndex) : Prop where
  pending : (ownWork after slot).Perm (ownWork before slot)
  trigger : after.nic.counters (slot, .trigger) = before.nic.counters (slot, .trigger)
  completion : after.nic.counters (slot, .completion) = before.nic.counters (slot, .completion)
  result : after.atomicResults slot = before.atomicResults slot
  state : after.slotStates slot = before.slotStates slot
  queuedOps : after.queuedOps slot = before.queuedOps slot
  triggeredOps : after.triggeredOps slot = before.triggeredOps slot
  written : ∀ tag ∈ before.written, tag ∈ after.written
  reported : after.reported slot = before.reported slot

theorem stage_kept (before after : Pool) (slot : SlotIndex) (kept : Kept before after slot)
    (stage : Stage before slot) : Stage after slot := by
  cases stage with
  | idle pending completion result free silent =>
      exact .idle (List.perm_nil.mp (pending ▸ kept.pending)) (kept.completion.trans completion) (kept.result.trans result)
        (by rw [kept.state]; exact free) (kept.reported.trans silent)
  | queued number message signal ops target pending armed completion result silent =>
      refine .queued number message signal (kept.queuedOps.trans ops) target ?_ ?_ (kept.completion.trans completion)
        (kept.result.trans result) (kept.reported.trans silent)
      · exact kept.pending.trans pending
      · rw [kept.trigger, kept.triggeredOps]
        exact armed
  | written number signal ops target pending completion result wrote silent =>
      exact .written number signal (kept.queuedOps.trans ops) target (List.perm_singleton.mp (pending ▸ kept.pending))
        (kept.completion.trans completion) (kept.result.trans result) (kept.written _ wrote)
        (kept.reported.trans silent)
  | signaled number ops pending result wrote =>
      exact .signaled number (kept.queuedOps.trans ops) (List.perm_nil.mp (pending ▸ kept.pending)) (kept.result.trans result)
        (kept.written _ wrote)

theorem init_inv (virtAddrMode : Bool) (localAddrInAv : Nat) (atomicResultAddrs : SlotIndex → UInt64) :
    Inv (initPool virtAddrMode localAddrInAv atomicResultAddrs) :=
  ⟨fun _ => .idle rfl rfl rfl rfl rfl, fun _ => Nat.le_refl 0, fun _ member => absurd member List.not_mem_nil⟩

theorem own_work_queue (pool : Pool) (nic : Nic Cntr (Message SlotIndex Tag)) (slot other : SlotIndex) (number : Nat)
    (message : RmaMessage) (signal : AtomicMessage SlotIndex)
    (pending : nic.pending = pool.nic.pending ++ [slotRma slot number message, slotAtomic slot number signal]) :
    nic.pending.filter (belongs other) =
      ownWork pool other ++ if slot = other then [slotRma slot number message, slotAtomic slot number signal] else [] := by
  rw [pending, List.filter_append, ownWork]
  by_cases same : slot = other <;> simp [belongs, slotRma, slotAtomic, rmaDwqWork, atomicDwqWork, same]

structure QueuedOn (before after : Pool) (slot : SlotIndex) (streamId : Int) : Prop where
  works : ∃ message signal, (signal.operand = 1 ∧ signal.result = slot) ∧ after.nic.pending =
    before.nic.pending ++ [slotRma slot (before.queuedOps slot) message, slotAtomic slot (before.queuedOps slot) signal]
  counters : after.nic.counters = before.nic.counters
  results : after.atomicResults = before.atomicResults
  states : after.slotStates = Function.update before.slotStates slot ⟨streamId, true⟩
  queuedOps : after.queuedOps = Function.update before.queuedOps slot (before.queuedOps slot + 1)
  triggeredOps : after.triggeredOps = before.triggeredOps
  written : after.written = before.written
  reported : after.reported = before.reported

theorem queue_operation_queued (pool : Pool) (slotIdx streamId : Int) (message : RmaMessage) (slot : SlotIndex)
    (inRange : slotIndex slotIdx = some slot) :
    (queueOperation pool slotIdx streamId message).1 = true ∧
      QueuedOn pool (queueOperation pool slotIdx streamId message).2 slot streamId := by
  simp only [queueOperation, inRange]
  refine ⟨trivial, ⟨message, atomicMessage pool slot, ⟨rfl, rfl⟩, ?_⟩, rfl, rfl, rfl, rfl, rfl, rfl, rfl⟩
  simp [queueRmaWrite, queueAtomicSignal, queueWork, slotRma, slotAtomic]

theorem queued_kept (before after : Pool) (slot other : SlotIndex) (streamId : Int)
    (queued : QueuedOn before after slot streamId) (apart : other ≠ slot) : Kept before after other := by
  obtain ⟨message, signal, _, pending⟩ := queued.works
  refine ⟨?_, by rw [queued.counters], by rw [queued.counters], by rw [queued.results], ?_, ?_,
    by rw [queued.triggeredOps], fun tag member => by rwa [queued.written], by rw [queued.reported]⟩
  · rw [ownWork, own_work_queue before after.nic slot other _ message signal pending, if_neg apart.symm, List.append_nil]
  · rw [queued.states, Function.update_of_ne apart]
  · rw [queued.queuedOps, Function.update_of_ne apart]

theorem queue_bounds (before after : Pool) (slot : SlotIndex) (streamId : Int) (inv : Inv before)
    (queued : QueuedOn before after slot streamId) :
    (∀ other, after.triggeredOps other ≤ after.queuedOps other) ∧
      ∀ tag ∈ after.written, tag.2 < before.queuedOps tag.1 ∧ before.queuedOps tag.1 ≤ after.queuedOps tag.1 := by
  have grows : ∀ other, before.queuedOps other ≤ after.queuedOps other := by
    intro other
    rw [queued.queuedOps]
    by_cases same : other = slot
    · subst same
      rw [Function.update_self]
      omega
    · rw [Function.update_of_ne same]
  refine ⟨fun other => ?_, fun tag member => ?_⟩
  · rw [queued.triggeredOps]
    exact (inv.triggered other).trans (grows other)
  · rw [queued.written] at member
    exact ⟨inv.written tag member, grows tag.1⟩

theorem queue_inv (before after : Pool) (slot : SlotIndex) (streamId : Int) (inv : Inv before)
    (fresh : Fresh before slot) (queued : QueuedOn before after slot streamId) : Inv after := by
  obtain ⟨triggered, written⟩ := queue_bounds before after slot streamId inv queued
  refine ⟨fun other => ?_, triggered, fun tag member => (written tag member).1.trans_le (written tag member).2⟩
  by_cases same : other = slot
  · subst same
    have silent : before.reported other = false := by
      cases inv.stage other with
      | idle _ _ _ _ silent => exact silent
      | queued _ _ _ _ _ _ _ _ _ silent => exact silent
      | written _ _ _ _ _ _ _ _ silent => exact silent
      | signaled _ _ _ result _ =>
          rw [fresh.atomicResult] at result
          exact absurd result (by decide)
    obtain ⟨message, signal, target, pending⟩ := queued.works
    refine .queued (before.queuedOps other) message signal ?_ target ?_ (fun armed => ?_) ?_ ?_ ?_
    · rw [queued.queuedOps, Function.update_self]
    · rw [ownWork, own_work_queue before after.nic other other _ message signal pending, if_pos rfl, ownWork,
        fresh.pending, List.nil_append]
    · rw [queued.counters] at armed
      exact absurd fresh.trigger armed
    · rw [queued.counters]
      exact fresh.completion
    · rw [queued.results]
      exact fresh.atomicResult
    · rw [queued.reported]
      exact silent
  · exact stage_kept before after other (queued_kept before after slot other streamId queued same) (inv.stage other)

theorem trigger_inv (pool : Pool) (slot : SlotIndex) (inv : Inv pool) : Inv (triggerSlot pool slot) := by
  refine ⟨fun other => ?_, fun other => ?_, inv.written⟩
  · by_cases same : other = slot
    · subst same
      cases inv.stage other with
      | idle pending completion result free silent =>
          exact .idle pending (by simpa [triggerSlot, setCounter] using completion) result free silent
      | queued number message signal ops target pending armed completion result silent =>
          exact .queued number message signal ops target pending (fun _ => by simpa [triggerSlot] using ops)
            (by simpa [triggerSlot, setCounter] using completion) result silent
      | written number signal ops target pending completion result wrote silent =>
          exact .written number signal ops target pending (by simpa [triggerSlot, setCounter] using completion) result
            wrote silent
      | signaled number ops pending result wrote => exact .signaled number ops pending result wrote
    · refine stage_kept pool _ other ⟨.refl _, ?_, ?_, rfl, rfl, rfl, ?_, fun _ member => member, rfl⟩ (inv.stage other)
      · simp [triggerSlot, setCounter, same]
      · simp [triggerSlot, setCounter]
      · simp [triggerSlot, same]
  · by_cases same : other = slot
    · simp [triggerSlot, same]
    · simpa [triggerSlot, same] using inv.triggered other

structure FiredOn (before after : Pool) (slot : SlotIndex) (work : PoolWork) : Prop where
  owner : work.triggering.1 = slot
  ready : Ready before.nic work
  pending : (ownWork before slot).Perm (work :: ownWork after slot)
  others : ∀ other, other ≠ slot → (ownWork before other).Perm (ownWork after other)
  counters : ∀ counter, after.nic.counters counter = before.nic.counters counter + credit counter work
  results : ∀ other, after.atomicResults other = before.atomicResults other + atomicGain other work
  written : after.written = before.written ++ writtenBy work
  states : after.slotStates = before.slotStates
  queuedOps : after.queuedOps = before.queuedOps
  triggeredOps : after.triggeredOps = before.triggeredOps
  reported : after.reported = before.reported

theorem fire_fired_on (before after : Pool) (index : Nat) (taken : step before (.fire index) = some after) :
    ∃ work, fire before.nic index = some (work, after.nic) ∧ FiredOn before after work.triggering.1 work := by
  simp only [step, fireWork, Option.map_eq_some_iff] at taken
  obtain ⟨⟨work, nic⟩, ran, rfl⟩ := taken
  have fired := fire_fired before.nic nic index work ran
  refine ⟨work, ran, rfl, fired.ready, ?_, ?_, fired.counters, fun _ => rfl, rfl, rfl, rfl, rfl, rfl⟩
  · have moved := fired.perm.filter (belongs work.triggering.1)
    rwa [List.filter_cons_of_pos (by simp [belongs])] at moved
  · intro other apart
    have moved := fired.perm.filter (belongs other)
    rwa [List.filter_cons_of_neg (by simpa [belongs] using apart.symm)] at moved

structure Local (slot : SlotIndex) (work : PoolWork) : Prop where
  credit : ∀ other kind, other ≠ slot → credit (other, kind) work = 0
  gain : ∀ other, other ≠ slot → atomicGain other work = 0

theorem rma_local (slot : SlotIndex) (number : Nat) (message : RmaMessage) : Local slot (slotRma slot number message) :=
  ⟨fun other kind apart => by simp [credit, slotRma, rmaDwqWork, apart.symm],
    fun other _ => by simp [atomicGain, slotRma, rmaDwqWork]⟩

theorem atomic_local (slot : SlotIndex) (number : Nat) (signal : AtomicMessage SlotIndex)
    (target : signal.operand = 1 ∧ signal.result = slot) : Local slot (slotAtomic slot number signal) :=
  ⟨fun other kind apart => by simp [credit, slotAtomic, atomicDwqWork, apart.symm],
    fun other apart => by simp [atomicGain, slotAtomic, atomicDwqWork, target.2, apart.symm]⟩

theorem fired_kept (before after : Pool) (slot other : SlotIndex) (work : PoolWork)
    (fired : FiredOn before after slot work) (own : Local slot work) (apart : other ≠ slot) :
    Kept before after other := by
  refine ⟨(fired.others other apart).symm, ?_, ?_, ?_, by rw [fired.states], by rw [fired.queuedOps],
    by rw [fired.triggeredOps], fun tag member => ?_, by rw [fired.reported]⟩
  · rw [fired.counters, own.credit other .trigger apart, Nat.add_zero]
  · rw [fired.counters, own.credit other .completion apart, Nat.add_zero]
  · rw [fired.results, own.gain other apart, Nat.add_zero]
  · rw [fired.written]
    exact List.mem_append.mpr (.inl member)

inductive FiredKind (before after : Pool) (slot : SlotIndex) (work : PoolWork) : Prop where
  | rma (number : Nat) (message : RmaMessage) (same : work = slotRma slot number message)
      (ops : before.queuedOps slot = number + 1) (armed : before.triggeredOps slot = number + 1)
      (stage : Stage after slot)
  | atomic (number : Nat) (signal : AtomicMessage SlotIndex) (same : work = slotAtomic slot number signal)
      (target : signal.operand = 1 ∧ signal.result = slot) (stage : Stage after slot)

theorem fired_stage (before after : Pool) (slot : SlotIndex) (work : PoolWork)
    (fired : FiredOn before after slot work) (stage : Stage before slot) : FiredKind before after slot work := by
  have member : work ∈ ownWork before slot := fired.pending.mem_iff.mpr List.mem_cons_self
  cases stage with
  | idle pending _ _ _ _ =>
      rw [pending] at member
      exact absurd member List.not_mem_nil
  | queued number message signal ops target pending armed completion result silent =>
      have both := pending.symm.trans fired.pending
      rcases List.mem_cons.mp (pending.mem_iff.mp member) with rfl | last
      · have ready : 1 ≤ before.nic.counters (slot, .trigger) := fired.ready
        have wrote : (slot, number) ∈ after.written := by simp [fired.written, writtenBy, slotRma, rmaDwqWork]
        refine .rma number message rfl ops (armed (by omega)) (.written number signal ?_ target ?_ ?_ ?_ wrote ?_)
        · rw [fired.queuedOps]
          exact ops
        · exact List.perm_singleton.mp (List.Perm.cons_inv both).symm
        · rw [fired.counters, completion]
          simp [credit, slotRma, rmaDwqWork]
        · rw [fired.results, result]
          simp [atomicGain, slotRma, rmaDwqWork]
        · rw [fired.reported]
          exact silent
      · cases List.mem_singleton.mp last
        have ready : 1 ≤ before.nic.counters (slot, .completion) := fired.ready
        omega
  | written number signal ops target pending completion result wrote silent =>
      rw [pending] at member
      cases List.mem_singleton.mp member
      have left : ownWork after slot = [] := by
        have moved := fired.pending
        rw [pending] at moved
        exact List.perm_nil.mp (List.Perm.cons_inv moved).symm
      refine .atomic number signal rfl target (.signaled number ?_ left ?_ ?_)
      · rw [fired.queuedOps]
        exact ops
      · rw [fired.results, result]
        simp [atomicGain, slotAtomic, atomicDwqWork, target]
      · rw [fired.written]
        exact List.mem_append.mpr (.inl wrote)
  | signaled _ _ pending _ _ =>
      rw [pending] at member
      exact absurd member List.not_mem_nil

theorem fire_inv (before after : Pool) (slot : SlotIndex) (work : PoolWork) (inv : Inv before)
    (fired : FiredOn before after slot work) : Inv after := by
  have stages : Local slot work → Stage after slot → ∀ other, Stage after other := by
    intro own stage other
    by_cases same : other = slot
    · exact same ▸ stage
    · exact stage_kept before after other (fired_kept before after slot other work fired own same) (inv.stage other)
  have triggered : ∀ other, after.triggeredOps other ≤ after.queuedOps other := by
    rw [fired.triggeredOps, fired.queuedOps]
    exact inv.triggered
  cases fired_stage before after slot work fired (inv.stage slot) with
  | rma number message same ops armed stage =>
      subst same
      refine ⟨stages (rma_local slot number message) stage, triggered, fun tag member => ?_⟩
      rw [fired.queuedOps]
      rw [fired.written] at member
      rcases List.mem_append.mp member with earlier | own
      · exact inv.written tag earlier
      · obtain rfl : tag = (slot, number) := by simpa [writtenBy, slotRma, rmaDwqWork] using own
        rw [ops]
        exact Nat.lt_succ_self number
  | atomic number signal same target stage =>
      subst same
      refine ⟨stages (atomic_local slot number signal target) stage, triggered, fun tag member => ?_⟩
      rw [fired.queuedOps]
      rw [fired.written] at member
      exact inv.written tag (by simpa [writtenBy, slotAtomic, atomicDwqWork] using member)

theorem report_inv (pool : Pool) (slot : SlotIndex) (slotIdx : Int) (inRange : slotIndex slotIdx = some slot)
    (inv : Inv pool) :
    Inv { pool with
      reported := Function.update pool.reported slot (pool.reported slot || isSlotComplete pool slotIdx) } := by
  refine ⟨fun other => ?_, inv.triggered, inv.written⟩
  by_cases same : other = slot
  · subst same
    have quiet : pool.atomicResults other = 0 → pool.reported other = false →
        (Function.update pool.reported other (pool.reported other || isSlotComplete pool slotIdx)) other = false := by
      intro result silent
      simp [isSlotComplete, inRange, result, silent]
    cases inv.stage other with
    | idle pending completion result free silent =>
        exact .idle pending completion result free (quiet result silent)
    | queued number message signal ops target pending armed completion result silent =>
        exact .queued number message signal ops target pending armed completion result (quiet result silent)
    | written number signal ops target pending completion result wrote silent =>
        exact .written number signal ops target pending completion result wrote (quiet result silent)
    | signaled number ops pending result wrote => exact .signaled number ops pending result wrote
  · exact stage_kept pool _ other ⟨.refl _, rfl, rfl, rfl, rfl, rfl, rfl, fun _ member => member,
      by simp [same]⟩ (inv.stage other)

theorem reset_inv (pool : Pool) (slotIdx : Int) (inv : Inv pool)
    (complete : ∀ slot, slotIndex slotIdx = some slot → pool.reported slot = true) : Inv (resetSlot pool slotIdx) := by
  cases found : slotIndex slotIdx with
  | none => simpa [resetSlot, found] using inv
  | some slot =>
      simp only [resetSlot, found]
      refine ⟨fun other => ?_, inv.triggered, inv.written⟩
      by_cases same : other = slot
      · subst same
        have reported := complete other found
        cases inv.stage other with
        | idle _ _ _ _ silent => exact absurd (reported.symm.trans silent) (by decide)
        | queued _ _ _ _ _ _ _ _ _ silent => exact absurd (reported.symm.trans silent) (by decide)
        | written _ _ _ _ _ _ _ _ silent => exact absurd (reported.symm.trans silent) (by decide)
        | signaled number ops pending result wrote =>
            exact .idle pending (by simp [setCounter]) (by simp) (by simp) (by simp)
      · exact stage_kept pool _ other ⟨.refl _, by simp [setCounter, same], by simp [setCounter, same],
          by simp [same], by simp [same], rfl, rfl, fun _ member => member, by simp [same]⟩ (inv.stage other)

theorem step_inv (before after : Pool) (action : Action) (inv : Inv before) (careful : Careful before action)
    (taken : step before action = some after) : Inv after := by
  obtain ⟨complete, fresh⟩ := careful
  cases action with
  | queueOperation slotIdx streamId message =>
      cases taken
      cases found : slotIndex slotIdx with
      | none => simpa [queueOperation, found] using inv
      | some slot =>
          exact queue_inv before _ slot streamId inv (fresh slot found)
            (queue_operation_queued before slotIdx streamId message slot found).2
  | triggerSlot slot =>
      cases taken
      exact trigger_inv before slot inv
  | fire index =>
      obtain ⟨work, _, fired⟩ := fire_fired_on before after index taken
      exact fire_inv before after work.triggering.1 work inv fired
  | isSlotComplete slotIdx =>
      cases found : slotIndex slotIdx with
      | none =>
          simp only [step, found, Option.some.injEq] at taken
          exact taken ▸ inv
      | some slot =>
          simp only [step, found, Option.some.injEq] at taken
          exact taken ▸ report_inv before slot slotIdx found inv
  | resetSlot slotIdx =>
      cases taken
      exact reset_inv before slotIdx inv complete

theorem inv_complete_written (pool : Pool) (inv : Inv pool) : CompleteWritten pool := by
  intro slotIdx slot found complete
  have flag : 1 ≤ pool.atomicResults slot := by simpa [isSlotComplete, found] using complete
  cases inv.stage slot with
  | idle _ _ result _ _ => omega
  | queued _ _ _ _ _ _ _ _ result _ => omega
  | written _ _ _ _ _ _ result _ _ => omega
  | signaled number ops _ _ wrote => exact ⟨number, ops, wrote⟩

theorem careful_unmixed (before after : Pool) (action : Action) (inv : Inv before) (careful : Careful before action)
    (taken : step before action = some after) : Unmixed before action after := by
  refine ⟨?_, ?_, inv_complete_written after (step_inv before after action inv careful taken)⟩
  · rintro slotIdx streamId message slot rfl found occupied
    exact absurd (careful.2 slot found).free occupied
  · rintro index work nic slot number rfl ran wrote
    obtain ⟨other, same, fired⟩ := fire_fired_on before after index taken
    rw [ran] at same
    obtain ⟨rfl, rfl⟩ : work = other ∧ nic = after.nic := by simpa using same
    cases fired_stage before after work.triggering.1 work fired (inv.stage work.triggering.1) with
    | rma number' message same ops armed stage =>
        rw [same] at wrote
        obtain ⟨rfl, rfl⟩ : slot = work.triggering.1 ∧ number = number' := by
          simpa [writtenBy, slotRma, rmaDwqWork] using wrote
        rw [armed]
        exact Nat.lt_succ_self number
    | atomic _ signal same target stage =>
        rw [same] at wrote
        simp [writtenBy, slotAtomic, atomicDwqWork] at wrote

end OpenGda.CounterPool
