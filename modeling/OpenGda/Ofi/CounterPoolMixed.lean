import OpenGda.Ofi.CounterPoolStages

set_option autoImplicit false

-- What an operation queued on a slot that is not fresh leads to.
namespace OpenGda.CounterPool

open DeferredWork Machine OpenGda.Dwq

theorem fire_ready (pool : Pool) (work : PoolWork) (member : work ∈ pool.nic.pending) (ready : Ready pool.nic work) :
    ∃ index after, step pool (.fire index) = some after ∧ fire pool.nic index = some (work, after.nic) ∧
      FiredOn pool after work.triggering.1 work := by
  obtain ⟨index, within, value⟩ := List.mem_iff_getElem.mp member
  have found : pool.nic.pending[index]? = some work := List.getElem?_eq_some_iff.mpr ⟨within, value⟩
  obtain ⟨nic, ran⟩ : ∃ nic, fire pool.nic index = some (work, nic) := by
    simp [fire, found, ready]
  have taken : step pool (.fire index) = some { pool with
      nic := nic
      atomicResults := fun slot => pool.atomicResults slot + atomicGain slot work
      written := pool.written ++ writtenBy work } := by
    simp [step, fireWork, ran]
  obtain ⟨other, same, fired⟩ := fire_fired_on pool _ index taken
  rw [ran] at same
  obtain ⟨rfl, _⟩ : work = other ∧ True := by simpa using same
  exact ⟨index, _, taken, ran, fired⟩

structure Unwritten (pool : Pool) (slot : SlotIndex) (number : Nat) : Prop where
  ops : pool.queuedOps slot = number + 1
  absent : (slot, number) ∉ pool.written

theorem unwritten_complete (pool : Pool) (slot : SlotIndex) (number : Nat) (slotIdx : Int)
    (found : slotIndex slotIdx = some slot) (unwritten : Unwritten pool slot number)
    (flag : 1 ≤ pool.atomicResults slot) : ¬ CompleteWritten pool := by
  intro complete
  obtain ⟨other, ops, wrote⟩ := complete slotIdx slot found (by simpa [isSlotComplete, found] using flag)
  obtain rfl : other = number := by
    have := unwritten.ops
    omega
  exact unwritten.absent wrote

def LaterMixed (pool : Pool) : Prop :=
  ∃ state action next, Reach step Careful pool state ∧ Careful state action ∧ step state action = some next ∧
    ¬ Unmixed state action next

theorem later_mixed_head (pool next : Pool) (action : Action) (careful : Careful pool action)
    (taken : step pool action = some next) (mixed : LaterMixed next) : LaterMixed pool := by
  obtain ⟨state, last, after, reached, permitted, moved, broken⟩ := mixed
  exact ⟨state, last, after, reach_head step Careful pool next state action careful taken reached, permitted, moved,
    broken⟩

theorem atomic_completes (pool : Pool) (slot : SlotIndex) (number owner : Nat) (slotIdx : Int)
    (signal : AtomicMessage SlotIndex) (found : slotIndex slotIdx = some slot)
    (target : signal.operand = 1 ∧ signal.result = slot) (unwritten : Unwritten pool slot number)
    (member : slotAtomic slot owner signal ∈ pool.nic.pending)
    (completion : pool.nic.counters (slot, .completion) ≠ 0) : LaterMixed pool := by
  obtain ⟨index, after, taken, _, fired⟩ :=
    fire_ready pool (slotAtomic slot owner signal) member (Nat.one_le_iff_ne_zero.mpr completion)
  refine ⟨pool, .fire index, after, .start, ⟨trivial, trivial⟩, taken, fun unmixed => ?_⟩
  have still : Unwritten after slot number := by
    refine ⟨by rw [fired.queuedOps, unwritten.ops], ?_⟩
    rw [fired.written]
    simpa [writtenBy, slotAtomic, atomicDwqWork] using unwritten.absent
  refine unwritten_complete after slot number slotIdx found still ?_ unmixed.complete
  rw [fired.results]
  simp [atomicGain, slotAtomic, atomicDwqWork, target]

theorem rma_untriggered (pool : Pool) (slot : SlotIndex) (number : Nat) (message : RmaMessage)
    (member : slotRma slot number message ∈ pool.nic.pending) (trigger : pool.nic.counters (slot, .trigger) ≠ 0)
    (before : pool.triggeredOps slot ≤ number) : LaterMixed pool := by
  obtain ⟨index, after, taken, ran, _⟩ :=
    fire_ready pool (slotRma slot number message) member (Nat.one_le_iff_ne_zero.mpr trigger)
  refine ⟨pool, .fire index, after, .start, ⟨trivial, trivial⟩, taken, fun unmixed => ?_⟩
  have since := unmixed.triggered index (slotRma slot number message) after.nic slot number rfl ran
    (by simp [writtenBy, slotRma, rmaDwqWork])
  omega

theorem two_queued (pool : Pool) (slot : SlotIndex) (number earlier : Nat) (slotIdx : Int) (message : RmaMessage)
    (signal : AtomicMessage SlotIndex) (found : slotIndex slotIdx = some slot)
    (target : signal.operand = 1 ∧ signal.result = slot) (unwritten : Unwritten pool slot number)
    (apart : earlier ≠ number) (memberRma : slotRma slot earlier message ∈ pool.nic.pending)
    (memberAtomic : slotAtomic slot number signal ∈ pool.nic.pending) : LaterMixed pool := by
  refine later_mixed_head pool (triggerSlot pool slot) (.triggerSlot slot) ⟨trivial, trivial⟩ rfl ?_
  have ready : Ready (triggerSlot pool slot).nic (slotRma slot earlier message) := by
    simp [Ready, slotRma, rmaDwqWork, triggerSlot, setCounter]
  obtain ⟨index, after, taken, _, fired⟩ := fire_ready (triggerSlot pool slot) _ memberRma ready
  refine later_mixed_head _ after (.fire index) ⟨trivial, trivial⟩ taken ?_
  refine atomic_completes after slot number number slotIdx signal found target ⟨?_, ?_⟩ ?_ ?_
  · rw [fired.queuedOps]
    exact unwritten.ops
  · rw [fired.written]
    have absent := unwritten.absent
    simp [writtenBy, slotRma, rmaDwqWork, triggerSlot, absent, apart.symm]
  · have own : slotAtomic slot number signal ∈ ownWork (triggerSlot pool slot) slot :=
      List.mem_filter.mpr ⟨memberAtomic, by simp [belongs, slotAtomic, atomicDwqWork]⟩
    rcases List.mem_cons.mp (fired.pending.mem_iff.mp own) with same | kept
    · simp [slotAtomic, slotRma, atomicDwqWork, rmaDwqWork] at same
    · exact List.mem_of_mem_filter kept
  · rw [fired.counters]
    simp [credit, slotRma, rmaDwqWork]

theorem stale_queue_mixes (before after : Pool) (slot : SlotIndex) (slotIdx streamId : Int) (message : RmaMessage)
    (inv : Inv before) (found : slotIndex slotIdx = some slot)
    (taken : step before (.queueOperation slotIdx streamId message) = some after) (stale : ¬ Fresh before slot) :
    ¬ Unmixed before (.queueOperation slotIdx streamId message) after ∨ LaterMixed after := by
  cases taken
  obtain ⟨accepted, queued⟩ := queue_operation_queued before slotIdx streamId message slot found
  obtain ⟨rma, signal, target, pending⟩ := queued.works
  have unwritten : Unwritten (queueOperation before slotIdx streamId message).2 slot (before.queuedOps slot) := by
    refine ⟨by rw [queued.queuedOps, Function.update_self], fun wrote => ?_⟩
    rw [queued.written] at wrote
    exact Nat.lt_irrefl _ (inv.written _ wrote)
  have memberRma : slotRma slot (before.queuedOps slot) rma ∈ (queueOperation before slotIdx streamId message).2.nic.pending := by
    rw [pending]
    simp
  have memberAtomic : slotAtomic slot (before.queuedOps slot) signal ∈
      (queueOperation before slotIdx streamId message).2.nic.pending := by
    rw [pending]
    simp
  by_cases free : (before.slotStates slot).streamId = -1
  case neg =>
    refine .inl fun unmixed => ?_
    have refused := (unmixed.refused slotIdx streamId message slot rfl found free).1
    exact absurd (accepted.symm.trans refused) (by decide)
  by_cases flag : before.atomicResults slot = 0
  case neg =>
    refine .inl fun unmixed => unwritten_complete _ slot _ slotIdx found unwritten ?_ unmixed.complete
    rw [queued.results]
    exact Nat.one_le_iff_ne_zero.mpr flag
  refine .inr ?_
  by_cases trigger : before.nic.counters (slot, .trigger) = 0
  case neg =>
    refine rma_untriggered _ slot _ rma memberRma ?_ ?_
    · rw [queued.counters]
      exact trigger
    · rw [queued.triggeredOps]
      exact inv.triggered slot
  by_cases completion : before.nic.counters (slot, .completion) = 0
  case neg =>
    refine atomic_completes _ slot _ _ slotIdx signal found target unwritten memberAtomic ?_
    rw [queued.counters]
    exact completion
  cases inv.stage slot with
  | idle own _ _ _ _ => exact absurd ⟨free, trigger, completion, flag, own⟩ stale
  | queued number earlier _ ops _ own _ _ _ _ =>
      refine two_queued _ slot _ number slotIdx earlier signal found target unwritten (by omega) ?_ memberAtomic
      rw [pending]
      exact List.mem_append.mpr (.inl (List.mem_of_mem_filter (own.mem_iff.mpr List.mem_cons_self)))
  | written _ _ _ _ _ one _ _ _ => omega
  | signaled _ _ _ one _ => omega

theorem reach_inv (virtAddrMode : Bool) (localAddrInAv : Nat) (atomicResultAddrs : SlotIndex → UInt64) (pool : Pool)
    (reached : Reach step Careful (initPool virtAddrMode localAddrInAv atomicResultAddrs) pool) : Inv pool :=
  reach_invariant step Careful Inv _ pool (init_inv virtAddrMode localAddrInAv atomicResultAddrs) step_inv reached

def StaysUnmixed (pool : Pool) : Prop :=
  ∀ before action after, Reach step Careful pool before → Careful before action → step before action = some after →
    Unmixed before action after

theorem unmixed_iff_fresh (virtAddrMode : Bool) (localAddrInAv : Nat) (atomicResultAddrs : SlotIndex → UInt64) :
    StaysUnmixed (initPool virtAddrMode localAddrInAv atomicResultAddrs) ∧
    ∀ before action after, Reach step Careful (initPool virtAddrMode localAddrInAv atomicResultAddrs) before →
      ResetsComplete before action → step before action = some after →
      ((Unmixed before action after ∧ StaysUnmixed after) ↔ QueuesFresh before action) := by
  have unmixed : StaysUnmixed (initPool virtAddrMode localAddrInAv atomicResultAddrs) := fun before action after reached =>
    careful_unmixed before after action (reach_inv virtAddrMode localAddrInAv atomicResultAddrs before reached)
  refine ⟨unmixed, fun before action after reached complete taken => ⟨fun fine => ?_, fun fresh => ?_⟩⟩
  · have inv := reach_inv virtAddrMode localAddrInAv atomicResultAddrs before reached
    cases action with
    | queueOperation slotIdx streamId message =>
        intro slot found
        by_contra stale
        rcases stale_queue_mixes before after slot slotIdx streamId message inv found taken stale with now | later
        · exact now fine.1
        · obtain ⟨state, action, next, further, careful, moved, broken⟩ := later
          exact broken (fine.2 state action next further careful moved)
    | triggerSlot => trivial
    | fire => trivial
    | isSlotComplete => trivial
    | resetSlot => trivial
  · refine ⟨unmixed before action after reached ⟨complete, fresh⟩ taken, fun state next last further careful moved => ?_⟩
    have first := Reach.step before after action reached ⟨complete, fresh⟩ taken
    exact unmixed state next last (reach_trans step Careful _ after state first further) careful moved

theorem taken_slot_accepted : ¬ ∀ before action after,
    Reach step ResetsComplete (initPool false 0 fun _ => 0) before → ResetsComplete before action →
    step before action = some after → Unmixed before action after := by
  intro claimed
  let message : RmaMessage := ⟨0, 0, 8, 1, 4096, 7⟩
  have first : Reach step ResetsComplete (initPool false 0 fun _ => 0)
      (queueOperation (initPool false 0 fun _ => 0) 0 3 message).2 :=
    .step _ _ (.queueOperation 0 3 message) .start trivial rfl
  have refused := (claimed _ (.queueOperation 0 4 message) _ first trivial rfl).refused 0 4 message ⟨0, by decide⟩ rfl rfl (by decide)
  exact absurd refused.1 (by decide)

end OpenGda.CounterPool
