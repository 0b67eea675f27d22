import OpenGda.Ofi.Fabric

set_option autoImplicit false

-- CounterPool of counter_pool.hpp: slots of three counters, one work builder
-- and one GPU flag each, reused by operation after operation.
namespace OpenGda.CounterPool

open DeferredWork Machine OpenGda.Dwq

def poolSize : Nat := 6

abbrev SlotIndex := Fin poolSize

inductive CntrKind where
  | trigger
  | completion
  | atomicCompletion
deriving DecidableEq, Repr

abbrev Cntr := SlotIndex × CntrKind

-- Ghost: the slot an operation was queued on and its number there.
abbrev Tag := SlotIndex × Nat

abbrev PoolWork := DwqWork Cntr SlotIndex Tag

-- The two addresses of the source's SlotState are the slot's own counter and flag.
structure SlotState where
  streamId : Int
  readyForTrigger : Bool
deriving DecidableEq, Repr

structure Pool where
  nic : Nic Cntr (Message SlotIndex Tag)
  virtAddrMode : Bool
  localAddrInAv : Nat
  atomicResultAddrs : SlotIndex → UInt64
  dwqBuilders : SlotIndex → DwqWorkBuilder Cntr SlotIndex Tag
  atomicResults : SlotIndex → Nat
  slotStates : SlotIndex → SlotState
  -- The rest is ghost. How many operations each slot was given, and how many of them before its
  -- last trigger;
  queuedOps : SlotIndex → Nat
  triggeredOps : SlotIndex → Nat
  -- the operations whose RMA write has completed;
  written : List Tag
  -- and whether is_slot_complete() has returned true since the last reset.
  reported : SlotIndex → Bool

-- Every operand is initialised to 1.
def atomicOperand : Nat := 1

def initPool (virtAddrMode : Bool) (localAddrInAv : Nat) (atomicResultAddrs : SlotIndex → UInt64) : Pool where
  nic := ⟨fun _ => 0, []⟩
  virtAddrMode := virtAddrMode
  localAddrInAv := localAddrInAv
  atomicResultAddrs := atomicResultAddrs
  dwqBuilders := fun _ => newBuilder
  atomicResults := fun _ => 0
  slotStates := fun _ => ⟨-1, false⟩
  queuedOps := fun _ => 0
  triggeredOps := fun _ => 0
  written := []
  reported := fun _ => false

-- The test `slot_idx < 0 || slot_idx >= POOL_SIZE` that every function begins with.
def slotIndex (slotIdx : Int) : Option SlotIndex :=
  if inRange : 0 ≤ slotIdx ∧ slotIdx < poolSize then some ⟨slotIdx.toNat, by omega⟩ else none

def resetSlot (pool : Pool) (slotIdx : Int) : Pool :=
  match slotIndex slotIdx with
  | none => pool
  | some slot =>
      { pool with
        nic := setCounter (setCounter (setCounter pool.nic (slot, .trigger) 0) (slot, .completion) 0)
          (slot, .atomicCompletion) 0
        atomicResults := Function.update pool.atomicResults slot 0
        slotStates := Function.update pool.slotStates slot ⟨-1, false⟩
        reported := Function.update pool.reported slot false }

def atomicMessage (pool : Pool) (slot : SlotIndex) : AtomicMessage SlotIndex :=
  ⟨atomicOperand, slot, if pool.virtAddrMode then pool.atomicResultAddrs slot else 0, pool.localAddrInAv⟩

def queueOperation (pool : Pool) (slotIdx streamId : Int) (message : RmaMessage) : Bool × Pool :=
  match slotIndex slotIdx with
  | none => (false, pool)
  | some slot =>
      let tag := (slot, pool.queuedOps slot)
      let (builder, nic) := queueRmaWrite (pool.dwqBuilders slot) pool.nic message tag
        (slot, .trigger) (slot, .completion) 1
      let (builder, nic) := queueAtomicSignal builder nic (atomicMessage pool slot) tag
        (slot, .completion) (slot, .atomicCompletion) 1
      (true, { pool with
        nic := nic
        dwqBuilders := Function.update pool.dwqBuilders slot builder
        slotStates := Function.update pool.slotStates slot ⟨streamId, true⟩
        queuedOps := Function.update pool.queuedOps slot (pool.queuedOps slot + 1) })

def isSlotComplete (pool : Pool) (slotIdx : Int) : Bool :=
  match slotIndex slotIdx with
  | none => false
  | some slot => decide (1 ≤ pool.atomicResults slot)

-- A kernel stores 1 to the slot's dev_trigger_addr.
def triggerSlot (pool : Pool) (slot : SlotIndex) : Pool :=
  { pool with
    nic := setCounter pool.nic (slot, .trigger) 1
    triggeredOps := Function.update pool.triggeredOps slot (pool.queuedOps slot) }

def writtenBy (work : PoolWork) : List Tag :=
  match work.op with
  | .write (.rma _ tag) => [tag]
  | .write (.atomic _ _) => []
  | .cntrAdd _ _ => []

def fireWork (pool : Pool) (index : Nat) : Option Pool :=
  (fire pool.nic index).map fun (work, nic) => { pool with
    nic := nic
    atomicResults := fun slot => pool.atomicResults slot + atomicGain slot work
    written := pool.written ++ writtenBy work }

inductive Action where
  | queueOperation (slotIdx streamId : Int) (message : RmaMessage)
  | triggerSlot (slot : SlotIndex)
  | fire (index : Nat)
  | isSlotComplete (slotIdx : Int)
  | resetSlot (slotIdx : Int)
deriving DecidableEq, Repr

def step (pool : Pool) : Action → Option Pool
  | .queueOperation slotIdx streamId message => some (queueOperation pool slotIdx streamId message).2
  | .triggerSlot slot => some (triggerSlot pool slot)
  | .fire index => fireWork pool index
  | .isSlotComplete slotIdx =>
      match slotIndex slotIdx with
      | none => some pool
      | some slot => some { pool with
          reported := Function.update pool.reported slot (pool.reported slot || isSlotComplete pool slotIdx) }
  | .resetSlot slotIdx => some (resetSlot pool slotIdx)

-- reset_slot() is called only where is_slot_complete() has returned true.
def ResetsComplete (pool : Pool) : Action → Prop
  | .resetSlot slotIdx => ∀ slot, slotIndex slotIdx = some slot → pool.reported slot = true
  | .queueOperation _ _ _ => True
  | .triggerSlot _ => True
  | .fire _ => True
  | .isSlotComplete _ => True

def belongs (slot : SlotIndex) (work : PoolWork) : Bool := decide (work.triggering.1 = slot)

structure Fresh (pool : Pool) (slot : SlotIndex) : Prop where
  free : (pool.slotStates slot).streamId = -1
  trigger : pool.nic.counters (slot, .trigger) = 0
  completion : pool.nic.counters (slot, .completion) = 0
  atomicResult : pool.atomicResults slot = 0
  pending : pool.nic.pending.filter (belongs slot) = []

def QueuesFresh (pool : Pool) : Action → Prop
  | .queueOperation slotIdx _ _ => ∀ slot, slotIndex slotIdx = some slot → Fresh pool slot
  | .triggerSlot _ => True
  | .fire _ => True
  | .isSlotComplete _ => True
  | .resetSlot _ => True

def Careful (pool : Pool) (action : Action) : Prop := ResetsComplete pool action ∧ QueuesFresh pool action

def Refused (before : Pool) (action : Action) : Prop :=
  ∀ slotIdx streamId message slot, action = .queueOperation slotIdx streamId message → slotIndex slotIdx = some slot →
    (before.slotStates slot).streamId ≠ -1 →
    (queueOperation before slotIdx streamId message).1 = false ∧
      (queueOperation before slotIdx streamId message).2.slotStates = before.slotStates ∧
      (queueOperation before slotIdx streamId message).2.dwqBuilders = before.dwqBuilders ∧
      (queueOperation before slotIdx streamId message).2.nic = before.nic

-- The write that runs belongs to an operation queued before the last trigger of its slot.
def TriggeredSince (before : Pool) (action : Action) : Prop :=
  ∀ index work nic slot number, action = .fire index → fire before.nic index = some (work, nic) →
    (slot, number) ∈ writtenBy work → number < before.triggeredOps slot

def CompleteWritten (pool : Pool) : Prop :=
  ∀ slotIdx slot, slotIndex slotIdx = some slot → isSlotComplete pool slotIdx = true →
    ∃ number, pool.queuedOps slot = number + 1 ∧ (slot, number) ∈ pool.written

structure Unmixed (before : Pool) (action : Action) (after : Pool) : Prop where
  refused : Refused before action
  triggered : TriggeredSince before action
  complete : CompleteWritten after

end OpenGda.CounterPool
