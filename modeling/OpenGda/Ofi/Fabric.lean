import OpenGda.Lib.DeferredWork

set_option autoImplicit false

-- DwqWorkBuilder of dwq_work_builder.hpp: one RMA write and the atomic that
-- signals it, both handed to the NIC as deferred work.
namespace OpenGda.Dwq

open DeferredWork

structure RmaMessage where
  buf : Nat
  desc : Nat
  size : Nat
  destAddr : Nat
  remoteAddr : UInt64
  remoteKey : UInt64
deriving DecidableEq, Repr

-- FI_SUM of `operand` into the memory region `result`.
structure AtomicMessage (Region : Type) where
  operand : Nat
  result : Region
  resultAddr : UInt64
  targetAddr : Nat
deriving DecidableEq, Repr

-- `tag` is ghost: the operation a message was queued for.
inductive Message (Region Tag : Type) where
  | rma (message : RmaMessage) (tag : Tag)
  | atomic (message : AtomicMessage Region) (tag : Tag)
deriving DecidableEq, Repr

abbrev DwqWork (Counter Region Tag : Type) := Work Counter (Message Region Tag)

structure DwqWorkBuilder (Counter Region Tag : Type) where
  work : Option (DwqWork Counter Region Tag)
  atomicWork : Option (DwqWork Counter Region Tag)
deriving DecidableEq, Repr

section Queue

variable {Counter Region Tag : Type}

def newBuilder : DwqWorkBuilder Counter Region Tag := ⟨none, none⟩

def rmaDwqWork (message : RmaMessage) (tag : Tag) (triggerCntr completionCntr : Counter) (threshold : Nat) :
    DwqWork Counter Region Tag where
  triggering := triggerCntr
  threshold := threshold
  op := .write (.rma message tag)
  completion := some completionCntr

def atomicDwqWork (message : AtomicMessage Region) (tag : Tag) (triggerCntr completionCntr : Counter)
    (threshold : Nat) : DwqWork Counter Region Tag where
  triggering := triggerCntr
  threshold := threshold
  op := .write (.atomic message tag)
  completion := some completionCntr

variable [DecidableEq Counter]

def queueRmaWrite (builder : DwqWorkBuilder Counter Region Tag) (nic : Nic Counter (Message Region Tag))
    (message : RmaMessage) (tag : Tag) (triggerCntr completionCntr : Counter) (threshold : Nat) :
    DwqWorkBuilder Counter Region Tag × Nic Counter (Message Region Tag) :=
  let work := rmaDwqWork message tag triggerCntr completionCntr threshold
  ({ builder with work := some work }, queueWork nic work)

def queueAtomicSignal (builder : DwqWorkBuilder Counter Region Tag) (nic : Nic Counter (Message Region Tag))
    (message : AtomicMessage Region) (tag : Tag) (triggerCntr completionCntr : Counter) (threshold : Nat) :
    DwqWorkBuilder Counter Region Tag × Nic Counter (Message Region Tag) :=
  let work := atomicDwqWork message tag triggerCntr completionCntr threshold
  ({ builder with atomicWork := some work }, queueWork nic work)

end Queue

def atomicGain {Counter Region Tag : Type} [DecidableEq Region] (region : Region)
    (work : DwqWork Counter Region Tag) : Nat :=
  match work.op with
  | .write (.atomic message _) => if message.result = region then message.operand else 0
  | .write (.rma _ _) => 0
  | .cntrAdd _ _ => 0

end OpenGda.Dwq

-- gicc::Fabric of fabric.hpp: puts queued on the NIC's deferred work queue,
-- released by a kernel's store to the trigger counter.
namespace OpenGda.Ofi

open DeferredWork Machine

inductive Cntr where
  | trigger
  | completion
deriving DecidableEq, Repr

-- `batch` is ghost: the number of reset_counters() calls before the write was queued.
structure RmaWrite where
  buf : Nat
  desc : Nat
  size : Nat
  destAddr : Nat
  remoteAddr : UInt64
  remoteKey : UInt64
  batch : Nat
deriving DecidableEq, Repr

abbrev CntrWork := Work Cntr RmaWrite

structure Handle where
  buf : Nat
  mrDesc : Nat
  localDesc : Nat
deriving DecidableEq, Repr

structure RemoteInfo where
  avAddr : Nat
  rmaAddr : UInt64
  rmaKey : UInt64
  baseAddr : UInt64
deriving DecidableEq, Repr

structure Fabric where
  nic : Nic Cntr RmaWrite
  currentThreshold : Nat
  avAddrs : Nat → Nat
  remoteInfo : UInt64 → Option RemoteInfo
  virtAddrMode : Bool
  -- Trigger kernels on the stream that have yet to store their threshold.
  launched : List Nat
  batch : Nat

def openFabric (avAddrs : Nat → Nat) (virtAddrMode : Bool) : Fabric where
  nic := ⟨fun _ => 0, []⟩
  currentThreshold := 0
  avAddrs := avAddrs
  remoteInfo := fun _ => none
  virtAddrMode := virtAddrMode
  launched := []
  batch := 0

def makeRemoteKey (rank bufIndex : Nat) : UInt64 :=
  (UInt64.ofNat rank <<< 48) ||| (UInt64.ofNat bufIndex &&& 0xFFFFFFFFFFFF)

def setRemoteInfoByIndex (fabric : Fabric) (destRank bufIndex : Nat) (remoteAddr remoteKey remoteBaseAddr : UInt64) :
    Fabric :=
  let mapKey := makeRemoteKey destRank bufIndex
  let base := if remoteBaseAddr ≠ 0 then remoteBaseAddr else remoteAddr
  { fabric with
    remoteInfo := Function.update fabric.remoteInfo mapKey
      (some ⟨fabric.avAddrs destRank, remoteAddr, remoteKey, base⟩) }

def rmaWork (write : RmaWrite) (threshold : Nat) : CntrWork where
  triggering := .trigger
  threshold := threshold
  op := .write write
  completion := some .completion

def writebackWork (threshold : Nat) : CntrWork where
  triggering := .completion
  threshold := threshold
  op := .cntrAdd .completion 1
  completion := none

def queueRmaWrite (fabric : Fabric) (buf desc size destAddr : Nat) (remoteAddr remoteKey : UInt64)
    (threshold : Nat) : Fabric :=
  { fabric with
    nic := queueWork fabric.nic
      (rmaWork ⟨buf, desc, size, destAddr, remoteAddr, remoteKey, fabric.batch⟩ threshold) }

def queueCounterWriteback (fabric : Fabric) (threshold : Nat) : Fabric :=
  { fabric with nic := queueWork fabric.nic (writebackWork threshold) }

-- `none` is the exit(1) taken when the remote buffer was never announced.
def put (fabric : Fabric) (srcHandle : Handle) (destRank destBufIndex size : Nat) : Option (Nat × Fabric) :=
  let threshold := fabric.currentThreshold + 1
  let fabric := { fabric with currentThreshold := threshold }
  match fabric.remoteInfo (makeRemoteKey destRank destBufIndex) with
  | none => none
  | some ri =>
      let remoteAddr := if fabric.virtAddrMode then ri.rmaAddr else ri.rmaAddr - ri.baseAddr
      some (threshold,
        queueRmaWrite fabric srcHandle.buf srcHandle.mrDesc size ri.avAddr remoteAddr ri.rmaKey threshold)

def putRaw (fabric : Fabric) (srcHandle : Handle) (destRank : Nat) (remoteAddr remoteKey : UInt64) (size : Nat) :
    Nat × Fabric :=
  let threshold := fabric.currentThreshold + 1
  let fabric := { fabric with currentThreshold := threshold }
  let fabric := queueRmaWrite fabric srcHandle.buf srcHandle.localDesc size (fabric.avAddrs destRank)
    remoteAddr remoteKey threshold
  (threshold, queueCounterWriteback fabric threshold)

def trigger (fabric : Fabric) (threshold : Nat) : Fabric :=
  { fabric with launched := fabric.launched ++ [threshold] }

-- The oldest trigger kernel on the stream runs: *trigger_addr = threshold.
def triggerKernel (fabric : Fabric) : Option Fabric :=
  match fabric.launched with
  | [] => none
  | threshold :: rest => some { fabric with nic := setCounter fabric.nic .trigger threshold, launched := rest }

-- A kernel may store less than the one before it.
def storeTrigger (fabric : Fabric) : Option Fabric := triggerKernel { fabric with nic := releaseReady fabric.nic }

-- The test that ends wait().
def waitOver (fabric : Fabric) (threshold : Nat) : Prop := threshold ≤ fabric.nic.counters .completion

instance (fabric : Fabric) (threshold : Nat) : Decidable (waitOver fabric threshold) :=
  inferInstanceAs (Decidable (_ ≤ _))

def resetCounters (fabric : Fabric) : Fabric :=
  { fabric with
    nic := setCounter (setCounter (releaseReady fabric.nic) .trigger 0) .completion 0
    currentThreshold := 0
    batch := fabric.batch + 1 }

def fireWork (fabric : Fabric) (index : Nat) : Option Fabric :=
  (fireStep fabric.nic index).map fun nic => { fabric with nic := nic }

inductive Call where
  | put (srcHandle : Handle) (destRank destBufIndex size : Nat)
  | putRaw (srcHandle : Handle) (destRank : Nat) (remoteAddr remoteKey : UInt64) (size : Nat)
deriving DecidableEq, Repr

def queueCall (fabric : Fabric) : Call → Option (Nat × Fabric)
  | .put srcHandle destRank destBufIndex size => put fabric srcHandle destRank destBufIndex size
  | .putRaw srcHandle destRank remoteAddr remoteKey size =>
      some (putRaw fabric srcHandle destRank remoteAddr remoteKey size)

inductive Action where
  | call (call : Call)
  | setRemoteInfoByIndex (destRank bufIndex : Nat) (remoteAddr remoteKey remoteBaseAddr : UInt64)
  | trigger (threshold : Nat)
  | resetCounters
  | triggerKernel
  | fire (index : Nat)
deriving DecidableEq, Repr

def step (fabric : Fabric) : Action → Option Fabric
  | .call call => (queueCall fabric call).map Prod.snd
  | .setRemoteInfoByIndex destRank bufIndex remoteAddr remoteKey remoteBaseAddr =>
      some (setRemoteInfoByIndex fabric destRank bufIndex remoteAddr remoteKey remoteBaseAddr)
  | .trigger threshold => some (trigger fabric threshold)
  | .resetCounters => some (resetCounters fabric)
  | .triggerKernel => storeTrigger fabric
  | .fire index => fireWork fabric index

-- A batch: the host queues its calls and launches trigger(T) for the last
-- threshold returned, while kernels and the NIC run at any point in between.
structure Batch where
  fabric : Fabric
  todo : List Call
  lastThreshold : Nat
  triggered : Bool

inductive Turn where
  | host
  | triggerKernel
  | fire (index : Nat)
deriving DecidableEq, Repr

def batchStep (batch : Batch) : Turn → Option Batch
  | .host =>
      match batch.todo with
      | call :: rest => (queueCall batch.fabric call).map fun (threshold, fabric) =>
          { batch with fabric := fabric, todo := rest, lastThreshold := threshold }
      | [] =>
          if batch.triggered then none
          else some { batch with fabric := trigger batch.fabric batch.lastThreshold, triggered := true }
  | .triggerKernel => (storeTrigger batch.fabric).map fun fabric => { batch with fabric := fabric }
  | .fire index => (fireWork batch.fabric index).map fun fabric => { batch with fabric := fabric }

def startBatch (fabric : Fabric) (calls : List Call) : Batch := ⟨resetCounters fabric, calls, 0, false⟩

def Batch.waitReturns (batch : Batch) : Prop :=
  batch.triggered = true ∧ waitOver batch.fabric batch.lastThreshold

def Batch.writesDone (batch : Batch) : Prop :=
  ∀ write threshold, rmaWork write threshold ∈ batch.fabric.nic.pending → write.batch = batch.fabric.batch →
    ¬ threshold ≤ batch.lastThreshold

end OpenGda.Ofi
