import OpenGda.Ofi.Fabric

set_option autoImplicit false

-- put() and put_with_signal() of fabric.hpp on one batch: the chained atomic
-- of a signaled put waits for the completion counter, not for its own write.
namespace OpenGda.FabricSignal

open DeferredWork Machine OpenGda.Ofi OpenGda.Dwq

inductive Cntr where
  | trigger
  | completion
  | atomicCompletion
deriving DecidableEq, Repr

-- The one memory region an atomic can hit.
inductive Region where
  | atomicResult
deriving DecidableEq, Repr

-- The ghost tag of a message tells whether put_with_signal() queued it.
abbrev SignalMessage := Message Region Bool

abbrev SignalWork := DwqWork Cntr Region Bool

structure Fabric where
  nic : Nic Cntr SignalMessage
  currentThreshold : Nat
  remoteInfo : UInt64 → Option RemoteInfo
  virtAddrMode : Bool
  localAddrInAv : Nat
  atomicResultAddr : UInt64
  atomicResult : Nat
  pendingOps : List (DwqWorkBuilder Cntr Region Bool)
  -- Trigger kernels on the stream that have yet to store their threshold.
  launched : List Nat
  -- Ghost: what the NIC has run since the counters were reset.
  finished : List SignalWork

def openFabric (remoteInfo : UInt64 → Option RemoteInfo) (virtAddrMode : Bool) (localAddrInAv : Nat)
    (atomicResultAddr : UInt64) : Fabric where
  nic := ⟨fun _ => 0, []⟩
  currentThreshold := 0
  remoteInfo := remoteInfo
  virtAddrMode := virtAddrMode
  localAddrInAv := localAddrInAv
  atomicResultAddr := atomicResultAddr
  atomicResult := 0
  pendingOps := []
  launched := []
  finished := []

-- "value to add (always 1)"
def atomicOperand : Nat := 1

-- The write both put functions prepare; `none` is their exit(1).
def nextWrite (fabric : Fabric) (srcHandle : Handle) (destRank destBufIndex size : Nat) : Option RmaMessage :=
  match fabric.remoteInfo (makeRemoteKey destRank destBufIndex) with
  | none => none
  | some ri =>
      let remoteAddr := if fabric.virtAddrMode then ri.rmaAddr else ri.rmaAddr - ri.baseAddr
      some ⟨srcHandle.buf, srcHandle.mrDesc, size, ri.avAddr, remoteAddr, ri.rmaKey⟩

def put (fabric : Fabric) (srcHandle : Handle) (destRank destBufIndex size : Nat) : Option (Nat × Fabric) :=
  let threshold := fabric.currentThreshold + 1
  match nextWrite fabric srcHandle destRank destBufIndex size with
  | none => none
  | some message =>
      let (dwq, nic) := queueRmaWrite newBuilder fabric.nic message false .trigger .completion threshold
      some (threshold, { fabric with
        nic := nic, currentThreshold := threshold, pendingOps := fabric.pendingOps ++ [dwq] })

def signalMessage (fabric : Fabric) : AtomicMessage Region :=
  ⟨atomicOperand, .atomicResult, if fabric.virtAddrMode then fabric.atomicResultAddr else 0, fabric.localAddrInAv⟩

def putWithSignal (fabric : Fabric) (srcHandle : Handle) (destRank destBufIndex size : Nat) :
    Option (Nat × Fabric) :=
  let threshold := fabric.currentThreshold + 1
  match nextWrite fabric srcHandle destRank destBufIndex size with
  | none => none
  | some message =>
      let (dwq, nic) := queueRmaWrite newBuilder fabric.nic message true .trigger .completion threshold
      let (dwq, nic) := queueAtomicSignal dwq nic (signalMessage fabric) true .completion .atomicCompletion threshold
      some (threshold, { fabric with
        nic := nic, currentThreshold := threshold, pendingOps := fabric.pendingOps ++ [dwq] })

def trigger (fabric : Fabric) (threshold : Nat) : Fabric :=
  { fabric with launched := fabric.launched ++ [threshold] }

-- The oldest trigger kernel on the stream runs: *trigger_addr = threshold.
def triggerKernel (fabric : Fabric) : Option Fabric :=
  match fabric.launched with
  | [] => none
  | threshold :: rest => some { fabric with nic := setCounter fabric.nic .trigger threshold, launched := rest }

def resetCounters (fabric : Fabric) : Fabric :=
  { fabric with
    nic := setCounter (setCounter fabric.nic .trigger 0) .completion 0
    currentThreshold := 0
    pendingOps := []
    finished := [] }

def resetAtomicResult (fabric : Fabric) : Fabric := { fabric with atomicResult := 0 }

def fireWork (fabric : Fabric) (index : Nat) : Option Fabric :=
  (fire fabric.nic index).map fun (work, nic) => { fabric with
    nic := nic
    atomicResult := fabric.atomicResult + atomicGain .atomicResult work
    finished := fabric.finished ++ [work] }

inductive Call where
  | put (srcHandle : Handle) (destRank destBufIndex size : Nat)
  | putWithSignal (srcHandle : Handle) (destRank destBufIndex size : Nat)
deriving DecidableEq, Repr

def Call.signaled : Call → Bool
  | .put _ _ _ _ => false
  | .putWithSignal _ _ _ _ => true

def Call.write (fabric : Fabric) : Call → Option RmaMessage
  | .put srcHandle destRank destBufIndex size => nextWrite fabric srcHandle destRank destBufIndex size
  | .putWithSignal srcHandle destRank destBufIndex size => nextWrite fabric srcHandle destRank destBufIndex size

def queueCall (fabric : Fabric) : Call → Option (Nat × Fabric)
  | .put srcHandle destRank destBufIndex size => put fabric srcHandle destRank destBufIndex size
  | .putWithSignal srcHandle destRank destBufIndex size => putWithSignal fabric srcHandle destRank destBufIndex size

-- The calls of one batch, those made so far kept as ghost state.
structure Batch where
  fabric : Fabric
  made : List Call
  todo : List Call

inductive Turn where
  | host
  | trigger (threshold : Nat)
  | triggerKernel
  | fire (index : Nat)
deriving DecidableEq, Repr

def batchStep (batch : Batch) : Turn → Option Batch
  | .host =>
      match batch.todo with
      | [] => none
      | call :: rest => (queueCall batch.fabric call).map fun (_, fabric) =>
          { fabric := fabric, made := batch.made ++ [call], todo := rest }
  | .trigger threshold => some { batch with fabric := trigger batch.fabric threshold }
  | .triggerKernel => (triggerKernel batch.fabric).map fun fabric => { batch with fabric := fabric }
  | .fire index => (fireWork batch.fabric index).map fun fabric => { batch with fabric := fabric }

-- A trigger value never exceeds the last threshold returned.
def inRange (batch : Batch) : Turn → Prop
  | .host => True
  | .trigger threshold => threshold ≤ batch.fabric.currentThreshold
  | .triggerKernel => True
  | .fire _ => True

instance (batch : Batch) (turn : Turn) : Decidable (inRange batch turn) :=
  match turn with
  | .host => isTrue trivial
  | .trigger _ => inferInstanceAs (Decidable (_ ≤ _))
  | .triggerKernel => isTrue trivial
  | .fire _ => isTrue trivial

def startBatch (fabric : Fabric) (calls : List Call) : Batch := ⟨resetAtomicResult (resetCounters fabric), [], calls⟩

structure Quiescent (fabric : Fabric) : Prop where
  pending : fabric.nic.pending = []
  launched : fabric.launched = []

def isWrite (work : SignalWork) : Bool :=
  match work.op with
  | .write (.rma _ _) => true
  | .write (.atomic _ _) => false
  | .cntrAdd _ _ => false

def isSignaledWrite (work : SignalWork) : Bool :=
  match work.op with
  | .write (.rma _ signaled) => signaled
  | .write (.atomic _ _) => false
  | .cntrAdd _ _ => false

def isAtomic (work : SignalWork) : Bool :=
  match work.op with
  | .write (.rma _ _) => false
  | .write (.atomic _ _) => true
  | .cntrAdd _ _ => false

structure Batch.Honest (batch : Batch) : Prop where
  counted : batch.fabric.atomicResult ≤ batch.fabric.finished.countP isSignaledWrite
  complete : batch.fabric.atomicResult = batch.made.countP Call.signaled →
    ∀ work ∈ batch.fabric.nic.pending, isSignaledWrite work = false

def Call.known (fabric : Fabric) (call : Call) : Bool := (call.write fabric).isSome

-- No put() after a put_with_signal(), up to the call that exits.
def PutsFirst (fabric : Fabric) (calls : List Call) : Prop :=
  (calls.takeWhile (Call.known fabric)).Pairwise fun earlier later => earlier.signaled = true → later.signaled = true

instance (fabric : Fabric) (calls : List Call) : Decidable (PutsFirst fabric calls) :=
  inferInstanceAs (Decidable (List.Pairwise _ _))

end OpenGda.FabricSignal
