import OpenGda.Ofi.Fabric

set_option autoImplicit false

-- gicc::Runtime of ofi_runtime.hpp with the device calls of ofi_device.cuh, over
-- the Fabric it owns: batches of puts, each with a slot of the completion pool.
namespace OpenGda.Rt

open DeferredWork Machine
open Ofi (Fabric RmaWrite CntrWork Handle RemoteInfo makeRemoteKey setRemoteInfoByIndex)

def poolSize : Nat := 32

structure OfiBuffer where
  ptr : Nat
  desc : Nat
  key : UInt64
  addr : UInt64
deriving DecidableEq, Repr

structure Buffer where
  ptr : Nat
  size : Nat
  addr : UInt64
  lkey : UInt32
  rkey : UInt32
  index : Nat
deriving DecidableEq, Repr

structure RemoteBufferInfo where
  addr : UInt64
  rkey : UInt32
deriving DecidableEq, Repr

structure BufMeta where
  addr : UInt64
  key : UInt64
deriving DecidableEq, Repr

-- Identifies an operation by its slot.
structure Token where
  slotIdx : Nat
deriving DecidableEq, Repr

-- The deferred write of put_no_db, on the shared trigger counter, and the atomic
-- chained to it, on the slot's completion counter with threshold 1. `batch` is
-- ghost: the number of reset() calls before it was queued.
structure SlotWrite where
  slot : Nat
  threshold : Nat
  write : RmaWrite
  batch : Nat
deriving DecidableEq, Repr

structure SlotAtomic where
  slot : Nat
  threshold : Nat
  batch : Nat
deriving DecidableEq, Repr

-- The one DeviceCtx of a Runtime; completion_ is the slot pool or null. Ghost: the
-- batch in which it was filled, and how many writes that batch had queued by then.
structure DeviceCtx where
  triggerVal : Nat
  completion : Bool
  nOps : Nat
  batch : Nat
  queued : Nat
deriving DecidableEq, Repr

inductive Thread where
  | entering
  | polling (slot : Nat)
  | returned
deriving DecidableEq, Repr

-- A kernel that has called quiet(). Ghost: what the prepare() that returned its
-- context has counted, and in which batch.
structure Quiet where
  threads : List Thread
  prepared : Bool
  counted : Nat
  batch : Nat
deriving DecidableEq, Repr

-- `writes` and `atomics` are what the NIC holds of this Runtime, next to the
-- Fabric's own deferred work; `flushes` and `triggers` are ghost: the contexts
-- flushed so far and the thresholds given to Fabric::trigger.
structure Runtime where
  fabric : Fabric
  localBufs : List OfiBuffer
  nOps : Nat
  atomicSignalsQueued : Bool
  completionCntr : Nat → Nat
  atomicCompletionCntr : Nat → Nat
  slotPool : Nat → Nat
  devCtx : DeviceCtx
  writes : List SlotWrite
  atomics : List SlotAtomic
  quiet : Option Quiet
  batch : Nat
  flushes : List DeviceCtx
  triggers : List Nat

def openRuntime (avAddrs : Nat → Nat) (virtAddrMode : Bool) : Runtime where
  fabric := Ofi.openFabric avAddrs virtAddrMode
  localBufs := []
  nOps := 0
  atomicSignalsQueued := false
  completionCntr := fun _ => 0
  atomicCompletionCntr := fun _ => 0
  slotPool := fun _ => 0
  devCtx := ⟨0, false, 0, 0, 0⟩
  writes := []
  atomics := []
  quiet := none
  batch := 0
  flushes := []
  triggers := []

def registerBuffer (rt : Runtime) (buf size desc : Nat) (key : UInt64) : Buffer × Runtime :=
  let idx := rt.localBufs.length
  (⟨buf, size, UInt64.ofNat buf, UInt32.ofNat idx, key.toUInt32, idx⟩,
    { rt with localBufs := rt.localBufs ++ [⟨buf, desc, key, UInt64.ofNat buf⟩] })

def setRemoteInfos (fabric : Fabric) (rank : Nat) (metas : List BufMeta) : Fabric :=
  metas.zipIdx.foldl (fun fabric (entry : BufMeta × Nat) =>
    setRemoteInfoByIndex fabric rank entry.2 entry.1.addr entry.1.key 0) fabric

-- `raw` is what the allgather has returned; `none` is the abort on a count mismatch.
def exchange (rt : Runtime) (raw : List (List BufMeta)) : Option Runtime :=
  if ∀ metas ∈ raw, metas.length = rt.localBufs.length then
    some { rt with
      fabric := raw.zipIdx.foldl (fun fabric (entry : List BufMeta × Nat) =>
        setRemoteInfos fabric entry.2 entry.1) rt.fabric }
  else none

def getRemoteInfo (fabric : Fabric) (destRank bufIndex : Nat) : RemoteInfo :=
  (fabric.remoteInfo (makeRemoteKey destRank bufIndex)).getD ⟨0, 0, 0, 0⟩

def remoteBuffer (fabric : Fabric) (rank bufIndex : Nat) : RemoteBufferInfo :=
  let ri := getRemoteInfo fabric rank bufIndex
  ⟨ri.rmaAddr, ri.rmaKey.toUInt32⟩

def putWrite (fabric : Fabric) (ob : OfiBuffer) (ri : RemoteInfo) (destRank size srcOffset : Nat)
    (dstOffset : UInt64) : RmaWrite where
  buf := ob.ptr + srcOffset
  desc := ob.desc
  size := size
  destAddr := fabric.avAddrs destRank
  remoteAddr := if fabric.virtAddrMode then ri.rmaAddr + dstOffset else (ri.rmaAddr - ri.baseAddr) + dstOffset
  remoteKey := ri.rmaKey
  batch := fabric.batch

-- `none` is an exception or exit(1): no such buffer, pool exhausted, remote info not set.
def putNoDb (rt : Runtime) (src : Buffer) (destRank destBufIndex size srcOffset : Nat) (dstOffset : UInt64) :
    Option (Token × Runtime) :=
  match rt.localBufs[src.index]? with
  | none => none
  | some ob =>
      if poolSize ≤ rt.nOps then none
      else
        let slotIdx := rt.nOps
        let triggerThreshold := rt.nOps + 1
        let ri := getRemoteInfo rt.fabric destRank destBufIndex
        if ri.rmaKey = 0 ∧ ri.rmaAddr = 0 then none
        else
          let write := putWrite rt.fabric ob ri destRank size srcOffset dstOffset
          some (⟨slotIdx⟩, { rt with
            nOps := rt.nOps + 1
            writes := rt.writes ++ [⟨slotIdx, triggerThreshold, write, rt.batch⟩]
            atomics := rt.atomics ++ [⟨slotIdx, 1, rt.batch⟩]
            atomicSignalsQueued := true })

def prepare (rt : Runtime) : Runtime :=
  { rt with
    slotPool := fun slot => if slot < rt.nOps then 0 else rt.slotPool slot
    devCtx := ⟨rt.nOps, true, rt.nOps, rt.batch, rt.nOps⟩ }

def prepareTrigger (rt : Runtime) : Runtime := { rt with devCtx := ⟨rt.nOps, false, 0, rt.batch, rt.nOps⟩ }

def waitOver (rt : Runtime) (tok : Token) : Prop := 1 ≤ rt.completionCntr tok.slotIdx

-- reset() once its two loops are over: it spins before that.
def reset (rt : Runtime) : Option Runtime :=
  if (∀ slot < rt.nOps, 1 ≤ rt.completionCntr slot) ∧
      (rt.atomicSignalsQueued = true → ∀ slot < rt.nOps, 1 ≤ rt.atomicCompletionCntr slot) then
    some { rt with
      fabric := { rt.fabric with nic := setCounter rt.fabric.nic .trigger 0 }
      completionCntr := fun slot => if slot < rt.nOps then 0 else rt.completionCntr slot
      atomicCompletionCntr := fun slot =>
        if slot < rt.nOps ∧ rt.atomicSignalsQueued = true then 0 else rt.atomicCompletionCntr slot
      nOps := 0
      atomicSignalsQueued := false
      batch := rt.batch + 1 }
  else none

-- *ctx->trigger_addr_ = ctx->trigger_val_
def flush (rt : Runtime) : Runtime :=
  { rt with
    fabric := { rt.fabric with nic := setCounter rt.fabric.nic .trigger rt.devCtx.triggerVal }
    flushes := rt.flushes ++ [rt.devCtx] }

def quietReturned (call : Quiet) : Bool := call.threads.all (· == .returned)

-- A kernel of blockDim threads calls quiet(ctx); one such kernel runs at a time.
def startQuiet (rt : Runtime) (blockDim : Nat) : Option Runtime :=
  if blockDim = 0 ∨ rt.quiet.any (fun call => !quietReturned call) then none
  else some { rt with
    quiet := some ⟨List.replicate blockDim .entering, rt.devCtx.completion, rt.devCtx.nOps, rt.devCtx.batch⟩ }

-- One test of a thread inside quiet(), which reads the context anew each time.
def quietThread (rt : Runtime) (place blockDim : Nat) : Thread → Thread
  | .entering => if rt.devCtx.completion then .polling place else .returned
  | .polling slot =>
      if slot < rt.devCtx.nOps then
        if 1 ≤ rt.slotPool slot then .polling (slot + blockDim) else .polling slot
      else .returned
  | .returned => .returned

def quietStep (rt : Runtime) (place : Nat) : Option Runtime :=
  match rt.quiet with
  | some call =>
      match call.threads[place]? with
      | some thread =>
          let after := quietThread rt place call.threads.length thread
          some { rt with quiet := some { call with threads := call.threads.set place after } }
      | none => none
  | none => none

def QuietExits (rt : Runtime) : Prop := rt.devCtx.completion = true → ∀ slot < rt.devCtx.nOps, 1 ≤ rt.slotPool slot

def WriteReady (rt : Runtime) (work : SlotWrite) : Prop := work.threshold ≤ rt.fabric.nic.counters .trigger

def AtomicReady (rt : Runtime) (work : SlotAtomic) : Prop := work.threshold ≤ rt.completionCntr work.slot

instance (rt : Runtime) (work : SlotWrite) : Decidable (WriteReady rt work) := inferInstanceAs (Decidable (_ ≤ _))
instance (rt : Runtime) (work : SlotAtomic) : Decidable (AtomicReady rt work) := inferInstanceAs (Decidable (_ ≤ _))

def completeWrite (rt : Runtime) (index : Nat) : Option Runtime :=
  match rt.writes[index]? with
  | some work =>
      if WriteReady rt work then
        some { rt with
          writes := rt.writes.eraseIdx index
          completionCntr := Function.update rt.completionCntr work.slot (rt.completionCntr work.slot + 1) }
      else none
  | none => none

def completeAtomic (rt : Runtime) (index : Nat) : Option Runtime :=
  match rt.atomics[index]? with
  | some work =>
      if AtomicReady rt work then
        some { rt with
          atomics := rt.atomics.eraseIdx index
          slotPool := Function.update rt.slotPool work.slot (rt.slotPool work.slot + 1)
          atomicCompletionCntr :=
            Function.update rt.atomicCompletionCntr work.slot (rt.atomicCompletionCntr work.slot + 1) }
      else none
  | none => none

inductive Action where
  | registerBuffer (buf size desc : Nat) (key : UInt64)
  | exchange (raw : List (List BufMeta))
  | putNoDb (src : Buffer) (destRank destBufIndex size srcOffset : Nat) (dstOffset : UInt64)
  | prepare
  | prepareTrigger
  | reset
  | flush
  | startQuiet (blockDim : Nat)
  | quietStep (place : Nat)
  | completeWrite (index : Nat)
  | completeAtomic (index : Nat)

def step (rt : Runtime) : Action → Option Runtime
  | .registerBuffer buf size desc key => some (registerBuffer rt buf size desc key).2
  | .exchange raw => exchange rt raw
  | .putNoDb src destRank destBufIndex size srcOffset dstOffset =>
      (putNoDb rt src destRank destBufIndex size srcOffset dstOffset).map Prod.snd
  | .prepare => some (prepare rt)
  | .prepareTrigger => some (prepareTrigger rt)
  | .reset => reset rt
  | .flush => some (flush rt)
  | .startQuiet blockDim => startQuiet rt blockDim
  | .quietStep place => quietStep rt place
  | .completeWrite index => completeWrite rt index
  | .completeAtomic index => completeAtomic rt index

end OpenGda.Rt
