import OpenGda.Lib.Tables
import OpenGda.Lib.Machine

set_option autoImplicit false

-- gicc::malloc, free and context (gicc_api.hpp) over the buffer registry of the Runtime
-- (mlx5_runtime.hpp), and the key lookups of gicc_context.cuh.
namespace OpenGda.GiccApi

open Machine

def giccMaxBufs : Nat := 16

def giccMaxPeers : Nat := 64

variable {ranks : Nat}

structure MemoryRegion where
  buf : Nat
  size : Nat
  lkey : UInt32
  rkey : UInt32
deriving DecidableEq, Repr

structure RemoteBufferInfo where
  addr : Nat
  rkey : UInt32
deriving DecidableEq, Repr

structure BufEntry where
  addr : Nat
  size : Nat
  lkey : UInt32
  rkey : UInt32
deriving DecidableEq, Repr

structure GiccContext where
  myRank : Nat
  numPeers : Nat
  localBufs : Fin giccMaxBufs → BufEntry
  numLocalBufs : Nat
  remoteBufs : Fin giccMaxPeers → Fin giccMaxBufs → RemoteBufferInfo

-- Before the first exchange() there are no remote_bufs_ at all.
structure Runtime (ranks : Nat) where
  rank : Fin ranks
  localBufs : List MemoryRegion
  remoteBufs : Option (Fin ranks → List RemoteBufferInfo)

structure GlobalState (ranks : Nat) where
  rt : Runtime ranks
  dCtx : Option GiccContext
  allocs : List Nat
  bufIndices : List Nat
  ctxDirty : Bool

def init (rank : Fin ranks) : GlobalState ranks := ⟨⟨rank, [], none⟩, none, [], [], true⟩

def registerBuffer (rt : Runtime ranks) (mr : MemoryRegion) : Runtime ranks × Nat :=
  ({ rt with localBufs := rt.localBufs ++ [mr] }, rt.localBufs.length)

-- What all ranks have passed to the allgather; other counts than one's own abort.
def exchange (family : Fin ranks → Runtime ranks) (rt : Runtime ranks) : Option (Runtime ranks) :=
  if ∀ rank, (family rank).localBufs.length = rt.localBufs.length then
    some { rt with remoteBufs := some fun rank => (family rank).localBufs.map fun mr => ⟨mr.buf, mr.rkey⟩ }
  else none

-- `mr` is what cudaMalloc and ibv_reg_mr give the rank.
def mallocBefore (state : GlobalState ranks) (mr : MemoryRegion) : GlobalState ranks × Nat :=
  let (rt, index) := registerBuffer state.rt mr
  ({ state with rt := rt }, index)

def mallocAfter (state : GlobalState ranks) (rt : Runtime ranks) (ptr index : Nat) : GlobalState ranks :=
  { state with
    rt := rt
    allocs := state.allocs ++ [ptr]
    bufIndices := state.bufIndices ++ [index]
    ctxDirty := true }

def malloc (states : Fin ranks → GlobalState ranks) (given : Fin ranks → MemoryRegion) :
    Option (Fin ranks → GlobalState ranks) :=
  let registered := fun rank => mallocBefore (states rank) (given rank)
  let exchanged := fun rank => exchange (fun peer => (registered peer).1.rt) (registered rank).1.rt
  if ∀ rank, (exchanged rank).isSome = true then
    some fun rank =>
      mallocAfter (registered rank).1 ((exchanged rank).getD (registered rank).1.rt) (given rank).buf (registered rank).2
  else none

def free (state : GlobalState ranks) (ptr : Nat) : GlobalState ranks :=
  let place := state.allocs.idxOf ptr
  if place < state.allocs.length then
    { state with
      allocs := state.allocs.eraseIdx place
      bufIndices := state.bufIndices.eraseIdx place
      ctxDirty := true }
  else state

def noEntry : BufEntry := ⟨0, 0, 0, 0⟩

def noRemote : RemoteBufferInfo := ⟨0, 0⟩

-- The DeviceCtx of each other peer reads its first buffer, so without an exchange()
-- before it there is no way through.
def buildContext (rt : Runtime ranks) : Option GiccContext :=
  let num := rt.localBufs.length
  let entry := fun i : Fin giccMaxBufs =>
    match rt.localBufs[i.val]? with
    | none => noEntry
    | some mr => ⟨mr.buf, mr.size, mr.lkey, mr.rkey⟩
  match rt.remoteBufs with
  | none =>
      if ∀ peer, peer = rt.rank then some ⟨rt.rank.val, ranks, entry, num, fun _ _ => noRemote⟩ else none
  | some remote =>
      some ⟨rt.rank.val, ranks, entry, num, fun peer i =>
        if inside : peer.val < ranks then ((remote ⟨peer.val, inside⟩)[i.val]?).getD noRemote else noRemote⟩

def context (state : GlobalState ranks) : Option (GlobalState ranks × GiccContext) :=
  match state.ctxDirty, state.dCtx with
  | false, some ctx => some (state, ctx)
  | _, _ => (buildContext state.rt).map fun ctx => ({ state with dCtx := some ctx, ctxDirty := false }, ctx)

-- No allocation of this pointer is the inner `none`, a missing remote buffer the outer.
def remotePtr (state : GlobalState ranks) (localPtr : Nat) (peer : Fin ranks) : Option (Option Nat) :=
  match state.bufIndices[state.allocs.idxOf localPtr]? with
  | none => some none
  | some index => ((state.rt.remoteBufs.bind fun remote => (remote peer)[index]?).map fun info => some info.addr)

-- A scan of the first buffers for one that has the address; past an array there is
-- nothing to read.
def scan (range : Nat → Option (Nat × Nat × UInt32)) (addr : Nat) : List Nat → Option UInt32
  | [] => some 0
  | i :: rest =>
      match range i with
      | none => none
      | some (base, size, key) => if base ≤ addr ∧ addr < (base + size) % 2 ^ 64 then some key else scan range addr rest

def findLkey (ctx : GiccContext) (addr : Nat) : Option UInt32 :=
  scan (fun i => if inside : i < giccMaxBufs then
    some ((ctx.localBufs ⟨i, inside⟩).addr, (ctx.localBufs ⟨i, inside⟩).size, (ctx.localBufs ⟨i, inside⟩).lkey) else none)
    addr (List.range ctx.numLocalBufs)

-- The sizes are those of the own buffers.
def findRkey (ctx : GiccContext) (peer addr : Nat) : Option UInt32 :=
  scan (fun i => if inside : i < giccMaxBufs then
    if known : peer < giccMaxPeers then
      some ((ctx.remoteBufs ⟨peer, known⟩ ⟨i, inside⟩).addr, (ctx.localBufs ⟨i, inside⟩).size,
        (ctx.remoteBufs ⟨peer, known⟩ ⟨i, inside⟩).rkey) else none else none)
    addr (List.range ctx.numLocalBufs)

end OpenGda.GiccApi
