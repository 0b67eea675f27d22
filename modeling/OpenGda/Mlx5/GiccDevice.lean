import OpenGda.Lib.CheckedReads
import OpenGda.Mlx5.GiccApi
import OpenGda.Mlx5.Quiet

set_option autoImplicit false

-- The device functions of gicc_context.cuh with every element they read of the three
-- fixed-size arrays of a GiccContext, and the host calls that fill these.
namespace OpenGda.GiccDevice

open Machine CheckedReads
open OpenGda.GiccApi (MemoryRegion RemoteBufferInfo BufEntry GlobalState giccMaxBufs giccMaxPeers)
open OpenGda.Mlx5 (DeviceCtx Queue Put)

variable {ranks : Nat}

-- The whole GiccContext: peer_ctxs, null for the rank itself, beside the registry.
structure GiccContext where
  registry : GiccApi.GiccContext
  peerCtxs : Fin giccMaxPeers → Option DeviceCtx

inductive Access where
  | localBufs (i : Nat)
  | remoteBufs (peer i : Nat)
  | peerCtxs (peer : Nat)
deriving DecidableEq, Repr

def Access.Inside : Access → Prop
  | .localBufs i => i < giccMaxBufs
  | .remoteBufs peer i => peer < giccMaxPeers ∧ i < giccMaxBufs
  | .peerCtxs peer => peer < giccMaxPeers

abbrev Device (Result : Type) := Reads Access Result

def localBuf (ctx : GiccContext) (i : Nat) : Device BufEntry :=
  readAt (.localBufs i) (if inside : i < giccMaxBufs then some (ctx.registry.localBufs ⟨i, inside⟩) else none)

def remoteBuf (ctx : GiccContext) (peer i : Nat) : Device RemoteBufferInfo :=
  readAt (.remoteBufs peer i) (if inside : peer < giccMaxPeers ∧ i < giccMaxBufs then
    some (ctx.registry.remoteBufs ⟨peer, inside.1⟩ ⟨i, inside.2⟩) else none)

def peerCtx (ctx : GiccContext) (peer : Nat) : Device (Option DeviceCtx) :=
  readAt (.peerCtxs peer) (if inside : peer < giccMaxPeers then some (ctx.peerCtxs ⟨peer, inside⟩) else none)

-- The sum of base and size is one of uint64_t.
def Covers (base size addr : Nat) : Prop := base ≤ addr ∧ addr < (base + size) % 2 ^ 64

instance (base size addr : Nat) : Decidable (Covers base size addr) := inferInstanceAs (Decidable (_ ∧ _))

def lookLkey (ctx : GiccContext) (addr i : Nat) : Device (Option UInt32) := do
  let entry ← localBuf ctx i
  if Covers entry.addr entry.size addr then return some entry.lkey else return none

def findLkey (ctx : GiccContext) (addr : Nat) : Device UInt32 :=
  search (lookLkey ctx addr) 0 (List.range ctx.registry.numLocalBufs)

def lookRkey (ctx : GiccContext) (peer addr i : Nat) : Device (Option UInt32) := do
  let remote ← remoteBuf ctx peer i
  let own ← localBuf ctx i
  if Covers remote.addr own.size addr then
    let hit ← remoteBuf ctx peer i
    return some hit.rkey
  else return none

def findRkey (ctx : GiccContext) (peer addr : Nat) : Device UInt32 :=
  search (lookRkey ctx peer addr) 0 (List.range ctx.registry.numLocalBufs)

abbrev Queues := Nat → Queue

-- What a gda_ function does with the context it is given, or a fault where that is null.
def onPeer {Result : Type} (qp : Option DeviceCtx) (call : DeviceCtx → Result) : Device Result :=
  ⟨[], qp.map call⟩

def putWith (write : DeviceCtx → Queue → Put → Queue) (ctx : GiccContext) (queues : Queues) (dst src : Nat)
    (size : BitVec 32) (peer : Nat) (signaled : Bool) : Device Queues := do
  let lkey ← findLkey ctx src
  let rkey ← findRkey ctx peer dst
  let qp ← peerCtx ctx peer
  onPeer qp fun qp => Function.update queues peer (write qp (queues peer)
    ⟨BitVec.ofNat 64 src, lkey.toBitVec, BitVec.ofNat 64 dst, rkey.toBitVec, size, signaled⟩)

def put := putWith Mlx5.rdmaWriteOpt

def putNoDb := putWith Mlx5.rdmaWriteNoDb

def flush (ctx : GiccContext) (queues : Queues) (peer : Nat) : Device Queues := do
  let qp ← peerCtx ctx peer
  onPeer qp fun qp => Function.update queues peer (Mlx5.flushDoorbell qp (queues peer))

-- Whether gda_quiet gets through with the queue as it is: it spins until it does.
def quiet (ctx : GiccContext) (queues : Queues) (peer : Nat) : Device Bool := do
  let qp ← peerCtx ctx peer
  onPeer qp fun qp => decide (Mlx5.quietReturns qp (queues peer))

inductive Call (ranks : Nat) where
  | findLkey (addr : Nat)
  | findRkey (peer : Fin ranks) (addr : Nat)
  | put (dst src : Nat) (size : BitVec 32) (peer : Fin ranks) (signaled : Bool)
  | putNoDb (dst src : Nat) (size : BitVec 32) (peer : Fin ranks) (signaled : Bool)
  | flush (peer : Fin ranks)
  | quiet (peer : Fin ranks)

def InBounds (ctx : GiccContext) (queues : Queues) : Call ranks → Prop
  | .findLkey addr => Within Access.Inside (findLkey ctx addr)
  | .findRkey peer addr => Within Access.Inside (findRkey ctx peer.val addr)
  | .put dst src size peer signaled => Within Access.Inside (put ctx queues dst src size peer.val signaled)
  | .putNoDb dst src size peer signaled => Within Access.Inside (putNoDb ctx queues dst src size peer.val signaled)
  | .flush peer => Within Access.Inside (flush ctx queues peer.val)
  | .quiet peer => Within Access.Inside (quiet ctx queues peer.val)

-- The number of the QP made for a peer, and whether its d_cq_buf is there.
structure DevxQp where
  qpn : BitVec 32
  dCqBuf : Bool
deriving DecidableEq, Repr

-- prepare(peer, 0), with the QP made for the peer (depths 256 and 512); `none` where no
-- first buffer of the peer is known.
def prepareFirst (rt : GiccApi.Runtime ranks) (qps : Fin ranks → DevxQp) (peer : Fin ranks) : Option DeviceCtx :=
  (rt.remoteBufs.bind fun remote => (remote peer)[0]?).map fun info =>
    Mlx5.prepare (qps peer).qpn 8 512 ⟨BitVec.ofNat 64 info.addr, info.rkey.toBitVec⟩ (qps peer).dCqBuf

structure HostReads (rt : GiccApi.Runtime ranks) (qps : Fin ranks → DevxQp) (peer : Fin ranks) : Prop where
  entries : ∀ b < rt.localBufs.length, b < giccMaxBufs → (rt.remoteBufs.bind fun remote => (remote peer)[b]?).isSome = true
  first : peer ≠ rt.rank → (prepareFirst rt qps peer).isSome = true

instance (rt : GiccApi.Runtime ranks) (qps : Fin ranks → DevxQp) (peer : Fin ranks) :
    Decidable (HostReads rt qps peer) :=
  decidable_of_iff ((∀ b < rt.localBufs.length, b < giccMaxBufs →
      (rt.remoteBufs.bind fun remote => (remote peer)[b]?).isSome = true) ∧
    (peer ≠ rt.rank → (prepareFirst rt qps peer).isSome = true))
    ⟨fun ⟨entries, first⟩ => ⟨entries, first⟩, fun ⟨entries, first⟩ => ⟨entries, first⟩⟩

def buildContext (rt : GiccApi.Runtime ranks) (qps : Fin ranks → DevxQp) : Option GiccContext :=
  if ∀ peer : Fin ranks, peer.val < giccMaxPeers → HostReads rt qps peer then
    (GiccApi.buildContext rt).map fun registry =>
      { registry := registry
        peerCtxs := fun peer =>
          if inside : peer.val < ranks then
            if ⟨peer.val, inside⟩ = rt.rank then none else prepareFirst rt qps ⟨peer.val, inside⟩
          else none }
  else none

-- What the ranks do to their registries: register_buffer and free are of one rank,
-- exchange and gicc::malloc of all.
inductive HostOp (ranks : Nat) where
  | registerBuffer (rank : Fin ranks) (mr : MemoryRegion)
  | exchange
  | malloc (given : Fin ranks → MemoryRegion)
  | free (rank : Fin ranks) (ptr : Nat)

def exchange (states : Fin ranks → GlobalState ranks) : Option (Fin ranks → GlobalState ranks) :=
  let exchanged := fun rank => GiccApi.exchange (fun peer => (states peer).rt) (states rank).rt
  if ∀ rank, (exchanged rank).isSome = true then
    some fun rank => { states rank with rt := (exchanged rank).getD (states rank).rt }
  else none

def hostStep (states : Fin ranks → GlobalState ranks) : HostOp ranks → Option (Fin ranks → GlobalState ranks)
  | .registerBuffer rank mr =>
      some (Function.update states rank { states rank with rt := (GiccApi.registerBuffer (states rank).rt mr).1 })
  | .exchange => exchange states
  | .malloc given => GiccApi.malloc states given
  | .free rank ptr => some (Function.update states rank (GiccApi.free (states rank) ptr))

def HostOp.registers (rank : Fin ranks) : HostOp ranks → Bool
  | .registerBuffer party _ => decide (party = rank)
  | .malloc _ => true
  | .exchange | .free _ _ => false

def registrations (rank : Fin ranks) (ops : List (HostOp ranks)) : Nat := ops.countP (·.registers rank)

end OpenGda.GiccDevice
