import OpenGda.Lib.Sendrecv
import OpenGda.Mlx5.Peers

set_option autoImplicit false

-- The constructor of gicc::mlx5::GpuComm (gpu_comm.hpp) up to the barrier that ends
-- exchange_and_connect, with what it uses of DevxContext (devx_context.hpp). A verbs
-- call that fails ends the process and is left out.
namespace OpenGda.GpuComm

open Sendrecv
open Mlx5 (Gid)

structure ConnInfo where
  qpn : UInt32
  lid : UInt16
  gid : Gid
  psn : UInt32
  bufAddr : UInt64
  rkey : UInt32
deriving DecidableEq, Repr

abbrev ConnExchange := Mlx5.ConnInfo

structure RemotePeer where
  bufAddr : UInt64
  rkey : UInt32
  qpn : UInt32
  lid : UInt16
  gid : Gid
deriving DecidableEq, Repr

-- What ibv_modify_qp is given for the remote side in RTR; a GRH has its dgid.
structure QpAttr where
  destQpNum : UInt32
  rqPsn : UInt32
  dlid : UInt16
  dgid : Option Gid
deriving DecidableEq, Repr

structure PerPeerQp where
  qpNum : UInt32
  psn : UInt32
  connected : Bool
  remote : RemotePeer
  attr : Option QpAttr
deriving DecidableEq, Repr

variable {size : Nat}

structure Device (size : Nat) where
  lid : UInt16
  gid : Gid
  ethernet : Bool
  qpNum : Fin size → UInt32
  rand : Fin size → UInt32

structure DevxContext (size : Nat) where
  rank : Fin size
  lid : UInt16
  gid : Gid
  ethernet : Bool
  peerQps : Fin size → Option PerPeerQp

abbrev Process (size : Nat) := Prog (Fin size) ConnExchange

def newDevxContext (device : Device size) (rank : Fin size) : DevxContext size :=
  ⟨rank, device.lid, device.gid, device.ethernet, fun _ => none⟩

def createQpForPeer (device : Device size) (ctx : DevxContext size) (peer : Fin size) : DevxContext size :=
  if peer = ctx.rank then ctx
  else
    match ctx.peerQps peer with
    | some _ => ctx
    | none =>
        let pqp : PerPeerQp :=
          { qpNum := device.qpNum peer
            psn := device.rand peer &&& 0xFFFFFF
            connected := false
            remote := ⟨0, 0, 0, 0, Vector.replicate 16 0⟩
            attr := none }
        { ctx with peerQps := Function.update ctx.peerQps peer (some pqp) }

def getLocalInfoForPeer (ctx : DevxContext size) (peer : Fin size) : Process size ConnInfo :=
  match ctx.peerQps peer with
  | none => .exit ("Rank " ++ toString ctx.rank.val ++ ": No QP for peer " ++ toString peer.val ++ "\n")
  | some pqp => .done ⟨pqp.qpNum, ctx.lid, ctx.gid, pqp.psn, 0, 0⟩

def connectToPeer (ctx : DevxContext size) (peer : Fin size) (peerInfo : ConnInfo) : Process size (DevxContext size) :=
  if peer = ctx.rank then .done ctx
  else
    match ctx.peerQps peer with
    | none =>
        .exit ("Rank " ++ toString ctx.rank.val ++ ": No QP for peer " ++ toString peer.val ++ ", create it first\n")
    | some pqp =>
        if pqp.connected then .done ctx
        else
          let joined : PerPeerQp :=
            { pqp with
              remote := ⟨peerInfo.bufAddr, peerInfo.rkey, peerInfo.qpn, peerInfo.lid, peerInfo.gid⟩
              attr := some ⟨peerInfo.qpn, peerInfo.psn, peerInfo.lid,
                if ctx.ethernet = true ∨ peerInfo.lid = 0 then some peerInfo.gid else none⟩
              connected := true }
          .done { ctx with peerQps := Function.update ctx.peerQps peer (some joined) }

def topNeighbor (rank : Fin size) : Fin size :=
  if 0 < rank.val then ⟨rank.val - 1, Nat.lt_of_le_of_lt (Nat.sub_le _ _) rank.isLt⟩
  else ⟨size - 1, Nat.sub_lt rank.pos Nat.one_pos⟩

def bottomNeighbor (rank : Fin size) : Fin size := ⟨(rank.val + 1) % size, Nat.mod_lt _ rank.pos⟩

def createNeighborQps (device : Device size) (ctx : DevxContext size) : DevxContext size :=
  let rank := ctx.rank
  let top := topNeighbor rank
  let bottom := bottomNeighbor rank
  let ctx := if top ≠ rank then createQpForPeer device ctx top else ctx
  if bottom ≠ rank ∧ bottom ≠ top then createQpForPeer device ctx bottom else ctx

def toExchange (info : ConnInfo) : ConnExchange := ⟨info.qpn, info.lid, info.gid, info.psn⟩

def fromExchange (ex : ConnExchange) : ConnInfo := ⟨ex.qpn, ex.lid, ex.gid, ex.psn, 0, 0⟩

def sendrecv (data : ConnExchange) (peer : Fin size) : Process size ConnExchange := .sendrecv data peer .done

def exchangeWith (ctx : DevxContext size) (peer : Fin size) : Process size (DevxContext size) := do
  let myInfo ← getLocalInfoForPeer ctx peer
  let peerEx ← sendrecv (toExchange myInfo) peer
  connectToPeer ctx peer (fromExchange peerEx)

def exchangeAndConnect (ctx : DevxContext size) : Process size (DevxContext size) := do
  let rank := ctx.rank
  let top := topNeighbor rank
  let bottom := bottomNeighbor rank
  let ctx ← if top ≠ rank then exchangeWith ctx top else pure ctx
  if bottom ≠ rank ∧ bottom ≠ top then exchangeWith ctx bottom else pure ctx

def setup (devices : Fin size → Device size) (rank : Fin size) : DevxContext size :=
  createNeighborQps (devices rank) (newDevxContext (devices rank) rank)

def family (devices : Fin size → Device size) : State (Fin size) ConnExchange (DevxContext size) :=
  start fun rank => exchangeAndConnect (setup devices rank)

end OpenGda.GpuComm
