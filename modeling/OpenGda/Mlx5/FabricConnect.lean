import OpenGda.Lib.SendrecvLoop
import OpenGda.Mlx5.Peers

set_option autoImplicit false

-- gicc::mlx5::Fabric::exchange_and_connect (comm.hpp) over the QPs of an IbvContext
-- (ibv_context.hpp). A verbs call that fails ends the process and is left out.
namespace OpenGda.MlxFabric

open Machine Sendrecv
open Mlx5 (Gid otherRanks mem_other_ranks)

abbrev IbvConnInfo := Mlx5.ConnInfo

-- What the two ibv_modify_qp of connect_to_peer are given; a GRH has its dgid.
structure QpAttr where
  pathMtu : Nat
  destQpNum : UInt32
  rqPsn : UInt32
  dlid : UInt16
  dgid : Option Gid
  sqPsn : UInt32
deriving DecidableEq, Repr

-- `qp` is the number of the QP, once there is one.
structure IbvPeerQP where
  qp : Option UInt32
  psn : UInt32
  connected : Bool
  remoteInfo : IbvConnInfo
  attr : Option QpAttr
deriving DecidableEq, Repr

structure PortAttr where
  lid : UInt16
  activeMtu : Nat
  ethernet : Bool
deriving DecidableEq, Repr

variable {size : Nat}

structure Device (size : Nat) where
  port : PortAttr
  gid : Gid
  qpNum : Fin size → UInt32
  rand : Fin size → UInt32
  mtuEnv : Option Int

structure IbvContext (size : Nat) where
  rank : Fin size
  portAttr : PortAttr
  gid : Gid
  peerQps : Fin size → IbvPeerQP

abbrev Process (size : Nat) := Prog (Fin size) IbvConnInfo

def IbvContext.setPeerQp (ctx : IbvContext size) (peer : Fin size) (pqp : IbvPeerQP) : IbvContext size :=
  { ctx with peerQps := Function.update ctx.peerQps peer pqp }

def createQpForPeer (device : Device size) (ctx : IbvContext size) (peer : Fin size) : IbvContext size :=
  ctx.setPeerQp peer { ctx.peerQps peer with psn := device.rand peer &&& 0xFFFFFF, qp := some (device.qpNum peer) }

def newPeerQp : IbvPeerQP := ⟨none, 0, false, ⟨0, 0, Vector.replicate 16 0, 0⟩, none⟩

def newIbvContext (device : Device size) (rank : Fin size) : IbvContext size :=
  (List.finRange size).foldl (fun ctx peer => if peer ≠ rank then createQpForPeer device ctx peer else ctx)
    ⟨rank, device.port, device.gid, fun _ => newPeerQp⟩

def getLocalInfo (ctx : IbvContext size) (peer : Fin size) : Option IbvConnInfo :=
  (ctx.peerQps peer).qp.map fun qpNum => ⟨qpNum, ctx.portAttr.lid, ctx.gid, (ctx.peerQps peer).psn⟩

def setPeerInfo (ctx : IbvContext size) (peer : Fin size) (info : IbvConnInfo) : IbvContext size :=
  ctx.setPeerQp peer { ctx.peerQps peer with remoteInfo := info }

def connectToPeer (device : Device size) (ctx : IbvContext size) (peer : Fin size) : IbvContext size :=
  let pqp := ctx.peerQps peer
  if pqp.connected then ctx
  else
    let remote := pqp.remoteInfo
    let attr : QpAttr :=
      { pathMtu := Mlx5.cappedMtu ctx.portAttr.activeMtu device.mtuEnv
        destQpNum := remote.qpn
        rqPsn := remote.psn
        dlid := remote.lid
        dgid := if ctx.portAttr.ethernet = true ∨ remote.lid = 0 then some remote.gid else none
        sqPsn := pqp.psn }
    ctx.setPeerQp peer { pqp with attr := some attr, connected := true }

-- One turn of the first loop; a peer without a QP is a null pointer.
def exchangeWith (ctx : IbvContext size) (peer : Fin size) : Process size (IbvContext size) :=
  match getLocalInfo ctx peer with
  | none => .exit "null qp"
  | some localInfo => .sendrecv localInfo peer fun peerInfo => .done (setPeerInfo ctx peer peerInfo)

def connectAll (device : Device size) (rank : Fin size) (ctx : IbvContext size) : IbvContext size :=
  (List.finRange size).foldl (fun ctx peer => if peer = rank then ctx else connectToPeer device ctx peer) ctx

-- Between its two loops and after them everybody waits for the others.
def exchangeAndConnect (device : Device size) (rank : Fin size) (ctx : IbvContext size) :
    Process size (IbvContext size) :=
  (Prog.each (fun ctx peer => if peer = rank then .done ctx else exchangeWith ctx peer) ctx (List.finRange size)).bind
    fun ctx => .done (connectAll device rank ctx)

def family (devices : Fin size → Device size) : State (Fin size) IbvConnInfo (IbvContext size) :=
  start fun rank => exchangeAndConnect (devices rank) rank (newIbvContext (devices rank) rank)

theorem peers_paired : Channels.Paired (otherRanks : Fin size → List (Fin size)) :=
  Mlx5.all_ranks_paired otherRanks fun _ => .refl _

-- The ranks of a meeting add up to more with each meeting of a rank.
theorem peers_acyclic : Channels.Acyclic (otherRanks : Fin size → List (Fin size)) := by
  let total : Sym2 (Fin size) → Nat :=
    Sym2.lift ⟨fun one two => one.val + two.val, fun one two => Nat.add_comm _ _⟩
  apply Channels.acyclic_of_ranked otherRanks total
  rintro _ _ ⟨rank, first, second, index, place, earlier, met, later, rfl, rfl⟩
  have ascending : (otherRanks rank).Pairwise (· < ·) := (List.pairwise_lt_finRange size).filter _
  obtain ⟨inside, rfl⟩ := List.getElem?_eq_some_iff.mp met
  obtain ⟨within, rfl⟩ := List.getElem?_eq_some_iff.mp later
  exact Nat.add_lt_add_left (List.pairwise_iff_getElem.mp ascending index place inside within earlier) rank.val

@[simp] theorem set_peer_qp_rank (ctx : IbvContext size) (peer : Fin size) (pqp : IbvPeerQP) :
    (ctx.setPeerQp peer pqp).rank = ctx.rank := rfl

@[simp] theorem set_peer_qp_port (ctx : IbvContext size) (peer : Fin size) (pqp : IbvPeerQP) :
    (ctx.setPeerQp peer pqp).portAttr = ctx.portAttr := rfl

@[simp] theorem set_peer_qp_gid (ctx : IbvContext size) (peer : Fin size) (pqp : IbvPeerQP) :
    (ctx.setPeerQp peer pqp).gid = ctx.gid := rfl

theorem set_peer_qp_qps (ctx : IbvContext size) (peer other : Fin size) (pqp : IbvPeerQP) :
    (ctx.setPeerQp peer pqp).peerQps other = if other = peer then pqp else ctx.peerQps other := by
  simp only [IbvContext.setPeerQp, Function.update_apply]

def localInfo (devices : Fin size → Device size) (rank peer : Fin size) : IbvConnInfo :=
  ⟨(devices rank).qpNum peer, (devices rank).port.lid, (devices rank).gid, (devices rank).rand peer &&& 0xFFFFFF⟩

theorem new_context_port (device : Device size) (rank : Fin size) :
    (newIbvContext device rank).portAttr = device.port ∧ (newIbvContext device rank).gid = device.gid := by
  have kept := foldl_keeps (fun ctx : IbvContext size => (ctx.portAttr, ctx.gid))
    (fun ctx peer => if peer ≠ rank then createQpForPeer device ctx peer else ctx)
    (fun ctx peer => by split_ifs <;> simp [createQpForPeer]) (List.finRange size)
    ⟨rank, device.port, device.gid, fun _ => newPeerQp⟩
  exact Prod.mk.inj kept

theorem new_context_qps (device : Device size) (rank peer : Fin size) : (newIbvContext device rank).peerQps peer =
    if peer ≠ rank then { newPeerQp with psn := device.rand peer &&& 0xFFFFFF, qp := some (device.qpNum peer) }
    else newPeerQp := by
  have changed := foldl_pointwise IbvContext.peerQps
    (fun ctx peer => if peer ≠ rank then createQpForPeer device ctx peer else ctx)
    (fun peer pqp => if peer ≠ rank then
      { pqp with psn := device.rand peer &&& 0xFFFFFF, qp := some (device.qpNum peer) } else pqp) (by
      intro ctx first other
      by_cases own : first = rank
      · by_cases same : other = rank <;> simp [own, same]
      · simp [own, createQpForPeer, set_peer_qp_qps]) (List.finRange size) (List.nodup_finRange size)
    ⟨rank, device.port, device.gid, fun _ => newPeerQp⟩ peer
  rwa [if_pos (List.mem_finRange peer)] at changed

theorem new_local_info (devices : Fin size → Device size) (rank peer : Fin size) (apart : peer ≠ rank) :
    getLocalInfo (newIbvContext (devices rank) rank) peer = some (localInfo devices rank peer) := by
  obtain ⟨port, gid⟩ := new_context_port (devices rank) rank
  rw [getLocalInfo, new_context_qps, if_pos apart, port, gid]
  rfl

theorem set_peer_info_local (ctx : IbvContext size) (peer other : Fin size) (info : IbvConnInfo) :
    getLocalInfo (setPeerInfo ctx peer info) other = getLocalInfo ctx other := by
  simp only [getLocalInfo, setPeerInfo, set_peer_qp_qps, set_peer_qp_port, set_peer_qp_gid]
  by_cases own : other = peer
  · rw [own, if_pos rfl]
  · rw [if_neg own]

def Ready (devices : Fin size → Device size) (rank : Fin size) (ctx : IbvContext size) (peers : List (Fin size)) : Prop :=
  ∀ peer ∈ peers, getLocalInfo ctx peer = some (localInfo devices rank peer)

theorem exchange_with_exchanging (devices : Fin size → Device size) (rank : Fin size) :
    Exchanging exchangeWith (localInfo devices rank) setPeerInfo (Ready devices rank) where
  asks := by
    intro ctx peer rest ready
    rw [exchangeWith, ready peer List.mem_cons_self]
  keeps := by
    intro ctx peer rest reply ready other member
    rw [set_peer_info_local]
    exact ready other (List.mem_cons_of_mem _ member)

theorem new_ready (devices : Fin size → Device size) (rank : Fin size) :
    Ready devices rank (newIbvContext (devices rank) rank) (otherRanks rank) :=
  fun peer member => new_local_info devices rank peer ((mem_other_ranks rank peer).mp member)

def informed (devices : Fin size → Device size) (rank : Fin size) : IbvContext size :=
  (otherRanks rank).foldl (fun ctx peer => setPeerInfo ctx peer (localInfo devices peer rank))
    (newIbvContext (devices rank) rank)

def connected (devices : Fin size → Device size) (rank : Fin size) : IbvContext size :=
  connectAll (devices rank) rank (informed devices rank)

theorem informed_qps (devices : Fin size → Device size) (rank peer : Fin size) (apart : peer ≠ rank) :
    (informed devices rank).peerQps peer =
      { (newIbvContext (devices rank) rank).peerQps peer with remoteInfo := localInfo devices peer rank } := by
  have changed := foldl_pointwise IbvContext.peerQps
    (fun ctx peer => setPeerInfo ctx peer (localInfo devices peer rank))
    (fun peer pqp => { pqp with remoteInfo := localInfo devices peer rank }) (by
      intro ctx first other
      rw [setPeerInfo, set_peer_qp_qps]) (otherRanks rank) (peers_paired.once rank)
    (newIbvContext (devices rank) rank) peer
  rwa [if_pos ((mem_other_ranks rank peer).mpr apart)] at changed

theorem informed_port (devices : Fin size → Device size) (rank : Fin size) :
    (informed devices rank).portAttr = (devices rank).port := by
  have kept := foldl_keeps IbvContext.portAttr (fun ctx peer => setPeerInfo ctx peer (localInfo devices peer rank))
    (fun _ _ => rfl) (otherRanks rank) (newIbvContext (devices rank) rank)
  exact kept.trans (new_context_port (devices rank) rank).1

def joined (device : Device size) (port : PortAttr) (pqp : IbvPeerQP) : IbvPeerQP :=
  if pqp.connected then pqp
  else
    { pqp with
      attr := some ⟨Mlx5.cappedMtu port.activeMtu device.mtuEnv, pqp.remoteInfo.qpn, pqp.remoteInfo.psn,
        pqp.remoteInfo.lid, if port.ethernet = true ∨ pqp.remoteInfo.lid = 0 then some pqp.remoteInfo.gid else none, pqp.psn⟩
      connected := true }

theorem joined_remote (device : Device size) (port : PortAttr) (pqp : IbvPeerQP) :
    (joined device port pqp).remoteInfo = pqp.remoteInfo := by
  rw [joined]
  cases pqp.connected <;> rfl

theorem connect_qps (device : Device size) (ctx : IbvContext size) (peer other : Fin size) :
    (connectToPeer device ctx peer).peerQps other =
      if other = peer then joined device ctx.portAttr (ctx.peerQps peer) else ctx.peerQps other := by
  rw [connectToPeer, joined]
  by_cases already : (ctx.peerQps peer).connected = true
  · simp only [already, if_true]
    by_cases own : other = peer
    · rw [if_pos own, own]
    · rw [if_neg own]
  · simp only [already, Bool.false_eq_true, if_false, set_peer_qp_qps]

theorem connect_port (device : Device size) (ctx : IbvContext size) (peer : Fin size) :
    (connectToPeer device ctx peer).portAttr = ctx.portAttr := by
  rw [connectToPeer]
  cases (ctx.peerQps peer).connected <;> rfl

theorem connected_qps (devices : Fin size → Device size) (rank peer : Fin size) (apart : peer ≠ rank) :
    (connected devices rank).peerQps peer =
      joined (devices rank) (devices rank).port ((informed devices rank).peerQps peer) := by
  have changed := foldl_pointwise (fun (ctx : IbvContext size) peer => (ctx.portAttr, ctx.peerQps peer))
    (fun ctx peer => if peer = rank then ctx else connectToPeer (devices rank) ctx peer)
    (fun peer pair => if peer = rank then pair else (pair.1, joined (devices rank) pair.1 pair.2)) (by
      intro ctx first other
      by_cases own : first = rank
      · by_cases same : other = rank <;> simp [own, same]
      · by_cases same : other = first <;> simp [own, same, connect_port, connect_qps]) (List.finRange size)
    (List.nodup_finRange size) (informed devices rank) peer
  rw [if_pos (List.mem_finRange peer), if_neg apart, informed_port] at changed
  exact (Prod.mk.inj changed).2

theorem connected_remote (devices : Fin size → Device size) (rank peer : Fin size) (apart : peer ≠ rank) :
    ((connected devices rank).peerQps peer).remoteInfo = localInfo devices peer rank := by
  rw [connected_qps devices rank peer apart, joined_remote, informed_qps devices rank peer apart]

theorem connected_attr (devices : Fin size → Device size) (rank peer : Fin size) (apart : peer ≠ rank) :
    ((connected devices rank).peerQps peer).attr = some
      { pathMtu := Mlx5.cappedMtu (devices rank).port.activeMtu (devices rank).mtuEnv
        destQpNum := (devices peer).qpNum rank
        rqPsn := (localInfo devices peer rank).psn
        dlid := (devices peer).port.lid
        dgid := if (devices rank).port.ethernet = true ∨ (devices peer).port.lid = 0 then some (devices peer).gid else none
        sqPsn := (localInfo devices rank peer).psn } := by
  rw [connected_qps devices rank peer apart, informed_qps devices rank peer apart, new_context_qps, if_pos apart]
  rfl

theorem family_completes (devices : Fin size → Device size) : Completes (family devices) (connected devices) := by
  have same : family devices = start fun rank => (Prog.each exchangeWith (newIbvContext (devices rank) rank)
      (otherRanks rank)).bind fun ctx => .done (connectAll (devices rank) rank ctx) := by
    simp only [family, exchangeAndConnect, each_skip, otherRanks]
  rw [same]
  exact (each_completes_iff (fun _ => exchangeWith) (localInfo devices) (fun _ => setPeerInfo) (Ready devices)
    (exchange_with_exchanging devices) (fun rank => connectAll (devices rank) rank) otherRanks peers_paired _
    (new_ready devices)).mpr peers_acyclic

-- However the ranks take their steps, all of them come through, and each has for every
-- other what that one read about its QP to this rank.
theorem fabric_exchange_pairs (devices : Fin size → Device size) :
    ∃ results, Completes (family devices) results ∧ ∀ rank peer, peer ≠ rank →
      some ((results rank).peerQps peer).remoteInfo = getLocalInfo (newIbvContext (devices peer) peer) rank := by
  refine ⟨connected devices, family_completes devices, ?_⟩
  intro rank peer apart
  rw [connected_remote devices rank peer apart, new_local_info devices peer rank apart.symm]

end OpenGda.MlxFabric
