import OpenGda.Lib.SendrecvLoop
import OpenGda.Mlx5.Peers

set_option autoImplicit false

-- gicc::Runtime::connect_peers (mlx5_runtime.hpp): one exchange with each peer in the
-- iteration order of peer_qps_, which is an unordered_map.
namespace OpenGda.MlxRuntime

open Machine Sendrecv
open Mlx5 (ConnInfo Gid otherRanks mem_other_ranks)

inductive QpState where
  | rst
  | init
  | rtr
  | rts
deriving DecidableEq, Repr

inductive AddressPath where
  | infiniband (rlid : UInt16)
  | roce (rgid : Gid) (udpSport : UInt16)
deriving DecidableEq, Repr

structure PortAttr where
  lid : UInt16
  activeMtu : Nat
  infiniband : Bool
deriving DecidableEq, Repr

-- What the QP is told about its remote side in RTR and about its own in RTS.
structure DevxQp where
  qpn : UInt32
  state : QpState
  mtu : Nat
  remoteQpn : UInt32
  path : Option AddressPath
  nextSendPsn : UInt32
deriving DecidableEq, Repr

variable {size : Nat}

structure Device (size : Nat) where
  port : PortAttr
  gid : Gid
  mtuEnv : Option Int
  qpn : Fin size → UInt32

-- The order in which a rank walks its map: any of all its peers.
structure MapOrder (rank : Fin size) where
  peers : List (Fin size)
  all : peers.Perm (otherRanks rank)

abbrev PeerQps (size : Nat) := Fin size → DevxQp

abbrev Process (size : Nat) := Prog (Fin size) ConnInfo

def newPeerQps (device : Device size) : PeerQps size := fun peer => ⟨device.qpn peer, .rst, 0, 0, none, 0⟩

def rst2init (qp : DevxQp) : DevxQp := { qp with state := .init }

-- The peer's psn is not passed on.
def init2rtr (device : Device size) (destQpn : UInt32) (destLid : UInt16) (destGid : Gid) (_remotePsn : UInt32)
    (qp : DevxQp) : DevxQp :=
  { qp with
    state := .rtr
    mtu := Mlx5.cappedMtu device.port.activeMtu device.mtuEnv
    remoteQpn := destQpn
    path := some (if device.port.infiniband then .infiniband destLid else .roce destGid (device.port.lid ||| 0xC000)) }

def rtr2rts (localPsn : UInt32) (qp : DevxQp) : DevxQp := { qp with state := .rts, nextSendPsn := localPsn }

def myInfo (device : Device size) (qp : DevxQp) : ConnInfo := ⟨qp.qpn, device.port.lid, device.gid, 0⟩

def joinPeer (device : Device size) (peerQps : PeerQps size) (peer : Fin size) (info : ConnInfo) : PeerQps size :=
  Function.update peerQps peer
    (rtr2rts (myInfo device (peerQps peer)).psn
      (init2rtr device info.qpn info.lid info.gid info.psn (rst2init (peerQps peer))))

def connectPeer (device : Device size) (peerQps : PeerQps size) (peer : Fin size) : Process size (PeerQps size) :=
  .sendrecv (myInfo device (peerQps peer)) peer fun peerInfo => .done (joinPeer device peerQps peer peerInfo)

-- The barrier that follows changes nothing.
def connectPeers (device : Device size) (rank : Fin size) (order : MapOrder rank) : Process size (PeerQps size) :=
  Prog.each (connectPeer device) (newPeerQps device) order.peers

def family (devices : Fin size → Device size) (orders : ∀ rank : Fin size, MapOrder rank) :
    State (Fin size) ConnInfo (PeerQps size) :=
  start fun rank => connectPeers (devices rank) rank (orders rank)

def peersOf (orders : ∀ rank : Fin size, MapOrder rank) (rank : Fin size) : List (Fin size) := (orders rank).peers

theorem mem_peers (orders : ∀ rank : Fin size, MapOrder rank) (rank peer : Fin size) :
    peer ∈ peersOf orders rank ↔ peer ≠ rank := by
  rw [peersOf, (orders rank).all.mem_iff, mem_other_ranks]

theorem peers_paired (orders : ∀ rank : Fin size, MapOrder rank) : Channels.Paired (peersOf orders) :=
  Mlx5.all_ranks_paired (peersOf orders) fun rank => (orders rank).all

def offered (devices : Fin size → Device size) (rank peer : Fin size) : ConnInfo :=
  ⟨(devices rank).qpn peer, (devices rank).port.lid, (devices rank).gid, 0⟩

def Ready (devices : Fin size → Device size) (rank : Fin size) (peerQps : PeerQps size) (peers : List (Fin size)) :
    Prop :=
  ∀ peer ∈ peers, (peerQps peer).qpn = (devices rank).qpn peer

theorem join_keeps_qpn (device : Device size) (peerQps : PeerQps size) (peer other : Fin size) (info : ConnInfo) :
    (joinPeer device peerQps peer info other).qpn = (peerQps other).qpn := by
  simp only [joinPeer, Function.update_apply]
  by_cases own : other = peer
  · rw [if_pos own, own]
    rfl
  · rw [if_neg own]

theorem connect_peer_exchanging (devices : Fin size → Device size) (rank : Fin size) :
    Exchanging (connectPeer (devices rank)) (offered devices rank) (joinPeer (devices rank)) (Ready devices rank) where
  asks := by
    intro peerQps peer rest ready
    rw [connectPeer, myInfo, ready peer List.mem_cons_self, offered]
  keeps := by
    intro peerQps peer rest reply ready other member
    rw [join_keeps_qpn]
    exact ready other (List.mem_cons_of_mem _ member)

theorem new_ready (devices : Fin size → Device size) (rank : Fin size) (peers : List (Fin size)) :
    Ready devices rank (newPeerQps (devices rank)) peers := fun _ _ => rfl

def connected (devices : Fin size → Device size) (orders : ∀ rank : Fin size, MapOrder rank) (rank : Fin size) :
    PeerQps size :=
  (peersOf orders rank).foldl (fun peerQps peer => joinPeer (devices rank) peerQps peer (offered devices peer rank))
    (newPeerQps (devices rank))

theorem family_each (devices : Fin size → Device size) (orders : ∀ rank : Fin size, MapOrder rank) :
    family devices orders = start fun rank =>
      (Prog.each (connectPeer (devices rank)) (newPeerQps (devices rank)) (peersOf orders rank)).bind fun peerQps =>
        .done peerQps := by
  rw [family]
  exact congrArg start (funext fun rank => (bind_done _).symm)

-- A rank never hangs in its sendrecv exactly when no meeting of two ranks comes before
-- itself: going from each meeting to one that one of the two has later in its map.
theorem connect_peers_free_iff (devices : Fin size → Device size) (orders : ∀ rank : Fin size, MapOrder rank) :
    (∀ state, Reach step always (family devices orders) state → ¬ Deadlocked state) ↔
      Channels.Acyclic (peersOf orders) := by
  rw [family_each]
  exact each_free_iff (fun rank => connectPeer (devices rank)) (offered devices) (fun rank => joinPeer (devices rank))
    (Ready devices) (connect_peer_exchanging devices) (fun _ peerQps => peerQps) (peersOf orders) (peers_paired orders)
    (fun rank => newPeerQps (devices rank)) fun rank => new_ready devices rank _

-- Then every QP is in RTS and aimed at the one its peer has for this rank.
theorem connect_peers_completes_iff (devices : Fin size → Device size) (orders : ∀ rank : Fin size, MapOrder rank) :
    Completes (family devices orders) (connected devices orders) ↔ Channels.Acyclic (peersOf orders) := by
  rw [family_each]
  exact each_completes_iff (fun rank => connectPeer (devices rank)) (offered devices)
    (fun rank => joinPeer (devices rank)) (Ready devices) (connect_peer_exchanging devices) (fun _ peerQps => peerQps)
    (peersOf orders) (peers_paired orders) (fun rank => newPeerQps (devices rank)) fun rank => new_ready devices rank _

theorem connected_qp (devices : Fin size → Device size) (orders : ∀ rank : Fin size, MapOrder rank)
    (rank peer : Fin size) (apart : peer ≠ rank) : connected devices orders rank peer =
      { qpn := (devices rank).qpn peer
        state := .rts
        mtu := Mlx5.cappedMtu (devices rank).port.activeMtu (devices rank).mtuEnv
        remoteQpn := (devices peer).qpn rank
        path := some (if (devices rank).port.infiniband then .infiniband (devices peer).port.lid
          else .roce (devices peer).gid ((devices rank).port.lid ||| 0xC000))
        nextSendPsn := 0 } := by
  have changed := foldl_pointwise (fun (peerQps : PeerQps size) peer => peerQps peer)
    (fun peerQps peer => joinPeer (devices rank) peerQps peer (offered devices peer rank))
    (fun peer qp => joinPeer (devices rank) (fun _ => qp) peer (offered devices peer rank) peer) (by
      intro peerQps first other
      simp only [joinPeer, Function.update_apply, if_true]) (peersOf orders rank) ((peers_paired orders).once rank)
    (newPeerQps (devices rank)) peer
  rw [if_pos ((mem_peers orders rank peer).mpr apart)] at changed
  rw [connected, changed, joinPeer, Function.update_self]
  rfl

def threeDevices (rank : Fin 3) : Device 3 :=
  ⟨⟨UInt16.ofNat rank.val, 5, true⟩, Vector.replicate 16 0, none, fun peer => UInt32.ofNat (10 * rank.val + peer.val)⟩

def threeOrders (rank : Fin 3) : MapOrder rank :=
  match rank with
  | 0 => ⟨[1, 2], by decide⟩
  | 1 => ⟨[2, 0], by decide⟩
  | 2 => ⟨[0, 1], by decide⟩

theorem three_maps_deadlock : ∃ state, Reach step always (family threeDevices threeOrders) state ∧ Deadlocked state := by
  obtain ⟨state, reached, stuck, blocked⟩ := reach_of_decided step always [0, 1, 2] (family threeDevices threeOrders)
    (fun state => (∀ rank, (step state rank).isNone = true) ∧ Blocked state 0) (by decide +kernel)
  exact ⟨state, reached, fun rank => Option.isNone_iff_eq_none.mp (stuck rank), 0, blocked⟩

end OpenGda.MlxRuntime
