import OpenGda.Mlx5.GpuComm

set_option autoImplicit false

-- The ring of exchanges between neighbours: everybody asks its top neighbour first, who
-- answers a third rank's question only second. It closes up from three ranks on.
namespace OpenGda.GpuComm

open Machine Sendrecv

variable {size : Nat}

theorem top_of_bottom (rank : Fin size) : topNeighbor (bottomNeighbor rank) = rank := by
  apply Fin.ext
  simp only [topNeighbor, bottomNeighbor]
  by_cases last : rank.val + 1 = size
  · simp only [last, Nat.mod_self, lt_self_iff_false, if_false]
    omega
  · have inside : (rank.val + 1) % size = rank.val + 1 := Nat.mod_eq_of_lt (by omega)
    simp [inside]

theorem bottom_of_top (rank : Fin size) : bottomNeighbor (topNeighbor rank) = rank := by
  apply Fin.ext
  have bound := rank.isLt
  simp only [topNeighbor, bottomNeighbor]
  split_ifs with inner
  · simp only [Nat.sub_add_cancel inner]
    exact Nat.mod_eq_of_lt bound
  · have first : rank.val = 0 := Nat.eq_zero_of_not_pos inner
    simp only [Nat.sub_add_cancel (Nat.pos_of_ne_zero (by omega : size ≠ 0)), Nat.mod_self, first]

theorem neighbors_meet (rank : Fin size) (few : size ≤ 2) : bottomNeighbor rank = topNeighbor rank := by
  apply Fin.ext
  have bound := rank.isLt
  simp only [topNeighbor, bottomNeighbor]
  interval_cases size <;> split_ifs <;> simp <;> omega

theorem neighbors_apart (rank : Fin size) (many : 3 ≤ size) :
    topNeighbor rank ≠ rank ∧ bottomNeighbor rank ≠ rank ∧ bottomNeighbor rank ≠ topNeighbor rank := by
  have bound := rank.isLt
  simp only [ne_eq, Fin.ext_iff, topNeighbor, bottomNeighbor]
  by_cases last : rank.val + 1 = size
  · rw [last, Nat.mod_self]
    split_ifs <;> simp <;> omega
  · rw [Nat.mod_eq_of_lt (by omega : rank.val + 1 < size)]
    split_ifs <;> simp <;> omega

def peersOf (rank : Fin size) : List (Fin size) :=
  (if topNeighbor rank ≠ rank then [topNeighbor rank] else []) ++
    if bottomNeighbor rank ≠ rank ∧ bottomNeighbor rank ≠ topNeighbor rank then [bottomNeighbor rank] else []

theorem mem_peers (rank peer : Fin size) :
    peer ∈ peersOf rank ↔ (peer = topNeighbor rank ∨ peer = bottomNeighbor rank) ∧ peer ≠ rank := by
  by_cases top : topNeighbor rank = rank <;> by_cases bottom : bottomNeighbor rank = rank <;>
    by_cases same : bottomNeighbor rank = topNeighbor rank <;> simp [peersOf, top, bottom, same] <;> grind

theorem peers_paired : Channels.Paired (peersOf : Fin size → List (Fin size)) where
  once := by
    intro rank
    unfold peersOf
    split_ifs with top bottom
    · simp [Ne.symm bottom.2]
    all_goals simp
  back := by
    intro rank peer member
    obtain ⟨either, apart⟩ := (mem_peers rank peer).mp member
    apply (mem_peers peer rank).mpr
    refine ⟨?_, apart.symm⟩
    rcases either with rfl | rfl
    · exact .inr (bottom_of_top rank).symm
    · exact .inl (top_of_bottom rank).symm

theorem peers_consistent_iff : (∃ time, Channels.Consistent (peersOf : Fin size → List (Fin size)) time) ↔ size ≤ 2 := by
  constructor
  · rintro ⟨time, _, waits⟩
    by_contra many
    -- Whoever comes to its second exchange waited for its top neighbour to come to its own.
    have earlier : ∀ rank : Fin size, time (topNeighbor rank) 1 < time rank 1 := by
      intro rank
      obtain ⟨top, bottom, apart⟩ := neighbors_apart rank (Nat.lt_of_not_le many)
      obtain ⟨top', bottom', apart'⟩ := neighbors_apart (topNeighbor rank) (Nat.lt_of_not_le many)
      apply waits rank 0 (topNeighbor rank) 1
      · simp [peersOf, top]
      · rw [peersOf, if_pos top', if_pos ⟨bottom', apart'⟩, bottom_of_top]
        rfl
    have nonempty : (Finset.univ : Finset (Fin size)).Nonempty := ⟨⟨0, by omega⟩, Finset.mem_univ _⟩
    obtain ⟨least, _, minimal⟩ := Finset.exists_min_image Finset.univ (fun rank => time rank 1) nonempty
    exact absurd (earlier least) (Nat.not_lt.mpr (minimal _ (Finset.mem_univ _)))
  · intro few
    have single : ∀ rank : Fin size, (peersOf rank).length ≤ 1 := by
      intro rank
      simp only [peersOf, neighbors_meet rank few, ne_eq, not_true_eq_false, and_false, if_false, List.append_nil]
      split_ifs <;> simp
    refine ⟨fun _ count => count, fun _ _ _ => Nat.lt_succ_self _, ?_⟩
    intro rank index peer place _ also
    have inside := (List.getElem?_eq_some_iff.mp also).1
    have first := single peer
    omega

def newQp (device : Device size) (peer : Fin size) : PerPeerQp :=
  ⟨device.qpNum peer, device.rand peer &&& 0xFFFFFF, false, ⟨0, 0, 0, 0, Vector.replicate 16 0⟩, none⟩

def prepared (devices : Fin size → Device size) (rank peer : Fin size) : ConnInfo :=
  ⟨(newQp (devices rank) peer).qpNum, (devices rank).lid, (devices rank).gid, (newQp (devices rank) peer).psn, 0, 0⟩

structure Made (device : Device size) (rank : Fin size) (ctx : DevxContext size) : Prop where
  rank : ctx.rank = rank
  lid : ctx.lid = device.lid
  gid : ctx.gid = device.gid
  qps : ∀ peer qp, ctx.peerQps peer = some qp → qp = newQp device peer

theorem create_cases (device : Device size) (ctx : DevxContext size) (peer : Fin size) :
    (peer = ctx.rank ∨ ∃ qp, ctx.peerQps peer = some qp) ∧ createQpForPeer device ctx peer = ctx ∨
      ctx.peerQps peer = none ∧ createQpForPeer device ctx peer =
        { ctx with peerQps := Function.update ctx.peerQps peer (some (newQp device peer)) } := by
  by_cases own : peer = ctx.rank
  · exact .inl ⟨.inl own, if_pos own⟩
  · cases present : ctx.peerQps peer with
    | some qp => exact .inl ⟨.inr ⟨qp, rfl⟩, by simp [createQpForPeer, present]⟩
    | none => exact .inr ⟨rfl, by simp [createQpForPeer, own, present, newQp]⟩

theorem create_made (device : Device size) (rank : Fin size) (ctx : DevxContext size) (peer : Fin size)
    (made : Made device rank ctx) : Made device rank (createQpForPeer device ctx peer) := by
  rcases create_cases device ctx peer with ⟨_, same⟩ | ⟨_, created⟩
  · rwa [same]
  · rw [created]
    refine ⟨made.rank, made.lid, made.gid, ?_⟩
    intro other qp found
    by_cases here : other = peer
    · subst here
      simp only [Function.update_self, Option.some.injEq] at found
      exact found.symm
    · simp only [Function.update_of_ne here] at found
      exact made.qps other qp found

theorem create_has (device : Device size) (rank : Fin size) (ctx : DevxContext size) (peer : Fin size)
    (made : Made device rank ctx) (apart : peer ≠ rank) :
    (createQpForPeer device ctx peer).peerQps peer = some (newQp device peer) := by
  rcases create_cases device ctx peer with ⟨own | ⟨qp, present⟩, same⟩ | ⟨_, created⟩
  · exact absurd (own.trans made.rank) apart
  · rw [same, present, made.qps peer qp present]
  · simp [created]

theorem create_keeps (device : Device size) (ctx : DevxContext size) (peer other : Fin size) (qp : PerPeerQp)
    (present : ctx.peerQps other = some qp) : (createQpForPeer device ctx peer).peerQps other = some qp := by
  rcases create_cases device ctx peer with ⟨_, same⟩ | ⟨absent, created⟩
  · rwa [same]
  · have different : other ≠ peer := by
      rintro rfl
      rw [absent] at present
      cases present
    simpa [created, different] using present

theorem new_context_made (device : Device size) (rank : Fin size) : Made device rank (newDevxContext device rank) :=
  ⟨rfl, rfl, rfl, fun peer qp found => by cases found⟩

theorem setup_made (devices : Fin size → Device size) (rank : Fin size) :
    Made (devices rank) rank (setup devices rank) := by
  have start := new_context_made (devices rank) rank
  simp only [setup, createNeighborQps]
  split_ifs
  · exact create_made _ _ _ _ (create_made _ _ _ _ start)
  · exact create_made _ _ _ _ start
  · exact create_made _ _ _ _ start
  · exact start

theorem setup_qp (devices : Fin size → Device size) (rank peer : Fin size) (member : peer ∈ peersOf rank) :
    (setup devices rank).peerQps peer = some (newQp (devices rank) peer) := by
  obtain ⟨either, apart⟩ := (mem_peers rank peer).mp member
  have start := new_context_made (devices rank) rank
  have same : (newDevxContext (devices rank) rank).rank = rank := rfl
  simp only [setup, createNeighborQps, same]
  by_cases top : topNeighbor rank = rank
  · have bottom : peer = bottomNeighbor rank := either.resolve_left fun equal => apart (equal.trans top)
    subst bottom
    simp only [top, ne_eq, not_true_eq_false, if_false, apart, not_false_eq_true, and_self, if_true]
    exact create_has _ rank _ _ start apart
  · have first := create_made _ _ _ (topNeighbor rank) start
    have made := create_has _ rank _ _ start top
    simp only [if_pos top]
    rcases either with rfl | rfl
    · split_ifs
      · exact create_keeps _ _ _ _ _ made
      · exact made
    · split_ifs with second
      · exact create_has _ rank _ _ first apart
      · have meet : bottomNeighbor rank = topNeighbor rank := by
          by_contra different
          exact second ⟨apart, different⟩
        rwa [meet]

structure JoinedTo (ctx : DevxContext size) (peer : Fin size) (info : ConnInfo) : Prop where
  joined : ∃ qp, ctx.peerQps peer = some qp ∧ qp.connected = true ∧
    qp.remote = ⟨info.bufAddr, info.rkey, info.qpn, info.lid, info.gid⟩ ∧
      ∃ attr, qp.attr = some attr ∧ attr.destQpNum = info.qpn ∧ attr.rqPsn = info.psn ∧ attr.dlid = info.lid

def joinedWith (ctx : DevxContext size) (peer : Fin size) (qp : PerPeerQp) (info : ConnInfo) : DevxContext size :=
  { ctx with
    peerQps := Function.update ctx.peerQps peer (some
      { qp with
        remote := ⟨info.bufAddr, info.rkey, info.qpn, info.lid, info.gid⟩
        attr := some ⟨info.qpn, info.psn, info.lid, if ctx.ethernet = true ∨ info.lid = 0 then some info.gid else none⟩
        connected := true }) }

theorem joined_to (ctx : DevxContext size) (peer : Fin size) (qp : PerPeerQp) (info : ConnInfo) :
    JoinedTo (joinedWith ctx peer qp info) peer info :=
  ⟨⟨_, Function.update_self _ _ _, rfl, rfl, _, rfl, rfl, rfl, rfl⟩⟩

theorem joined_other (ctx : DevxContext size) (peer : Fin size) (qp : PerPeerQp) (info : ConnInfo) (other : Fin size)
    (apart : other ≠ peer) : (joinedWith ctx peer qp info).peerQps other = ctx.peerQps other :=
  Function.update_of_ne apart _ _

theorem exchange_with (ctx : DevxContext size) (peer : Fin size) (qp : PerPeerQp) (apart : peer ≠ ctx.rank)
    (present : ctx.peerQps peer = some qp) (fresh : qp.connected = false) :
    exchangeWith ctx peer = .sendrecv (toExchange ⟨qp.qpNum, ctx.lid, ctx.gid, qp.psn, 0, 0⟩) peer fun ex =>
      .done (joinedWith ctx peer qp (fromExchange ex)) := by
  simp [exchangeWith, getLocalInfoForPeer, connectToPeer, sendrecv, Prog.bind, apart, present, fresh, joinedWith]

def connectPeers : DevxContext size → List (Fin size) → Process size (DevxContext size)
  | ctx, [] => .done ctx
  | ctx, peer :: rest => (exchangeWith ctx peer).bind fun ctx => connectPeers ctx rest

structure Ready (device : Device size) (rank : Fin size) (peers : List (Fin size)) (ctx : DevxContext size) : Prop where
  place : ctx.rank = rank
  lid : ctx.lid = device.lid
  gid : ctx.gid = device.gid
  once : peers.Nodup
  fresh : ∀ peer ∈ peers, peer ≠ rank ∧ ctx.peerQps peer = some (newQp device peer)

theorem ready_joined (device : Device size) (rank peer : Fin size) (rest : List (Fin size)) (ctx : DevxContext size)
    (info : ConnInfo) (ready : Ready device rank (peer :: rest) ctx) :
    Ready device rank rest (joinedWith ctx peer (newQp device peer) info) := by
  obtain ⟨unseen, once⟩ := List.nodup_cons.mp ready.once
  refine ⟨ready.place, ready.lid, ready.gid, once, ?_⟩
  intro other member
  obtain ⟨apart, present⟩ := ready.fresh other (List.mem_cons_of_mem _ member)
  have different : other ≠ peer := fun same => unseen (same ▸ member)
  exact ⟨apart, (joined_other ctx peer _ info other different).trans present⟩

theorem connect_cons (device : Device size) (rank peer : Fin size) (rest : List (Fin size)) (ctx : DevxContext size)
    (ready : Ready device rank (peer :: rest) ctx) : connectPeers ctx (peer :: rest) =
      .sendrecv (toExchange ⟨(newQp device peer).qpNum, device.lid, device.gid, (newQp device peer).psn, 0, 0⟩) peer
        fun ex => connectPeers (joinedWith ctx peer (newQp device peer) (fromExchange ex)) rest := by
  obtain ⟨apart, present⟩ := ready.fresh peer List.mem_cons_self
  rw [connectPeers, exchange_with ctx peer (newQp device peer) (ready.place.symm ▸ apart) present rfl, ready.lid, ready.gid]
  rfl

theorem connect_follows (devices : Fin size → Device size) (rank : Fin size) (peers : List (Fin size))
    (ctx : DevxContext size) (ready : Ready (devices rank) rank peers ctx) :
    Follows (fun peer => toExchange (prepared devices rank peer)) (connectPeers ctx peers) peers := by
  induction peers generalizing ctx with
  | nil => trivial
  | cons peer rest ih =>
      rw [connect_cons (devices rank) rank peer rest ctx ready]
      exact ⟨rfl, rfl, fun reply => ih _ (ready_joined (devices rank) rank peer rest ctx _ ready)⟩

theorem connect_joins (device : Device size) (rank : Fin size) (peers : List (Fin size)) (ctx : DevxContext size)
    (replies : Fin size → ConnExchange) (ready : Ready device rank peers ctx) :
    ∃ final, (connectPeers ctx peers).fed (peers.map fun peer => some (replies peer)) = .done final ∧
      (∀ peer ∈ peers, JoinedTo final peer (fromExchange (replies peer))) ∧
        ∀ other, other ∉ peers → final.peerQps other = ctx.peerQps other := by
  induction peers generalizing ctx with
  | nil => exact ⟨ctx, rfl, by simp, fun _ _ => rfl⟩
  | cons peer rest ih =>
      obtain ⟨final, ends, joined, kept⟩ := ih _ (ready_joined device rank peer rest ctx (fromExchange (replies peer)) ready)
      have unseen := (List.nodup_cons.mp ready.once).1
      refine ⟨final, ?_, ?_, ?_⟩
      · rw [connect_cons device rank peer rest ctx ready]
        exact ends
      · intro other member
        rcases List.mem_cons.mp member with rfl | later
        · obtain ⟨qp, found, facts⟩ := (joined_to ctx other (newQp device other) (fromExchange (replies other))).joined
          exact ⟨qp, (kept other unseen).trans found, facts⟩
        · exact joined other later
      · intro other absent
        obtain ⟨different, later⟩ := not_or.mp fun present => absent (List.mem_cons.mpr present)
        rw [kept other later]
        exact joined_other ctx peer _ _ other different

theorem exchange_and_connect_peers (ctx : DevxContext size) :
    exchangeAndConnect ctx = connectPeers ctx (peersOf ctx.rank) := by
  by_cases top : topNeighbor ctx.rank ≠ ctx.rank
  · by_cases bottom : bottomNeighbor ctx.rank ≠ ctx.rank ∧ bottomNeighbor ctx.rank ≠ topNeighbor ctx.rank
    · simp only [exchangeAndConnect, peersOf, bind_eq, if_pos top, if_pos bottom, List.singleton_append, connectPeers,
        bind_done]
    · simp only [exchangeAndConnect, peersOf, bind_eq, pure_eq, if_pos top, if_neg bottom, List.append_nil, connectPeers]
  · by_cases bottom : bottomNeighbor ctx.rank ≠ ctx.rank ∧ bottomNeighbor ctx.rank ≠ topNeighbor ctx.rank
    · simp only [exchangeAndConnect, peersOf, bind_eq, pure_eq, if_neg top, if_pos bottom, List.nil_append, connectPeers,
        bind_done, Prog.bind]
    · simp only [exchangeAndConnect, peersOf, bind_eq, pure_eq, if_neg top, if_neg bottom, List.nil_append, connectPeers,
        Prog.bind]

theorem setup_ready (devices : Fin size → Device size) (rank : Fin size) :
    Ready (devices rank) rank (peersOf rank) (setup devices rank) := by
  have made := setup_made devices rank
  refine ⟨made.rank, made.lid, made.gid, peers_paired.once rank, ?_⟩
  intro peer member
  exact ⟨((mem_peers rank peer).mp member).2, setup_qp devices rank peer member⟩

def Connects (devices : Fin size → Device size) : Prop :=
  ∃ results, Completes (family devices) results ∧ ∀ rank peer,
    (peer = topNeighbor rank ∨ peer = bottomNeighbor rank) → peer ≠ rank →
      JoinedTo (results rank) peer (prepared devices peer rank)

theorem connects_iff (devices : Fin size → Device size) : Connects devices ↔ size ≤ 2 := by
  have follows : ∀ rank, Follows (fun peer => toExchange (prepared devices rank peer))
      (exchangeAndConnect (setup devices rank)) (peersOf rank) := by
    intro rank
    rw [exchange_and_connect_peers, (setup_made devices rank).rank]
    exact connect_follows devices rank (peersOf rank) _ (setup_ready devices rank)
  rw [← peers_consistent_iff]
  constructor
  · rintro ⟨results, completes, _⟩
    exact (free_iff _ peersOf _ follows peers_paired).mp completes.free
  · intro consistent
    have ends := fun rank => connect_joins (devices rank) rank (peersOf rank) (setup devices rank)
      (fun peer => toExchange (prepared devices peer rank)) (setup_ready devices rank)
    choose results final joined _ using ends
    refine ⟨results, (completes_iff _ peersOf _ follows peers_paired results ?_).mpr consistent, ?_⟩
    · intro rank
      rw [exchange_and_connect_peers, (setup_made devices rank).rank]
      exact final rank
    · intro rank peer either apart
      exact joined rank peer ((mem_peers rank peer).mpr ⟨either, apart⟩)

def threeDevices (rank : Fin 3) : Device 3 :=
  ⟨UInt16.ofNat rank.val, Vector.replicate 16 0, false, fun peer => UInt32.ofNat (10 * rank.val + peer.val), fun _ => 7⟩

theorem three_ranks_deadlock : ∃ state, Reach step always (family threeDevices) state ∧ Deadlocked state := by
  obtain ⟨state, reached, stuck, blocked⟩ := reach_of_decided step always [0, 1, 2] (family threeDevices)
    (fun state => (∀ rank, (step state rank).isNone = true) ∧ Blocked state 0) (by decide +kernel)
  exact ⟨state, reached, fun rank => Option.isNone_iff_eq_none.mp (stuck rank), 0, blocked⟩

end OpenGda.GpuComm
