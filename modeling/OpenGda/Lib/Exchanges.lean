import OpenGda.Lib.ChannelSchedules

set_option autoImplicit false

-- Parties that exchange one message with each of their peers, one peer after another:
-- whether they can wait for each other in a circle depends on their orders alone.
namespace Channels

open Machine

variable {Party Label Payload : Type}

def exchange (label : Label) (offer : Payload) (peer : Party) : Call Party Label Payload :=
  ⟨some ⟨peer, label, offer⟩, some ⟨peer, label, fun _ => true⟩⟩

-- `offer party peer` is what the party has for the peer.
def exchanges (label : Label) (offer : Party → Party → Payload) (peers : Party → List Party) (party : Party) :
    List (Call Party Label Payload) :=
  (peers party).map fun peer => exchange label (offer party peer) peer

structure Paired (peers : Party → List Party) : Prop where
  once : ∀ party, (peers party).Nodup
  back : ∀ party peer, peer ∈ peers party → party ∈ peers peer

-- `time party count` is when the party is through with its first `count` peers.
structure Consistent (peers : Party → List Party) (time : Party → Nat → Nat) : Prop where
  order : ∀ party index, index < (peers party).length → time party index < time party (index + 1)
  waits : ∀ party index peer place, (peers party)[index]? = some peer → (peers peer)[place]? = some party →
    time peer place < time party (index + 1)

def received (offer : Party → Party → Payload) (peers : Party → List Party) (party : Party) : List (Option Payload) :=
  (peers party).map fun peer => some (offer peer party)

theorem not_seen (list : List Party) (once : list.Nodup) (place : Nat) (party : Party)
    (found : list[place]? = some party) : party ∉ list.take place := by
  intro seen
  obtain ⟨early, inside, same⟩ := List.mem_take_iff_getElem.mp seen
  obtain ⟨within, there⟩ := List.getElem?_eq_some_iff.mp found
  have equal := (once.getElem_inj_iff).mp (same.trans there.symm)
  exact absurd equal (Nat.ne_of_lt (Nat.lt_of_lt_of_le inside (Nat.min_le_left _ _)))

variable [DecidableEq Party] [DecidableEq Label]
variable (label : Label) (offer : Party → Party → Payload) (peers : Party → List Party)

theorem none_posted (list : List Party) (party dst : Party) (unseen : dst ∉ list) :
    posted dst label (list.map fun peer => exchange label (offer party peer) peer) = [] := by
  rw [posted, List.filterMap_map, List.filterMap_eq_nil_iff]
  intro peer member
  have different : peer ≠ dst := fun same => unseen (same ▸ member)
  simp [exchange, Call.posting, different]

theorem none_taken (list : List Party) (party src : Party) (unseen : src ∉ list) :
    taken src label (list.map fun peer => exchange label (offer party peer) peer) = 0 := by
  rw [taken, List.countP_map, List.countP_eq_zero]
  intro peer member
  have different : peer ≠ src := fun same => unseen (same ▸ member)
  simp [exchange, Call.takes, different]

theorem exchange_awaits (paired : Paired peers) (party : Party) (index : Nat) (take : Take Party Label Payload)
    (place : Nat) (payload : Payload) : Awaits (exchanges label offer peers) party index take place payload ↔
      ∃ peer, (peers party)[index]? = some peer ∧ (peers peer)[place]? = some party ∧
        take = ⟨peer, label, fun _ => true⟩ ∧ payload = offer peer party := by
  constructor
  · rintro ⟨⟨call, found, wants⟩, ⟨other, there, posts⟩, _⟩
    rw [exchanges, List.getElem?_map, Option.map_eq_some_iff] at found
    obtain ⟨peer, met, rfl⟩ := found
    cases wants
    rw [exchanges, List.getElem?_map, Option.map_eq_some_iff] at there
    obtain ⟨another, also, rfl⟩ := there
    simp only [exchange, Call.posting, Option.bind_some, and_true] at posts
    split_ifs at posts with same
    cases same
    exact ⟨peer, met, also, rfl, (Option.some.inj posts).symm⟩
  · rintro ⟨peer, met, also, rfl, rfl⟩
    refine ⟨⟨exchange label (offer party peer) peer, ?_, rfl⟩, ⟨exchange label (offer peer party) party, ?_, ?_⟩, ?_⟩
    · rw [exchanges, List.getElem?_map, met, Option.map_some]
    · rw [exchanges, List.getElem?_map, also, Option.map_some]
    · simp [exchange, Call.posting]
    · -- Neither has met the other before.
      rw [exchanges, exchanges, ← List.map_take, ← List.map_take,
        none_posted label offer _ _ _ (not_seen _ (paired.once peer) place party also),
        none_taken label offer _ _ _ (not_seen _ (paired.once party) index peer met), List.length_nil]

theorem exchanges_answered (paired : Paired peers) :
    Answered (exchanges label offer peers) (received offer peers) := by
  intro party
  refine ⟨by rw [received, exchanges, List.length_map, List.length_map], ?_⟩
  intro index call reply found replied
  rw [exchanges, List.getElem?_map, Option.map_eq_some_iff] at found
  obtain ⟨peer, met, rfl⟩ := found
  rw [received, List.getElem?_map, met, Option.map_some] at replied
  cases replied
  obtain ⟨place, also⟩ := List.mem_iff_getElem?.mp (paired.back party peer (List.mem_of_getElem? met))
  exact ⟨place, offer peer party, (exchange_awaits label offer peers paired _ _ _ _ _).mpr ⟨peer, met, also, rfl, rfl⟩,
    rfl, rfl⟩

theorem exchanges_scheduled (paired : Paired peers) (time : Party → Nat → Nat) :
    Scheduled (exchanges label offer peers) time ↔ Consistent peers time := by
  have lengths : ∀ party, (exchanges label offer peers party).length = (peers party).length :=
    fun party => List.length_map _
  constructor
  · rintro ⟨order, waits⟩
    refine ⟨fun party index inside => order party index (by rwa [lengths]), ?_⟩
    intro party index peer place met also
    exact waits party index _ place _
      ((exchange_awaits label offer peers paired _ _ _ _ _).mpr ⟨peer, met, also, rfl, rfl⟩)
  · rintro ⟨order, waits⟩
    refine ⟨fun party index inside => order party index (by rwa [lengths] at inside), ?_⟩
    intro party index take place payload awaits
    obtain ⟨peer, met, also, rfl, _⟩ := (exchange_awaits label offer peers paired _ _ _ _ _).mp awaits
    exact waits party index peer place met also

theorem exchanges_received (paired : Paired peers) (state : State Party Label Payload)
    (reached : Reach step always (start (exchanges label offer peers)) state) (finished : Finished state) :
    state.replies = received offer peers :=
  answered_unique _ _ _ (finished_answered _ state (reachable_flow _ state reached) finished)
    (exchanges_answered label offer peers paired)

variable [Fintype Party]

theorem exchanges_free_iff (paired : Paired peers) :
    (∀ state, Reach step always (start (exchanges label offer peers)) state → ¬ Deadlocked state) ↔
      ∃ time, Consistent peers time := by
  rw [deadlock_free_iff _ _ (exchanges_answered label offer peers paired)]
  exact exists_congr fun time => exchanges_scheduled label offer peers paired time

end Channels
