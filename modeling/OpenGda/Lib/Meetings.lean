import OpenGda.Lib.Exchanges

set_option autoImplicit false

-- An exchange is a meeting of two parties. What each holds in its own order can be laid
-- out in time exactly when no meeting comes before itself around a circle of parties.
namespace Channels

variable {Party : Type}

def Before (peers : Party → List Party) (early late : Sym2 Party) : Prop :=
  ∃ party first second, ∃ index place : Nat, index < place ∧ (peers party)[index]? = some first ∧
    (peers party)[place]? = some second ∧ early = s(party, first) ∧ late = s(party, second)

def Acyclic (peers : Party → List Party) : Prop := ∀ meeting, ¬ Relation.TransGen (Before peers) meeting meeting

theorem acyclic_of_ranked (peers : Party → List Party) (rank : Sym2 Party → Nat)
    (grows : ∀ early late, Before peers early late → rank early < rank late) : Acyclic peers := by
  have later : ∀ early late, Relation.TransGen (Before peers) early late → rank early < rank late := by
    intro early late chain
    induction chain with
    | single edge => exact grows _ _ edge
    | tail _ edge ih => exact Nat.lt_trans ih (grows _ _ edge)
  exact fun meeting chain => Nat.lt_irrefl _ (later meeting meeting chain)

theorem consistent_mono (peers : Party → List Party) (time : Party → Nat → Nat) (consistent : Consistent peers time)
    (party : Party) (early late : Nat) (below : early ≤ late) (inside : late ≤ (peers party).length) :
    time party early ≤ time party late := by
  induction late, below using Nat.le_induction with
  | base => exact Nat.le_refl _
  | succ late _ ih =>
      exact Nat.le_trans (ih (Nat.le_of_succ_le inside)) (Nat.le_of_lt (consistent.order party late inside))

section Heights

variable {Event : Type} (before : Event → Event → Prop)

noncomputable def height (event : Event) : Nat := Set.ncard {earlier | Relation.TransGen before earlier event}

theorem height_lt [Finite Event] (acyclic : ∀ event, ¬ Relation.TransGen before event event) (early late : Event)
    (edge : before early late) : height before early < height before late := by
  have more : {event | Relation.TransGen before event early} ⊂ {event | Relation.TransGen before event late} :=
    Set.ssubset_iff_exists.mpr
      ⟨fun event chain => Relation.TransGen.tail chain edge, early, Relation.TransGen.single edge, acyclic early⟩
  exact Set.ncard_lt_ncard more (Set.toFinite _)

end Heights

def begins [DecidableEq Party] (peers : Party → List Party) (time : Party → Nat → Nat) : Sym2 Party → Nat :=
  Sym2.lift ⟨fun one two => max (time one ((peers one).idxOf two)) (time two ((peers two).idxOf one)),
    fun _ _ => Nat.max_comm _ _⟩

theorem begins_at [DecidableEq Party] (peers : Party → List Party) (paired : Paired peers) (time : Party → Nat → Nat)
    (party : Party) (index : Nat) (peer : Party) (found : (peers party)[index]? = some peer) :
    begins peers time s(party, peer) = max (time party index) (time peer ((peers peer).idxOf party)) := by
  obtain ⟨inside, rfl⟩ := List.getElem?_eq_some_iff.mp found
  simp only [begins, Sym2.lift_mk, (paired.once party).idxOf_getElem index inside]

theorem acyclic_of_consistent (peers : Party → List Party) (paired : Paired peers) (time : Party → Nat → Nat)
    (consistent : Consistent peers time) : Acyclic peers := by
  classical
  apply acyclic_of_ranked peers (begins peers time)
  intro early late ⟨party, first, second, index, place, earlier, met, later, one, other⟩
  rw [one, other, begins_at peers paired time party index first met, begins_at peers paired time party place second later]
  have inside : place < (peers party).length := (List.getElem?_eq_some_iff.mp later).1
  have reached : time party (index + 1) ≤ time party place :=
    consistent_mono peers time consistent party _ _ earlier (Nat.le_of_lt inside)
  have own : time party index < time party (index + 1) := consistent.order party index (Nat.lt_trans earlier inside)
  have theirs : time first ((peers first).idxOf party) < time party (index + 1) := by
    have also := paired.back party first (List.mem_of_getElem? met)
    exact consistent.waits party index first _ met (List.getElem?_idxOf also)
  exact Nat.lt_of_lt_of_le (Nat.lt_of_lt_of_le (Nat.max_lt.mpr ⟨own, theirs⟩) reached) (Nat.le_max_left _ _)

noncomputable def overBy (peers : Party → List Party) (party : Party) : Nat → Nat
  | 0 => 0
  | index + 1 => ((peers party)[index]?).elim 0 fun peer => height (Before peers) s(party, peer) + 1

theorem over_by_meeting (peers : Party → List Party) (party : Party) (index : Nat) (peer : Party)
    (found : (peers party)[index]? = some peer) :
    overBy peers party (index + 1) = height (Before peers) s(party, peer) + 1 := by
  simp only [overBy, found, Option.elim_some]

theorem over_before_meeting [Finite Party] (peers : Party → List Party) (acyclic : Acyclic peers) (party : Party)
    (place : Nat) (peer : Party) (found : (peers party)[place]? = some peer) :
    overBy peers party place < height (Before peers) s(party, peer) + 1 := by
  cases place with
  | zero => exact Nat.succ_pos _
  | succ index =>
      have inside : index < (peers party).length := Nat.lt_of_succ_lt (List.getElem?_eq_some_iff.mp found).1
      have met := List.getElem?_eq_getElem inside
      rw [over_by_meeting peers party index _ met]
      exact Nat.succ_lt_succ (height_lt (Before peers) acyclic _ _
        ⟨party, _, peer, index, index + 1, Nat.lt_succ_self index, met, found, rfl, rfl⟩)

theorem consistent_of_acyclic [Finite Party] (peers : Party → List Party) (acyclic : Acyclic peers) :
    ∃ time, Consistent peers time := by
  refine ⟨overBy peers, ?_, ?_⟩
  · intro party index inside
    have met := List.getElem?_eq_getElem inside
    rw [over_by_meeting peers party index _ met]
    exact over_before_meeting peers acyclic party index _ met
  · intro party index peer place met also
    rw [over_by_meeting peers party index peer met, Sym2.eq_swap]
    exact over_before_meeting peers acyclic peer place party also

theorem consistent_iff_acyclic [Finite Party] (peers : Party → List Party) (paired : Paired peers) :
    (∃ time, Consistent peers time) ↔ Acyclic peers :=
  ⟨fun ⟨time, consistent⟩ => acyclic_of_consistent peers paired time consistent, consistent_of_acyclic peers⟩

end Channels
