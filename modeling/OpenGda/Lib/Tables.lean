import Mathlib

set_option autoImplicit false

-- Tables that are searched from the front, where an entry can hide a later one.
namespace FirstMatch

variable {Entry Query Key : Type} (covers : Entry → Query → Bool) (key : Entry → Key)

def Hidden (entries : List Entry) (index : Nat) (query : Query) : Prop :=
  ∃ earlier other, earlier < index ∧ entries[earlier]? = some other ∧ covers other query = true

theorem find_unhidden (entries : List Entry) (index : Nat) (entry : Entry) (query : Query)
    (found : entries[index]? = some entry) (covered : covers entry query = true)
    (seen : ¬ Hidden covers entries index query) : entries.find? (fun other => covers other query) = some entry := by
  obtain ⟨inside, rfl⟩ := List.getElem?_eq_some_iff.mp found
  refine List.find?_eq_some_iff_getElem.mpr ⟨covered, index, inside, rfl, ?_⟩
  intro earlier before
  have first : entries[earlier]? = some entries[earlier] := List.getElem?_eq_getElem _
  cases covering : covers entries[earlier] query with
  | false => rfl
  | true => exact absurd ⟨earlier, _, before, first, covering⟩ seen

theorem find_key_iff (entries : List Entry) (distinct : (entries.map key).Nodup) (index : Nat) (entry : Entry)
    (query : Query) (found : entries[index]? = some entry) (covered : covers entry query = true) :
    (entries.find? fun other => covers other query).map key = some (key entry) ↔ ¬ Hidden covers entries index query := by
  constructor
  · rintro same ⟨earlier, other, before, there, covering⟩
    obtain ⟨first, finds, keys⟩ := Option.map_eq_some_iff.mp same
    obtain ⟨_, place, within, rfl, least⟩ := List.find?_eq_some_iff_getElem.mp finds
    obtain ⟨_, rfl⟩ := List.getElem?_eq_some_iff.mp there
    have equal : place = index := by
      apply (List.getElem?_inj (by rwa [List.length_map]) distinct).mp
      rw [List.getElem?_map, List.getElem?_map, List.getElem?_eq_getElem within, found, Option.map_some, keys,
        Option.map_some]
    have hit := least earlier (equal ▸ before)
    rw [covering] at hit
    cases hit
  · intro seen
    rw [find_unhidden covers entries index entry query found covered seen, Option.map_some]

end FirstMatch

-- The items of a sorted list, put into groups by a label and numbered in each group.
namespace Grouping

variable {Item Label : Type}

section Places

variable [LinearOrder Item]

def place (items : List Item) (item : Item) : Nat := items.countP fun other => decide (other < item)

theorem places_range (items : List Item) (sorted : items.Pairwise (· < ·)) :
    items.map (place items) = List.range items.length := by
  induction items with
  | nil => rfl
  | cons first rest ih =>
      obtain ⟨above, later⟩ := List.pairwise_cons.mp sorted
      have least : place (first :: rest) first = 0 := by
        refine List.countP_eq_zero.mpr ?_
        intro other member
        rw [decide_eq_true_eq, not_lt]
        rcases List.mem_cons.mp member with rfl | inside
        · exact le_refl _
        · exact le_of_lt (above other inside)
      have shifted : ∀ item ∈ rest, place (first :: rest) item = place rest item + 1 := fun item member =>
        List.countP_cons_of_pos (decide_eq_true (above item member))
      rw [List.map_cons, least, List.map_congr_left shifted, List.length_cons, List.range_succ_eq_map, ← ih later,
        List.map_map]
      rfl

end Places

variable [DecidableEq Label] (label : Item → Label)

def group (items : List Item) (name : Label) : List Item := items.filter fun item => decide (label item = name)

theorem group_place [LinearOrder Item] (items : List Item) (name : Label) (item : Item) :
    place (group label items name) item = items.countP fun other => decide (label other = name) && decide (other < item) := by
  rw [place, group, List.countP_filter]
  exact List.countP_congr fun other _ => by rw [Bool.and_comm]

theorem sizes_sum (leaders : Finset Item) (items : List Item)
    (once : ∀ item ∈ items, ∃! leader, leader ∈ leaders ∧ label leader = label item) :
    ∑ leader ∈ leaders, (group label items (label leader)).length = items.length := by
  induction items with
  | nil => exact Finset.sum_const_zero
  | cons item rest ih =>
      obtain ⟨leader, ⟨leads, same⟩, only⟩ := once item List.mem_cons_self
      have later := ih fun other member => once other (List.mem_cons_of_mem _ member)
      have joins : ∀ other ∈ leaders, (group label (item :: rest) (label other)).length =
          (group label rest (label other)).length + if label item = label other then 1 else 0 := by
        intro other _
        rw [group, List.filter_cons]
        by_cases own : label item = label other <;> simp [own, group]
      have counted : ∑ other ∈ leaders, (if label item = label other then 1 else 0) = 1 := by
        rw [Finset.sum_eq_single_of_mem leader leads fun other member different =>
          if_neg fun equal => different (only other ⟨member, equal.symm⟩)]
        exact if_pos same.symm
      rw [Finset.sum_congr rfl joins, Finset.sum_add_distrib, later, counted, List.length_cons]

end Grouping
