import Mathlib

set_option autoImplicit false

-- A ring written slot after slot, whose entries carry a bit that flips with
-- every lap; a reader waits for an item by its slot and the bit of its lap.
namespace PhaseRing

theorem slots_distinct (size first second : Nat) (less : first < second) (near : second < first + size) :
    first % size ≠ second % size := by
  intro same
  have multiple : size ∣ second - first := (Nat.modEq_iff_dvd' (Nat.le_of_lt less)).mp same
  have short := Nat.le_of_dvd (by omega) multiple
  omega

def laps (size written slot : Nat) : Nat := (written + size - 1 - slot) / size

-- Before the first lap the bits are set, as the reader finds them in fresh memory.
def bitAfter (count : Nat) : Nat := (count + 1) % 2

def Tracks (ring : Nat → Nat) (size written : Nat) : Prop :=
  ∀ slot < size, ring slot % 2 = bitAfter (laps size written slot)

def push (ring : Nat → Nat) (size written value : Nat) : Nat → Nat := Function.update ring (written % size) value

theorem laps_zero (size slot : Nat) (inside : slot < size) : laps size 0 slot = 0 :=
  Nat.div_eq_of_lt (by omega)

theorem laps_split (size lap place slot : Nat) (inside : slot < size) (placed : place < size) :
    laps size (lap * size + place) slot = lap + if slot < place then 1 else 0 := by
  have shift : lap * size + place + size - 1 - slot = (place + size - 1 - slot) + lap * size := by omega
  rw [laps, shift, Nat.add_mul_div_right _ _ (by omega), Nat.add_comm lap]
  congr 1
  split
  · exact Nat.div_eq_of_lt_le (by omega) (by omega)
  · exact Nat.div_eq_of_lt (by omega)

theorem laps_succ (size written slot : Nat) (inside : slot < size) :
    laps size (written + 1) slot = laps size written slot + if written % size = slot then 1 else 0 := by
  have placed := Nat.mod_lt written (show 0 < size by omega)
  have parts := Nat.div_add_mod' written size
  generalize written / size = lap at parts
  generalize written % size = place at placed parts ⊢
  subst parts
  rw [laps_split size lap place slot inside placed]
  by_cases last : place + 1 = size
  · have next : lap * size + place + 1 = (lap + 1) * size + 0 := by rw [Nat.succ_mul]; omega
    rw [next, laps_split size (lap + 1) 0 slot inside (by omega), if_neg (Nat.not_lt_zero slot)]
    by_cases below : slot < place
    · rw [if_pos below, if_neg (by omega)]
    · rw [if_neg below, if_pos (by omega)]
  · rw [Nat.add_assoc (lap * size), laps_split size lap (place + 1) slot inside (by omega)]
    by_cases below : slot < place
    · rw [if_pos below, if_pos (by omega), if_neg (by omega)]
    · rw [if_neg below]
      by_cases here : place = slot
      · rw [if_pos (by omega), if_pos here]
      · rw [if_neg (by omega), if_neg here]

theorem initial_tracks (ring : Nat → Nat) (size : Nat) (fresh : ∀ slot < size, ring slot % 2 = 1) :
    Tracks ring size 0 := by
  intro slot inside
  rw [laps_zero size slot inside, fresh slot inside]
  rfl

theorem push_tracks (ring : Nat → Nat) (size written value : Nat) (tracks : Tracks ring size written)
    (bit : value % 2 = written / size % 2) : Tracks (push ring size written value) size (written + 1) := by
  intro slot inside
  rw [laps_succ size written slot inside]
  by_cases here : slot = written % size
  · have placed := Nat.mod_lt written (show 0 < size by omega)
    have before : laps size written (written % size) = written / size := by
      have split := laps_split size (written / size) (written % size) (written % size) placed placed
      rw [Nat.div_add_mod'] at split
      simpa using split
    subst here
    simp only [push, Function.update_self, bit, before, if_true, bitAfter]
    omega
  · rw [push, Function.update_of_ne here, tracks slot inside, if_neg (Ne.symm here), Nat.add_zero]

theorem laps_behind (size item written missing : Nat) (positive : 0 < size) (lag : written + missing = item + 1) :
    laps size written (item % size) + (missing + size - 1) / size = item / size + 1 := by
  have placed := Nat.mod_lt item positive
  have parts := Nat.div_add_mod' item size
  generalize item / size = lap at parts ⊢
  generalize item % size = place at placed parts ⊢
  have behind := Nat.div_add_mod' (missing + size - 1) size
  have rest := Nat.mod_lt (missing + size - 1) positive
  generalize (missing + size - 1) / size = whole at behind ⊢
  generalize (missing + size - 1) % size = part at behind rest
  have bounded : whole ≤ lap + 1 := by
    have inside : whole * size < (lap + 2) * size := by
      have expand : (lap + 2) * size = lap * size + 2 * size := Nat.add_mul lap 2 size
      omega
    have strict := Nat.lt_of_mul_lt_mul_right inside
    omega
  obtain ⟨left, total⟩ := Nat.exists_eq_add_of_le bounded
  have expand : (lap + 1) * size = whole * size + left * size := by rw [total, Nat.add_mul]
  have product : (lap + 1) * size = lap * size + size := Nat.succ_mul lap size
  have value : laps size written place = left := by
    refine Nat.div_eq_of_lt_le ?_ ?_
    · omega
    · rw [Nat.add_mul]
      omega
  omega

theorem found_iff (ring : Nat → Nat) (size item written missing : Nat) (positive : 0 < size)
    (tracks : Tracks ring size written) (lag : written + missing = item + 1) :
    ring (item % size) % 2 = item / size % 2 ↔ (missing + size - 1) / size % 2 = 0 := by
  have behind := laps_behind size item written missing positive lag
  rw [tracks _ (Nat.mod_lt item positive), bitAfter]
  omega

theorem ready_iff (ring : Nat → Nat) (size item written : Nat) (positive : 0 < size) (tracks : Tracks ring size written)
    (reached : item ≤ written) (near : written ≤ item + size) :
    ring (item % size) % 2 = item / size % 2 ↔ item < written := by
  have lap : laps size written (item % size) = item / size + if item < written then 1 else 0 := by
    have placed := Nat.mod_lt item positive
    have parts := Nat.div_add_mod' item size
    generalize item / size = lap at parts ⊢
    generalize item % size = place at placed parts ⊢
    subst parts
    have next : (lap + 1) * size = lap * size + size := Nat.succ_mul lap size
    have after : (lap + 1 + 1) * size = lap * size + size + size := by rw [Nat.succ_mul, next]
    by_cases there : lap * size + place < written
    · rw [if_pos there]
      exact Nat.div_eq_of_lt_le (by omega) (by omega)
    · rw [if_neg there, Nat.add_zero]
      exact Nat.div_eq_of_lt_le (by omega) (by omega)
  rw [tracks _ (Nat.mod_lt item positive), lap, bitAfter]
  by_cases there : item < written
  · simp only [there, if_true, iff_true]
    omega
  · simp only [there, if_false, iff_false]
    omega

end PhaseRing
