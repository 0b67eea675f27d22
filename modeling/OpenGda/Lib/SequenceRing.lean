import OpenGda.Lib.PhaseRing

set_option autoImplicit false

-- A ring whose items carry their number, from 1 on, in a 64-bit word; an item
-- lies in the slot that its number has under the mask of the ring.
namespace SequenceRing

def slotIdx (seq : UInt64) (nslots : Nat) : Nat := (seq &&& UInt64.ofNat (nslots - 1)).toNat

def seqAt (m : Nat) : UInt64 := UInt64.ofNat (m + 1)

theorem seq_at_value (m : Nat) : (seqAt m).toNat = (m + 1) % 2 ^ 64 := UInt64.toNat_ofNat'

theorem seq_at_succ (m : Nat) : seqAt m + 1 = seqAt (m + 1) := by
  apply UInt64.toNat_inj.mp
  rw [UInt64.toNat_add, seq_at_value, seq_at_value]
  simp

theorem slot_idx_seq (m log : Nat) (fits : log < 31) : slotIdx (seqAt m) (2 ^ log) = (m + 1) % 2 ^ log := by
  have small : 2 ^ log < 2 ^ 31 := Nat.pow_lt_pow_right (by decide) fits
  have mask : (UInt64.ofNat (2 ^ log - 1)).toNat = 2 ^ log - 1 := by
    rw [UInt64.toNat_ofNat']
    exact Nat.mod_eq_of_lt (by omega)
  rw [slotIdx, UInt64.toNat_and, seq_at_value, mask, Nat.and_two_pow_sub_one_eq_mod]
  exact Nat.mod_mod_of_dvd _ (Nat.pow_dvd_pow 2 (by omega))

theorem seq_at_next_lap (m log : Nat) (fits : log < 31) : seqAt (m + 2 ^ log) ≠ seqAt m := by
  have small : 2 ^ log < 2 ^ 31 := Nat.pow_lt_pow_right (by decide) fits
  have positive : 0 < 2 ^ log := Nat.two_pow_pos log
  intro same
  have values := congrArg UInt64.toNat same
  rw [seq_at_value, seq_at_value] at values
  omega

theorem seq_at_first_lap (m log : Nat) (fits : log < 31) (first : m < 2 ^ log) : seqAt m ≠ 0 := by
  have small : 2 ^ log < 2 ^ 31 := Nat.pow_lt_pow_right (by decide) fits
  intro zero
  have value := congrArg UInt64.toNat zero
  rw [seq_at_value, UInt64.toNat_zero] at value
  omega

def slotOffset (nslots stride m : Nat) : Nat := (m + 1) % nslots * stride

theorem slot_offsets_apart (nslots stride first second : Nat) (different : first ≠ second)
    (near : first < second + nslots) (close : second < first + nslots) :
    slotOffset nslots stride first + stride ≤ slotOffset nslots stride second ∨
      slotOffset nslots stride second + stride ≤ slotOffset nslots stride first := by
  have distinct : (first + 1) % nslots ≠ (second + 1) % nslots := by
    rcases Nat.lt_or_gt_of_ne different with less | less
    · exact PhaseRing.slots_distinct _ _ _ (by omega) (by omega)
    · exact (PhaseRing.slots_distinct _ _ _ (by omega) (by omega)).symm
  rw [slotOffset, slotOffset, ← Nat.succ_mul, ← Nat.succ_mul]
  rcases Nat.lt_or_gt_of_ne distinct with less | less
  · exact Or.inl (Nat.mul_le_mul_right stride less)
  · exact Or.inr (Nat.mul_le_mul_right stride less)

theorem slot_offset_inside (nslots stride m : Nat) (positive : 0 < nslots) :
    slotOffset nslots stride m + stride ≤ nslots * stride := by
  rw [slotOffset, ← Nat.succ_mul]
  exact Nat.mul_le_mul_right stride (Nat.mod_lt _ positive)

theorem slot_offset_next_lap (nslots stride m : Nat) :
    slotOffset nslots stride (m + nslots) = slotOffset nslots stride m := by
  rw [slotOffset, slotOffset, show m + nslots + 1 = m + 1 + nslots by omega, Nat.add_mod_right]

end SequenceRing
