import OpenGda.Examples.JacobiSingle

set_option autoImplicit false

-- How the computed rows of a mesh fall to the ranks of a ring.
namespace OpenGda.Examples.Halo

section Ring

variable {size : Nat}

theorem top_val (rank : Fin size) : (top rank).val = if 0 < rank.val then rank.val - 1 else size - 1 := rfl

theorem bottom_val (rank : Fin size) : (bottom rank).val = if rank.val + 1 = size then 0 else rank.val + 1 := by
  have inside := rank.isLt
  have value : (bottom rank).val = (rank.val + 1) % size := rfl
  rw [value]
  split
  case isTrue last => rw [last, Nat.mod_self]
  case isFalse inner => exact Nat.mod_eq_of_lt (by omega)

theorem bottom_top (rank : Fin size) : bottom (top rank) = rank := by
  have inside := rank.isLt
  apply Fin.ext
  rw [bottom_val, top_val]
  split <;> split <;> omega

theorem top_bottom (rank : Fin size) : top (bottom rank) = rank := by
  have inside := rank.isLt
  apply Fin.ext
  rw [top_val, bottom_val]
  split <;> split <;> omega

end Ring

-- The last rank may leave out two rows that close the ring.
structure Rows (nx ny size : Nat) where
  chunkSize : Nat → Nat
  iyStartGlobal : Nat → Nat
  iyEnd : Nat → Nat
  several : 2 ≤ size
  columns : 0 < nx
  zero : iyStartGlobal 0 = 1
  succ : ∀ rank, rank + 1 < size → iyStartGlobal (rank + 1) = iyStartGlobal rank + chunkSize rank
  bounds : ∀ rank < size, 2 ≤ iyEnd rank ∧ iyEnd rank ≤ chunkSize rank + 1
  inner : ∀ rank, rank + 1 < size → iyEnd rank = chunkSize rank + 1
  total : iyStartGlobal (size - 1) + iyEnd (size - 1) = ny - 2
  last : iyEnd (size - 1) = chunkSize (size - 1) + 1 ∨ iyEnd (size - 1) + 1 = chunkSize (size - 1)

variable {nx ny size : Nat} (rows : Rows nx ny size)

theorem start_monotone (first second : Nat) (order : first ≤ second) (inside : second < size) :
    rows.iyStartGlobal first ≤ rows.iyStartGlobal second := by
  induction order with
  | refl => exact Nat.le_refl _
  | step _ ih =>
      have next := rows.succ _ inside
      have earlier := ih (Nat.lt_of_succ_lt inside)
      rw [Nat.succ_eq_add_one, next]
      exact Nat.le_trans earlier (Nat.le_add_right _ _)

theorem start_positive (rank : Nat) (inside : rank < size) : 1 ≤ rows.iyStartGlobal rank := by
  rw [← rows.zero]
  exact start_monotone rows 0 rank (Nat.zero_le _) inside

theorem end_inside (rank : Nat) (inside : rank < size) : rows.iyStartGlobal rank + rows.iyEnd rank ≤ ny - 2 := by
  have several := rows.several
  have total := rows.total
  by_cases inner : rank + 1 < size
  · have ends := rows.inner rank inner
    have next := rows.succ rank inner
    have later := start_monotone rows (rank + 1) (size - 1) (by omega) (by omega)
    have two := (rows.bounds (size - 1) (by omega)).1
    omega
  · rw [show size - 1 = rank by omega] at total
    exact Nat.le_of_eq total

theorem rows_several (rows : Rows nx ny size) : 5 ≤ ny := by
  have several := rows.several
  have two := (rows.bounds 0 (by omega)).1
  have ends := rows.inner 0 several
  have next := rows.succ 0 several
  have zero := rows.zero
  have inside := end_inside rows 1 several
  have last := (rows.bounds 1 several).1
  rw [Nat.zero_add] at next
  omega

theorem chunk_inside (rank : Nat) (inside : rank < size) : rows.iyStartGlobal rank + rows.chunkSize rank ≤ ny - 1 := by
  have ends := end_inside rows rank inside
  have many := rows_several rows
  by_cases inner : rank + 1 < size
  · have same := rows.inner rank inner
    omega
  · have last := rows.last
    rw [show size - 1 = rank by omega] at last
    omega

theorem rows_within (rank : Fin size) (side : Side) : localRow rank rows.iyEnd side ≤ rows.chunkSize rank ∧
    remoteRow rank rows.iyEnd side ≤ rows.chunkSize (peer rank side) + 1 := by
  obtain ⟨two, most⟩ := rows.bounds rank rank.isLt
  have start : iyStart = 1 := rfl
  cases side with
  | top => exact ⟨by simp only [localRow]; omega, (rows.bounds (top rank) (top rank).isLt).2⟩
  | bottom => exact ⟨by simp only [localRow]; omega, Nat.zero_le _⟩

theorem sent_rows (rank : Fin size) (side : Side) :
    rows.iyStartGlobal rank - 1 + localRow rank rows.iyEnd side =
        rows.iyStartGlobal (peer rank side) - 1 + remoteRow rank rows.iyEnd side ∨
      (rows.iyStartGlobal rank - 1 + localRow rank rows.iyEnd side = iyStart ∧
        rows.iyStartGlobal (peer rank side) - 1 + remoteRow rank rows.iyEnd side = ny - 3) ∨
      (rows.iyStartGlobal rank - 1 + localRow rank rows.iyEnd side = ny - 4 ∧
        rows.iyStartGlobal (peer rank side) - 1 + remoteRow rank rows.iyEnd side = 0) := by
  have start : iyStart = 1 := rfl
  have inside := rank.isLt
  have first := start_positive rows rank inside
  have total := rows.total
  have zero := rows.zero
  cases side with
  | top =>
      simp only [localRow, remoteRow, peer]
      have value := top_val rank
      have peerFirst := start_positive rows (top rank) (top rank).isLt
      by_cases lower : 0 < rank.val
      · rw [if_pos lower] at value
        have next := rows.succ (rank.val - 1) (by omega)
        have ends := rows.inner (rank.val - 1) (by omega)
        rw [Nat.sub_add_cancel lower] at next
        rw [value] at peerFirst ⊢
        omega
      · rw [if_neg lower] at value
        rw [value] at peerFirst
        rw [show rank.val = 0 by omega, zero, value]
        omega
  | bottom =>
      simp only [localRow, remoteRow, peer]
      have value := bottom_val rank
      obtain ⟨two, _⟩ := rows.bounds rank inside
      by_cases last : rank.val + 1 = size
      · rw [if_pos last] at value
        rw [show size - 1 = rank.val by omega] at total
        rw [value, zero]
        omega
      · rw [if_neg last] at value
        have ends := rows.inner rank.val (by omega)
        rw [value, rows.succ rank.val (by omega)]
        omega

theorem constant_row (rank iy : Nat) (inside : rank < size) (first : iy ≠ 0) (last : iy ≠ rows.iyEnd rank)
    (within : iy ≤ rows.chunkSize rank + 1) :
    rows.iyStartGlobal rank - 1 + iy ≠ 0 ∧ rows.iyStartGlobal rank - 1 + iy ≠ ny - 3 ∧
      (rows.iyStartGlobal rank - 1 + iy < ny - 3 → iy < rows.iyEnd rank) ∧
      (iy = rows.chunkSize rank + 1 → ny - 2 < rows.iyStartGlobal rank - 1 + iy) := by
  have ends := end_inside rows rank inside
  have start := start_positive rows rank inside
  by_cases inner : rank + 1 < size
  · have same := rows.inner rank inner
    omega
  · have total := rows.total
    have lastRow := rows.last
    rw [show size - 1 = rank by omega] at total lastRow
    omega

end OpenGda.Examples.Halo
