import OpenGda.Examples.HaloRows
import OpenGda.Examples.Jacobi

set_option autoImplicit false

-- How the rows of the mesh fall to the ranks of jacobi.cu.
namespace OpenGda.Examples.Jacobi

open Halo

-- At least two ranks, the last of which computes a row besides the two it keeps constant.
structure Splits (mesh : Mesh) : Prop where
  several : 2 ≤ mesh.size
  rows : 3 ≤ chunkSize mesh (mesh.size - 1)
  columns : 0 < mesh.nx

variable (mesh : Mesh)

theorem rows_division (splits : Splits mesh) : mesh.ny - 2 = mesh.size * chunkSizeLow mesh + (mesh.ny - 2) % mesh.size ∧
    (mesh.ny - 2) % mesh.size < mesh.size := by
  have several := splits.several
  exact ⟨(Nat.div_add_mod _ _).symm, Nat.mod_lt _ (by omega)⟩

theorem num_ranks_low (splits : Splits mesh) : numRanksLow mesh + (mesh.ny - 2) % mesh.size = mesh.size := by
  obtain ⟨division, less⟩ := rows_division mesh splits
  unfold numRanksLow
  omega

theorem start_zero : iyStartGlobal mesh 0 = 1 := by
  unfold iyStartGlobal
  split
  · rw [Nat.zero_mul]
  · have none : numRanksLow mesh = 0 := by omega
    rw [none, Nat.zero_mul, Nat.zero_sub, Nat.zero_mul]

theorem start_succ (rank : Nat) : iyStartGlobal mesh (rank + 1) = iyStartGlobal mesh rank + chunkSize mesh rank := by
  unfold iyStartGlobal chunkSize
  by_cases low : rank < numRanksLow mesh
  · rw [if_pos low, if_pos low]
    by_cases nextLow : rank + 1 < numRanksLow mesh
    · rw [if_pos nextLow, Nat.succ_mul]
      omega
    · have border : numRanksLow mesh = rank + 1 := by omega
      rw [if_neg nextLow, border, Nat.sub_self, Nat.zero_mul, Nat.succ_mul]
      omega
  · rw [if_neg low, if_neg low, if_neg (by omega), Nat.succ_sub (by omega), Nat.succ_mul]
    omega

theorem start_size (splits : Splits mesh) : iyStartGlobal mesh mesh.size = mesh.ny - 2 + 1 := by
  obtain ⟨division, less⟩ := rows_division mesh splits
  have low := num_ranks_low mesh splits
  have high : mesh.size - numRanksLow mesh = (mesh.ny - 2) % mesh.size := by omega
  have total : numRanksLow mesh * chunkSizeLow mesh + (mesh.ny - 2) % mesh.size * chunkSizeLow mesh =
      mesh.size * chunkSizeLow mesh := by
    rw [← Nat.add_mul, low]
  rw [iyStartGlobal, if_neg (by omega), high, chunkSizeHigh, Nat.mul_succ]
  omega

theorem start_monotone (first second : Nat) (order : first ≤ second) :
    iyStartGlobal mesh first ≤ iyStartGlobal mesh second := by
  induction order with
  | refl => exact Nat.le_refl _
  | step _ ih =>
      rw [Nat.succ_eq_add_one, start_succ]
      omega

theorem start_positive (rank : Nat) : 1 ≤ iyStartGlobal mesh rank := by
  rw [← start_zero mesh]
  exact start_monotone mesh 0 rank (Nat.zero_le _)

theorem last_chunk (splits : Splits mesh) :
    iyStartGlobal mesh (mesh.size - 1) + chunkSize mesh (mesh.size - 1) = mesh.ny - 1 ∧ 5 ≤ mesh.ny := by
  have several := splits.several
  have rows := splits.rows
  have positive := start_positive mesh (mesh.size - 1)
  have total := start_size mesh splits
  rw [show mesh.size = mesh.size - 1 + 1 by omega, start_succ] at total
  omega

theorem inner_chunk (splits : Splits mesh) (rank : Nat) (inner : rank + 1 < mesh.size) :
    iyStartGlobal mesh rank + chunkSize mesh rank + 4 ≤ mesh.ny := by
  have rows := splits.rows
  obtain ⟨last, _⟩ := last_chunk mesh splits
  have order := start_monotone mesh (rank + 1) (mesh.size - 1) (by omega)
  rw [start_succ] at order
  omega

theorem chunk_positive (splits : Splits mesh) (rank : Nat) : 2 ≤ chunkSize mesh rank := by
  have between : ∀ rank, chunkSizeLow mesh ≤ chunkSize mesh rank ∧ chunkSize mesh rank ≤ chunkSizeLow mesh + 1 := by
    intro rank
    unfold chunkSize chunkSizeHigh
    split <;> omega
  have rows := splits.rows
  have last := between (mesh.size - 1)
  have own := between rank
  omega

theorem inner_iy_end (splits : Splits mesh) (rank : Nat) (inner : rank + 1 < mesh.size) :
    iyEnd mesh rank = chunkSize mesh rank + 1 := by
  have room := inner_chunk mesh splits rank inner
  have positive := chunk_positive mesh splits rank
  unfold iyEnd iyEndGlobal iyStart
  omega

theorem last_iy_end (splits : Splits mesh) : iyEnd mesh (mesh.size - 1) + 1 = chunkSize mesh (mesh.size - 1) ∧
    iyStartGlobal mesh (mesh.size - 1) + iyEnd mesh (mesh.size - 1) = mesh.ny - 2 := by
  obtain ⟨total, rows⟩ := last_chunk mesh splits
  have three := splits.rows
  unfold iyEnd iyEndGlobal iyStart
  omega

theorem iy_end_bounds (splits : Splits mesh) (rank : Nat) (inside : rank < mesh.size) :
    2 ≤ iyEnd mesh rank ∧ iyEnd mesh rank ≤ chunkSize mesh rank + 1 := by
  have positive := chunk_positive mesh splits rank
  by_cases inner : rank + 1 < mesh.size
  · have ends := inner_iy_end mesh splits rank inner
    omega
  · obtain ⟨own, _⟩ := last_iy_end mesh splits
    have three := splits.rows
    rw [show mesh.size - 1 = rank by omega] at own three
    omega

def rows {mesh : Mesh} (splits : Splits mesh) : Rows mesh.nx mesh.ny mesh.size where
  chunkSize := chunkSize mesh
  iyStartGlobal := iyStartGlobal mesh
  iyEnd := iyEnd mesh
  several := splits.several
  columns := splits.columns
  zero := start_zero mesh
  succ rank _ := start_succ mesh rank
  bounds rank inside := iy_end_bounds mesh splits rank inside
  inner rank inner := inner_iy_end mesh splits rank inner
  total := (last_iy_end mesh splits).2
  last := .inr (last_iy_end mesh splits).1

end OpenGda.Examples.Jacobi
