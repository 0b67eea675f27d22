import OpenGda.Bootstrap.Coll
import OpenGda.Examples.JacobiRefinement

set_option autoImplicit false

namespace OpenGda.Examples.Jacobi

open Halo Machine Supersteps

variable {Real : Type} {mesh : Mesh} {numbers : Numbers Real} {settings : Settings}

theorem reach_consistent (splits : Splits mesh) (served : Served mesh settings) (state : State Real mesh)
    (reached : Reach (step mesh numbers settings) always (start mesh numbers) state) :
    Controlled settings.loop.iterations state ∧ ∃ front,
      Consistent (rounds splits numbers) (generation (rows splits) warmups numbers) (view state) front := by
  refine reach_invariant _ _ (fun state => Controlled settings.loop.iterations state ∧ ∃ front,
    Consistent (rounds splits numbers) (generation (rows splits) warmups numbers) (view state) front) _ state ?_ ?_ reached
  · exact ⟨fun rank => fresh_control splits rank 0 _ rank.isLt (Nat.zero_le _),
      halo_starts (rows splits) warmups numbers Rank.toSolver landed _ (fun _ => rfl) fun _ _ _ => Bool.noConfusion⟩
  · intro before after action ⟨controlled, consistent⟩ _ taken
    refine ⟨step_controlled splits served before after action controlled taken, ?_⟩
    rcases step_simulates splits before after action controlled taken with same | moved
    · rwa [same]
    · exact step_consistent (halo_lockstep (rows splits) warmups numbers) (view before) (view after) consistent moved

theorem held_rows (splits : Splits mesh) (state : State Real mesh)
    (consistent : ∃ front, Consistent (rounds splits numbers) (generation (rows splits) warmups numbers) (view state) front)
    (rank : Fin mesh.size) (outside : (state rank).waiting = false) (iy ix : Nat)
    (row : 1 ≤ iy ∧ iy ≤ chunkSize mesh rank) (column : ix < mesh.nx) :
    (state rank).buf (curBuf (state rank).launches) (iy * mesh.nx + ix) =
      (singleGpu numbers mesh.nx mesh.ny ((state rank).launches - warmups)).1
        ((iyStartGlobal mesh rank - 1 + iy) * mesh.nx + ix) :=
  own_rows (rows splits) warmups numbers Rank.toSolver landed state rank consistent outside iy ix row column

-- Between its launches, and whatever the others do, a rank holds its rows of the reference.
theorem rank_rows (splits : Splits mesh) (served : Served mesh settings) (state : State Real mesh)
    (reached : Reach (step mesh numbers settings) always (start mesh numbers) state) (rank : Fin mesh.size)
    (outside : (state rank).waiting = false) (iy ix : Nat) (row : 1 ≤ iy ∧ iy ≤ chunkSize mesh rank)
    (column : ix < mesh.nx) :
    (state rank).buf (curBuf (state rank).launches) (iy * mesh.nx + ix) =
      (singleGpu numbers mesh.nx mesh.ny ((state rank).launches - warmups)).1
        ((iyStartGlobal mesh rank - 1 + iy) * mesh.nx + ix) := by
  obtain ⟨_, consistent⟩ := reach_consistent splits served state reached
  exact held_rows splits state consistent rank outside iy ix row column

section Verify

def overwrite (a : Nat → Real) (offset count : Nat) (source : Nat → Real) : Nat → Real := fun index =>
  if offset ≤ index ∧ index < offset + count then source (index - offset) else a index

def gathered (state : State Real mesh) (aH : Nat → Real) : Nat → Real :=
  (List.finRange mesh.size).foldl (fun a (rank : Fin mesh.size) => overwrite a (iyStartGlobal mesh rank * mesh.nx)
    (chunkSize mesh rank * mesh.nx) fun index => (state rank).buf (curBuf (state rank).launches) (mesh.nx + index)) aH

theorem fold_overwrite {Source : Type} (offset count : Source → Nat) (source : Source → Nat → Real) (index : Nat)
    (value : Real) (sources : List Source) (a : Nat → Real)
    (agree : ∀ one ∈ sources, offset one ≤ index → index < offset one + count one → source one (index - offset one) = value)
    (covered : a index = value ∨ ∃ one ∈ sources, offset one ≤ index ∧ index < offset one + count one) :
    sources.foldl (fun a one => overwrite a (offset one) (count one) (source one)) a index = value := by
  induction sources generalizing a with
  | nil => simpa using covered
  | cons one rest ih =>
      apply ih _ fun other member => agree other (List.mem_cons_of_mem one member)
      by_cases inside : offset one ≤ index ∧ index < offset one + count one
      · left
        simp only [overwrite, if_pos inside]
        exact agree one List.mem_cons_self inside.1 inside.2
      · rcases covered with already | ⟨other, member, covers⟩
        · left
          simp only [overwrite, if_neg inside, already]
        · rcases List.mem_cons.mp member with same | later
          · exact absurd (same ▸ covers) inside
          · exact .inr ⟨other, later, covers⟩

theorem row_owner (splits : Splits mesh) (iy : Nat) (row : 1 ≤ iy ∧ iy < mesh.ny - 1) :
    ∃ rank : Fin mesh.size, iyStartGlobal mesh rank ≤ iy ∧ iy < iyStartGlobal mesh rank + chunkSize mesh rank := by
  have find : ∀ count, count ≤ mesh.size → iy < iyStartGlobal mesh count →
      ∃ rank : Fin mesh.size, iyStartGlobal mesh rank ≤ iy ∧ iy < iyStartGlobal mesh rank + chunkSize mesh rank := by
    intro count bound before
    induction count with
    | zero =>
        rw [start_zero] at before
        omega
    | succ count ih =>
        by_cases earlier : iy < iyStartGlobal mesh count
        · exact ih (by omega) earlier
        · rw [start_succ] at before
          exact ⟨⟨count, bound⟩, Nat.le_of_not_lt earlier, before⟩
  apply find mesh.size (Nat.le_refl _)
  rw [start_size mesh splits]
  omega

theorem gathered_reference (splits : Splits mesh) (served : Served mesh settings) (state : State Real mesh)
    (reached : Reach (step mesh numbers settings) always (start mesh numbers) state)
    (finished : ∀ rank, (state rank).launches = warmups + settings.loop.iterations) (aH : Nat → Real) (iy ix : Nat)
    (row : 1 ≤ iy ∧ iy < mesh.ny - 1) (column : ix < mesh.nx) :
    gathered state aH (iy * mesh.nx + ix) =
      (singleGpu numbers mesh.nx mesh.ny settings.loop.iterations).1 (iy * mesh.nx + ix) := by
  obtain ⟨controlled, consistent⟩ := reach_consistent splits served state reached
  have outside : ∀ rank, (state rank).waiting = false := by
    intro rank
    cases waiting : (state rank).waiting with
    | false => rfl
    | true =>
        have running := ((controlled rank).waiting waiting).2.2
        rw [finished rank] at running
        exact absurd running (Nat.lt_irrefl _)
  apply fold_overwrite
  · intro rank _ above below
    have first : iyStartGlobal mesh rank ≤ iy := by
      have := Nat.div_le_div_right (c := mesh.nx) above
      rwa [Nat.mul_div_cancel _ splits.columns, cell_div mesh.nx iy ix column] at this
    have last : iy < iyStartGlobal mesh rank + chunkSize mesh rank := by
      rw [← Nat.add_mul] at below
      have := (Nat.div_lt_iff_lt_mul splits.columns).mpr below
      rwa [cell_div mesh.nx iy ix column] at this
    have positive := start_positive mesh rank
    have found := held_rows splits state consistent rank (outside rank) (iy - iyStartGlobal mesh rank + 1) ix
      (by omega) column
    have moved : mesh.nx + (iy * mesh.nx + ix - iyStartGlobal mesh rank * mesh.nx) =
        (iy - iyStartGlobal mesh rank + 1) * mesh.nx + ix := by
      have split : iy * mesh.nx = iyStartGlobal mesh rank * mesh.nx + (iy - iyStartGlobal mesh rank) * mesh.nx := by
        rw [← Nat.add_mul, Nat.add_sub_cancel' first]
      rw [Nat.succ_mul, split]
      omega
    rw [moved, found, finished rank, Nat.add_sub_cancel_left,
      show iyStartGlobal mesh rank - 1 + (iy - iyStartGlobal mesh rank + 1) = iy by omega]
  · obtain ⟨rank, first, last⟩ := row_owner splits iy row
    have above := Nat.mul_le_mul_right mesh.nx first
    have below := Nat.mul_le_mul_right mesh.nx (Nat.succ_le_of_lt last)
    rw [Nat.add_mul, Nat.succ_mul] at below
    exact .inr ⟨rank, List.mem_finRange rank, by omega, by omega⟩

end Verify

section Norm

variable {T : Type} {size : Nat} (operators : Coll.Operators T) (solver : Coll.Solver T) (norms : Nat → Fin size → T)

-- l2_norm before an iteration.
def l2Norm : Nat → T
  | 0 => solver.one
  | iter + 1 =>
      if Coll.calcNorm solver iter then solver.sqrt (Coll.allreduceSum operators (Coll.values (norms iter)))
      else l2Norm iter

def normLoop : Loop := ⟨solver.iterMax, fun iter => solver.exceedsTol (l2Norm operators solver norms (iter + 1))⟩

theorem joint_loop_iterations (starts : solver.exceedsTol solver.one = true) :
    (Coll.jointLoop operators solver norms solver.iterMax 0 solver.one).1 =
      (normLoop operators solver norms).iterations := by
  have exceeds : ∀ iter, (normLoop operators solver norms).exceeds iter =
      solver.exceedsTol (l2Norm operators solver norms iter) := by
    intro iter
    cases iter with
    | zero => exact starts.symm
    | succ iter => rfl
  have agree : ∀ left iter, (Coll.jointLoop operators solver norms left iter (l2Norm operators solver norms iter)).1 =
      (normLoop operators solver norms).iterationsFrom left iter := by
    intro left
    induction left with
    | zero => exact fun _ => rfl
    | succ left ih =>
        intro iter
        rw [Coll.jointLoop, Loop.iterationsFrom, exceeds, apply_ite Prod.fst]
        exact if_congr Iff.rfl (ih (iter + 1)) rfl
  exact agree solver.iterMax 0

end Norm

end OpenGda.Examples.Jacobi
