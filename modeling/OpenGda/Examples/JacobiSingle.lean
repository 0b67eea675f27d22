import OpenGda.Examples.Halo

set_option autoImplicit false

-- single_gpu of jacobi.cu, the reference that the program compares its ranks with.
namespace OpenGda.Examples.Jacobi

open Halo

variable {Real : Type} (numbers : Numbers Real)

-- One launch of jacobi_kernel: its threads read `a` only and write `a_new` only.
def jacobiKernel (iyEnd nx : Nat) (aNew a : Nat → Real) : Nat → Real := fun index =>
  if Interior nx iyEnd index then newVal numbers nx a (index / nx) (index % nx) else aNew index

def copyRow (nx dst src : Nat) (a : Nat → Real) : Nat → Real := fun index =>
  if index / nx = dst then a (src * nx + index % nx) else a index

-- The arrays a and a_new of single_gpu after some iterations.
def singleGpu (nx ny : Nat) : Nat → (Nat → Real) × (Nat → Real)
  | 0 => (initializeBoundaries numbers 0 nx (ny - 2) fun _ => numbers.zero,
      initializeBoundaries numbers 0 nx (ny - 2) fun _ => numbers.zero)
  | iter + 1 =>
      let (a, aNew) := singleGpu nx ny iter
      let iyEnd := ny - 3
      (copyRow nx iyEnd iyStart (copyRow nx 0 (iyEnd - 1) (jacobiKernel numbers iyEnd nx aNew a)), a)

theorem cell_div (nx iy ix : Nat) (inside : ix < nx) : (iy * nx + ix) / nx = iy := by
  rw [Nat.mul_comm, Nat.mul_add_div (by omega), Nat.div_eq_of_lt inside, Nat.add_zero]

theorem cell_mod (nx iy ix : Nat) (inside : ix < nx) : (iy * nx + ix) % nx = ix := by
  rw [Nat.mul_comm, Nat.mul_add_mod, Nat.mod_eq_of_lt inside]

theorem shift_div (nx row index : Nat) (columns : 0 < nx) : (row * nx + index) / nx = row + index / nx := by
  rw [Nat.mul_comm, Nat.mul_add_div columns]

theorem shift_mod (nx row index : Nat) : (row * nx + index) % nx = index % nx := by
  rw [Nat.mul_comm, Nat.mul_add_mod]

theorem single_second (nx ny iter : Nat) : (singleGpu numbers nx ny (iter + 1)).2 = (singleGpu numbers nx ny iter).1 := rfl

theorem single_first (nx ny iter : Nat) :
    (singleGpu numbers nx ny (iter + 1)).1 = copyRow nx (ny - 3) iyStart (copyRow nx 0 (ny - 4)
      (jacobiKernel numbers (ny - 3) nx (singleGpu numbers nx ny iter).2 (singleGpu numbers nx ny iter).1)) := rfl

theorem single_kernel (nx ny iter index : Nat) (first : index / nx ≠ 0) (last : index / nx ≠ ny - 3) :
    (singleGpu numbers nx ny (iter + 1)).1 index =
      jacobiKernel numbers (ny - 3) nx (singleGpu numbers nx ny iter).2 (singleGpu numbers nx ny iter).1 index := by
  rw [single_first, copyRow, if_neg last, copyRow, if_neg first]

theorem single_interior (nx ny iter iy ix : Nat) (row : iyStart ≤ iy ∧ iy < ny - 3) (column : 1 ≤ ix ∧ ix < nx - 1) :
    (singleGpu numbers nx ny (iter + 1)).1 (iy * nx + ix) = newVal numbers nx (singleGpu numbers nx ny iter).1 iy ix := by
  have inside : ix < nx := by omega
  have positive : 0 < iy := row.1
  have interior : Interior nx (ny - 3) (iy * nx + ix) := by
    rw [Interior, cell_div nx iy ix inside, cell_mod nx iy ix inside]
    exact ⟨row.1, row.2, column⟩
  rw [single_kernel, jacobiKernel, if_pos interior, cell_div nx iy ix inside, cell_mod nx iy ix inside]
  · rw [cell_div nx iy ix inside]
    omega
  · rw [cell_div nx iy ix inside]
    omega

theorem single_first_row (nx ny iter ix : Nat) (inside : ix < nx) (rows : 5 ≤ ny) :
    (singleGpu numbers nx ny (iter + 1)).1 (0 * nx + ix) = (singleGpu numbers nx ny (iter + 1)).1 ((ny - 4) * nx + ix) := by
  rw [single_kernel numbers nx ny iter ((ny - 4) * nx + ix), single_first, copyRow, cell_div nx 0 ix inside, if_neg,
    copyRow, cell_div nx 0 ix inside, if_pos rfl, cell_mod nx 0 ix inside]
  all_goals
    try rw [cell_div nx _ ix inside]
    omega

theorem single_last_row (nx ny iter ix : Nat) (inside : ix < nx) (rows : 5 ≤ ny) :
    (singleGpu numbers nx ny (iter + 1)).1 ((ny - 3) * nx + ix) = (singleGpu numbers nx ny (iter + 1)).1 (iyStart * nx + ix) := by
  have start : iyStart = 1 := rfl
  rw [single_kernel numbers nx ny iter (iyStart * nx + ix), single_first, copyRow, cell_div nx _ ix inside, if_pos rfl,
    cell_mod nx _ ix inside, copyRow, cell_div nx _ ix inside, if_neg]
  all_goals
    try rw [cell_div nx _ ix inside]
    omega

theorem single_constant (nx ny iter index : Nat) (first : index / nx ≠ 0) (last : index / nx ≠ ny - 3)
    (outside : ¬ Interior nx (ny - 3) index) :
    (singleGpu numbers nx ny iter).1 index = (singleGpu numbers nx ny 0).1 index ∧
      (singleGpu numbers nx ny iter).2 index = (singleGpu numbers nx ny 0).1 index := by
  induction iter with
  | zero => exact ⟨rfl, rfl⟩
  | succ iter ih =>
      rw [single_kernel numbers nx ny iter index first last, jacobiKernel, if_neg outside, single_second]
      exact ⟨ih.2, ih.1⟩

theorem single_initial (nx ny index : Nat) : (singleGpu numbers nx ny 0).1 index =
    if 1 ≤ index / nx ∧ index / nx ≤ ny - 2 ∧ (index % nx = 0 ∨ index % nx = nx - 1) then
      numbers.y0 (index / nx - 1)
    else numbers.zero := by
  simp only [singleGpu, initializeBoundaries, Nat.zero_add]

end OpenGda.Examples.Jacobi
