import OpenGda.Examples.MatmulKernel
import OpenGda.Examples.MatmulRing

set_option autoImplicit false

-- The rows of C after some steps of the loop, and after all of them.
namespace OpenGda.Examples.Matmul

variable {Scalar : Type} [CommSemiring Scalar] {sizes : Sizes} (source : Fin sizes.npes → Fin sizes.npes)
  (hAs hBs : Nat → Nat → Scalar)

def columnsDone (mype : Fin sizes.npes) (s i column : Nat) : Scalar :=
  ∑ before ∈ Finset.range s, if column / Ns sizes = blockNum sizes mype before then
    dot sizes (hAs mype) (hBs (source^[before] mype)) i (column % Ns sizes) else 0

def product (sizes : Sizes) (mype i column : Nat) : Scalar :=
  dot sizes (hAs mype) (hBs (column / Ns sizes)) i (column % Ns sizes)

theorem columns_done_zero (mype : Fin sizes.npes) (i column : Nat) :
    columnsDone source hAs hBs mype 0 i column = 0 := Finset.sum_range_zero _

theorem columns_done_succ (mype : Fin sizes.npes) (s i column : Nat) :
    columnsDone source hAs hBs mype (s + 1) i column = columnsDone source hAs hBs mype s i column +
      if column / Ns sizes = blockNum sizes mype s then
        dot sizes (hAs mype) (hBs (source^[s] mype)) i (column % Ns sizes) else 0 := Finset.sum_range_succ _ _

theorem columns_done_block (mype : Fin sizes.npes) (steps s i column : Nat) (most : steps ≤ sizes.npes)
    (inside : s < steps) (block : blockNum sizes mype s = column / Ns sizes) :
    columnsDone source hAs hBs mype steps i column =
      dot sizes (hAs mype) (hBs (source^[s] mype)) i (column % Ns sizes) := by
  obtain ⟨first, _, _, only⟩ := block_once sizes mype _ (block ▸ block_lt sizes mype s)
  have same := only s (by omega) block
  unfold columnsDone
  rw [Finset.sum_eq_single s]
  · rw [if_pos block.symm]
  · intro other member different
    apply if_neg
    intro equal
    have again := only other (by rw [Finset.mem_range] at member; omega) equal.symm
    omega
  · exact fun absent => absurd (Finset.mem_range.mpr inside) absent

theorem columns_done_untouched (mype : Fin sizes.npes) (steps i column : Nat)
    (none : ∀ s < steps, blockNum sizes mype s ≠ column / Ns sizes) :
    columnsDone source hAs hBs mype steps i column = 0 :=
  Finset.sum_eq_zero fun s member => if_neg fun same => none s (Finset.mem_range.mp member) same.symm

theorem right_product (mype : Fin sizes.npes) (steps s i column : Nat) (most : steps ≤ sizes.npes)
    (inside : s < steps) (block : blockNum sizes mype s = column / Ns sizes) :
    columnsDone (right sizes) hAs hBs mype steps i column = product hAs hBs sizes mype i column := by
  rw [columns_done_block (right sizes) hAs hBs mype steps s i column most inside block, right_iterate, product, ← block]
  rfl

structure Sums (mype : Fin sizes.npes) (now : Process Scalar) : Prop where
  cleared : now.cleared = true → ∀ i < Ns sizes, ∀ column < N sizes, now.kernel.cs (i * N sizes + column) = 0
  kept : stage sizes now.round = 0 → now.cleared = false → 0 < now.round → ∀ i < Ns sizes, ∀ column < N sizes,
    now.kernel.cs (i * N sizes + column) = columnsDone source hAs hBs mype sizes.npes i column
  adding : ∀ s, stage sizes now.round = s + 1 → Adding sizes (hAs mype) (hBs (source^[s] mype)) (blockNum sizes mype s)
    (columnsDone source hAs hBs mype s) now.kernel

variable {source hAs hBs}

theorem start_sums (mype : Fin sizes.npes) (dB : Nat → Nat → Scalar) (cs : Nat → Scalar) :
    Sums source hAs hBs mype (freshProcess 0 dB cs) := by
  refine ⟨by simp [freshProcess], fun _ _ later => absurd later (Nat.lt_irrefl 0), fun s step => ?_⟩
  have zero : stage sizes 0 = s + 1 := step
  rw [stage_zero] at zero
  omega

theorem sums_same (mype : Fin sizes.npes) (before after : Process Scalar) (sums : Sums source hAs hBs mype before)
    (round : after.round = before.round) (cleared : after.cleared = before.cleared)
    (kernel : after.kernel = before.kernel) : Sums source hAs hBs mype after := by
  refine ⟨?_, ?_, ?_⟩
  · rw [cleared, kernel]
    exact sums.cleared
  · rw [cleared, kernel, round]
    exact sums.kept
  · rw [kernel, round]
    exact sums.adding

theorem cell_inside (i column : Nat) (row : i < Ns sizes) (inside : column < N sizes) :
    i * N sizes + column < stripe sizes := by
  have below : (i + 1) * N sizes ≤ Ns sizes * N sizes := Nat.mul_le_mul_right _ row
  rw [Nat.succ_mul, Nat.mul_comm (Ns sizes)] at below
  unfold stripe
  omega

theorem clear_sums (mype : Fin sizes.npes) (now : Process Scalar) (first : stage sizes now.round = 0) :
    Sums source hAs hBs mype (clearCs sizes now) := by
  refine ⟨fun _ i row column inside => if_pos (cell_inside i column row inside),
    fun _ cleared => absurd cleared (by simp [clearCs]), fun s step => ?_⟩
  have same : stage sizes now.round = s + 1 := step
  omega

theorem thread_sums (fits : Fits sizes) (mype : Fin sizes.npes) (now : Process Scalar) (thread : Nat × Nat)
    (sums : Sums source hAs hBs mype now) (stepping : stage sizes now.round ≠ 0) (notCleared : ¬ now.cleared = true)
    (more : now.kernel.progress thread < operations sizes thread)
    (reads : ∀ s, stage sizes now.round = s + 1 → ∀ index < stripe sizes,
      now.dB (curBuf s) index = hBs (source^[s] mype) index) :
    Sums source hAs hBs mype (runThread sizes (hAs mype) mype (stepOf sizes now.round) now thread) := by
  refine ⟨fun cleared => absurd cleared notCleared, fun first => absurd first stepping, ?_⟩
  intro s step
  have step : stage sizes now.round = s + 1 := step
  have current : stepOf sizes now.round = s := by rw [stepOf, step, Nat.add_sub_cancel]
  obtain ⟨inK, inJ⟩ := operations_inside sizes thread (Nat.zero_lt_of_lt more)
  have inside : thread.1 * Ns sizes + thread.2 < stripe sizes := by
    have below : (thread.1 + 1) * Ns sizes ≤ N sizes * Ns sizes := Nat.mul_le_mul_right _ inK
    rw [Nat.succ_mul] at below
    unfold stripe
    omega
  simp only [runThread, current]
  exact thread_adding sizes (hAs mype) _ _ _ _ _ thread fits (block_lt sizes mype s) (sums.adding s step) more
    (reads s step _ inside)

theorem leave_sums (mype : Fin sizes.npes) (now : Process Scalar) (sums : Sums source hAs hBs mype now)
    (refilled : stage sizes now.round = 0 → now.cleared = true)
    (done : stage sizes now.round ≠ 0 → KernelDone sizes now.kernel) :
    Sums source hAs hBs mype (freshProcess (now.round + 1) now.dB now.kernel.cs) := by
  have several : 0 < sizes.npes := Nat.zero_lt_of_lt mype.isLt
  have next := stage_next sizes now.round
  have finished : ∀ s, stage sizes now.round = s + 1 → ∀ i < Ns sizes, ∀ column < N sizes,
      now.kernel.cs (i * N sizes + column) = columnsDone source hAs hBs mype (s + 1) i column := by
    intro s current i row column inside
    rw [columns_done_succ]
    exact done_cells sizes _ _ _ _ now.kernel (sums.adding s current) (done (by omega)) i row column inside
  refine ⟨by simp [freshProcess], ?_, ?_⟩
  · intro first _ _
    have first : stage sizes (now.round + 1) = 0 := first
    have last : stage sizes now.round = sizes.npes - 1 + 1 := by
      rw [next] at first
      split at first <;> omega
    have complete := finished _ last
    rw [Nat.sub_add_cancel several] at complete
    exact complete
  · intro s later
    have later : stage sizes (now.round + 1) = s + 1 := later
    have current : stage sizes now.round = s := by
      rw [next] at later
      split at later <;> omega
    apply launch_adding
    intro i row column inside
    cases s with
    | zero => rw [columns_done_zero, sums.cleared (refilled current) i row column inside]
    | succ s => exact finished s current i row column inside

end OpenGda.Examples.Matmul
