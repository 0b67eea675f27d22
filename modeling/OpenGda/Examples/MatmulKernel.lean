import OpenGda.Examples.Matmul

set_option autoImplicit false

-- What a launch of matmul_stripe_kernel has added to the rows of C, whatever order its threads run in.
namespace OpenGda.Examples.Matmul

variable {Scalar : Type} [CommSemiring Scalar] (sizes : Sizes)

def dot (as bs : Nat → Scalar) (i j : Nat) : Scalar :=
  ∑ k ∈ Finset.range (N sizes), as (i * N sizes + k) * bs (k * Ns sizes + j)

def added (as bs : Nat → Scalar) (progress : Nat × Nat → Nat) (i j : Nat) : Scalar :=
  ∑ k ∈ Finset.range (N sizes),
    if i + 1 < progress (k, j) then as (i * N sizes + k) * bs (k * Ns sizes + j) else 0

structure Adding (as bs : Nat → Scalar) (block : Nat) (before : Nat → Nat → Scalar) (now : Kernel Scalar) : Prop where
  bounded : ∀ thread, now.progress thread ≤ operations sizes thread
  loaded : ∀ thread, 0 < now.progress thread → now.bKj thread = bs (thread.1 * Ns sizes + thread.2)
  cells : ∀ i < Ns sizes, ∀ column < N sizes, now.cs (i * N sizes + column) = before i column +
    if column / Ns sizes = block then added sizes as bs now.progress i (column % Ns sizes) else 0

theorem launch_adding (as bs : Nat → Scalar) (block : Nat) (before : Nat → Nat → Scalar) (cs : Nat → Scalar)
    (cells : ∀ i < Ns sizes, ∀ column < N sizes, cs (i * N sizes + column) = before i column) :
    Adding sizes as bs block before (launch cs) := by
  refine ⟨fun _ => Nat.zero_le _, fun _ some => absurd some (Nat.lt_irrefl 0), ?_⟩
  intro i row column inside
  simp [launch, cells i row column inside, added]

theorem operations_inside (thread : Nat × Nat) (more : 0 < operations sizes thread) :
    thread.1 < N sizes ∧ thread.2 < Ns sizes := by
  unfold operations at more
  split at more
  case isTrue inside => exact inside
  case isFalse => exact absurd more (Nat.lt_irrefl 0)

theorem added_load (as bs : Nat → Scalar) (progress : Nat × Nat → Nat) (thread : Nat × Nat) (i j : Nat)
    (first : progress thread = 0) :
    added sizes as bs (Function.update progress thread 1) i j = added sizes as bs progress i j := by
  apply Finset.sum_congr rfl
  intro k _
  by_cases same : (k, j) = thread
  · rw [same, Function.update_self, first, if_neg (by omega), if_neg (by omega)]
  · rw [Function.update_of_ne same]

theorem added_step (as bs : Nat → Scalar) (progress : Nat × Nat → Nat) (thread : Nat × Nat) (row i : Nat)
    (inside : thread.1 < N sizes) (reached : progress thread = row + 1) :
    added sizes as bs (Function.update progress thread (row + 2)) i thread.2 =
      added sizes as bs progress i thread.2 +
        if i = row then as (i * N sizes + thread.1) * bs (thread.1 * Ns sizes + thread.2) else 0 := by
  have member := Finset.mem_range.mpr inside
  unfold added
  rw [← Finset.add_sum_erase _ _ member, ← Finset.add_sum_erase _ _ member]
  have others : ∀ k ∈ (Finset.range (N sizes)).erase thread.1,
      Function.update progress thread (row + 2) (k, thread.2) = progress (k, thread.2) := fun k among =>
    Function.update_of_ne (fun same => Finset.ne_of_mem_erase among (congrArg Prod.fst same)) _ _
  rw [Finset.sum_congr rfl fun k among => by rw [others k among], Function.update_self, reached]
  by_cases same : i = row
  · subst same
    simp [add_comm]
  · have both : i + 1 < row + 2 ↔ i + 1 < row + 1 := by omega
    simp only [both, if_neg same, add_zero]

theorem added_other (as bs : Nat → Scalar) (progress : Nat × Nat → Nat) (thread : Nat × Nat) (next i j : Nat)
    (other : j ≠ thread.2) :
    added sizes as bs (Function.update progress thread next) i j = added sizes as bs progress i j := by
  apply Finset.sum_congr rfl
  intro k _
  rw [Function.update_of_ne fun same => other (congrArg Prod.snd same)]

theorem thread_adding (as bs held : Nat → Scalar) (block : Nat) (before : Nat → Nat → Scalar) (now : Kernel Scalar)
    (thread : Nat × Nat) (fits : Fits sizes) (among : block < sizes.npes) (adding : Adding sizes as bs block before now)
    (more : now.progress thread < operations sizes thread)
    (reads : held (thread.1 * Ns sizes + thread.2) = bs (thread.1 * Ns sizes + thread.2)) :
    Adding sizes as bs block before (threadStep sizes as held (block * Ns sizes) thread now) := by
  obtain ⟨inK, inJ⟩ := operations_inside sizes thread (Nat.zero_lt_of_lt more)
  have bounded : ∀ other, Function.update now.progress thread (now.progress thread + 1) other ≤
      operations sizes other := by
    intro other
    rw [Function.update_apply]
    split
    case isTrue same => rw [same]; exact more
    case isFalse => exact adding.bounded other
  cases reached : now.progress thread with
  | zero =>
      rw [reached] at bounded
      refine ⟨?_, ?_, ?_⟩
      · simpa only [threadStep, reached] using bounded
      · intro other some
        simp only [threadStep, reached] at some ⊢
        by_cases same : other = thread
        · rw [same, Function.update_self, reads]
        · rw [Function.update_of_ne same] at some ⊢
          exact adding.loaded other some
      · intro i row column inside
        simp only [threadStep, reached, Nat.zero_add]
        rw [added_load sizes as bs now.progress thread i _ reached]
        exact adding.cells i row column inside
  | succ current =>
      rw [reached] at bounded
      obtain ⟨target, inBlock, place⟩ := column_join sizes fits block thread.2 among inJ
      refine ⟨?_, ?_, ?_⟩
      · simpa only [threadStep, reached] using bounded
      · intro other some
        simp only [threadStep, reached] at some ⊢
        by_cases same : other = thread
        · rw [same]
          exact adding.loaded thread (by omega)
        · rw [Function.update_of_ne same] at some
          exact adding.loaded other some
      · intro i row column inside
        simp only [threadStep, reached]
        rw [adding.loaded thread (by omega)]
        by_cases hit : column = block * Ns sizes + thread.2
        · -- The thread's own column: one term more in its row, the other rows as they were.
          subst hit
          rw [inBlock, place, if_pos rfl, added_step sizes as bs now.progress thread current i inK reached]
          by_cases same : i = current
          · subst same
            rw [← Nat.add_assoc, Function.update_self, Nat.add_assoc, adding.cells i row _ target, inBlock, place,
              if_pos rfl, if_pos rfl, add_assoc]
          · rw [if_neg same, add_zero, Function.update_of_ne, adding.cells i row _ target, inBlock, place, if_pos rfl]
            intro equal
            rw [Nat.add_assoc] at equal
            exact same (cell_injective sizes i current _ _ target target equal).1
        · rw [Function.update_of_ne, adding.cells i row column inside]
          · by_cases own : column / Ns sizes = block
            · have other : column % Ns sizes ≠ thread.2 := by
                intro equal
                apply hit
                rw [← own, ← equal, Nat.div_add_mod']
              rw [if_pos own, if_pos own, added_other sizes as bs now.progress thread _ i _ other]
            · rw [if_neg own, if_neg own]
          · intro equal
            rw [Nat.add_assoc] at equal
            exact hit (cell_injective sizes i current _ _ inside target equal).2

theorem done_cells (as bs : Nat → Scalar) (block : Nat) (before : Nat → Nat → Scalar) (now : Kernel Scalar)
    (adding : Adding sizes as bs block before now) (done : KernelDone sizes now) (i : Nat) (row : i < Ns sizes)
    (column : Nat) (inside : column < N sizes) : now.cs (i * N sizes + column) = before i column +
      if column / Ns sizes = block then dot sizes as bs i (column % Ns sizes) else 0 := by
  have entire : added sizes as bs now.progress i (column % Ns sizes) = dot sizes as bs i (column % Ns sizes) := by
    apply Finset.sum_congr rfl
    intro k member
    have inThread : k < N sizes ∧ column % Ns sizes < Ns sizes :=
      ⟨Finset.mem_range.mp member, Nat.mod_lt _ (Nat.zero_lt_of_lt row)⟩
    obtain ⟨inX, inY⟩ := grid_covers sizes (k, column % Ns sizes) inThread
    rw [done k inX _ inY, operations, if_pos inThread, if_pos (by omega)]
  rw [adding.cells i row column inside, entire]

end OpenGda.Examples.Matmul
