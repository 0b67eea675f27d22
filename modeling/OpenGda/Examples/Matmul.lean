import Mathlib

set_option autoImplicit false

-- What mm_minimal.cpp and mm.cu share: stripes of B travel round a ring of processes,
-- and a kernel multiplies the one at hand into the process' rows of C.
namespace OpenGda.Examples.Matmul

-- The number of processes, the N asked for and mm.cu's Ns_arg, 0 where it has none.
structure Sizes where
  npes : Nat
  asked : Nat
  nsArg : Nat

section Sizes

variable (sizes : Sizes)

def N : Nat := sizes.asked / sizes.npes * sizes.npes

def Ns : Nat := if 0 < sizes.nsArg then sizes.nsArg else N sizes / sizes.npes

-- The column blocks of all processes lie in C; an Ns_arg above N / npes has them overlap.
def Fits : Prop := sizes.npes * Ns sizes ≤ N sizes

def stripe : Nat := N sizes * Ns sizes

def left (mype : Fin sizes.npes) : Fin sizes.npes :=
  ⟨(sizes.npes + mype - 1) % sizes.npes, Nat.mod_lt _ (Nat.zero_lt_of_lt mype.isLt)⟩

def right (mype : Fin sizes.npes) : Fin sizes.npes :=
  ⟨(mype + 1) % sizes.npes, Nat.mod_lt _ (Nat.zero_lt_of_lt mype.isLt)⟩

def blockNum (mype : Fin sizes.npes) (s : Nat) : Nat := (mype + s) % sizes.npes

def curBuf (s : Nat) : Nat := s % 2

def nextBuf (s : Nat) : Nat := (s + 1) % 2

def blockDim : Nat := 16

def gridX : Nat := (N sizes + blockDim - 1) / blockDim

def gridY : Nat := (Ns sizes + blockDim - 1) / blockDim

def InGrid (thread : Nat × Nat) : Prop := thread.1 < gridX sizes * blockDim ∧ thread.2 < gridY sizes * blockDim

instance (thread : Nat × Nat) : Decidable (InGrid sizes thread) := inferInstanceAs (Decidable (_ ∧ _))

-- The memory operations of a thread: it loads b_kj, and then adds to one row of Cs after the other.
def operations (thread : Nat × Nat) : Nat := if thread.1 < N sizes ∧ thread.2 < Ns sizes then Ns sizes + 1 else 0

end Sizes

section Kernel

variable {Scalar : Type}

structure Kernel (Scalar : Type) where
  progress : Nat × Nat → Nat
  bKj : Nat × Nat → Scalar
  cs : Nat → Scalar

def launch [Zero Scalar] (cs : Nat → Scalar) : Kernel Scalar := ⟨fun _ => 0, fun _ => 0, cs⟩

variable [Add Scalar] [Mul Scalar] (sizes : Sizes)

def threadStep (as bs : Nat → Scalar) (colOffset : Nat) (thread : Nat × Nat) (now : Kernel Scalar) : Kernel Scalar :=
  let progress := Function.update now.progress thread (now.progress thread + 1)
  match now.progress thread with
  | 0 => { now with
      progress := progress
      bKj := Function.update now.bKj thread (bs (thread.1 * Ns sizes + thread.2)) }
  | i + 1 =>
      let cell := i * N sizes + colOffset + thread.2
      { now with
        progress := progress
        cs := Function.update now.cs cell (now.cs cell + as (i * N sizes + thread.1) * now.bKj thread) }

end Kernel

section Process

variable {Scalar : Type}

structure Process (Scalar : Type) where
  round : Nat
  dB : Nat → Nat → Scalar
  kernel : Kernel Scalar
  cleared : Bool
  refilled : Nat → Nat → Bool
  synced : Bool
  waiting : Bool

def freshProcess [Zero Scalar] (round : Nat) (dB : Nat → Nat → Scalar) (cs : Nat → Scalar) : Process Scalar :=
  ⟨round, dB, launch cs, false, fun _ _ => false, false, false⟩

def storeWord (now : Process Scalar) (which index : Nat) (value : Scalar) : Process Scalar :=
  { now with dB := Function.update now.dB which (Function.update (now.dB which) index value) }

def refillWord (now : Process Scalar) (which index : Nat) (value : Scalar) : Process Scalar :=
  { storeWord now which index value with
    refilled := Function.update now.refilled which (Function.update (now.refilled which) index true) }

def clearCs [Zero Scalar] (sizes : Sizes) (now : Process Scalar) : Process Scalar :=
  { now with
    cleared := true
    kernel := { now.kernel with cs := fun index => if index < stripe sizes then 0 else now.kernel.cs index } }

def runThread [Add Scalar] [Mul Scalar] (sizes : Sizes) (as : Nat → Scalar) (mype : Fin sizes.npes) (s : Nat)
    (now : Process Scalar) (thread : Nat × Nat) : Process Scalar :=
  { now with kernel := threadStep sizes as (now.dB (curBuf s)) (blockNum sizes mype s * Ns sizes) thread now.kernel }

def AllRefilled (sizes : Sizes) (now : Process Scalar) : Prop :=
  ∀ which < 2, ∀ index < stripe sizes, now.refilled which index = true

def KernelDone (sizes : Sizes) (now : Kernel Scalar) : Prop :=
  ∀ k < gridX sizes * blockDim, ∀ j < gridY sizes * blockDim, now.progress (k, j) = operations sizes (k, j)

instance (sizes : Sizes) (now : Process Scalar) : Decidable (AllRefilled sizes now) :=
  inferInstanceAs (Decidable (∀ _ < _, ∀ _ < _, _))

instance (sizes : Sizes) (now : Kernel Scalar) : Decidable (KernelDone sizes now) :=
  inferInstanceAs (Decidable (∀ _ < _, ∀ _ < _, _))

theorem grid_thread (sizes : Sizes) (now : Kernel Scalar) (thread : Nat × Nat) (inGrid : InGrid sizes thread)
    (more : now.progress thread < operations sizes thread) : ¬ KernelDone sizes now :=
  fun done => Nat.ne_of_lt more (done thread.1 inGrid.1 thread.2 inGrid.2)

end Process

section Indices

variable (sizes : Sizes)

theorem stripes_fill (plain : sizes.nsArg = 0) : sizes.npes * Ns sizes = N sizes := by
  rw [Ns, if_neg (by omega)]
  exact Nat.mul_div_cancel' (Nat.dvd_mul_left _ _)

theorem left_right (mype : Fin sizes.npes) : left sizes (right sizes mype) = mype := by
  apply Fin.ext
  have inside := mype.isLt
  simp only [left, right]
  by_cases last : mype.val + 1 = sizes.npes
  · rw [last, Nat.mod_self, Nat.add_zero, Nat.mod_eq_of_lt (by omega)]
    omega
  · rw [Nat.mod_eq_of_lt (by omega : mype.val + 1 < sizes.npes),
      show sizes.npes + (mype.val + 1) - 1 = sizes.npes + mype.val by omega, Nat.add_mod_left, Nat.mod_eq_of_lt inside]

theorem right_left (mype : Fin sizes.npes) : right sizes (left sizes mype) = mype := by
  apply Fin.ext
  have inside := mype.isLt
  simp only [left, right]
  rw [Nat.mod_add_mod, show sizes.npes + mype.val - 1 + 1 = sizes.npes + mype.val by omega, Nat.add_mod_left,
    Nat.mod_eq_of_lt inside]

theorem right_iterate (mype : Fin sizes.npes) (s : Nat) : ((right sizes)^[s] mype).val = (mype + s) % sizes.npes := by
  induction s with
  | zero => exact (Nat.mod_eq_of_lt mype.isLt).symm
  | succ s ih =>
      rw [Function.iterate_succ_apply']
      calc (right sizes ((right sizes)^[s] mype)).val
          = (((right sizes)^[s] mype).val + 1) % sizes.npes := rfl
        _ = (mype + (s + 1)) % sizes.npes := by rw [ih, Nat.mod_add_mod, Nat.add_assoc]

theorem cur_ne_next (s : Nat) : curBuf s ≠ nextBuf s := by
  unfold curBuf nextBuf
  omega

theorem cur_succ (s : Nat) : curBuf (s + 1) = nextBuf s := rfl

theorem grid_covers (thread : Nat × Nat) (inside : thread.1 < N sizes ∧ thread.2 < Ns sizes) : InGrid sizes thread := by
  have dim : blockDim = 16 := rfl
  unfold InGrid gridX gridY
  rw [dim]
  omega

theorem column_split (plain : sizes.nsArg = 0) (column : Nat) (inside : column < N sizes) :
    column / Ns sizes < sizes.npes ∧ column % Ns sizes < Ns sizes := by
  have fill := stripes_fill sizes plain
  have positive : 0 < Ns sizes := by
    rcases Nat.eq_zero_or_pos (Ns sizes) with zero | positive
    · rw [zero, Nat.mul_zero] at fill
      omega
    · exact positive
  exact ⟨Nat.div_lt_of_lt_mul (by rw [Nat.mul_comm, fill]; exact inside), Nat.mod_lt _ positive⟩

theorem column_join (fits : Fits sizes) (block j : Nat) (among : block < sizes.npes) (inside : j < Ns sizes) :
    block * Ns sizes + j < N sizes ∧ (block * Ns sizes + j) / Ns sizes = block ∧
      (block * Ns sizes + j) % Ns sizes = j := by
  have row : (block + 1) * Ns sizes ≤ N sizes := Nat.le_trans (Nat.mul_le_mul_right _ among) fits
  rw [Nat.succ_mul] at row
  refine ⟨by omega, ?_, ?_⟩
  · rw [Nat.mul_comm, Nat.mul_add_div (by omega), Nat.div_eq_of_lt inside, Nat.add_zero]
  · rw [Nat.mul_comm, Nat.mul_add_mod, Nat.mod_eq_of_lt inside]

theorem cell_split (i column : Nat) (inside : column < N sizes) :
    (i * N sizes + column) / N sizes = i ∧ (i * N sizes + column) % N sizes = column := by
  refine ⟨?_, ?_⟩
  · rw [Nat.mul_comm, Nat.mul_add_div (by omega), Nat.div_eq_of_lt inside, Nat.add_zero]
  · rw [Nat.mul_comm, Nat.mul_add_mod, Nat.mod_eq_of_lt inside]

theorem cell_injective (i other column column' : Nat) (inside : column < N sizes) (inside' : column' < N sizes)
    (same : i * N sizes + column = other * N sizes + column') : i = other ∧ column = column' := by
  obtain ⟨row, rest⟩ := cell_split sizes i column inside
  obtain ⟨row', rest'⟩ := cell_split sizes other column' inside'
  rw [same] at row rest
  exact ⟨row.symm.trans row', rest.symm.trans rest'⟩

theorem block_lt (mype : Fin sizes.npes) (s : Nat) : blockNum sizes mype s < sizes.npes :=
  Nat.mod_lt _ (Nat.zero_lt_of_lt mype.isLt)

theorem block_once (mype : Fin sizes.npes) (block : Nat) (among : block < sizes.npes) :
    ∃ s < sizes.npes, blockNum sizes mype s = block ∧
      ∀ other < sizes.npes, blockNum sizes mype other = block → other = s := by
  have inside := mype.isLt
  unfold blockNum
  have wrap : ∀ s < sizes.npes, (mype.val + s) % sizes.npes =
      if mype.val + s < sizes.npes then mype.val + s else mype.val + s - sizes.npes := by
    intro s below
    split
    case isTrue small => exact Nat.mod_eq_of_lt small
    case isFalse large =>
      rw [Nat.mod_eq_sub_mod (by omega), Nat.mod_eq_of_lt (by omega)]
  refine ⟨if mype.val ≤ block then block - mype.val else sizes.npes + block - mype.val, by split <;> omega, ?_, ?_⟩
  · rw [wrap _ (by split <;> omega)]
    split <;> split <;> omega
  · intro other below
    rw [wrap other below]
    split <;> split <;> omega

end Indices

end OpenGda.Examples.Matmul
