import OpenGda.Lib.Machine

set_option autoImplicit false

-- What jacobi.cu and its port jacobi.cpp have in common: ranks in a ring, each with two buffers
-- of rows between two halo rows, and a kernel that computes one buffer from the other.
namespace OpenGda.Examples.Halo

-- The arithmetic of `real`, which no result depends on.
structure Numbers (Real : Type) where
  zero : Real
  y0 : Nat → Real
  average : Real → Real → Real → Real → Real

section Rows

variable {Real : Type} (numbers : Numbers Real)

def iyStart : Nat := 1

def initializeBoundaries (offset nx myNy : Nat) (a : Nat → Real) : Nat → Real := fun index =>
  if 1 ≤ index / nx ∧ index / nx ≤ myNy ∧ (index % nx = 0 ∨ index % nx = nx - 1) then
    numbers.y0 (offset + (index / nx - 1))
  else a index

def newVal (nx : Nat) (a : Nat → Real) (iy ix : Nat) : Real :=
  numbers.average (a (iy * nx + ix + 1)) (a (iy * nx + ix - 1)) (a ((iy + 1) * nx + ix)) (a ((iy - 1) * nx + ix))

def Interior (nx iyEnd index : Nat) : Prop :=
  iyStart ≤ index / nx ∧ index / nx < iyEnd ∧ 1 ≤ index % nx ∧ index % nx < nx - 1

instance (nx iyEnd index : Nat) : Decidable (Interior nx iyEnd index) := inferInstanceAs (Decidable (_ ∧ _ ∧ _ ∧ _))

end Rows

section Ring

inductive Side where
  | top
  | bottom
deriving DecidableEq, Repr

variable {size : Nat} (rank : Fin size)

def top : Fin size :=
  ⟨if 0 < rank.val then rank.val - 1 else size - 1, by have := rank.isLt; split <;> omega⟩

theorem next_inside : (rank.val + 1) % size < size := Nat.mod_lt _ (Nat.zero_lt_of_lt rank.isLt)

def bottom : Fin size := ⟨(rank.val + 1) % size, next_inside rank⟩

def peer : Side → Fin size
  | .top => top rank
  | .bottom => bottom rank

variable (iyEnd : Nat → Nat)

def localRow : Side → Nat
  | .top => iyStart
  | .bottom => iyEnd rank - 1

def remoteRow : Side → Nat
  | .top => iyEnd (top rank)
  | .bottom => 0

end Ring

section Loop

-- How the loop of main ends: after iter_max iterations, or when the norm is not above tol.
-- allreduce_sum gives every rank the same norm, of which `aboveTol` tells this for each iteration.
structure Loop where
  iterMax : Nat
  aboveTol : Nat → Bool

-- l2_norm is 1.0f before the first iteration.
def Loop.exceeds (loop : Loop) : Nat → Bool
  | 0 => true
  | iter + 1 => loop.aboveTol iter

def Loop.GoesOn (loop : Loop) (iter : Nat) : Prop := iter < loop.iterMax ∧ loop.exceeds iter = true

instance (loop : Loop) (iter : Nat) : Decidable (loop.GoesOn iter) := inferInstanceAs (Decidable (_ ∧ _))

-- `left` is iter_max - iter.
def Loop.iterationsFrom (loop : Loop) : Nat → Nat → Nat
  | 0, iter => iter
  | left + 1, iter => if loop.exceeds iter = true then loop.iterationsFrom left (iter + 1) else iter

def Loop.iterations (loop : Loop) : Nat := loop.iterationsFrom loop.iterMax 0

def Loop.Launches (loop : Loop) (warmups launch : Nat) : Prop := launch < warmups ∨ loop.GoesOn (launch - warmups)

instance (loop : Loop) (warmups launch : Nat) : Decidable (loop.Launches warmups launch) :=
  inferInstanceAs (Decidable (_ ∨ _))

theorem iterations_from_bounds (loop : Loop) (left iter : Nat) :
    iter ≤ loop.iterationsFrom left iter ∧ loop.iterationsFrom left iter ≤ iter + left := by
  induction left generalizing iter with
  | zero => exact ⟨Nat.le_refl _, Nat.le_refl _⟩
  | succ left ih =>
      have later := ih (iter + 1)
      rw [Loop.iterationsFrom]
      split <;> omega

theorem iterations_from_made (loop : Loop) (left iter made : Nat) (reached : iter ≤ made)
    (within : made ≤ loop.iterationsFrom left iter) :
    made < loop.iterationsFrom left iter ↔ made < iter + left ∧ loop.exceeds made = true := by
  induction left generalizing iter with
  | zero =>
      rw [Loop.iterationsFrom] at within ⊢
      omega
  | succ left ih =>
      rw [Loop.iterationsFrom] at within ⊢
      by_cases exceeds : loop.exceeds iter = true
      · rw [if_pos exceeds] at within ⊢
        by_cases same : made = iter
        · have bounds := iterations_from_bounds loop left (iter + 1)
          simp only [same, exceeds, and_true]
          omega
        · have later := ih (iter + 1) (by omega) within
          rwa [show iter + 1 + left = iter + (left + 1) by omega] at later
      · rw [if_neg exceeds] at within ⊢
        have same : made = iter := Nat.le_antisymm within reached
        simp only [same, exceeds, Nat.lt_irrefl, and_false, Bool.false_eq_true]

theorem launches_iff (loop : Loop) (warmups launch : Nat) (bound : launch ≤ warmups + loop.iterations) :
    loop.Launches warmups launch ↔ launch < warmups + loop.iterations := by
  unfold Loop.Launches
  by_cases warming : launch < warmups
  · exact ⟨fun _ => Nat.lt_of_lt_of_le warming (Nat.le_add_right _ _), fun _ => .inl warming⟩
  · have made := iterations_from_made loop loop.iterMax 0 (launch - warmups) (Nat.zero_le _)
      (show launch - warmups ≤ loop.iterations by omega)
    rw [Nat.zero_add] at made
    have below : launch - warmups < loop.iterationsFrom loop.iterMax 0 ↔ launch < warmups + loop.iterations := by
      unfold Loop.iterations
      omega
    rw [or_iff_right warming, ← below]
    exact made.symm

end Loop

section Launches

-- The buffer a launch writes: buf[1] in the warmup, then buf[next_buf].
def nextBuf (warmups launch : Nat) : Nat := if launch < warmups then 1 else (launch - warmups + 1) % 2

def curBuf (warmups launch : Nat) : Nat := 1 - nextBuf warmups launch

structure Thread where
  blockX : Nat
  blockY : Nat
  threadX : Nat
  threadY : Nat
deriving DecidableEq, Repr

def blockDim : Nat := 32

def gridX (nx : Nat) : Nat := (nx + blockDim - 1) / blockDim

def gridY (iyEnd : Nat) : Nat := (iyEnd - iyStart + blockDim - 1) / blockDim

def Thread.iy (thread : Thread) : Nat := thread.blockY * blockDim + thread.threadY + iyStart

def Thread.ix (thread : Thread) : Nat := thread.blockX * blockDim + thread.threadX + 1

def InGrid (nx iyEnd : Nat) (thread : Thread) : Prop :=
  thread.blockX < gridX nx ∧ thread.blockY < gridY iyEnd ∧ thread.threadX < blockDim ∧ thread.threadY < blockDim

instance (nx iyEnd : Nat) (thread : Thread) : Decidable (InGrid nx iyEnd thread) :=
  inferInstanceAs (Decidable (_ ∧ _ ∧ _ ∧ _))

def Computes (nx iyEnd : Nat) (thread : Thread) : Prop := thread.iy < iyEnd ∧ thread.ix < nx - 1

instance (nx iyEnd : Nat) (thread : Thread) : Decidable (Computes nx iyEnd thread) :=
  inferInstanceAs (Decidable (_ ∧ _))

variable {Real : Type}

structure Solver (Real : Type) where
  buf : Nat → Nat → Real
  launches : Nat
  ran : Thread → Bool
  arrived : Nat × Nat → Bool
  blockDoneCounter : Nat
  waiting : Bool

def freshSolver (buf : Nat → Nat → Real) (launches : Nat) : Solver Real :=
  ⟨buf, launches, fun _ => false, fun _ => false, 0, false⟩

def write (now : Solver Real) (which index : Nat) (value : Real) : Solver Real :=
  { now with buf := Function.update now.buf which (Function.update (now.buf which) index value) }

def runThread (numbers : Numbers Real) (warmups nx iyEnd : Nat) (now : Solver Real) (thread : Thread) : Solver Real :=
  let a := now.buf (curBuf warmups now.launches)
  let next := if Computes nx iyEnd thread then
      write now (nextBuf warmups now.launches) (thread.iy * nx + thread.ix) (newVal numbers nx a thread.iy thread.ix)
    else now
  { next with ran := Function.update now.ran thread true }

def arrive (now : Solver Real) (block : Nat × Nat) (counter : Nat) : Solver Real :=
  { now with arrived := Function.update now.arrived block true, blockDoneCounter := counter }

def Synced (now : Solver Real) (block : Nat × Nat) : Prop :=
  ∀ x < blockDim, ∀ y < blockDim, now.ran ⟨block.1, block.2, x, y⟩ = true

def AllArrived (nx iyEnd : Nat) (now : Solver Real) : Prop :=
  ∀ x < gridX nx, ∀ y < gridY iyEnd, now.arrived (x, y) = true

instance (now : Solver Real) (block : Nat × Nat) : Decidable (Synced now block) :=
  inferInstanceAs (Decidable (∀ _ < _, ∀ _ < _, _))

instance (nx iyEnd : Nat) (now : Solver Real) : Decidable (AllArrived nx iyEnd now) :=
  inferInstanceAs (Decidable (∀ _ < _, ∀ _ < _, _))

def Passed (now other : Solver Real) : Prop :=
  (other.launches = now.launches ∧ other.waiting = true) ∨ now.launches < other.launches

instance (now other : Solver Real) : Decidable (Passed now other) := inferInstanceAs (Decidable (_ ∨ _))

end Launches

end OpenGda.Examples.Halo
