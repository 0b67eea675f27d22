import OpenGda.Examples.Halo
import OpenGda.Lib.Countdown

set_option autoImplicit false

-- How far a launch of the kernel is: its threads, its blocks and their counter.
namespace OpenGda.Examples.Halo

open Countdown

variable {Real : Type} {nx iyEnd : Nat}

def blocks (nx iyEnd : Nat) : Finset (Nat × Nat) := Finset.range (gridX nx) ×ˢ Finset.range (gridY iyEnd)

def arrivedBlocks (nx iyEnd : Nat) (now : Solver Real) : Finset (Nat × Nat) :=
  (blocks nx iyEnd).filter fun block => now.arrived block = true

theorem mem_blocks (block : Nat × Nat) : block ∈ blocks nx iyEnd ↔ block.1 < gridX nx ∧ block.2 < gridY iyEnd := by
  simp [blocks]

theorem blocks_card : (blocks nx iyEnd).card = gridX nx * gridY iyEnd := by
  rw [blocks, Finset.card_product, Finset.card_range, Finset.card_range]

theorem blocks_positive (columns : 0 < nx) (rows : 2 ≤ iyEnd) : 0 < gridX nx * gridY iyEnd := by
  have dim : blockDim = 32 := rfl
  have start : iyStart = 1 := rfl
  apply Nat.mul_pos
  · rw [gridX, dim]
    omega
  · rw [gridY, dim, start]
    omega

theorem all_arrived_iff (now : Solver Real) :
    AllArrived nx iyEnd now ↔ (arrivedBlocks nx iyEnd now).card = gridX nx * gridY iyEnd := by
  rw [← blocks_card, arrivedBlocks]
  constructor
  · intro all
    congr 1
    apply Finset.filter_true_of_mem
    intro block member
    obtain ⟨left, right⟩ := (mem_blocks block).mp member
    exact all block.1 left block.2 right
  · intro same x left y right
    have full := Finset.eq_of_subset_of_card_le (Finset.filter_subset _ _) (Nat.le_of_eq same.symm)
    have member : (x, y) ∈ blocks nx iyEnd := (mem_blocks (x, y)).mpr ⟨left, right⟩
    rw [← full, Finset.mem_filter] at member
    exact member.2

structure GridControl (total nx iyEnd : Nat) (now : Solver Real) : Prop where
  bound : now.launches ≤ total
  working : ∀ thread, now.ran thread = true → now.launches < total
  synced : ∀ block, now.arrived block = true → Synced now block
  counter : now.blockDoneCounter = (arrivedBlocks nx iyEnd now).card

variable {total : Nat}

theorem grid_fresh (buf : Nat → Nat → Real) (launches : Nat) (bound : launches ≤ total) :
    GridControl total nx iyEnd (freshSolver buf launches) := by
  refine ⟨bound, ?_, ?_, ?_⟩ <;> simp [freshSolver, arrivedBlocks]

theorem grid_write (now : Solver Real) (which index : Nat) (value : Real) (grid : GridControl total nx iyEnd now) :
    GridControl total nx iyEnd (write now which index value) :=
  ⟨grid.bound, grid.working, grid.synced, grid.counter⟩

theorem grid_waiting (now : Solver Real) (waiting : Bool) (grid : GridControl total nx iyEnd now) :
    GridControl total nx iyEnd { now with waiting := waiting } :=
  ⟨grid.bound, grid.working, grid.synced, grid.counter⟩

theorem run_thread_fields (nx iyEnd : Nat) (numbers : Numbers Real) (warmups : Nat) (now : Solver Real) (thread : Thread) :
    (runThread numbers warmups nx iyEnd now thread).launches = now.launches ∧
      (runThread numbers warmups nx iyEnd now thread).waiting = now.waiting ∧
      (runThread numbers warmups nx iyEnd now thread).arrived = now.arrived ∧
      (runThread numbers warmups nx iyEnd now thread).blockDoneCounter = now.blockDoneCounter ∧
      (runThread numbers warmups nx iyEnd now thread).ran = Function.update now.ran thread true := by
  by_cases computes : Computes nx iyEnd thread
  · simp [runThread, computes, write]
  · simp [runThread, computes]

theorem run_thread_arrived (nx iyEnd : Nat) (numbers : Numbers Real) (warmups : Nat) (now : Solver Real) (thread : Thread) :
    AllArrived nx iyEnd (runThread numbers warmups nx iyEnd now thread) ↔ AllArrived nx iyEnd now := by
  obtain ⟨_, _, arrived, _⟩ := run_thread_fields nx iyEnd numbers warmups now thread
  rw [AllArrived, AllArrived, arrived]

theorem grid_thread (numbers : Numbers Real) (warmups : Nat) (now : Solver Real) (thread : Thread)
    (grid : GridControl total nx iyEnd now) (running : now.launches < total) :
    GridControl total nx iyEnd (runThread numbers warmups nx iyEnd now thread) := by
  obtain ⟨launches, _, arrived, counter, ran⟩ := run_thread_fields nx iyEnd numbers warmups now thread
  refine ⟨by rw [launches]; exact grid.bound, fun _ _ => by rw [launches]; exact running, ?_, ?_⟩
  · intro block done x left y right
    rw [arrived] at done
    rw [ran, Function.update_apply]
    split
    · rfl
    · exact grid.synced block done x left y right
  · rw [counter, grid.counter, arrivedBlocks, arrivedBlocks, arrived]

theorem arrived_insert (now : Solver Real) (block : Nat × Nat) (inside : block.1 < gridX nx ∧ block.2 < gridY iyEnd)
    (before : now.arrived block = false) (counter : Nat) :
    (arrivedBlocks nx iyEnd (arrive now block counter)).card = (arrivedBlocks nx iyEnd now).card + 1 := by
  have absent : block ∉ arrivedBlocks nx iyEnd now := by simp [arrivedBlocks, before]
  rw [← Finset.card_insert_of_notMem absent]
  congr 1
  ext other
  simp only [arrivedBlocks, arrive, Finset.mem_filter, Finset.mem_insert, mem_blocks, Function.update_apply]
  split
  case isTrue same => simp [same, inside]
  case isFalse other => simp [other]

theorem not_all_arrived (now : Solver Real) (block : Nat × Nat) (inside : block.1 < gridX nx ∧ block.2 < gridY iyEnd)
    (before : now.arrived block = false) : ¬ AllArrived nx iyEnd now := by
  intro all
  have arrived : now.arrived block = true := all block.1 inside.1 block.2 inside.2
  rw [arrived] at before
  cases before

theorem counter_below (now : Solver Real) (block : Nat × Nat) (inside : block.1 < gridX nx ∧ block.2 < gridY iyEnd)
    (before : now.arrived block = false) (grid : GridControl total nx iyEnd now) :
    now.blockDoneCounter < gridX nx * gridY iyEnd := by
  have most : (arrivedBlocks nx iyEnd now).card ≤ gridX nx * gridY iyEnd := by
    rw [← blocks_card]
    exact Finset.card_filter_le _ _
  rw [grid.counter]
  exact Nat.lt_of_le_of_ne most fun same => not_all_arrived now block inside before ((all_arrived_iff now).mpr same)

theorem grid_arrive (now : Solver Real) (block : Nat × Nat) (inside : block.1 < gridX nx ∧ block.2 < gridY iyEnd)
    (before : now.arrived block = false) (grid : GridControl total nx iyEnd now) (synced : Synced now block) :
    GridControl total nx iyEnd (arrive now block (now.blockDoneCounter + 1)) := by
  refine ⟨grid.bound, grid.working, ?_, ?_⟩
  · intro other arrived
    simp only [arrive, Function.update_apply] at arrived
    split at arrived
    case isTrue same => exact same ▸ synced
    case isFalse => exact grid.synced other arrived
  · rw [arrived_insert now block inside before, ← grid.counter]
    rfl

theorem last_block_iff (now : Solver Real) (block : Nat × Nat) (inside : block.1 < gridX nx ∧ block.2 < gridY iyEnd)
    (before : now.arrived block = false) (grid : GridControl total nx iyEnd now) (counter : Nat) :
    AllArrived nx iyEnd (arrive now block counter) ↔ now.blockDoneCounter = gridX nx * gridY iyEnd - 1 := by
  have below := counter_below now block inside before grid
  rw [all_arrived_iff, arrived_insert now block inside before, ← grid.counter]
  omega

theorem arrived_ran (now : Solver Real) (grid : GridControl total nx iyEnd now) (all : AllArrived nx iyEnd now)
    (thread : Thread) (inGrid : InGrid nx iyEnd thread) : now.ran thread = true :=
  grid.synced (thread.blockX, thread.blockY) (all _ inGrid.1 _ inGrid.2.1) _ inGrid.2.2.1 _ inGrid.2.2.2

theorem arrived_some (now : Solver Real) (grid : GridControl total nx iyEnd now) (columns : 0 < nx) (rows : 2 ≤ iyEnd)
    (all : AllArrived nx iyEnd now) : ∃ thread, now.ran thread = true := by
  have positive := blocks_positive columns rows
  have dim : 0 < blockDim := by decide
  exact ⟨⟨0, 0, 0, 0⟩, arrived_ran now grid all _
    ⟨Nat.pos_of_mul_pos_right positive, Nat.pos_of_mul_pos_left positive, dim, dim⟩⟩

theorem arrived_working (now : Solver Real) (grid : GridControl total nx iyEnd now) (columns : 0 < nx) (rows : 2 ≤ iyEnd)
    (all : AllArrived nx iyEnd now) : now.launches < total := by
  obtain ⟨thread, ran⟩ := arrived_some now grid columns rows all
  exact grid.working thread ran

section Left

def threads (nx iyEnd : Nat) : Finset Thread :=
  (blocks nx iyEnd ×ˢ (Finset.range blockDim ×ˢ Finset.range blockDim)).image
    fun place => ⟨place.1.1, place.1.2, place.2.1, place.2.2⟩

theorem mem_threads (thread : Thread) (inGrid : InGrid nx iyEnd thread) : thread ∈ threads nx iyEnd := by
  obtain ⟨left, right, x, y⟩ := inGrid
  simp only [threads, Finset.mem_image]
  exact ⟨((thread.blockX, thread.blockY), thread.threadX, thread.threadY),
    by simp [blocks, left, right, x, y], rfl⟩

def gridLeft (nx iyEnd : Nat) (now : Solver Real) : Nat :=
  unset (threads nx iyEnd) now.ran + unset (blocks nx iyEnd) now.arrived

def gridWork (nx iyEnd : Nat) : Nat := (threads nx iyEnd).card + (blocks nx iyEnd).card

theorem grid_left_fresh (buf : Nat → Nat → Real) (launches : Nat) :
    gridLeft nx iyEnd (freshSolver buf launches) = gridWork nx iyEnd := by
  simp [gridLeft, freshSolver, gridWork, unset_fresh]

theorem grid_left_thread (numbers : Numbers Real) (warmups : Nat) (now : Solver Real) (thread : Thread)
    (inGrid : InGrid nx iyEnd thread) (pending : now.ran thread = false) :
    gridLeft nx iyEnd (runThread numbers warmups nx iyEnd now thread) < gridLeft nx iyEnd now := by
  have fewer := unset_update_lt (threads nx iyEnd) now.ran thread (mem_threads thread inGrid) pending
  obtain ⟨_, _, arrived, _, ran⟩ := run_thread_fields nx iyEnd numbers warmups now thread
  rw [gridLeft, gridLeft, arrived, ran]
  omega

theorem grid_left_arrive (now : Solver Real) (block : Nat × Nat) (counter : Nat)
    (inside : block.1 < gridX nx ∧ block.2 < gridY iyEnd) (pending : now.arrived block = false) :
    gridLeft nx iyEnd (arrive now block counter) < gridLeft nx iyEnd now := by
  have fewer := unset_update_lt (blocks nx iyEnd) now.arrived block ((mem_blocks block).mpr inside) pending
  simp only [gridLeft, arrive]
  omega

theorem grid_moves (now : Solver Real) (missing : ¬ AllArrived nx iyEnd now) :
    (∃ thread, InGrid nx iyEnd thread ∧ now.ran thread = false) ∨
      ∃ block : Nat × Nat, (block.1 < gridX nx ∧ block.2 < gridY iyEnd) ∧ Synced now block ∧ now.arrived block = false := by
  by_cases ran : ∀ thread, InGrid nx iyEnd thread → now.ran thread = true
  · obtain ⟨x, left, y, right, pending⟩ : ∃ x, x < gridX nx ∧ ∃ y, y < gridY iyEnd ∧ now.arrived (x, y) = false := by
      simpa [AllArrived] using missing
    exact .inr ⟨(x, y), ⟨left, right⟩, fun _ inX _ inY => ran _ ⟨left, right, inX, inY⟩, pending⟩
  · obtain ⟨thread, inGrid, pending⟩ : ∃ thread, InGrid nx iyEnd thread ∧ now.ran thread = false := by
      simpa using ran
    exact .inl ⟨thread, inGrid, pending⟩

end Left

end OpenGda.Examples.Halo
