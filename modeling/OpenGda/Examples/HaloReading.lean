import OpenGda.Examples.HaloGrid
import OpenGda.Examples.HaloLockstep

set_option autoImplicit false

-- How the rounds show in the ranks of a program, and which of its steps are the rounds' own.
namespace OpenGda.Examples.Halo

open Countdown Supersteps
open Jacobi (singleGpu cell_div)

variable {Real Stage : Type} {size : Nat}

def reading (size : Nat) (solver : Stage → Solver Real) (landed : Side → Nat → Stage → Prop) :
    Reading (Fin size) (Task size) (Place size) Real Stage where
  owner
    | .cell rank _ => rank
    | .word rank _ _ => rank
  holder place := place.rank
  round now := (solver now).launches
  entered now := (solver now).waiting = true
  done
    | .cell _ thread, now => (solver now).ran thread = true
    | .word _ side index, now => landed side index now
  value place now := (solver now).buf place.which place.index

variable {nx ny : Nat} (rows : Rows nx ny size) (warmups : Nat) (numbers : Numbers Real) (solver : Stage → Solver Real)
  (landed : Side → Nat → Stage → Prop) (state : Fin size → Stage) (rank : Fin size) (now : Stage)

theorem done_same (before after : Stage) (ran : (solver after).ran = (solver before).ran)
    (same : ∀ side word, landed side word after = landed side word before) (task : Task size) :
    (reading size solver landed).done task after = (reading size solver landed).done task before := by
  cases task with
  | cell owner thread => exact congrArg (· thread = true) ran
  | word owner side index => exact same side index

theorem view_same (launches : (solver now).launches = (solver (state rank)).launches)
    (waiting : (solver now).waiting = (solver (state rank)).waiting) (buf : (solver now).buf = (solver (state rank)).buf)
    (ran : (solver now).ran = (solver (state rank)).ran)
    (same : ∀ side word, landed side word now = landed side word (state rank)) :
    (reading size solver landed).view (Function.update state rank now) = (reading size solver landed).view state :=
  view_unseen (reading size solver landed) state rank now launches (congrArg (· = true) waiting)
    (done_same solver landed _ _ ran same) fun place => congrArg (· place.which place.index) buf

theorem cell_value (before : Solver Real) (which index : Nat) (value : Real)
    (same : (solver now).buf = (write before which index value).buf) (other : Place size) (here : other.rank = rank) :
    (solver now).buf other.which other.index =
      if other = ⟨rank, which, index⟩ then value else before.buf other.which other.index := by
  obtain ⟨owner, buffer, cell⟩ := other
  obtain rfl : owner = rank := here
  simp only [same, write, Place.mk.injEq, true_and, Function.update_apply]
  by_cases sameBuffer : buffer = which
  · simp [sameBuffer, Function.update_apply]
  · simp [sameBuffer]

theorem thread_simulates (thread : Thread)
    (stored : solver now = runThread numbers warmups nx (rows.iyEnd rank) (solver (state rank)) thread)
    (same : ∀ side word, landed side word now = landed side word (state rank))
    (inGrid : InGrid nx (rows.iyEnd rank) thread) (outside : ¬ (solver (state rank)).waiting = true) :
    Step (work rows warmups numbers) ((reading size solver landed).view state)
      ((reading size solver landed).view (Function.update state rank now)) := by
  obtain ⟨launches, waiting, _, _, ran⟩ :=
    run_thread_fields nx (rows.iyEnd rank) numbers warmups (solver (state rank)) thread
  rw [← stored] at launches waiting ran
  refine .perform (.cell rank thread) inGrid outside (fun late => absurd late id)
    (view_round (reading size solver landed) state rank now launches)
    (view_entered (reading size solver landed) state rank now (congrArg (· = true) waiting)) ?_ ?_
  · apply view_marked (reading size solver landed) state rank now (.cell rank thread) rfl
    intro task mine
    cases task with
    | cell owner other =>
        obtain rfl : owner = rank := mine
        simp [reading, ran, flag_set]
    | word owner side word => simp [reading, same]
  · by_cases computes : Computes nx (rows.iyEnd rank) thread
    · simp only [work, if_pos computes]
      apply view_stored (reading size solver landed) state rank now _ _ rfl
      apply cell_value solver rank now
      simp only [stored, runThread, if_pos computes]
      rfl
    · simp only [work, if_neg computes]
      apply view_memory
      intro place
      simp only [reading, stored, runThread, if_neg computes]

theorem land_simulates (side : Side) (word : Nat) (marked : Stage) (sent : Fin size → Stage)
    (isSent : sent = Function.update state rank marked) (kept : solver marked = solver (state rank))
    (marks : ∀ other index, landed other index marked ↔ (other = side ∧ index = word) ∨ landed other index (state rank))
    (written : Stage)
    (stored : solver written = write (solver (sent (peer rank side))) (nextBuf warmups (solver (state rank)).launches)
      (remoteRow rank rows.iyEnd side * nx + word)
      ((solver (state rank)).buf (nextBuf warmups (solver (state rank)).launches) (localRow rank rows.iyEnd side * nx + word)))
    (same : ∀ other index, landed other index written = landed other index (sent (peer rank side))) (within : word < nx)
    (outside : ¬ (solver (state rank)).waiting = true)
    (ran : ∀ thread, InGrid nx (rows.iyEnd rank) thread → (solver (state rank)).ran thread = true) :
    Step (work rows warmups numbers) ((reading size solver landed).view state)
      ((reading size solver landed).view (Function.update sent (peer rank side) written)) := by
  refine view_delivered (reading size solver landed) state rank marked (work rows warmups numbers) rfl (.word rank side word)
    rfl within outside ?_ (congrArg Solver.launches kept) (congrArg (fun now : Solver Real => now.waiting = true) kept)
    (fun place => by simp only [reading, kept]) ?_ sent isSent (peer rank side) written
    ⟨peer rank side, nextBuf warmups (solver (state rank)).launches, remoteRow rank rows.iyEnd side * nx + word⟩ rfl rfl
    (by simp only [reading, stored, write]) (by simp only [reading, stored, write])
    (done_same solver landed _ _ (by simp only [stored, write]) same) ?_
  · intro _ other active same early
    cases other with
    | word owner otherSide index => exact absurd trivial early
    | cell owner thread =>
        obtain rfl : owner = rank := same
        exact ran thread active
  · intro task mine
    cases task with
    | cell owner thread => simp [reading, kept]
    | word owner otherSide index =>
        obtain rfl : owner = rank := mine
        simp [reading, marks]
  · simpa only [work, Reading.view, reading] using
      cell_value solver (peer rank side) written (solver (sent (peer rank side))) _ _ _ (congrArg Solver.buf stored)

theorem enter_simulates (launches : (solver now).launches = (solver (state rank)).launches)
    (waiting : (solver now).waiting = true) (buf : (solver now).buf = (solver (state rank)).buf)
    (same : (solver now).ran = (solver (state rank)).ran)
    (kept : ∀ side word, landed side word now = landed side word (state rank))
    (ran : ∀ thread, InGrid nx (rows.iyEnd rank) thread → (solver (state rank)).ran thread = true)
    (sent : ∀ side, ∀ word < nx, landed side word (state rank)) :
    Step (work rows warmups numbers) ((reading size solver landed).view state)
      ((reading size solver landed).view (Function.update state rank now)) := by
  refine view_enter (reading size solver landed) state rank now (work rows warmups numbers) ?_ launches waiting
    (done_same solver landed _ _ same kept) fun place => congrArg (· place.which place.index) buf
  intro task active owned
  cases task with
  | cell owner thread =>
      obtain rfl : owner = rank := owned
      exact ran thread active
  | word owner side word =>
      obtain rfl : owner = rank := owned
      exact sent side word active

theorem leave_simulates (waiting : (solver (state rank)).waiting = true)
    (all : ∀ other, Passed (solver (state rank)) (solver (state other)))
    (fresh : solver now = freshSolver (solver (state rank)).buf ((solver (state rank)).launches + 1))
    (unsent : ∀ side word, ¬ landed side word now) :
    Step (work rows warmups numbers) ((reading size solver landed).view state)
      ((reading size solver landed).view (Function.update state rank now)) := by
  refine view_leave (reading size solver landed) state rank now (work rows warmups numbers) rfl waiting all ?_ ?_ ?_ ?_
  · simp only [reading, fresh, freshSolver]
  · simp [reading, fresh, freshSolver]
  · intro task
    cases task with
    | cell owner thread => simp [reading, fresh, freshSolver]
    | word owner side index => exact unsent side index
  · intro place
    simp only [reading, fresh, freshSolver]

theorem halo_starts (fresh : ∀ rank : Fin size, solver (state rank) = freshSolver (fun _ =>
      initializeBoundaries numbers (rows.iyStartGlobal rank - 1) nx (rows.chunkSize rank) fun _ => numbers.zero) 0)
    (unsent : ∀ rank side word, ¬ landed side word (state rank)) :
    ∃ front, Consistent (work rows warmups numbers) (generation rows warmups numbers)
      ((reading size solver landed).view state) front := by
  have begins : (reading size solver landed).view state = startView (generation rows warmups numbers 0) := by
    refine view_start (reading size solver landed) _ _ ?_ ?_ ?_ ?_
    · exact fun rank => congrArg Solver.launches (fresh rank)
    · intro rank
      simp [reading, fresh, freshSolver]
    · intro task
      cases task with
      | cell owner thread => simp [reading, fresh, freshSolver]
      | word owner side index => exact unsent owner side index
    · intro place
      simp only [reading, fresh, freshSolver]
      exact image_initial rows numbers place.rank place.index place.rank.isLt
  exact ⟨0, begins ▸ start_consistent _ _⟩

theorem own_rows (consistent : ∃ front, Consistent (work rows warmups numbers) (generation rows warmups numbers)
      ((reading size solver landed).view state) front) (outside : (solver (state rank)).waiting = false) (iy ix : Nat)
    (row : 1 ≤ iy ∧ iy ≤ rows.chunkSize rank) (column : ix < nx) :
    (solver (state rank)).buf (curBuf warmups (solver (state rank)).launches) (iy * nx + ix) =
      (singleGpu numbers nx ny ((solver (state rank)).launches - warmups)).1
        ((rows.iyStartGlobal rank - 1 + iy) * nx + ix) := by
  have found := round_memory ((reading size solver landed).view state) consistent rank
    (by simp [reading, Reading.view, outside]) ⟨rank, curBuf warmups (solver (state rank)).launches, iy * nx + ix⟩
    (fun task active target => absurd target (unwritten_cur rows warmups numbers rank _ _ task active))
  calc (solver (state rank)).buf (curBuf warmups (solver (state rank)).launches) (iy * nx + ix)
      = generation rows warmups numbers (solver (state rank)).launches
          ⟨rank, curBuf warmups (solver (state rank)).launches, iy * nx + ix⟩ := found
    _ = image rows numbers rank ((solver (state rank)).launches - warmups) (iy * nx + ix) := by
      rw [generation, holds_cur]
    _ = _ := by
      rw [image_inner rows numbers rank _ _ (by rwa [cell_div nx iy ix column]), ← Nat.add_assoc, ← Nat.add_mul]

end OpenGda.Examples.Halo
