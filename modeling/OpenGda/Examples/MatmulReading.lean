import OpenGda.Examples.MatmulRing
import OpenGda.Lib.Countdown

set_option autoImplicit false

-- How the rounds of the ring show in the processes of a program, and which of its steps are the rounds' own.
namespace OpenGda.Examples.Matmul

open Countdown Supersteps

variable {Scalar Stage : Type} {sizes : Sizes}

def reading (ring : Ring sizes) (process : Stage → Process Scalar) (moved : Path → Nat → Stage → Prop) :
    Reading (Fin sizes.npes) (Task sizes) (Place sizes) Scalar Stage where
  owner := ring.owner
  holder place := place.rank
  round now := (process now).round
  entered now := (process now).waiting = true
  done
    | .refill _ which index, now => (process now).refilled which index = true
    | .move path _ index, now => moved path index now
  value place now := (process now).dB place.which place.index

variable (ring : Ring sizes) (hBs : Nat → Nat → Scalar) (process : Stage → Process Scalar)
  (moved : Path → Nat → Stage → Prop) (state : Fin sizes.npes → Stage) (mype : Fin sizes.npes) (now : Stage)

theorem done_same (before after : Stage) (refilled : (process after).refilled = (process before).refilled)
    (same : ∀ path index, moved path index after = moved path index before) (task : Task sizes) :
    (reading ring process moved).done task after = (reading ring process moved).done task before := by
  cases task with
  | refill owner which index => exact congrArg (· which index = true) refilled
  | move path receiver index => exact same path index

theorem view_same (round : (process now).round = (process (state mype)).round)
    (waiting : (process now).waiting = (process (state mype)).waiting)
    (dB : (process now).dB = (process (state mype)).dB)
    (refilled : (process now).refilled = (process (state mype)).refilled)
    (same : ∀ path index, moved path index now = moved path index (state mype)) :
    (reading ring process moved).view (Function.update state mype now) = (reading ring process moved).view state :=
  view_unseen (reading ring process moved) state mype now round (congrArg (· = true) waiting)
    (done_same ring process moved _ _ refilled same) fun place => congrArg (· place.which place.index) dB

theorem word_value (before : Process Scalar) (which index : Nat) (value : Scalar)
    (same : (process now).dB = (storeWord before which index value).dB) (other : Place sizes) (here : other.rank = mype) :
    (process now).dB other.which other.index =
      if other = ⟨mype, which, index⟩ then value else before.dB other.which other.index := by
  obtain ⟨owner, buffer, word⟩ := other
  obtain rfl : owner = mype := here
  simp only [same, storeWord, Place.mk.injEq, true_and, Function.update_apply]
  by_cases sameBuffer : buffer = which
  · simp [sameBuffer, Function.update_apply]
  · simp [sameBuffer]

theorem word_stored (which index : Nat) (value : Scalar)
    (same : (process now).dB = (storeWord (process (state mype)) which index value).dB) :
    ((reading ring process moved).view (Function.update state mype now)).memory =
      Function.update ((reading ring process moved).view state).memory ⟨mype, which, index⟩ value := by
  apply view_stored (reading ring process moved) state mype now ⟨mype, which, index⟩ value rfl
  exact word_value process mype now (process (state mype)) which index value same

theorem refill_simulates (which index : Nat)
    (stored : process now = refillWord (process (state mype)) which index (hBs mype index))
    (same : ∀ path index, moved path index now = moved path index (state mype))
    (outside : ¬ (process (state mype)).waiting = true) (refills : Refills sizes (process (state mype)).round which index) :
    Step (work ring hBs) ((reading ring process moved).view state)
      ((reading ring process moved).view (Function.update state mype now)) := by
  have round : (process now).round = (process (state mype)).round := by rw [stored]; rfl
  have waiting : (process now).waiting = (process (state mype)).waiting := by rw [stored]; rfl
  refine .perform (.refill mype which index) refills outside (fun late => late.elim)
    (view_round (reading ring process moved) state mype now round)
    (view_entered (reading ring process moved) state mype now (congrArg (· = true) waiting)) ?_
    (word_stored ring process moved state mype now which index _ (by rw [stored]; rfl))
  apply view_marked (reading ring process moved) state mype now (.refill mype which index) rfl
  intro task mine
  cases task with
  | refill owner buffer word =>
      obtain rfl : owner = mype := mine
      simp only [reading, stored, refillWord, Task.refill.injEq, true_and]
      rw [row_flag_set]
  | move path receiver word => simp [reading, same]

theorem push_simulates (injective : Function.Injective ring.source) (receiver : Fin sizes.npes) (index : Nat)
    (here : ring.source receiver = mype) (marked : Stage) (sent : Fin sizes.npes → Stage)
    (isSent : sent = Function.update state mype marked) (kept : process marked = process (state mype))
    (marks : ∀ path word, moved path word marked ↔ (path = .push ∧ word = index) ∨ moved path word (state mype))
    (stored : process now = storeWord (process (sent receiver)) (nextBuf (stepOf sizes (process (state mype)).round)) index
      ((process (state mype)).dB (curBuf (stepOf sizes (process (state mype)).round)) index))
    (same : ∀ path word, moved path word now = moved path word (sent receiver))
    (outside : ¬ (process (state mype)).waiting = true) (moves : Moves ring (process (state mype)).round .push receiver index) :
    Step (work ring hBs) ((reading ring process moved).view state)
      ((reading ring process moved).view (Function.update sent receiver now)) := by
  refine view_delivered (reading ring process moved) state mype marked (work ring hBs) rfl (.move .push receiver index)
    here moves outside (fun late => late.elim) (congrArg Process.round kept)
    (congrArg (fun now : Process Scalar => now.waiting = true) kept) (fun place => by simp only [reading, kept]) ?_ sent
    isSent receiver now ⟨receiver, nextBuf (stepOf sizes (process (state mype)).round), index⟩ rfl rfl
    (by simp only [reading, stored, storeWord]) (by simp only [reading, stored, storeWord])
    (done_same ring process moved _ _ (by simp only [stored, storeWord]) same) ?_
  · intro task mine
    cases task with
    | refill owner which word => simp [reading, kept]
    | move path receiver' word =>
        cases path with
        | push =>
            have equal : receiver' = receiver := injective (mine.trans here.symm)
            simp [reading, marks, equal]
        | pull => simp [reading, marks]
  · simpa only [work, Reading.view, reading, here] using
      word_value process receiver now (process (sent receiver)) _ index _ (congrArg Process.dB stored)

theorem pull_simulates (index : Nat)
    (stored : process now = storeWord (process (state mype)) (nextBuf (stepOf sizes (process (state mype)).round)) index
      ((process (state (ring.source mype))).dB (curBuf (stepOf sizes (process (state mype)).round)) index))
    (marks : ∀ path word, moved path word now ↔ (path = .pull ∧ word = index) ∨ moved path word (state mype))
    (outside : ¬ (process (state mype)).waiting = true) (moves : Moves ring (process (state mype)).round .pull mype index) :
    Step (work ring hBs) ((reading ring process moved).view state)
      ((reading ring process moved).view (Function.update state mype now)) := by
  have round : (process now).round = (process (state mype)).round := by rw [stored]; rfl
  have waiting : (process now).waiting = (process (state mype)).waiting := by rw [stored]; rfl
  refine .perform (.move .pull mype index) moves outside (fun late => late.elim)
    (view_round (reading ring process moved) state mype now round)
    (view_entered (reading ring process moved) state mype now (congrArg (· = true) waiting)) ?_
    (word_stored ring process moved state mype now _ index _ (by rw [stored]; rfl))
  apply view_marked (reading ring process moved) state mype now (.move .pull mype index) rfl
  intro task mine
  cases task with
  | refill owner which word => simp [reading, stored, storeWord]
  | move path receiver word =>
      cases path with
      | push => simp [reading, marks]
      | pull =>
          obtain rfl : receiver = mype := mine
          simp [reading, marks]

theorem enter_simulates (round : (process now).round = (process (state mype)).round) (waiting : (process now).waiting = true)
    (dB : (process now).dB = (process (state mype)).dB)
    (refilled : (process now).refilled = (process (state mype)).refilled)
    (same : ∀ path index, moved path index now = moved path index (state mype))
    (filled : stage sizes (process (state mype)).round = 0 → AllRefilled sizes (process (state mype)))
    (passed : ∀ path receiver index, Moves ring (process (state mype)).round path receiver index →
      ring.owner (.move path receiver index) = mype → moved path index (state mype)) :
    Step (work ring hBs) ((reading ring process moved).view state)
      ((reading ring process moved).view (Function.update state mype now)) := by
  refine view_enter (reading ring process moved) state mype now (work ring hBs) ?_ round waiting
    (done_same ring process moved _ _ refilled same) fun place => congrArg (· place.which place.index) dB
  intro task active owned
  cases task with
  | refill owner which index =>
      obtain rfl : owner = mype := owned
      exact filled active.1 which active.2.1 index active.2.2
  | move path receiver index =>
      have arrived := passed path receiver index active owned
      have owned : (reading ring process moved).owner (.move path receiver index) = mype := owned
      simp only [Reading.view, owned]
      exact arrived

theorem leave_simulates [Zero Scalar] (waiting : (process (state mype)).waiting = true)
    (all : ∀ other, ((process (state other)).round = (process (state mype)).round ∧ (process (state other)).waiting = true) ∨
      (process (state mype)).round < (process (state other)).round)
    (fresh : process now = freshProcess ((process (state mype)).round + 1) (process (state mype)).dB
      (process (state mype)).kernel.cs) (unmoved : ∀ path index, ¬ moved path index now) :
    Step (work ring hBs) ((reading ring process moved).view state)
      ((reading ring process moved).view (Function.update state mype now)) := by
  refine view_leave (reading ring process moved) state mype now (work ring hBs) rfl waiting all ?_ ?_ ?_ ?_
  · simp only [reading, fresh, freshProcess]
  · simp [reading, fresh, freshProcess]
  · intro task
    cases task with
    | refill owner which index => simp [reading, fresh, freshProcess]
    | move path receiver index => exact unmoved path index
  · intro place
    simp only [reading, fresh, freshProcess]

end OpenGda.Examples.Matmul
