import OpenGda.Examples.MatmulReading
import OpenGda.Examples.MmRuns

set_option autoImplicit false

-- Which stripe ends up in which block of C.
namespace OpenGda.Examples.Mm

open Matmul Machine Supersteps Countdown

variable {Scalar : Type} {program : Program Scalar}

def moved : Path → Nat → Rank Scalar → Prop
  | .push, index, now => now.landed now.round index = true
  | .pull, _, _ => False

abbrev view (state : State program) : View (Fin program.sizes.npes) (Task program.sizes) (Place program.sizes) Scalar :=
  (reading (ring program) Rank.toProcess moved).view state

abbrev rounds (program : Program Scalar) : Work (Fin program.sizes.npes) (Task program.sizes) (Place program.sizes) Scalar :=
  work (ring program) program.hBs

theorem moved_same (before after : Rank Scalar) (round : after.round = before.round) (landed : after.landed = before.landed)
    (path : Path) (index : Nat) : moved path index after = moved path index before := by
  cases path with
  | push => simp only [moved, round, landed]
  | pull => rfl

theorem unseen (state : State program) (mype : Fin program.sizes.npes) (now : Rank Scalar)
    (round : now.round = (state mype).round) (waiting : now.waiting = (state mype).waiting)
    (dB : now.dB = (state mype).dB) (refilled : now.refilled = (state mype).refilled)
    (landed : now.landed = (state mype).landed) : view (Function.update state mype now) = view state :=
  view_same (ring program) Rank.toProcess moved state mype now round waiting dB refilled (moved_same _ _ round landed)

theorem left_injective : Function.Injective (left program.sizes) :=
  Function.LeftInverse.injective (right_left program.sizes)

theorem put_inside (index : Nat) (inside : index < putWords program) : index < stripe program.sizes := by
  have least := Nat.mod_le (stripe program.sizes * 4) (2 ^ 32)
  unfold putWords putSize at inside
  omega

theorem put_whole (short : stripe program.sizes * 4 < 2 ^ 32) : putWords program = stripe program.sizes := by
  rw [putWords, putSize, Nat.mod_eq_of_lt short, Nat.mul_div_cancel _ (by decide)]

-- With N = 65536 on four processes the cast leaves no bytes.
example : putSize ⟨4, 65536, 0⟩ = 0 := by decide

theorem land_simulates (before : State program) (mype : Fin program.sizes.npes) (index : Nat)
    (control : Control program (before mype)) (posted : (before mype).posted (before mype).round = true)
    (inside : index < putWords program) (pending : (before mype).landed (before mype).round index = false)
    (sent : State program) (isSent : sent = Function.update before mype { before mype with
      landed := Function.update (before mype).landed (before mype).round
        (Function.update ((before mype).landed (before mype).round) index true) }) :
    Step (rounds program) (view before) (view (Function.update sent (right program.sizes mype)
      { sent (right program.sizes mype) with
        toProcess := storeWord (sent (right program.sizes mype)).toProcess
          (nextBuf (stepOf program.sizes (before mype).round)) index
          ((before mype).dB (curBuf (stepOf program.sizes (before mype).round)) index) })) := by
  have stepping := (control.posted _ posted).2.1
  refine push_simulates (ring program) program.hBs Rank.toProcess moved before mype _ left_injective
    (right program.sizes mype) index (left_right program.sizes mype) _ sent isSent rfl ?_ rfl
    (moved_same _ _ rfl rfl) ?_ ⟨stepping, rfl, put_inside index inside⟩
  · intro path word
    cases path with
    | push => simp [moved, flag_set]
    | pull => simp [moved]
  · intro waiting
    have landed := ((control.waiting waiting).2.2 stepping).2.2 index inside
    rw [pending] at landed
    cases landed

theorem step_simulates [CommSemiring Scalar] (short : stripe program.sizes * 4 < 2 ^ 32) (before after : State program)
    (action : Action program) (controlled : Controlled before) (timely : Timely program before action)
    (taken : step program before action = some after) :
    view after = view before ∨ Step (rounds program) (view before) (view after) := by
  cases action with
  | clear mype =>
      simp only [step, Option.ite_none_right_eq_some, Option.some.injEq] at taken
      obtain ⟨_, rfl⟩ := taken
      exact .inl (unseen before mype _ rfl rfl rfl rfl rfl)
  | refill mype which index =>
      simp only [step, Option.ite_none_right_eq_some, Option.some.injEq] at taken
      obtain ⟨⟨_, outside, refills, _⟩, rfl⟩ := taken
      exact .inr (refill_simulates (ring program) program.hBs Rank.toProcess moved before mype _ which index rfl
        (moved_same _ _ rfl rfl) (by simp [outside]) refills)
  | refilled mype =>
      simp only [step, Option.ite_none_right_eq_some, Option.some.injEq] at taken
      obtain ⟨⟨first, _, _, all⟩, rfl⟩ := taken
      exact .inr (enter_simulates (ring program) program.hBs Rank.toProcess moved before mype _ rfl rfl rfl rfl
        (moved_same _ _ rfl rfl) (fun _ => all) fun _ _ _ moves => absurd first moves.1)
  | put mype =>
      simp only [step, Option.ite_none_right_eq_some, Option.some.injEq] at taken
      obtain ⟨_, rfl⟩ := taken
      exact .inl (unseen before mype _ rfl rfl rfl rfl rfl)
  | land mype round index =>
      simp only [step, Option.ite_none_right_eq_some, Option.some.injEq] at taken
      obtain ⟨⟨⟨posted, _⟩, inside, pending⟩, rfl⟩ := taken
      obtain rfl := current_put _ (controlled mype) round index posted inside pending
      exact .inr (land_simulates before mype index (controlled mype) posted inside pending _ rfl)
  | thread mype thread =>
      simp only [step, Option.ite_none_right_eq_some, Option.some.injEq] at taken
      obtain ⟨_, rfl⟩ := taken
      exact .inl (unseen before mype _ rfl rfl rfl rfl rfl)
  | sync mype =>
      simp only [step, Option.ite_none_right_eq_some, Option.some.injEq] at taken
      obtain ⟨⟨posted, _, _⟩, rfl⟩ := taken
      have stepping := ((controlled mype).posted _ posted).2.1
      refine .inr (enter_simulates (ring program) program.hBs Rank.toProcess moved before mype _ rfl rfl rfl rfl
        (moved_same _ _ rfl rfl) (fun first => absurd first stepping) ?_)
      rintro path receiver index ⟨_, serves, inside⟩ owned
      cases path with
      | push => exact timely index (by rwa [put_whole short])
      | pull => cases serves
  | leave mype =>
      simp only [step, Option.ite_none_right_eq_some, Option.some.injEq] at taken
      obtain ⟨⟨waiting, all⟩, rfl⟩ := taken
      refine .inr (leave_simulates (ring program) program.hBs Rank.toProcess moved before mype _ waiting all rfl ?_)
      intro path index landed
      cases path with
      | push =>
          have most := ((controlled mype).posted _ ((controlled mype).landed _ index landed)).1
          exact absurd most (Nat.not_succ_le_self _)
      | pull => exact landed

variable [CommSemiring Scalar]

structure Holds (program : Program Scalar) (garbage : Place program.sizes → Scalar) (state : State program) : Prop where
  controlled : Controlled state
  consistent : ∃ front, Consistent (rounds program) (generation (ring program) program.hBs garbage) (view state) front
  sums : ∀ mype, Sums (left program.sizes) program.hAs program.hBs mype (state mype).toProcess

variable {garbage : Place program.sizes → Scalar} {cs : Fin program.sizes.npes → Nat → Scalar}

theorem start_holds : Holds program garbage (start program garbage cs) := by
  refine ⟨fun mype => ?_, ⟨0, ?_⟩, fun mype => start_sums mype _ _⟩
  · refine ⟨Nat.zero_le _, ?_, ?_, ?_, ?_⟩ <;> simp [start, freshProcess]
  · have begins : view (start program garbage cs) = startView (generation (ring program) program.hBs garbage 0) := by
      refine view_start _ _ _ (fun _ => rfl) (fun _ => Bool.noConfusion) ?_ fun _ => rfl
      intro task
      cases task with
      | refill mype which index => exact Bool.noConfusion
      | move path receiver index =>
          cases path with
          | push => exact Bool.noConfusion
          | pull => exact id
    rw [begins]
    exact start_consistent _ _

theorem step_sums (fits : Fits program.sizes) (before after : State program) (action : Action program)
    (holds : Holds program garbage before) (taken : step program before action = some after) (other : Fin program.sizes.npes) :
    Sums (left program.sizes) program.hAs program.hBs other (after other).toProcess := by
  have sums := holds.sums
  have moved : ∀ mype now, Sums (left program.sizes) program.hAs program.hBs mype now.toProcess →
      Sums (left program.sizes) program.hAs program.hBs other (Function.update before mype now other).toProcess := by
    intro mype now here
    by_cases own : other = mype
    · subst own
      rw [Function.update_self]
      exact here
    · rw [Function.update_of_ne own]
      exact sums other
  cases action with
  | clear mype =>
      simp only [step, Option.ite_none_right_eq_some, Option.some.injEq] at taken
      obtain ⟨⟨_, first, _⟩, rfl⟩ := taken
      exact moved mype _ (clear_sums mype _ first)
  | refill mype which index =>
      simp only [step, Option.ite_none_right_eq_some, Option.some.injEq] at taken
      obtain ⟨_, rfl⟩ := taken
      exact moved mype _ (sums_same mype _ _ (sums mype) rfl rfl rfl)
  | refilled mype =>
      simp only [step, Option.ite_none_right_eq_some, Option.some.injEq] at taken
      obtain ⟨_, rfl⟩ := taken
      exact moved mype _ (sums_same mype _ _ (sums mype) rfl rfl rfl)
  | put mype =>
      simp only [step, Option.ite_none_right_eq_some, Option.some.injEq] at taken
      obtain ⟨_, rfl⟩ := taken
      exact moved mype _ (sums mype)
  | land mype round index =>
      simp only [step, Option.ite_none_right_eq_some, Option.some.injEq] at taken
      obtain ⟨_, rfl⟩ := taken
      by_cases receiver : other = right program.sizes mype
      · subst receiver
        rw [Function.update_self]
        have sent := moved mype { before mype with
          landed := Function.update (before mype).landed round (Function.update ((before mype).landed round) index true) } (sums mype)
        exact sums_same _ _ _ sent rfl rfl rfl
      · rw [Function.update_of_ne receiver]
        exact moved mype _ (sums mype)
  | thread mype thread =>
      simp only [step, Option.ite_none_right_eq_some, Option.some.injEq] at taken
      obtain ⟨⟨posted, inGrid, more⟩, rfl⟩ := taken
      have control := holds.controlled mype
      have stepping := (control.posted _ posted).2.1
      refine moved mype _ (thread_sums fits mype _ thread (sums mype) stepping
        (fun cleared => stepping (control.refilling cleared).1) more fun s now index inside => ?_)
      refine current_stripe (ring program) program.hBs garbage (view before) holds.consistent mype ?_ s index now inside
      exact fun waiting =>
        grid_thread program.sizes _ thread inGrid more ((control.waiting waiting).2.2 stepping).2.1
  | sync mype =>
      simp only [step, Option.ite_none_right_eq_some, Option.some.injEq] at taken
      obtain ⟨_, rfl⟩ := taken
      exact moved mype _ (sums_same mype _ _ (sums mype) rfl rfl rfl)
  | leave mype =>
      simp only [step, Option.ite_none_right_eq_some, Option.some.injEq] at taken
      obtain ⟨⟨waiting, _⟩, rfl⟩ := taken
      obtain ⟨_, refilled, stepped⟩ := (holds.controlled mype).waiting waiting
      exact moved mype _ (leave_sums mype _ (sums mype) (fun first => (refilled first).1)
        fun stepping => (stepped stepping).2.1)

theorem reach_holds (fits : Fits program.sizes) (short : stripe program.sizes * 4 < 2 ^ 32) (state : State program)
    (reached : Reach (step program) (Timely program) (start program garbage cs) state) :
    Holds program garbage state := by
  refine reach_invariant _ _ (Holds program garbage) _ state start_holds ?_ reached
  intro before after action holds timely taken
  refine ⟨step_controlled before after action holds.controlled timely taken, ?_,
    step_sums fits before after action holds taken⟩
  rcases step_simulates short before after action holds.controlled timely taken with same | moved
  · rw [same]
    exact holds.consistent
  · exact step_consistent (ring_lockstep (ring program) program.hBs garbage fun _ => ⟨.push, rfl⟩) _ _ holds.consistent moved

def stripeOf (sizes : Sizes) (mype : Fin sizes.npes) (block : Nat) : Nat := (2 * mype + sizes.npes - block) % sizes.npes

theorem left_iterate (sizes : Sizes) (mype : Fin sizes.npes) (s : Nat) (below : s ≤ sizes.npes) :
    ((left sizes)^[s] mype).val = (mype + sizes.npes - s) % sizes.npes := by
  have inside := mype.isLt
  induction s with
  | zero => simp [Nat.mod_eq_of_lt inside]
  | succ s ih =>
      rw [Function.iterate_succ_apply']
      have previous := ih (Nat.le_of_succ_le below)
      calc (left sizes ((left sizes)^[s] mype)).val
          = (sizes.npes + ((left sizes)^[s] mype).val - 1) % sizes.npes := rfl
        _ = (mype + sizes.npes - (s + 1)) % sizes.npes := by
          rw [previous]
          rcases Nat.lt_or_ge (mype.val + sizes.npes - s) sizes.npes with small | large
          · rw [Nat.mod_eq_of_lt small, show sizes.npes + (mype.val + sizes.npes - s) - 1 =
              sizes.npes + (mype.val + sizes.npes - (s + 1)) by omega, Nat.add_mod_left]
          · have wrapped : (mype.val + sizes.npes - s) % sizes.npes = mype.val + sizes.npes - s - sizes.npes := by
              rw [Nat.mod_eq_sub_mod large, Nat.mod_eq_of_lt (by omega)]
            rw [wrapped]
            congr 1
            omega

theorem stripe_of_block (sizes : Sizes) (mype : Fin sizes.npes) (s : Nat) (below : s < sizes.npes) :
    ((left sizes)^[s] mype).val = stripeOf sizes mype (blockNum sizes mype s) := by
  have inside := mype.isLt
  rw [left_iterate sizes mype s (Nat.le_of_lt below), stripeOf, blockNum]
  rcases Nat.lt_or_ge (mype.val + s) sizes.npes with small | large
  · rw [Nat.mod_eq_of_lt small]
    congr 1
    omega
  · rw [Nat.mod_eq_sub_mod large, Nat.mod_eq_of_lt (by omega : mype.val + s - sizes.npes < sizes.npes),
      show 2 * mype.val + sizes.npes - (mype.val + s - sizes.npes) = sizes.npes + (mype.val + sizes.npes - s) by omega,
      Nat.add_mod_left]

-- At the barrier of step s, if the puts have always landed by their barriers, the blocks so far are
-- products with the stripes of stripeOf. These are the blocks' own stripes with two processes, but with
-- more every process has a block that gets another one.
theorem blocks_at_barrier (fits : Fits program.sizes) (short : stripe program.sizes * 4 < 2 ^ 32) (state : State program)
    (reached : Reach (step program) (Timely program) (start program garbage cs) state) (mype : Fin program.sizes.npes)
    (waiting : (state mype).waiting = true) (s : Nat) (now : stage program.sizes (state mype).round = s + 1) :
    (∀ i < Ns program.sizes, ∀ column < N program.sizes, (state mype).kernel.cs (i * N program.sizes + column) =
      if ∃ earlier ≤ s, blockNum program.sizes mype earlier = column / Ns program.sizes then
        dot program.sizes (program.hAs mype) (program.hBs (stripeOf program.sizes mype (column / Ns program.sizes))) i
          (column % Ns program.sizes)
      else 0) ∧
    (program.sizes.npes = 2 → ∀ block < 2, stripeOf program.sizes mype block = block) ∧
    (3 ≤ program.sizes.npes → ∃ block < program.sizes.npes, stripeOf program.sizes mype block ≠ block) := by
  have holds := reach_holds fits short state reached
  have below : stage program.sizes (state mype).round < program.sizes.npes + 1 := Nat.mod_lt _ (Nat.succ_pos _)
  have inside := mype.isLt
  obtain ⟨_, done, _⟩ := ((holds.controlled mype).waiting waiting).2.2 (by omega)
  refine ⟨?_, ?_, ?_⟩
  · intro i row column within
    rw [done_cells program.sizes _ _ _ _ _ ((holds.sums mype).adding s now) done i row column within, ← columns_done_succ]
    split
    case isTrue touched =>
      obtain ⟨earlier, before, block⟩ := touched
      rw [columns_done_block (left program.sizes) program.hAs program.hBs mype (s + 1) earlier i column (by omega)
        (Nat.lt_succ_of_le before) block, stripe_of_block program.sizes mype earlier (by omega), block]
    case isFalse untouched =>
      apply columns_done_untouched
      exact fun earlier before block => untouched ⟨earlier, Nat.le_of_lt_succ before, block⟩
  · intro two block least
    obtain ⟨own, same⟩ : ∃ own, own = mype.val := ⟨_, rfl⟩
    rw [stripeOf, ← same, two]
    omega
  · intro several
    by_cases last : mype.val + 1 = program.sizes.npes
    · refine ⟨0, by omega, ?_⟩
      rw [stripeOf, show 2 * mype.val + program.sizes.npes - 0 = program.sizes.npes + (program.sizes.npes + (mype.val - 1)) by omega,
        Nat.add_mod_left, Nat.add_mod_left, Nat.mod_eq_of_lt (by omega)]
      omega
    · refine ⟨mype + 1, by omega, ?_⟩
      rw [stripeOf, show 2 * mype.val + program.sizes.npes - (mype.val + 1) = mype.val + program.sizes.npes - 1 by omega]
      rcases Nat.eq_zero_or_pos mype.val with zero | positive
      · rw [zero, Nat.mod_eq_of_lt (by omega)]
        omega
      · rw [show mype.val + program.sizes.npes - 1 = program.sizes.npes + (mype.val - 1) by omega, Nat.add_mod_left,
          Nat.mod_eq_of_lt (by omega)]
        omega

def sample : Program Nat := ⟨⟨3, 3, 0⟩, fun rank index => rank + index + 1, fun rank index => 2 * rank + index + 1⟩

def sampleStart : State sample := start sample (fun _ => 0) fun _ _ => 7

def sampleRefill (mype : Fin sample.sizes.npes) : List (Action sample) :=
  [.clear mype, .refill mype 0 0, .refill mype 0 1, .refill mype 0 2, .refill mype 1 0, .refill mype 1 1, .refill mype 1 2,
    .refilled mype]

def sampleStep (mype : Fin sample.sizes.npes) (round : Nat) : List (Action sample) :=
  [.put mype, .land mype round 0, .land mype round 1, .land mype round 2, .thread mype (0, 0), .thread mype (0, 0),
    .thread mype (1, 0), .thread mype (1, 0), .thread mype (2, 0), .thread mype (2, 0), .sync mype]

def firstSample : Fin sample.sizes.npes := ⟨0, Nat.zero_lt_succ 2⟩

def sampleActions : List (Action sample) :=
  let every := List.finRange sample.sizes.npes
  every.flatMap sampleRefill ++ every.map .leave ++ every.flatMap (fun mype => sampleStep mype 1) ++ every.map .leave ++
    sampleStep firstSample 2

theorem blocks_at_barrier_sample : ∃ state : State sample, Reach (step sample) (Timely sample) sampleStart state ∧
    (state firstSample).kernel.cs 1 = dot sample.sizes (sample.hAs 0) (sample.hBs 2) 0 0 ∧
    ∃ block < 3, stripeOf sample.sizes firstSample block ≠ block := by
  obtain ⟨state, reached, waiting, round⟩ := reach_of_decided (step sample) (Timely sample) sampleActions sampleStart
    (fun state => (state firstSample).waiting = true ∧ (state firstSample).round = 2) (by decide +kernel)
  have now : stage sample.sizes (state firstSample).round = 1 + 1 := by rw [round]; rfl
  obtain ⟨cells, _, other⟩ := blocks_at_barrier (by decide : sample.sizes.npes * Ns sample.sizes ≤ N sample.sizes) (by decide) state
    reached firstSample waiting 1 now
  exact ⟨state, reached, cells 0 (by decide) 1 (by decide), other (by decide)⟩

end OpenGda.Examples.Mm
