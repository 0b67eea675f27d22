import OpenGda.Examples.MmMinimalRuns

set_option autoImplicit false

-- The processes' stripes move as the rounds of the ring say, whatever the order of the steps.
namespace OpenGda.Examples.MmMinimal

open Matmul Machine Supersteps Countdown

variable {Scalar : Type} {program : Program Scalar}

def moved : Path → Nat → Rank Scalar → Prop
  | .push, index, now => now.landed 0 index = true
  | .pull, index, now => now.pulled index = true

abbrev view (state : State program) : View (Fin program.sizes.npes) (Task program.sizes) (Place program.sizes) Scalar :=
  (reading (ring program) Rank.toProcess moved).view state

abbrev rounds (program : Program Scalar) : Work (Fin program.sizes.npes) (Task program.sizes) (Place program.sizes) Scalar :=
  work (ring program) program.hBs

theorem moved_same (before after : Rank Scalar) (landed : after.landed = before.landed)
    (pulled : after.pulled = before.pulled) (path : Path) (index : Nat) :
    moved path index after = moved path index before := by
  cases path with
  | push => exact congrArg (· 0 index = true) landed
  | pull => exact congrArg (· index = true) pulled

theorem unseen (state : State program) (mype : Fin program.sizes.npes) (now : Rank Scalar)
    (round : now.round = (state mype).round) (waiting : now.waiting = (state mype).waiting)
    (dB : now.dB = (state mype).dB) (refilled : now.refilled = (state mype).refilled)
    (landed : now.landed = (state mype).landed) (pulled : now.pulled = (state mype).pulled) :
    view (Function.update state mype now) = view state :=
  view_same (ring program) Rank.toProcess moved state mype now round waiting dB refilled (moved_same _ _ landed pulled)

theorem right_injective : Function.Injective (right program.sizes) :=
  Function.LeftInverse.injective (left_right program.sizes)

theorem land_simulates (before : State program) (mype : Fin program.sizes.npes) (word : Nat)
    (control : Control program mype (before mype)) (armed : (before mype).tok.isSome = true)
    (inside : word < stripe program.sizes) : Step (rounds program) (view before)
      (view (Function.update (sentWord before mype word) (left program.sizes mype) (receivedWord before mype word))) := by
  obtain ⟨tok, held⟩ := Option.isSome_iff_exists.mp armed
  obtain ⟨_, _, _, _, need, enqueued, _⟩ := control.queued tok held
  have serves : (ring program).serves .push (left program.sizes mype) = true := by simpa only [ring, right_left] using need
  refine push_simulates (ring program) program.hBs Rank.toProcess moved before mype _ right_injective
    (left program.sizes mype) word (right_left program.sizes mype) _ (sentWord before mype word) rfl rfl ?_ rfl
    (moved_same _ _ rfl rfl) (token_outside mype _ control tok held) ⟨control.stepping enqueued, serves, inside⟩
  intro path other
  cases path with
  | push => simpa [moved] using row_flag_set (before mype).landed 0 word 0 other
  | pull => simp [moved]

theorem pull_moves (before : State program) (mype : Fin program.sizes.npes) (index : Nat)
    (control : Control program mype (before mype)) (enqueued : (before mype).enqueued = true)
    (near : rightIsLocal program mype = true) (inside : index < stripe program.sizes)
    (pending : (before mype).pulled index = false) :
    Step (rounds program) (view before) (view (Function.update before mype { before mype with
      toProcess := storeWord (before mype).toProcess (nextBuf (stepOf program.sizes (before mype).round)) index
        ((before (right program.sizes mype)).dB (curBuf (stepOf program.sizes (before mype).round)) index)
      pulled := Function.update (before mype).pulled index true })) := by
  have stepping := control.stepping enqueued
  refine pull_simulates (ring program) program.hBs Rank.toProcess moved before mype _ index rfl ?_ ?_ ⟨stepping, near, inside⟩
  · intro path word
    cases path with
    | push => simp [moved]
    | pull => simp [moved, flag_set]
  · intro waiting
    have synced := ((control.waiting waiting).2.2 stepping).1
    have done := (control.synced synced).2.2.1 near index inside
    rw [pending] at done
    cases done

theorem finish_simulates (before : State program) (mype : Fin program.sizes.npes) (next : Rank Scalar)
    (control : Control program mype next) (stepping : stage program.sizes next.round ≠ 0)
    (round : next.round = (before mype).round) (waiting : next.waiting = true) (dB : next.dB = (before mype).dB)
    (refilled : next.refilled = (before mype).refilled) (landed : next.landed = (before mype).landed)
    (pulled : next.pulled = (before mype).pulled) :
    Step (rounds program) (view before) (view (Function.update before mype next)) := by
  obtain ⟨synced, sent⟩ := (control.waiting waiting).2.2 stepping
  obtain ⟨_, _, copied, _⟩ := control.synced synced
  refine enter_simulates (ring program) program.hBs Rank.toProcess moved before mype next round waiting dB refilled
    (moved_same _ _ landed pulled) (fun first => absurd (round ▸ first) stepping) ?_
  rintro path receiver index ⟨_, serves, inside⟩ owned
  cases path with
  | push =>
      obtain rfl : right program.sizes receiver = mype := owned
      have arrived := sent serves index inside
      rwa [landed] at arrived
  | pull =>
      obtain rfl : receiver = mype := owned
      have arrived := copied serves index inside
      rwa [pulled] at arrived

theorem enqueue_fields (mype : Fin program.sizes.npes) (now next : Rank Scalar)
    (taken : enqueue program mype now = some next) : next.round = now.round ∧ next.waiting = now.waiting ∧
      next.dB = now.dB ∧ next.refilled = now.refilled ∧ next.landed = now.landed ∧ next.pulled = now.pulled ∧
      next.kernel = now.kernel ∧ next.cleared = now.cleared := by
  unfold enqueue at taken
  split at taken
  · simp only [Option.map_eq_some_iff] at taken
    obtain ⟨_, _, rfl⟩ := taken
    exact ⟨rfl, rfl, rfl, rfl, rfl, rfl, rfl, rfl⟩
  · cases taken
    exact ⟨rfl, rfl, rfl, rfl, rfl, rfl, rfl, rfl⟩

theorem finish_fields (now next : Rank Scalar) (taken : finish now = some next) :
    next.round = now.round ∧ next.waiting = true ∧ next.dB = now.dB ∧ next.refilled = now.refilled ∧
      next.landed = now.landed ∧ next.pulled = now.pulled ∧ next.kernel = now.kernel ∧ next.cleared = now.cleared := by
  unfold finish at taken
  split at taken
  · simp only [Option.map_eq_some_iff] at taken
    obtain ⟨_, _, rfl⟩ := taken
    exact ⟨rfl, rfl, rfl, rfl, rfl, rfl, rfl, rfl⟩
  · cases taken
    exact ⟨rfl, rfl, rfl, rfl, rfl, rfl, rfl, rfl⟩

theorem step_simulates [CommSemiring Scalar] (placed : Placed program) (before after : State program) (action : Action program)
    (controlled : Controlled before) (taken : step program before action = some after) :
    view after = view before ∨ Step (rounds program) (view before) (view after) := by
  cases action with
  | clear mype =>
      simp only [step, Option.ite_none_right_eq_some, Option.some.injEq] at taken
      obtain ⟨_, rfl⟩ := taken
      exact .inl (unseen before mype _ rfl rfl rfl rfl rfl rfl)
  | refill mype which index =>
      simp only [step, Option.ite_none_right_eq_some, Option.some.injEq] at taken
      obtain ⟨⟨_, outside, refills, _⟩, rfl⟩ := taken
      exact .inr (refill_simulates (ring program) program.hBs Rank.toProcess moved before mype _ which index rfl
        (moved_same _ _ rfl rfl) (by simp [outside]) refills)
  | refilled mype =>
      simp only [step, Option.ite_none_right_eq_some, Option.some.injEq] at taken
      obtain ⟨⟨first, _, _, all⟩, rfl⟩ := taken
      exact .inr (enter_simulates (ring program) program.hBs Rank.toProcess moved before mype _ rfl rfl rfl rfl
        (moved_same _ _ rfl rfl) (fun _ => all) fun _ _ _ moves => absurd first moves.1)
  | enqueue mype =>
      simp only [step, Option.ite_none_right_eq_some, Option.map_eq_some_iff] at taken
      obtain ⟨_, next, queued, rfl⟩ := taken
      obtain ⟨round, waiting, dB, refilled, landed, pulled, _⟩ := enqueue_fields mype _ next queued
      exact .inl (unseen before mype next round waiting dB refilled landed pulled)
  | trigger mype =>
      simp only [step, Option.ite_none_right_eq_some, Option.some.injEq] at taken
      obtain ⟨_, rfl⟩ := taken
      exact .inl (unseen before mype _ rfl rfl rfl rfl rfl rfl)
  | land mype target index word =>
      obtain ⟨inside, _, armed, rfl⟩ := land_result placed before after mype target index word (controlled mype) taken
      exact .inr (land_simulates before mype word (controlled mype) armed inside)
  | completeWrite mype index =>
      simp only [step, Option.ite_none_right_eq_some, Option.map_eq_some_iff] at taken
      obtain ⟨_, rt, _, rfl⟩ := taken
      exact .inl (unseen before mype _ rfl rfl rfl rfl rfl rfl)
  | completeAtomic mype index =>
      simp only [step, Option.map_eq_some_iff] at taken
      obtain ⟨rt, _, rfl⟩ := taken
      exact .inl (unseen before mype _ rfl rfl rfl rfl rfl rfl)
  | pull mype index =>
      simp only [step, Option.ite_none_right_eq_some, Option.some.injEq] at taken
      obtain ⟨⟨enqueued, near, _, inside, pending⟩, rfl⟩ := taken
      exact .inr (pull_moves before mype index (controlled mype) enqueued near inside pending)
  | thread mype thread =>
      simp only [step, Option.ite_none_right_eq_some, Option.some.injEq] at taken
      obtain ⟨_, rfl⟩ := taken
      exact .inl (unseen before mype _ rfl rfl rfl rfl rfl rfl)
  | sync mype =>
      simp only [step, Option.ite_none_right_eq_some, Option.some.injEq] at taken
      obtain ⟨_, rfl⟩ := taken
      exact .inl (unseen before mype _ rfl rfl rfl rfl rfl rfl)
  | wait mype =>
      simp only [step, Option.ite_none_right_eq_some, Option.some.injEq] at taken
      obtain ⟨_, rfl⟩ := taken
      exact .inl (unseen before mype _ rfl rfl rfl rfl rfl rfl)
  | finish mype =>
      simp only [step, Option.ite_none_right_eq_some, Option.map_eq_some_iff] at taken
      obtain ⟨⟨synced, outside, waited⟩, next, finished, rfl⟩ := taken
      obtain ⟨round, waiting, dB, refilled, landed, pulled, _⟩ := finish_fields _ next finished
      have stepping := (controlled mype).stepping ((controlled mype).synced synced).1
      rw [← round] at stepping
      exact .inr (finish_simulates before mype next
        (finish_control mype _ next (controlled mype) synced waited outside finished) stepping round waiting dB refilled
        landed pulled)
  | leave mype =>
      simp only [step, Option.ite_none_right_eq_some, Option.some.injEq] at taken
      obtain ⟨⟨waiting, all⟩, rfl⟩ := taken
      exact .inr (leave_simulates (ring program) program.hBs Rank.toProcess moved before mype _ waiting all rfl
        fun path _ => by cases path <;> exact Bool.noConfusion)

end OpenGda.Examples.MmMinimal
