import OpenGda.Examples.MmMinimalRefinement

set_option autoImplicit false

-- The sums of every process, whatever the order of the steps.
namespace OpenGda.Examples.MmMinimal

open Matmul Machine Supersteps

variable {Scalar : Type} {program : Program Scalar}

-- A process that is reached by IPC reads by IPC too: GICC_DISABLE_IPC is not set on one of the two alone.
def Paired (program : Program Scalar) : Prop :=
  ∀ mype, program.node (right program.sizes mype) = program.node mype →
    program.useIpc (right program.sizes mype) = true → program.useIpc mype = true

theorem ring_served (paired : Paired program) (receiver : Fin program.sizes.npes) :
    ∃ path, (ring program).serves path receiver = true := by
  by_cases need : needDwq program (right program.sizes receiver) = true
  · exact ⟨.push, need⟩
  · refine ⟨.pull, ?_⟩
    simp only [needDwq, Bool.not_eq_true', Bool.not_eq_false, leftIsLocal, left_right, Bool.and_eq_true, beq_iff_eq] at need
    simp only [ring, rightIsLocal, Bool.and_eq_true, beq_iff_eq]
    exact ⟨paired receiver need.2.symm need.1, need.2.symm⟩

variable [CommSemiring Scalar]

structure Holds (program : Program Scalar) (garbage : Place program.sizes → Scalar) (state : State program) : Prop where
  controlled : Controlled state
  consistent : ∃ front, Consistent (rounds program) (generation (ring program) program.hBs garbage) (view state) front
  sums : ∀ mype, Sums (right program.sizes) program.hAs program.hBs mype (state mype).toProcess

variable {rt : Fin program.sizes.npes → Rt.Runtime} {garbage : Place program.sizes → Scalar}
  {cs : Fin program.sizes.npes → Nat → Scalar}

theorem start_holds (placed : Placed program) (setUp : SetUp program rt) :
    Holds program garbage (start program rt garbage cs) := by
  refine ⟨fun mype => ?_, ⟨0, ?_⟩, fun mype => start_sums mype _ _⟩
  · obtain ⟨opened, batch, idle⟩ := set_up_opened placed rt setUp mype
    exact fresh_control mype 0 _ _ _ (Nat.zero_le _) batch opened idle
  · have begins : view (start program rt garbage cs) = startView (generation (ring program) program.hBs garbage 0) := by
      refine view_start _ _ _ (fun _ => rfl) (fun _ => Bool.noConfusion) ?_ fun _ => rfl
      intro task
      cases task with
      | refill mype which index => exact Bool.noConfusion
      | move path receiver index => cases path <;> exact Bool.noConfusion
    rw [begins]
    exact start_consistent _ _

theorem running_sums (state : State program) (holds : Holds program garbage state) (mype : Fin program.sizes.npes)
    (thread : Nat × Nat) (enqueued : (state mype).enqueued = true) (inGrid : InGrid program.sizes thread)
    (more : (state mype).kernel.progress thread < operations program.sizes thread) :
    Sums (right program.sizes) program.hAs program.hBs mype (runThread program.sizes (program.hAs mype) mype
      (stepOf program.sizes (state mype).round) (state mype).toProcess thread) := by
  have control := holds.controlled mype
  have stepping := control.stepping enqueued
  have outside : ¬ (state mype).waiting = true := by
    intro waiting
    have done := (control.synced ((control.waiting waiting).2.2 stepping).1).2.2.2
    exact grid_thread program.sizes _ thread inGrid more done
  have fits : Fits program.sizes := Nat.le_of_eq (stripes_fill program.sizes program.plain)
  refine thread_sums fits mype _ thread (holds.sums mype) stepping (fun cleared => stepping (control.refilling cleared).1)
    more fun s now index inside => ?_
  exact current_stripe (ring program) program.hBs garbage (view state) holds.consistent mype outside s index now inside

theorem step_sums (placed : Placed program) (before after : State program) (action : Action program)
    (holds : Holds program garbage before) (taken : step program before action = some after)
    (other : Fin program.sizes.npes) :
    Sums (right program.sizes) program.hAs program.hBs other (after other).toProcess := by
  have sums := holds.sums
  have moved : ∀ mype now, Sums (right program.sizes) program.hAs program.hBs mype now.toProcess →
      Sums (right program.sizes) program.hAs program.hBs other (Function.update before mype now other).toProcess := by
    intro mype now here
    by_cases own : other = mype
    · subst own
      rw [Function.update_self]
      exact here
    · rw [Function.update_of_ne own]
      exact sums other
  cases action with
  | clear mype =>
      simp only [step, Option.ite_none_right_eq_some, Option.some.injEq] at taken
      obtain ⟨⟨_, first, _⟩, rfl⟩ := taken
      exact moved mype _ (clear_sums mype _ first)
  | refill mype which index =>
      simp only [step, Option.ite_none_right_eq_some, Option.some.injEq] at taken
      obtain ⟨_, rfl⟩ := taken
      exact moved mype _ (sums_same mype _ _ (sums mype) rfl rfl rfl)
  | refilled mype =>
      simp only [step, Option.ite_none_right_eq_some, Option.some.injEq] at taken
      obtain ⟨_, rfl⟩ := taken
      exact moved mype _ (sums_same mype _ _ (sums mype) rfl rfl rfl)
  | enqueue mype =>
      simp only [step, Option.ite_none_right_eq_some, Option.map_eq_some_iff] at taken
      obtain ⟨_, next, queued, rfl⟩ := taken
      obtain ⟨round, _, _, _, _, _, kernel, cleared⟩ := enqueue_fields mype _ next queued
      exact moved mype next (sums_same mype _ _ (sums mype) round cleared kernel)
  | trigger mype =>
      simp only [step, Option.ite_none_right_eq_some, Option.some.injEq] at taken
      obtain ⟨_, rfl⟩ := taken
      exact moved mype _ (sums mype)
  | land mype target index word =>
      obtain ⟨_, _, _, rfl⟩ := land_result placed before after mype target index word (holds.controlled mype) taken
      have sent := moved mype { before mype with
        landed := Function.update (before mype).landed 0 (Function.update ((before mype).landed 0) word true) } (sums mype)
      by_cases receiver : other = left program.sizes mype
      · subst receiver
        rw [Function.update_self]
        exact sums_same _ _ _ sent rfl rfl rfl
      · rw [Function.update_of_ne receiver]
        exact sent
  | completeWrite mype index =>
      simp only [step, Option.ite_none_right_eq_some, Option.map_eq_some_iff] at taken
      obtain ⟨_, rt, _, rfl⟩ := taken
      exact moved mype _ (sums mype)
  | completeAtomic mype index =>
      simp only [step, Option.map_eq_some_iff] at taken
      obtain ⟨rt, _, rfl⟩ := taken
      exact moved mype _ (sums mype)
  | pull mype index =>
      simp only [step, Option.ite_none_right_eq_some, Option.some.injEq] at taken
      obtain ⟨_, rfl⟩ := taken
      exact moved mype _ (sums_same mype _ _ (sums mype) rfl rfl rfl)
  | thread mype thread =>
      simp only [step, Option.ite_none_right_eq_some, Option.some.injEq] at taken
      obtain ⟨⟨enqueued, _, _, inGrid, more⟩, rfl⟩ := taken
      exact moved mype _ (running_sums before holds mype thread enqueued inGrid more)
  | sync mype =>
      simp only [step, Option.ite_none_right_eq_some, Option.some.injEq] at taken
      obtain ⟨_, rfl⟩ := taken
      exact moved mype _ (sums_same mype _ _ (sums mype) rfl rfl rfl)
  | wait mype =>
      simp only [step, Option.ite_none_right_eq_some, Option.some.injEq] at taken
      obtain ⟨_, rfl⟩ := taken
      exact moved mype _ (sums mype)
  | finish mype =>
      simp only [step, Option.ite_none_right_eq_some, Option.map_eq_some_iff] at taken
      obtain ⟨_, next, finished, rfl⟩ := taken
      obtain ⟨round, _, _, _, _, _, kernel, cleared⟩ := finish_fields _ next finished
      exact moved mype next (sums_same mype _ _ (sums mype) round cleared kernel)
  | leave mype =>
      simp only [step, Option.ite_none_right_eq_some, Option.some.injEq] at taken
      obtain ⟨⟨waiting, _⟩, rfl⟩ := taken
      obtain ⟨_, refilled, stepped⟩ := (holds.controlled mype).waiting waiting
      exact moved mype _ (leave_sums mype _ (sums mype) (fun first => (refilled first).1)
        fun stepping => ((holds.controlled mype).synced (stepped stepping).1).2.2.2)

theorem step_holds (placed : Placed program) (paired : Paired program) (before after : State program)
    (action : Action program) (holds : Holds program garbage before) (taken : step program before action = some after) :
    Holds program garbage after := by
  refine ⟨step_controlled placed before after action holds.controlled taken, ?_,
    step_sums placed before after action holds taken⟩
  rcases step_simulates placed before after action holds.controlled taken with same | moved
  · rw [same]
    exact holds.consistent
  · exact step_consistent (ring_lockstep (ring program) program.hBs garbage (ring_served paired)) _ _ holds.consistent moved

theorem reach_holds (placed : Placed program) (paired : Paired program) (setUp : SetUp program rt) (state : State program)
    (reached : Reach (step program) always (start program rt garbage cs) state) : Holds program garbage state :=
  reach_invariant _ _ (Holds program garbage) _ state (start_holds placed setUp)
    (fun before after action holds _ taken => step_holds placed paired before after action holds taken) reached

end OpenGda.Examples.MmMinimal
