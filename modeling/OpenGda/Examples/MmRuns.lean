import OpenGda.Examples.Mm
import OpenGda.Lib.Countdown

set_option autoImplicit false

namespace OpenGda.Examples.Mm

open Countdown Matmul Machine Supersteps

variable {Scalar : Type} {program : Program Scalar}

structure Control (program : Program Scalar) (now : Rank Scalar) : Prop where
  bound : now.round ≤ totalRounds program
  posted : ∀ round, now.posted round = true →
    round ≤ now.round ∧ stage program.sizes round ≠ 0 ∧ (round < now.round → AllLanded program now round)
  landed : ∀ round index, now.landed round index = true → now.posted round = true
  refilling : now.cleared = true → stage program.sizes now.round = 0 ∧ now.round < totalRounds program
  waiting : now.waiting = true → now.round < totalRounds program ∧
    (stage program.sizes now.round = 0 → now.cleared = true ∧ AllRefilled program.sizes now.toProcess) ∧
    (stage program.sizes now.round ≠ 0 → now.posted now.round = true ∧ KernelDone program.sizes now.kernel ∧
      AllLanded program now now.round)

def Controlled (state : State program) : Prop := ∀ mype, Control program (state mype)

theorem total_stage : stage program.sizes (totalRounds program) = 0 := Nat.mul_mod_left _ _

theorem store_control (now : Rank Scalar) (which index : Nat) (value : Scalar) (control : Control program now) :
    Control program { now with toProcess := storeWord now.toProcess which index value } :=
  ⟨control.bound, control.posted, control.landed, control.refilling, control.waiting⟩

theorem put_control (now : Rank Scalar) (control : Control program now) (stepping : stage program.sizes now.round ≠ 0)
    (fresh : now.posted now.round = false) :
    Control program { now with posted := Function.update now.posted now.round true } := by
  have posted : ∀ round, Function.update now.posted now.round true round = true ↔ round = now.round ∨ now.posted round = true := by
    intro round
    rw [Function.update_apply]
    split
    case isTrue same => simp [same]
    case isFalse different => simp [different]
  refine ⟨control.bound, ?_, fun round index landed => (posted round).mpr (.inr (control.landed round index landed)),
    control.refilling, ?_⟩
  · intro round isPosted
    rcases (posted round).mp isPosted with own | earlier
    · rw [own]
      exact ⟨Nat.le_refl _, stepping, fun less => absurd less (Nat.lt_irrefl _)⟩
    · exact control.posted round earlier
  · intro waiting
    have already := ((control.waiting waiting).2.2 stepping).1
    rw [fresh] at already
    cases already

theorem land_control (now : Rank Scalar) (round index : Nat) (control : Control program now)
    (posted : now.posted round = true) : Control program { now with
      landed := Function.update now.landed round (Function.update (now.landed round) index true) } := by
  have keeps := row_flag_keep now.landed round index
  refine ⟨control.bound, ?_, ?_, control.refilling, ?_⟩
  · intro other isPosted
    obtain ⟨most, stepping, entire⟩ := control.posted other isPosted
    exact ⟨most, stepping, fun less word inside => keeps other word (entire less word inside)⟩
  · intro other word landed
    rcases (row_flag_set now.landed round index other word).mp landed with ⟨same, _⟩ | already
    · exact same ▸ posted
    · exact control.landed other word already
  · intro waiting
    obtain ⟨running, refilled, stepped⟩ := control.waiting waiting
    refine ⟨running, refilled, fun stepping => ?_⟩
    obtain ⟨isPosted, done, entire⟩ := stepped stepping
    exact ⟨isPosted, done, fun word inside => keeps _ word (entire word inside)⟩

theorem leave_control [CommSemiring Scalar] (now : Rank Scalar) (control : Control program now)
    (waiting : now.waiting = true) :
    Control program { now with toProcess := freshProcess (now.round + 1) now.dB now.kernel.cs } := by
  obtain ⟨running, _, stepped⟩ := control.waiting waiting
  refine ⟨running, ?_, control.landed, by simp [freshProcess], by simp [freshProcess]⟩
  intro round isPosted
  obtain ⟨most, stepping, entire⟩ := control.posted round isPosted
  refine ⟨Nat.le_succ_of_le most, stepping, fun _ => ?_⟩
  rcases Nat.lt_or_eq_of_le most with earlier | now
  · exact entire earlier
  · subst now
    exact (stepped stepping).2.2

theorem controlled_update (state : State program) (mype : Fin program.sizes.npes) (now : Rank Scalar)
    (controlled : Controlled state) (control : Control program now) : Controlled (Function.update state mype now) :=
  (Function.forall_update_iff state (fun _ now => Control program now)).mpr ⟨control, fun other _ => controlled other⟩

theorem current_put (now : Rank Scalar) (control : Control program now) (round index : Nat)
    (posted : now.posted round = true) (inside : index < putWords program) (pending : now.landed round index = false) :
    round = now.round := by
  obtain ⟨most, _, entire⟩ := control.posted round posted
  rcases Nat.lt_or_eq_of_le most with earlier | same
  · have landed := entire earlier index inside
    rw [pending] at landed
    cases landed
  · exact same

theorem step_controlled [CommSemiring Scalar] (before after : State program) (action : Action program)
    (controlled : Controlled before) (timely : Timely program before action)
    (taken : step program before action = some after) : Controlled after := by
  cases action with
  | clear mype =>
      simp only [step, Option.ite_none_right_eq_some, Option.some.injEq] at taken
      obtain ⟨⟨running, first, _⟩, rfl⟩ := taken
      have control := controlled mype
      refine controlled_update before mype _ controlled
        ⟨control.bound, control.posted, control.landed, fun _ => ⟨first, running⟩, fun waiting => ?_⟩
      obtain ⟨_, refilled, stepped⟩ := control.waiting waiting
      exact ⟨running, fun zero => ⟨rfl, (refilled zero).2⟩, fun stepping => absurd first stepping⟩
  | refill mype which index =>
      simp only [step, Option.ite_none_right_eq_some, Option.some.injEq] at taken
      obtain ⟨⟨_, outside, _⟩, rfl⟩ := taken
      have control := controlled mype
      exact controlled_update before mype _ controlled ⟨control.bound, control.posted, control.landed, control.refilling,
        fun inside => absurd (inside.symm.trans outside) Bool.noConfusion⟩
  | refilled mype =>
      simp only [step, Option.ite_none_right_eq_some, Option.some.injEq] at taken
      obtain ⟨⟨first, cleared, _, all⟩, rfl⟩ := taken
      have control := controlled mype
      exact controlled_update before mype _ controlled ⟨control.bound, control.posted, control.landed, control.refilling,
        fun _ => ⟨(control.refilling cleared).2, fun _ => ⟨cleared, all⟩, fun stepping => absurd first stepping⟩⟩
  | put mype =>
      simp only [step, Option.ite_none_right_eq_some, Option.some.injEq] at taken
      obtain ⟨⟨stepping, fresh⟩, rfl⟩ := taken
      exact controlled_update before mype _ controlled (put_control _ (controlled mype) stepping fresh)
  | land mype round index =>
      simp only [step, Option.ite_none_right_eq_some, Option.some.injEq] at taken
      obtain ⟨⟨⟨posted, _⟩, _, _⟩, rfl⟩ := taken
      have sent := controlled_update before mype _ controlled (land_control _ round index (controlled mype) posted)
      exact controlled_update _ _ _ sent (store_control _ _ _ _ (sent (right program.sizes mype)))
  | thread mype thread =>
      simp only [step, Option.ite_none_right_eq_some, Option.some.injEq] at taken
      obtain ⟨⟨posted, inGrid, more⟩, rfl⟩ := taken
      have control := controlled mype
      have running := grid_thread program.sizes _ thread inGrid more
      refine controlled_update before mype _ controlled
        ⟨control.bound, control.posted, control.landed, control.refilling, fun waiting => ?_⟩
      exact absurd ((control.waiting waiting).2.2 (control.posted _ posted).2.1).2.1 running
  | sync mype =>
      simp only [step, Option.ite_none_right_eq_some, Option.some.injEq] at taken
      obtain ⟨⟨posted, _, done⟩, rfl⟩ := taken
      have control := controlled mype
      have stepping := (control.posted _ posted).2.1
      have running : (before mype).round < totalRounds program := by
        rcases Nat.lt_or_eq_of_le control.bound with less | last
        · exact less
        · rw [last] at stepping
          exact absurd total_stage stepping
      exact controlled_update before mype _ controlled ⟨control.bound, control.posted, control.landed, control.refilling,
        fun _ => ⟨running, fun first => absurd first stepping, fun _ => ⟨posted, done, timely⟩⟩⟩
  | leave mype =>
      simp only [step, Option.ite_none_right_eq_some, Option.some.injEq] at taken
      obtain ⟨⟨waiting, _⟩, rfl⟩ := taken
      exact controlled_update before mype _ controlled (leave_control _ (controlled mype) waiting)

end OpenGda.Examples.Mm
