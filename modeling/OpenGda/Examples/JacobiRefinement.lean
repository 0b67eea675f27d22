import OpenGda.Examples.HaloReading
import OpenGda.Examples.JacobiRuns

set_option autoImplicit false

namespace OpenGda.Examples.Jacobi

open Countdown Halo Machine Supersteps

variable {Real : Type} {mesh : Mesh} {numbers : Numbers Real} {iterations : Nat} {settings : Settings}

def landed (side : Side) (word : Nat) (now : Rank Real) : Prop := now.landed side word = true

abbrev view (state : State Real mesh) : View (Fin mesh.size) (Task mesh.size) (Place mesh.size) Real :=
  (reading mesh.size Rank.toSolver landed).view state

abbrev rounds (splits : Splits mesh) (numbers : Numbers Real) :
    Work (Fin mesh.size) (Task mesh.size) (Place mesh.size) Real := work (rows splits) warmups numbers

theorem control_ran (rank : Fin mesh.size) (now : Rank Real) (control : Control mesh iterations rank now)
    (all : AllArrived mesh.nx (iyEnd mesh rank) now.toSolver) (thread : Thread)
    (inGrid : InGrid mesh.nx (iyEnd mesh rank) thread) : now.ran thread = true :=
  arrived_ran now.toSolver control.grid all thread inGrid

theorem quiets_sent (rank : Fin mesh.size) (now : Rank Real) (control : Control mesh iterations rank now)
    (quiets : now.quiets = 2) (side : Side) (word : Nat) (within : word < mesh.nx) : landed side word now := by
  cases side with
  | top => exact control.top (by omega) word within
  | bottom => exact control.bottom (by omega) word within

theorem word_lands (splits : Splits mesh) (before : State Real mesh) (rank : Fin mesh.size) (side : Side) (word : Nat)
    (control : Control mesh iterations rank (before rank)) (posted : (before rank).posted = true)
    (within : word < mesh.nx) (pending : (before rank).landed side word = false) (sent : State Real mesh)
    (isSent : sent = Function.update before rank { before rank with
      landed := Function.update (before rank).landed side (Function.update ((before rank).landed side) word true) }) :
    Step (rounds splits numbers) (view before) (view (Function.update sent (peer rank side) { sent (peer rank side) with
      toSolver := write (sent (peer rank side)).toSolver (nextBuf (before rank).launches)
        (remoteRow rank (iyEnd mesh) side * mesh.nx + word)
        ((before rank).buf (nextBuf (before rank).launches) (localRow rank (iyEnd mesh) side * mesh.nx + word)) })) := by
  refine land_simulates (rows splits) warmups numbers Rank.toSolver landed before rank side word _ sent isSent rfl ?_ _ rfl
    (fun _ _ => rfl) within ?_ (control_ran rank _ control (control.posted.mp posted))
  · intro other index
    exact row_flag_set (before rank).landed side word other index
  · intro waiting
    have done := quiets_sent rank _ control (control.waiting waiting).2.1 side word within
    rw [landed, pending] at done
    cases done

theorem step_simulates (splits : Splits mesh) (before after : State Real mesh) (action : Action mesh)
    (controlled : Controlled settings.loop.iterations before)
    (taken : step mesh numbers settings before action = some after) :
    view after = view before ∨ Step (rounds splits numbers) (view before) (view after) := by
  cases action with
  | thread rank thread =>
      simp only [step, Option.ite_none_right_eq_some, Option.some.injEq] at taken
      obtain ⟨⟨_, inGrid, pending⟩, rfl⟩ := taken
      refine .inr (thread_simulates (rows splits) warmups numbers Rank.toSolver landed before rank _ thread rfl
        (fun _ _ => rfl) inGrid ?_)
      intro waiting
      have ran := control_ran rank _ (controlled rank) ((controlled rank).waiting waiting).1 thread inGrid
      rw [pending] at ran
      cases ran
  | block rank block =>
      simp only [step, Option.ite_none_right_eq_some, Option.some.injEq] at taken
      obtain ⟨_, rfl⟩ := taken
      exact .inl (view_same Rank.toSolver landed before rank _ rfl rfl rfl rfl fun _ _ => rfl)
  | land rank side word =>
      simp only [step, Option.ite_none_right_eq_some, Option.some.injEq] at taken
      obtain ⟨⟨_, posted, within, pending⟩, rfl⟩ := taken
      exact .inr (word_lands splits before rank side word (controlled rank) posted within pending _ rfl)
  | quiet rank =>
      simp only [step, Option.ite_none_right_eq_some, Option.some.injEq] at taken
      obtain ⟨_, rfl⟩ := taken
      exact .inl (view_same Rank.toSolver landed before rank _ rfl rfl rfl rfl fun _ _ => rfl)
  | sync rank =>
      simp only [step, Option.ite_none_right_eq_some, Option.some.injEq] at taken
      obtain ⟨⟨_, _, all, quiets⟩, rfl⟩ := taken
      exact .inr (enter_simulates (rows splits) warmups numbers Rank.toSolver landed before rank _ rfl rfl rfl rfl
        (fun _ _ => rfl) (control_ran rank _ (controlled rank) all)
        (quiets_sent rank _ (controlled rank) (quiets splits.several)))
  | leave rank =>
      simp only [step, Option.ite_none_right_eq_some, Option.some.injEq] at taken
      obtain ⟨⟨waiting, all⟩, rfl⟩ := taken
      exact .inr (leave_simulates (rows splits) warmups numbers Rank.toSolver landed before rank _ waiting all rfl
        fun _ _ => Bool.noConfusion)

end OpenGda.Examples.Jacobi
