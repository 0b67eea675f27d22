import OpenGda.Examples.OfiJacobiRefinement

set_option autoImplicit false

namespace OpenGda.Examples.OfiJacobi

open Countdown Halo Machine
open Jacobi (singleGpu)

variable {Real : Type} {program : Program} {numbers : Numbers Real} {rt : Fin program.size → Rt.Runtime}

def remaining (program : Program) (rank : Nat) (now : Rank Real) : Nat :=
  5 * (! now.queued).toNat + gridLeft program.nx (iyEnd program rank) now.toSolver +
    unset (Finset.range program.nx) (now.landed 0) + unset (Finset.range program.nx) (now.landed 1) +
    now.rt.writes.length + now.rt.atomics.length + (! now.synced).toNat + (2 - now.waits) + (! now.waiting).toNat

def launchWork (program : Program) (rank : Nat) : Nat :=
  5 + gridWork program.nx (iyEnd program rank) + program.nx + program.nx + 1 + 2 + 1

theorem remaining_fresh (rank launches : Nat) (buf : Nat → Nat → Real) (rt : Rt.Runtime) (batch : Rt.BatchInv rt)
    (idle : rt.nOps = 0) : remaining program rank (freshRank buf launches rt) = launchWork program rank := by
  obtain ⟨writes, atomics⟩ := Rt.idle_batch rt batch idle
  simp only [remaining, freshRank, launchWork, unset_fresh, Finset.card_range, grid_left_fresh, writes, atomics]
  simp [freshSolver]

def tally (Real : Type) (program : Program) : Tally (Fin program.size) (Rank Real) where
  total := totalLaunches program
  work rank := launchWork program rank
  round now := now.launches
  remaining rank now := remaining program rank now

theorem remaining_land (rank : Nat) (now : Rank Real) (side : Side) (word : Nat) (within : word < program.nx)
    (pending : now.landed (slot side) word = false) : remaining program rank { now with
      landed := Function.update now.landed (slot side) (Function.update (now.landed (slot side)) word true) } <
        remaining program rank now := by
  have fewer := unset_update_lt (Finset.range program.nx) (now.landed (slot side)) word (Finset.mem_range.mpr within) pending
  cases side with
  | top =>
      simp only [slot] at fewer
      simp only [remaining, slot, Function.update_self, Function.update_of_ne (by decide : (1 : Nat) ≠ 0)]
      omega
  | bottom =>
      simp only [slot] at fewer
      simp only [remaining, slot, Function.update_self, Function.update_of_ne (by decide : (0 : Nat) ≠ 1)]
      omega

theorem step_decreases (placed : Placed program) (before after : State Real program) (action : Action program)
    (controlled : Controlled before) (taken : step program numbers before action = some after) :
    (tally Real program).all after < (tally Real program).all before := by
  cases action with
  | queuePuts rank =>
      simp only [step, Option.ite_none_right_eq_some, Option.map_eq_some_iff] at taken
      obtain ⟨⟨_, fresh, _⟩, next, queued, rfl⟩ := taken
      have control := controlled rank
      obtain ⟨first, second, _, _, queues⟩ := queue_puts_result placed rank (before rank) control.opened
        (control.idle (fresh_token rank _ control fresh)).1
      rw [queues] at queued
      cases queued
      refine tally_same _ before rank _ rfl ?_
      simp only [tally, remaining, queuedRows, Rt.prepareTrigger, fresh, List.length_append, List.length_cons, List.length_nil,
        Bool.not_false, Bool.not_true, Bool.toNat_true, Bool.toNat_false]
      omega
  | thread rank thread =>
      simp only [step, Option.ite_none_right_eq_some, Option.some.injEq] at taken
      obtain ⟨⟨_, inGrid, pending⟩, rfl⟩ := taken
      have fewer := grid_left_thread numbers warmups (before rank).toSolver thread inGrid pending
      obtain ⟨launches, waiting, _⟩ :=
        run_thread_fields program.nx (iyEnd program rank) numbers warmups (before rank).toSolver thread
      refine tally_same _ before rank _ launches ?_
      simp only [tally, remaining, waiting]
      omega
  | block rank block =>
      simp only [step, Option.ite_none_right_eq_some, Option.some.injEq] at taken
      obtain ⟨⟨left, right, _, pending⟩, rfl⟩ := taken
      have fewer := grid_left_arrive (before rank).toSolver block ((before rank).blockDoneCounter + 1) ⟨left, right⟩ pending
      have kept : (blockDone program rank (before rank) block).rt.writes = (before rank).rt.writes ∧
          (blockDone program rank (before rank) block).rt.atomics = (before rank).rt.atomics := by
        simp only [blockDone]
        split <;> exact ⟨rfl, rfl⟩
      refine tally_same _ before rank _ rfl ?_
      simp only [tally, remaining, kept]
      simp only [blockDone, arrive] at fewer ⊢
      omega
  | land rank target index word =>
      obtain ⟨side, within, pending, _, _, rfl⟩ :=
        land_result placed before after rank target index word (controlled rank) taken
      rw [tally_unseen (tally Real program) _ (peer rank side) _ (by rfl) (by rfl)]
      exact tally_same _ before rank _ (by rfl) (remaining_land rank.val (before rank) side word within pending)
  | completeWrite rank index =>
      simp only [step, Option.ite_none_right_eq_some, Option.map_eq_some_iff] at taken
      obtain ⟨_, rt, completed, rfl⟩ := taken
      obtain ⟨work, found, _, rfl⟩ := Rt.complete_write_result _ rt index completed
      obtain ⟨within, _⟩ := List.getElem?_eq_some_iff.mp found
      refine tally_same _ before rank _ rfl ?_
      simp only [tally, remaining, List.length_eraseIdx, if_pos within]
      omega
  | completeAtomic rank index =>
      simp only [step, Option.map_eq_some_iff] at taken
      obtain ⟨rt, completed, rfl⟩ := taken
      have within := Rt.complete_atomic_inside _ rt index completed
      obtain ⟨_, _, _, rfl, _⟩ := Rt.complete_atomic_result _ rt index (controlled rank).batch completed
      refine tally_same _ before rank _ rfl ?_
      simp only [tally, remaining, List.length_eraseIdx, if_pos within]
      omega
  | sync rank =>
      simp only [step, Option.ite_none_right_eq_some, Option.some.injEq] at taken
      obtain ⟨⟨_, pending, _⟩, rfl⟩ := taken
      refine tally_same _ before rank _ rfl ?_
      simp only [tally, remaining, pending, Bool.not_false, Bool.not_true, Bool.toNat_true, Bool.toNat_false]
      omega
  | wait rank =>
      simp only [step, Option.ite_none_right_eq_some, Option.some.injEq] at taken
      obtain ⟨⟨_, more, _⟩, rfl⟩ := taken
      refine tally_same _ before rank _ rfl ?_
      simp only [tally, remaining]
      omega
  | finish rank =>
      simp only [step, Option.ite_none_right_eq_some, Option.map_eq_some_iff] at taken
      obtain ⟨⟨_, outside, _⟩, rt, reset, rfl⟩ := taken
      obtain ⟨_, _, _, _, _, _, writes, atomics, _⟩ := Rt.reset_result _ rt (controlled rank).batch reset
      refine tally_same _ before rank _ rfl ?_
      simp only [tally, remaining, writes, atomics, outside, gridLeft, Bool.not_false, Bool.not_true, Bool.toNat_true,
        Bool.toNat_false]
      omega
  | leave rank =>
      simp only [step, Option.ite_none_right_eq_some, Option.some.injEq] at taken
      obtain ⟨⟨waiting, _⟩, rfl⟩ := taken
      have control := controlled rank
      exact tally_next _ before rank _ rfl (control.running (control.synced (control.waiting waiting).1).1)
        (Nat.le_of_eq (remaining_fresh rank.val _ _ _ control.batch
          (control.idle (waiting_token rank _ control waiting)).1))

end OpenGda.Examples.OfiJacobi
