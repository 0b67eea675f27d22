import OpenGda.Examples.JacobiResult

set_option autoImplicit false

namespace OpenGda.Examples.Jacobi

open Countdown Halo Machine

variable {Real : Type} {mesh : Mesh} {numbers : Numbers Real} {settings : Settings}

def remaining (mesh : Mesh) (rank : Nat) (now : Rank Real) : Nat :=
  gridLeft mesh.nx (iyEnd mesh rank) now.toSolver + unset (Finset.range mesh.nx) (now.landed .top) +
    unset (Finset.range mesh.nx) (now.landed .bottom) + (2 - now.quiets) + (! now.waiting).toNat

def launchWork (mesh : Mesh) (rank : Nat) : Nat := gridWork mesh.nx (iyEnd mesh rank) + mesh.nx + mesh.nx + 2 + 1

theorem remaining_fresh (rank launches : Nat) (buf : Nat → Nat → Real) :
    remaining mesh rank (freshRank buf launches) = launchWork mesh rank := by
  simp only [remaining, freshRank, launchWork, unset_fresh, Finset.card_range, grid_left_fresh]
  simp [freshSolver]

def tally (Real : Type) (mesh : Mesh) (settings : Settings) : Tally (Fin mesh.size) (Rank Real) where
  total := warmups + settings.loop.iterations
  work rank := launchWork mesh rank
  round now := now.launches
  remaining rank now := remaining mesh rank now

theorem remaining_land (rank : Nat) (now : Rank Real) (side : Side) (word : Nat) (within : word < mesh.nx)
    (pending : now.landed side word = false) : remaining mesh rank
      { now with landed := Function.update now.landed side (Function.update (now.landed side) word true) } <
        remaining mesh rank now := by
  have fewer := unset_update_lt (Finset.range mesh.nx) (now.landed side) word (Finset.mem_range.mpr within) pending
  cases side with
  | top =>
      simp only [remaining, Function.update_self, Function.update_of_ne (by decide : Side.bottom ≠ .top)]
      omega
  | bottom =>
      simp only [remaining, Function.update_self, Function.update_of_ne (by decide : Side.top ≠ .bottom)]
      omega

theorem step_decreases (before after : State Real mesh) (action : Action mesh)
    (controlled : Controlled settings.loop.iterations before) (taken : step mesh numbers settings before action = some after) :
    (tally Real mesh settings).all after < (tally Real mesh settings).all before := by
  cases action with
  | thread rank thread =>
      simp only [step, Option.ite_none_right_eq_some, Option.some.injEq] at taken
      obtain ⟨⟨_, inGrid, pending⟩, rfl⟩ := taken
      have fewer := grid_left_thread numbers warmups (before rank).toSolver thread inGrid pending
      obtain ⟨launches, waiting, _⟩ :=
        run_thread_fields mesh.nx (iyEnd mesh rank) numbers warmups (before rank).toSolver thread
      refine tally_same _ before rank _ launches ?_
      simp only [tally, remaining, waiting]
      omega
  | block rank block =>
      simp only [step, Option.ite_none_right_eq_some, Option.some.injEq] at taken
      obtain ⟨⟨left, right, _, pending⟩, rfl⟩ := taken
      refine tally_same _ before rank _ rfl ?_
      have fewer := grid_left_arrive (before rank).toSolver block
        (if gridX mesh.nx * gridY (iyEnd mesh rank) ≤ (before rank).blockDoneCounter then 0
          else (before rank).blockDoneCounter + 1) ⟨left, right⟩ pending
      simp only [tally, remaining, blockDone]
      exact Nat.add_lt_add_right (Nat.add_lt_add_right (Nat.add_lt_add_right (Nat.add_lt_add_right fewer _) _) _) _
  | land rank side word =>
      simp only [step, Option.ite_none_right_eq_some, Option.some.injEq] at taken
      obtain ⟨⟨_, _, within, pending⟩, rfl⟩ := taken
      rw [tally_unseen (tally Real mesh settings) _ (peer rank side) _ (by rfl) (by rfl)]
      exact tally_same _ before rank _ (by rfl) (remaining_land rank.val (before rank) side word within pending)
  | quiet rank =>
      simp only [step, Option.ite_none_right_eq_some, Option.some.injEq] at taken
      obtain ⟨⟨_, _, more, _⟩, rfl⟩ := taken
      refine tally_same _ before rank _ rfl ?_
      simp only [tally, remaining]
      omega
  | sync rank =>
      simp only [step, Option.ite_none_right_eq_some, Option.some.injEq] at taken
      obtain ⟨⟨_, outside, _, _⟩, rfl⟩ := taken
      refine tally_same _ before rank _ rfl ?_
      simp only [tally, remaining, outside, gridLeft, Bool.not_false, Bool.not_true, Bool.toNat_true, Bool.toNat_false]
      omega
  | leave rank =>
      simp only [step, Option.ite_none_right_eq_some, Option.some.injEq] at taken
      obtain ⟨⟨waiting, _⟩, rfl⟩ := taken
      exact tally_next _ before rank _ rfl ((controlled rank).waiting waiting).2.2
        (Nat.le_of_eq (remaining_fresh rank.val _ _))

theorem rank_moves (numbers : Numbers Real) (splits : Splits mesh) (state : State Real mesh) (rank : Fin mesh.size)
    (control : Control mesh settings.loop.iterations rank (state rank))
    (running : (state rank).launches < warmups + settings.loop.iterations) (outside : (state rank).waiting = false) : ∃ action next, step mesh numbers settings state action = some next := by
  have several : 1 < mesh.size := splits.several
  have launches := (running_iff rank _ control).mpr running
  by_cases arrived : AllArrived mesh.nx (iyEnd mesh rank) (state rank).toSolver
  · have posted := control.posted.mpr arrived
    by_cases landed : ∀ side, ∀ word < mesh.nx, (state rank).landed side word = true
    · by_cases quiets : (state rank).quiets < 2
      · have drained : quietReturns mesh settings rank (state rank) (quietSide (state rank)) :=
          .inr (.inr fun other _ _ word within => landed other word within)
        exact ⟨.quiet rank, _, if_pos ⟨several, posted, quiets, drained⟩⟩
      · have both : (state rank).quiets = 2 := Nat.le_antisymm control.quiets (Nat.le_of_not_lt quiets)
        exact ⟨.sync rank, _, if_pos ⟨launches, outside, arrived, fun _ => both⟩⟩
    · obtain ⟨side, word, within, pending⟩ : ∃ side word, word < mesh.nx ∧ (state rank).landed side word = false := by
        simpa using landed
      exact ⟨.land rank side word, _, if_pos ⟨several, posted, within, pending⟩⟩
  · rcases grid_moves (state rank).toSolver arrived with ⟨thread, inGrid, pending⟩ | ⟨block, inside, synced, pending⟩
    · exact ⟨.thread rank thread, _, if_pos ⟨launches, inGrid, pending⟩⟩
    · exact ⟨.block rank block, _, if_pos ⟨inside.1, inside.2, synced, pending⟩⟩

theorem stuck_finished (splits : Splits mesh) (state : State Real mesh)
    (controlled : Controlled settings.loop.iterations state) (stuck : Stuck (step mesh numbers settings) state) (rank : Fin mesh.size) :
    (state rank).launches = warmups + settings.loop.iterations := by
  refine barrier_stuck _ state stuck _ (fun rank => (state rank).launches) (fun rank => (state rank).waiting)
    (fun rank => (controlled rank).grid.bound) ?_ ?_ rank
  · exact fun other running outside => rank_moves numbers splits state other (controlled other) running outside
  · exact fun other waiting all => ⟨.leave other, _, if_pos ⟨waiting, all⟩⟩

def sampleMesh : Mesh := ⟨4, 12, 2⟩

def sampleNumbers : Numbers Int := ⟨0, fun row => row, fun right left down up => right + left + down + up⟩

theorem sample_splits : Splits sampleMesh := ⟨by decide, by decide, by decide⟩

def sampleSettings : Settings := ⟨⟨5, fun iter => decide (iter < 2)⟩, fun _ _ => true⟩

theorem sample_served : Served sampleMesh sampleSettings := by
  refine ⟨fun _ _ => rfl, ?_⟩
  intro rank
  unfold putsPerLaunch
  split <;> decide

def lastSample : Fin sampleMesh.size := ⟨1, Nat.one_lt_two⟩

theorem sample_finishes : ∃ state,
    Reach (step sampleMesh sampleNumbers sampleSettings) always (start sampleMesh sampleNumbers) state ∧ Stuck (step sampleMesh sampleNumbers sampleSettings) state :=
  stuck_reachable _ (Controlled 3) (tally Int sampleMesh sampleSettings).all
    (fun before after action controlled taken =>
      step_controlled sample_splits sample_served before after action controlled taken)
    (fun before after action controlled taken => step_decreases before after action controlled taken)
    _ (reach_consistent sample_splits sample_served _ .start).1

theorem rank_rows_sample : ∃ state,
    Reach (step sampleMesh sampleNumbers sampleSettings) always (start sampleMesh sampleNumbers) state ∧
      (state lastSample).launches = warmups + 3 ∧
      (state lastSample).buf (curBuf (state lastSample).launches) (1 * 4 + 1) =
        (singleGpu sampleNumbers 4 12 ((state lastSample).launches - warmups)).1
          ((iyStartGlobal sampleMesh lastSample - 1 + 1) * 4 + 1) := by
  obtain ⟨state, reached, stuck⟩ := sample_finishes
  have controlled := (reach_consistent sample_splits sample_served state reached).1
  have finished := stuck_finished sample_splits state controlled stuck
  have outside : (state lastSample).waiting = false := by
    cases waiting : (state lastSample).waiting with
    | false => rfl
    | true => exact absurd (finished lastSample) (Nat.ne_of_lt ((controlled lastSample).waiting waiting).2.2)
  exact ⟨state, reached, finished lastSample,
    rank_rows sample_splits sample_served state reached lastSample outside 1 1 (by decide) (by decide)⟩

end OpenGda.Examples.Jacobi
