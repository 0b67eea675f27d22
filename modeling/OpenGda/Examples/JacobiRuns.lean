import OpenGda.Examples.HaloGrid
import OpenGda.Examples.JacobiMesh

set_option autoImplicit false

namespace OpenGda.Examples.Jacobi

open Countdown Halo Machine

variable {Real : Type} {mesh : Mesh} {numbers : Numbers Real} {iterations : Nat} {settings : Settings}

structure Control (mesh : Mesh) (iterations rank : Nat) (now : Rank Real) : Prop where
  grid : GridControl (warmups + iterations) mesh.nx (iyEnd mesh rank) now.toSolver
  posted : now.posted = true ↔ AllArrived mesh.nx (iyEnd mesh rank) now.toSolver
  quiets : now.quiets ≤ 2
  top : 0 < now.quiets → ∀ word < mesh.nx, now.landed .top word = true
  bottom : 1 < now.quiets → ∀ word < mesh.nx, now.landed .bottom word = true
  waiting : now.waiting = true →
    AllArrived mesh.nx (iyEnd mesh rank) now.toSolver ∧ now.quiets = 2 ∧ now.launches < warmups + iterations

theorem fresh_control (splits : Splits mesh) (rank launches : Nat) (buf : Nat → Nat → Real) (inside : rank < mesh.size)
    (bound : launches ≤ warmups + iterations) : Control mesh iterations rank (freshRank buf launches) := by
  have positive := blocks_positive splits.columns (iy_end_bounds mesh splits rank inside).1
  refine ⟨grid_fresh buf launches bound, ?_, Nat.zero_le _, ?_, ?_, ?_⟩
  · rw [all_arrived_iff]
    simp only [freshRank, arrivedBlocks, freshSolver, Bool.false_eq_true, Finset.filter_false, Finset.card_empty, false_iff]
    exact (Nat.ne_of_gt positive).symm
  · simp [freshRank]
  · simp [freshRank]
  · simp [freshRank, freshSolver]

theorem write_control (rank : Nat) (now : Rank Real) (which index : Nat) (value : Real)
    (control : Control mesh iterations rank now) :
    Control mesh iterations rank { now with toSolver := write now.toSolver which index value } :=
  ⟨grid_write now.toSolver which index value control.grid, control.posted, control.quiets, control.top, control.bottom,
    control.waiting⟩

theorem thread_control (rank : Nat) (now : Rank Real) (thread : Thread) (control : Control mesh iterations rank now)
    (running : now.launches < warmups + iterations) : Control mesh iterations rank
      { now with toSolver := runThread numbers warmups mesh.nx (iyEnd mesh rank) now.toSolver thread } := by
  obtain ⟨launches, waiting, _⟩ := run_thread_fields mesh.nx (iyEnd mesh rank) numbers warmups now.toSolver thread
  have same := run_thread_arrived mesh.nx (iyEnd mesh rank) numbers warmups now.toSolver thread
  refine ⟨grid_thread numbers warmups now.toSolver thread control.grid running, control.posted.trans same.symm,
    control.quiets, control.top, control.bottom, ?_⟩
  rw [waiting, launches, same]
  exact control.waiting

theorem block_done_control (rank : Nat) (now : Rank Real) (block : Nat × Nat) (control : Control mesh iterations rank now)
    (inside : block.1 < gridX mesh.nx ∧ block.2 < gridY (iyEnd mesh rank)) (synced : Synced now.toSolver block)
    (before : now.arrived block = false) : Control mesh iterations rank (blockDone mesh rank now block) := by
  have below := counter_below now.toSolver block inside before control.grid
  have notAll := not_all_arrived now.toSolver block inside before
  have counted : (if gridX mesh.nx * gridY (iyEnd mesh rank) ≤ now.blockDoneCounter then 0 else now.blockDoneCounter + 1) =
      now.blockDoneCounter + 1 := if_neg (Nat.not_le.mpr below)
  have last := last_block_iff now.toSolver block inside before control.grid (now.blockDoneCounter + 1)
  have notPosted : now.posted = false := by simpa using mt control.posted.mp notAll
  refine ⟨?_, ?_, control.quiets, control.top, control.bottom, fun waiting => absurd (control.waiting waiting).1 notAll⟩
  · simp only [blockDone, counted]
    exact grid_arrive now.toSolver block inside before control.grid synced
  · simp only [blockDone, counted, notPosted, Bool.false_or, beq_iff_eq]
    exact last.symm

theorem landed_control (rank : Nat) (now : Rank Real) (side : Side) (word : Nat)
    (control : Control mesh iterations rank now) : Control mesh iterations rank
      { now with landed := Function.update now.landed side (Function.update (now.landed side) word true) } := by
  have keeps := row_flag_keep now.landed side word
  exact ⟨control.grid, control.posted, control.quiets, fun some index inside => keeps _ _ (control.top some index inside),
    fun both index inside => keeps _ _ (control.bottom both index inside), control.waiting⟩

theorem posted_working (splits : Splits mesh) (rank : Fin mesh.size) (now : Rank Real)
    (control : Control mesh iterations rank now) (posted : now.posted = true) : now.launches < warmups + iterations :=
  arrived_working now.toSolver control.grid splits.columns (iy_end_bounds mesh splits rank rank.isLt).1
    (control.posted.mp posted)

-- Each queue has its completion queue and carries fewer puts than its 16 bit index counts.
structure Served (mesh : Mesh) (settings : Settings) : Prop where
  mapped : ∀ (rank : Fin mesh.size) side, settings.cqe rank (peer rank side) = true
  counted : ∀ rank : Fin mesh.size, (warmups + settings.loop.iterations) * putsPerLaunch rank < 2 ^ 16

theorem quiet_drains (served : Served mesh settings) (rank : Fin mesh.size) (now : Rank Real) (side : Side)
    (working : now.launches < warmups + settings.loop.iterations)
    (returns : quietReturns mesh settings rank now side) : Drained mesh rank now side := by
  rcases returns with wrapped | unmapped | drained
  · exfalso
    have bound := served.counted rank
    have positive : 0 < putsPerLaunch rank := by
      unfold putsPerLaunch
      split <;> decide
    have below : (now.launches + 1) * putsPerLaunch rank ≤
        (warmups + settings.loop.iterations) * putsPerLaunch rank := Nat.mul_le_mul_right _ working
    have some : 0 < (now.launches + 1) * putsPerLaunch rank := Nat.mul_pos (Nat.succ_pos _) positive
    rw [Nat.mod_eq_of_lt (by omega)] at wrapped
    omega
  · rw [served.mapped rank side] at unmapped
    cases unmapped
  · exact drained

theorem quiet_control (served : Served mesh settings) (rank : Fin mesh.size) (now : Rank Real)
    (control : Control mesh settings.loop.iterations rank now)
    (working : now.launches < warmups + settings.loop.iterations) (more : now.quiets < 2)
    (returns : quietReturns mesh settings rank now (quietSide now)) :
    Control mesh settings.loop.iterations rank { now with quiets := now.quiets + 1 } := by
  have drained := quiet_drains served rank now (quietSide now) working returns (quietSide now)
    (by cases quietSide now <;> simp) rfl
  refine ⟨control.grid, control.posted, more, ?_, ?_, ?_⟩
  · intro _
    by_cases first : now.quiets = 0
    · rwa [quietSide, if_pos first] at drained
    · exact control.top (Nat.pos_of_ne_zero first)
  · intro both
    rwa [quietSide, if_neg (Nat.ne_of_gt (Nat.lt_of_succ_lt_succ both))] at drained
  · intro waiting
    have done := (control.waiting waiting).2.1
    omega

theorem sync_control (rank : Nat) (now : Rank Real) (control : Control mesh iterations rank now)
    (running : now.launches < warmups + iterations) (all : AllArrived mesh.nx (iyEnd mesh rank) now.toSolver)
    (quiets : now.quiets = 2) : Control mesh iterations rank { now with waiting := true } :=
  ⟨grid_waiting now.toSolver true control.grid, control.posted, control.quiets, control.top, control.bottom,
    fun _ => ⟨all, quiets, running⟩⟩

def Controlled (iterations : Nat) (state : State Real mesh) : Prop :=
  ∀ rank : Fin mesh.size, Control mesh iterations rank (state rank)

theorem controlled_update (state : State Real mesh) (rank : Fin mesh.size) (now : Rank Real)
    (controlled : Controlled iterations state) (control : Control mesh iterations rank now) :
    Controlled iterations (Function.update state rank now) :=
  (Function.forall_update_iff state (fun other now => Control mesh iterations other now)).mpr ⟨control, fun other _ => controlled other⟩

theorem running_iff (rank : Nat) (now : Rank Real) (control : Control mesh settings.loop.iterations rank now) :
    settings.loop.Launches warmups now.launches ↔ now.launches < warmups + settings.loop.iterations :=
  launches_iff settings.loop warmups now.launches control.grid.bound

theorem step_controlled (splits : Splits mesh) (served : Served mesh settings) (before after : State Real mesh)
    (action : Action mesh) (controlled : Controlled settings.loop.iterations before)
    (taken : step mesh numbers settings before action = some after) : Controlled settings.loop.iterations after := by
  cases action with
  | thread rank thread =>
      simp only [step, Option.ite_none_right_eq_some, Option.some.injEq] at taken
      obtain ⟨⟨running, _, _⟩, rfl⟩ := taken
      exact controlled_update before rank _ controlled (thread_control rank _ thread (controlled rank)
        ((running_iff rank _ (controlled rank)).mp running))
  | block rank block =>
      simp only [step, Option.ite_none_right_eq_some, Option.some.injEq] at taken
      obtain ⟨⟨left, right, synced, fresh⟩, rfl⟩ := taken
      exact controlled_update before rank _ controlled
        (block_done_control rank _ block (controlled rank) ⟨left, right⟩ synced fresh)
  | land rank side word =>
      simp only [step, Option.ite_none_right_eq_some, Option.some.injEq] at taken
      obtain ⟨_, rfl⟩ := taken
      have sent := controlled_update before rank _ controlled (landed_control rank _ side word (controlled rank))
      exact controlled_update _ _ _ sent (write_control _ _ _ _ _ (sent (peer rank side)))
  | quiet rank =>
      simp only [step, Option.ite_none_right_eq_some, Option.some.injEq] at taken
      obtain ⟨⟨_, posted, more, returns⟩, rfl⟩ := taken
      have working := posted_working splits rank _ (controlled rank) posted
      exact controlled_update before rank _ controlled (quiet_control served rank _ (controlled rank) working more returns)
  | sync rank =>
      simp only [step, Option.ite_none_right_eq_some, Option.some.injEq] at taken
      obtain ⟨⟨running, _, all, quiets⟩, rfl⟩ := taken
      exact controlled_update before rank _ controlled
        (sync_control rank _ (controlled rank) ((running_iff rank _ (controlled rank)).mp running) all (quiets splits.several))
  | leave rank =>
      simp only [step, Option.ite_none_right_eq_some, Option.some.injEq] at taken
      obtain ⟨⟨waiting, _⟩, rfl⟩ := taken
      exact controlled_update before rank _ controlled
        (fresh_control splits rank _ _ rank.isLt ((controlled rank).waiting waiting).2.2)

end OpenGda.Examples.Jacobi
