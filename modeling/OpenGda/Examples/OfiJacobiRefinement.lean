import OpenGda.Examples.HaloReading
import OpenGda.Examples.OfiJacobiRuns

set_option autoImplicit false

namespace OpenGda.Examples.OfiJacobi

open Countdown Halo Machine OfiBuffers Supersteps

variable {Real : Type} {program : Program} {numbers : Numbers Real}

def landed (side : Side) (word : Nat) (now : Rank Real) : Prop := now.landed (slot side) word = true

abbrev view (state : State Real program) : View (Fin program.size) (Task program.size) (Place program.size) Real :=
  (reading program.size Rank.toSolver landed).view state

abbrev rounds (placed : Placed program) (numbers : Numbers Real) :
    Work (Fin program.size) (Task program.size) (Place program.size) Real := work (rows placed) warmups numbers

theorem slot_injective (side other : Side) (same : slot side = slot other) : side = other := by
  cases side <;> cases other <;> simp [slot] at same ⊢

theorem waited_rows (rank : Fin program.size) (now : Rank Real) (control : Control program rank now)
    (both : now.waits = 2) (side : Side) (word : Nat) (within : word < program.nx) : landed side word now := by
  cases side with
  | top => exact control.top (by omega) word within
  | bottom => exact control.bottom (by omega) word within

theorem word_lands (placed : Placed program) (before : State Real program) (rank : Fin program.size) (side : Side)
    (word : Nat) (control : Control program rank (before rank)) (within : word < program.nx)
    (armed : (before rank).toks.isSome = true)
    (all : AllArrived program.nx (iyEnd program rank) (before rank).toSolver) :
    Step (rounds placed numbers) (view before)
      (view (Function.update (sentWord before rank side word) (peer rank side) (receivedWord before rank side word))) := by
  refine land_simulates (rows placed) warmups numbers Rank.toSolver landed before rank side word _
    (sentWord before rank side word) rfl rfl ?_ _ rfl (fun _ _ => rfl) within (outside_token rank _ control armed).2
    fun thread inGrid => arrived_ran _ control.grid all thread inGrid
  intro other index
  have injective : slot other = slot side ↔ other = side := ⟨slot_injective other side, fun same => same ▸ rfl⟩
  rw [← injective]
  exact row_flag_set (before rank).landed (slot side) word (slot other) index

theorem step_simulates (placed : Placed program) (before after : State Real program) (action : Action program)
    (controlled : Controlled before) (taken : step program numbers before action = some after) :
    view after = view before ∨ Step (rounds placed numbers) (view before) (view after) := by
  cases action with
  | queuePuts rank =>
      simp only [step, Option.ite_none_right_eq_some, Option.map_eq_some_iff] at taken
      obtain ⟨⟨_, fresh, _⟩, next, queued, rfl⟩ := taken
      have control := controlled rank
      obtain ⟨first, second, _, _, queues⟩ := queue_puts_result placed rank (before rank) control.opened
        (control.idle (fresh_token rank _ control fresh)).1
      rw [queues] at queued
      cases queued
      exact .inl (view_same Rank.toSolver landed before rank _ rfl rfl rfl rfl fun _ _ => rfl)
  | thread rank thread =>
      simp only [step, Option.ite_none_right_eq_some, Option.some.injEq] at taken
      obtain ⟨⟨_, inGrid, pending⟩, rfl⟩ := taken
      refine .inr (thread_simulates (rows placed) warmups numbers Rank.toSolver landed before rank _ thread rfl
        (fun _ _ => rfl) inGrid ?_)
      intro waiting
      have control := controlled rank
      have all := (control.synced (control.waiting waiting).1).2
      have ran := arrived_ran _ control.grid all thread inGrid
      rw [pending] at ran
      cases ran
  | block rank block =>
      simp only [step, Option.ite_none_right_eq_some, Option.some.injEq] at taken
      obtain ⟨_, rfl⟩ := taken
      exact .inl (view_same Rank.toSolver landed before rank _ rfl rfl rfl rfl fun _ _ => rfl)
  | land rank target index word =>
      obtain ⟨side, within, _, armed, all, rfl⟩ :=
        land_result placed before after rank target index word (controlled rank) taken
      exact .inr (word_lands placed before rank side word (controlled rank) within armed all)
  | completeWrite rank index =>
      simp only [step, Option.ite_none_right_eq_some, Option.map_eq_some_iff] at taken
      obtain ⟨_, rt, _, rfl⟩ := taken
      exact .inl (view_same Rank.toSolver landed before rank _ rfl rfl rfl rfl fun _ _ => rfl)
  | completeAtomic rank index =>
      simp only [step, Option.map_eq_some_iff] at taken
      obtain ⟨rt, _, rfl⟩ := taken
      exact .inl (view_same Rank.toSolver landed before rank _ rfl rfl rfl rfl fun _ _ => rfl)
  | sync rank =>
      simp only [step, Option.ite_none_right_eq_some, Option.some.injEq] at taken
      obtain ⟨_, rfl⟩ := taken
      exact .inl (view_same Rank.toSolver landed before rank _ rfl rfl rfl rfl fun _ _ => rfl)
  | wait rank =>
      simp only [step, Option.ite_none_right_eq_some, Option.some.injEq] at taken
      obtain ⟨_, rfl⟩ := taken
      exact .inl (view_same Rank.toSolver landed before rank _ rfl rfl rfl rfl fun _ _ => rfl)
  | finish rank =>
      simp only [step, Option.ite_none_right_eq_some, Option.map_eq_some_iff] at taken
      obtain ⟨⟨synced, outside, waited⟩, rt, _, rfl⟩ := taken
      have control := controlled rank
      obtain ⟨queued, all⟩ := control.synced synced
      exact .inr (enter_simulates (rows placed) warmups numbers Rank.toSolver landed before rank _ rfl rfl rfl rfl
        (fun _ _ => rfl) (arrived_ran _ control.grid all)
        (waited_rows rank _ control (waited (control.holding queued outside))))
  | leave rank =>
      simp only [step, Option.ite_none_right_eq_some, Option.some.injEq] at taken
      obtain ⟨⟨waiting, all⟩, rfl⟩ := taken
      exact .inr (leave_simulates (rows placed) warmups numbers Rank.toSolver landed before rank _ waiting all rfl
        fun _ _ => Bool.noConfusion)

variable {rt : Fin program.size → Rt.Runtime}

theorem start_controlled (placed : Placed program) (setUp : SetUp program rt) :
    Controlled (start program numbers rt) := by
  intro rank
  obtain ⟨shown, batch, idle⟩ := exchanged_opened placed.toPlaced rank (rt rank) (setUp rank)
  exact fresh_control rank 0 _ (rt rank) (Nat.zero_le _) batch shown idle

theorem reach_consistent (placed : Placed program) (setUp : SetUp program rt)
    (state : State Real program) (reached : Reach (step program numbers) always (start program numbers rt) state) :
    Controlled state ∧ ∃ front,
      Consistent (rounds placed numbers) (generation (rows placed) warmups numbers) (view state) front := by
  refine reach_invariant _ _ (fun state => Controlled state ∧ ∃ front,
    Consistent (rounds placed numbers) (generation (rows placed) warmups numbers) (view state) front) _ state ?_ ?_ reached
  · exact ⟨start_controlled placed setUp,
      halo_starts (rows placed) warmups numbers Rank.toSolver landed _ (fun _ => rfl) fun _ _ _ => Bool.noConfusion⟩
  · intro before after action ⟨controlled, consistent⟩ _ taken
    refine ⟨step_controlled placed before after action controlled taken, ?_⟩
    rcases step_simulates placed before after action controlled taken with same | moved
    · rwa [same]
    · exact step_consistent (halo_lockstep (rows placed) warmups numbers) (view before) (view after) consistent moved

end OpenGda.Examples.OfiJacobi
