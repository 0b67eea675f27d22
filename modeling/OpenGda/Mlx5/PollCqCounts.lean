import OpenGda.Mlx5.PollCq

set_option autoImplicit false

namespace OpenGda.GpuComm.PollCq

open Machine

variable {size : Nat}

structure Counterless (device : DeviceState) : Prop where
  cqe : device.cqe = .mapped
  positive : 1 ≤ device.ncqes
  counter : device.numCompletions = .null

structure Watching (device : DeviceState) (records : Nat → Nat → BitVec 8) (state : State) : Prop where
  waiting : ∀ poll, state.poll = some poll → poll.cqeIdx = 0 ∧ poll.expectedOwner = 0
  first : state.buffer offsetOpOwn =
    if state.written = 0 then 0xFF else firstSlotByte records device.ncqes ((state.written - 1) / device.ncqes)
  window : state.written ≤ polled state + device.ncqes

theorem counterless_enter (device : DeviceState) (counterless : Counterless device) (state : State) :
    enter device state = { state with poll := some ⟨0, 0, 10000000⟩ } := by
  simp [enter, counterless.cqe, counterless.counter]

theorem counterless_turn (device : DeviceState) (counterless : Counterless device) (state : State) (poll : Poll)
    (waiting : poll.cqeIdx = 0 ∧ poll.expectedOwner = 0) :
    turn device state poll = state.leave (-1) ∨
      (owner (state.buffer offsetOpOwn) = 0 ∧ turn device state poll = state.leave (codeOf (state.buffer offsetOpOwn))) ∨
      turn device state poll = { state with poll := some { poll with timeout := poll.timeout - 1 } } := by
  by_cases out : poll.timeout = 0
  · exact .inl (by rw [turn, if_pos out])
  · by_cases shown : owner (state.buffer offsetOpOwn) = 0
    · refine .inr (.inl ⟨shown, ?_⟩)
      simp only [turn, if_neg out, waiting, Nat.zero_mul, Nat.zero_add, shown, if_true, counterless.counter]
    · refine .inr (.inr ?_)
      simp only [turn, if_neg out, waiting, Nat.zero_mul, Nat.zero_add, shown, if_false]

theorem leave_polled (state : State) (code : Int) :
    polled (state.leave code) = polled state + if code = -1 then 0 else 1 := by
  by_cases none : code = -1 <;> simp [polled, State.leave, List.countP_append, none]

theorem leave_zeros (state : State) (code : Int) :
    zeros (state.leave code) = zeros state + if code = 0 then 1 else 0 := by
  by_cases zero : code = 0 <;> simp [zeros, State.leave, List.count_append, zero]

theorem leave_watching (device : DeviceState) (records : Nat → Nat → BitVec 8) (state : State)
    (watching : Watching device records state) (code : Int) : Watching device records (state.leave code) where
  waiting := fun poll there => by simp [State.leave] at there
  first := watching.first
  window := by
    have window := watching.window
    rw [leave_polled]
    exact Nat.le_trans window (by omega)

theorem write_first (device : DeviceState) (counterless : Counterless device) (records : Nat → Nat → BitVec 8)
    (state : State) (watching : Watching device records state) :
    (writeCqe records device.ncqes state).buffer offsetOpOwn =
      firstSlotByte records device.ncqes (state.written / device.ncqes) := by
  have positive := counterless.positive
  have parts := Nat.div_add_mod' state.written device.ncqes
  have offset : offsetOpOwn = 49 := rfl
  by_cases home : state.written % device.ncqes = 0
  · have whole : state.written / device.ncqes * device.ncqes = state.written := by omega
    simp only [writeCqe, home, Nat.mul_zero, Nat.zero_le, true_and, Nat.zero_add, offset, Nat.reduceLT, if_true,
      Nat.sub_zero, cqeByte, Nat.reduceEqDiff, if_false, firstSlotByte, whole]
  · have away : ¬ (64 * (state.written % device.ncqes) ≤ offsetOpOwn ∧
        offsetOpOwn < 64 * (state.written % device.ncqes) + 64) := by omega
    have some : state.written ≠ 0 := fun none => home (by rw [none, Nat.zero_mod])
    have lap : (state.written - 1) / device.ncqes = state.written / device.ncqes := by
      refine Nat.div_eq_of_lt_le ?_ ?_
      · omega
      · rw [Nat.succ_mul]
        have short := Nat.mod_lt state.written positive
        omega
    simp only [writeCqe, if_neg away, watching.first, if_neg some, lap]

theorem step_watching (device : DeviceState) (counterless : Counterless device) (records : Nat → Nat → BitVec 8)
    (before after : State) (action : Action) (watching : Watching device records before)
    (taken : step device records before action = some after) : Watching device records after := by
  cases action with
  | call =>
      simp only [step] at taken
      split at taken
      · cases taken
        rw [counterless_enter device counterless]
        refine ⟨fun poll there => ?_, watching.first, watching.window⟩
        cases there
        exact ⟨rfl, rfl⟩
      · cases taken
  | turn =>
      obtain ⟨poll, there, rfl⟩ := Option.map_eq_some_iff.mp taken
      have waiting := watching.waiting poll there
      rcases counterless_turn device counterless before poll waiting with out | ⟨_, found⟩ | again
      · rw [out]
        exact leave_watching device records before watching (-1)
      · rw [found]
        exact leave_watching device records before watching _
      · rw [again]
        refine ⟨fun next there => ?_, watching.first, watching.window⟩
        cases there
        exact waiting
  | write =>
      simp only [step] at taken
      split at taken
      · rename_i room
        cases taken
        refine ⟨watching.waiting, ?_, room⟩
        rw [write_first device counterless records before watching]
        simp [writeCqe]
      · cases taken

theorem start_watching (device : DeviceState) (records : Nat → Nat → BitVec 8) : Watching device records start where
  waiting := fun _ there => by simp [start] at there
  first := rfl
  window := Nat.zero_le _

structure Clean (device : DeviceState) (records : Nat → Nat → BitVec 8) (state : State) : Prop where
  watching : Watching device records state
  none : zeros state = 0
  failed : polled state ≠ 0 → Fails (firstSlotByte records device.ncqes 0)

theorem clean_found (device : DeviceState) (counterless : Counterless device) (records : Nat → Nat → BitVec 8)
    (never : NeverSucceeds records device.ncqes) (state : State) (clean : Clean device records state)
    (shown : owner (state.buffer offsetOpOwn) = 0) :
    codeOf (state.buffer offsetOpOwn) = -2 ∧ Fails (firstSlotByte records device.ncqes 0) := by
  have positive := counterless.positive
  have window := clean.watching.window
  have first := clean.watching.first
  have some : state.written ≠ 0 := by
    intro none
    rw [first, if_pos none] at shown
    exact absurd shown (by decide)
  rw [if_neg some] at first
  generalize lapEq : (state.written - 1) / device.ncqes = lap at first
  have unlucky : ¬ Succeeds (firstSlotByte records device.ncqes lap) ∧
      (lap ≠ 0 → Fails (firstSlotByte records device.ncqes 0)) := by
    by_cases home : lap = 0
    · rw [home]
      exact ⟨never.1, fun away => absurd rfl away⟩
    · have lapped : device.ncqes ≤ state.written - 1 := by
        by_contra short
        exact home (lapEq ▸ Nat.div_eq_of_lt (Nat.lt_of_not_le short))
      have fails := clean.failed (by omega)
      exact ⟨never.2 fails lap, fun _ => fails⟩
  rw [first] at shown ⊢
  have bad : codeOf (firstSlotByte records device.ncqes lap) ≠ 0 := fun zero => unlucky.1 ⟨shown, zero⟩
  refine ⟨(code_cases _).resolve_left bad, ?_⟩
  by_cases home : lap = 0
  · subst home
    exact ⟨shown, bad⟩
  · exact unlucky.2 home

theorem step_clean (device : DeviceState) (counterless : Counterless device) (records : Nat → Nat → BitVec 8)
    (never : NeverSucceeds records device.ncqes) (before after : State) (action : Action)
    (clean : Clean device records before) (taken : step device records before action = some after) :
    Clean device records after := by
  have watching := step_watching device counterless records before after action clean.watching taken
  cases action with
  | call =>
      simp only [step] at taken
      split at taken
      · cases taken
        rw [counterless_enter device counterless] at watching ⊢
        exact ⟨watching, clean.none, clean.failed⟩
      · cases taken
  | turn =>
      obtain ⟨poll, there, rfl⟩ := Option.map_eq_some_iff.mp taken
      rcases counterless_turn device counterless before poll (clean.watching.waiting poll there) with
        out | ⟨shown, found⟩ | again
      · rw [out] at watching ⊢
        refine ⟨watching, ?_, ?_⟩
        · rw [leave_zeros, clean.none]
          decide
        · rw [leave_polled]
          exact clean.failed
      · obtain ⟨error, fails⟩ := clean_found device counterless records never before clean shown
        rw [found, error] at watching ⊢
        refine ⟨watching, ?_, fun _ => fails⟩
        rw [leave_zeros, clean.none]
        decide
      · rw [again] at watching ⊢
        exact ⟨watching, clean.none, clean.failed⟩
  | write =>
      simp only [step] at taken
      split at taken
      · cases taken
        exact ⟨watching, clean.none, clean.failed⟩
      · cases taken

theorem start_clean (device : DeviceState) (records : Nat → Nat → BitVec 8) : Clean device records start where
  watching := start_watching device records
  none := rfl
  failed := fun some => absurd rfl some

theorem reach_watching (device : DeviceState) (counterless : Counterless device) (records : Nat → Nat → BitVec 8)
    (state : State) (reached : Reach (step device records) always start state) : Watching device records state := by
  refine reach_invariant (step device records) always (Watching device records) start state
    (start_watching device records) ?_ reached
  intro before after action watching _ taken
  exact step_watching device counterless records before after action watching taken

theorem poll_again (device : DeviceState) (counterless : Counterless device) (records : Nat → Nat → BitVec 8)
    (state : State) (free : state.poll = none) (shown : owner (state.buffer offsetOpOwn) = 0) (calls : Nat) :
    ∃ after, Reach (step device records) always state after ∧ after.poll = none ∧ after.buffer = state.buffer ∧
      after.written = state.written ∧
      after.returns = state.returns ++ List.replicate calls (codeOf (state.buffer offsetOpOwn)) := by
  induction calls with
  | zero => exact ⟨state, .start, free, rfl, rfl, by simp⟩
  | succ calls ih =>
      obtain ⟨middle, reached, idle, buffer, written, returns⟩ := ih
      have called : step device records middle .call = some { middle with poll := some ⟨0, 0, 10000000⟩ } := by
        rw [step, if_pos idle, counterless_enter device counterless]
      have turned : step device records { middle with poll := some ⟨0, 0, 10000000⟩ } .turn =
          some (State.leave { middle with poll := some ⟨0, 0, 10000000⟩ } (codeOf (middle.buffer offsetOpOwn))) := by
        simp only [step, Option.map_some, turn, OfNat.ofNat_ne_zero, if_false, Nat.zero_mul, Nat.zero_add, buffer, shown,
          if_true, counterless.counter]
      refine ⟨_, .step _ _ .turn (.step _ _ .call reached trivial called) trivial turned, rfl, buffer, written, ?_⟩
      rw [List.replicate_succ', ← List.append_assoc, ← returns, ← buffer]
      rfl

theorem nic_writes (device : DeviceState) (records : Nat → Nat → BitVec 8) (state : State) (cqes : Nat)
    (room : state.written + cqes ≤ polled state + device.ncqes) :
    ∃ after, Reach (step device records) always state after ∧ after.poll = state.poll ∧
      after.returns = state.returns ∧ after.written = state.written + cqes := by
  induction cqes with
  | zero => exact ⟨state, .start, rfl, rfl, rfl⟩
  | succ cqes ih =>
      obtain ⟨middle, reached, poll, returns, written⟩ := ih (by omega)
      have free : middle.written < polled middle + device.ncqes := by
        rw [polled, returns, written]
        rw [polled] at room
        omega
      have wrote : step device records middle .write = some (writeCqe records device.ncqes middle) := by
        rw [step, if_pos free]
      exact ⟨_, .step _ _ .write reached trivial wrote, poll, returns, by rw [writeCqe, written, Nat.add_assoc]⟩

theorem first_shown (device : DeviceState) (counterless : Counterless device) (records : Nat → Nat → BitVec 8)
    (state : State) (reached : Reach (step device records) always start state) (lap : Nat)
    (written : state.written = lap * device.ncqes + 1) :
    state.buffer offsetOpOwn = firstSlotByte records device.ncqes lap := by
  rw [(reach_watching device counterless records state reached).first, written, if_neg (Nat.succ_ne_zero _),
    Nat.add_sub_cancel, Nat.mul_div_cancel _ counterless.positive]

theorem lap_reached (device : DeviceState) (counterless : Counterless device) (records : Nat → Nat → BitVec 8) (lap : Nat)
    (errors : lap = 0 ∨ Fails (firstSlotByte records device.ncqes 0)) :
    ∃ state, Reach (step device records) always start state ∧ state.poll = none ∧
      state.written = lap * device.ncqes + 1 := by
  have positive := counterless.positive
  obtain ⟨one, reached, idle, returns, written⟩ := nic_writes device records start 1 (by
    simp only [start, Nat.zero_add]
    omega)
  replace written : one.written = 1 := written
  rcases errors with home | fails
  · exact ⟨one, reached, idle, by rw [written, home, Nat.zero_mul]⟩
  · have shown := first_shown device counterless records one reached 0 (by rw [written, Nat.zero_mul])
    obtain ⟨erred, more, free, buffer, still, codes⟩ := poll_again device counterless records one (idle.trans rfl)
      (shown ▸ fails.1) (lap * device.ncqes)
    have bad : codeOf (one.buffer offsetOpOwn) = -2 := (code_cases _).resolve_left (shown ▸ fails.2)
    have taken : polled erred = lap * device.ncqes := by
      rw [polled, codes, returns, bad, start, List.nil_append, List.countP_replicate, if_pos (by decide)]
    obtain ⟨last, rest, waiting, _, total⟩ := nic_writes device records erred (lap * device.ncqes) (by
      rw [taken, still, written]
      omega)
    refine ⟨last, reach_trans _ _ _ _ _ (reach_trans _ _ _ _ _ reached more) rest, waiting.trans free, ?_⟩
    rw [total, still, written]
    omega

theorem poll_counts_iff_never_succeeds (cq : SharedCq) (mlx5 : DevxContext size) (mapped : cq.dCqe = .mapped)
    (positive : 1 ≤ cq.cqDepth) (peer : Fin size) (device : DeviceState)
    (found : (gpuComm cq mlx5).hStatePerPeer peer = some device) (records : Nat → Nat → BitVec 8) :
    (∀ state, Reach (step device records) always start state → zeros state ≤ state.written) ↔
      NeverSucceeds records cq.cqDepth := by
  obtain ⟨cqe, ncqes, counter⟩ := constructed_state cq mlx5 peer device found
  have counterless : Counterless device := ⟨cqe.trans mapped, ncqes ▸ positive, counter⟩
  rw [← ncqes]
  constructor
  · intro counts
    have refuted : ∀ lap, (lap = 0 ∨ Fails (firstSlotByte records device.ncqes 0)) →
        ¬ Succeeds (firstSlotByte records device.ncqes lap) := by
      intro lap errors succeeds
      obtain ⟨state, reached, free, written⟩ := lap_reached device counterless records lap errors
      have shown := first_shown device counterless records state reached lap written
      obtain ⟨after, more, _, _, still, codes⟩ := poll_again device counterless records state free
        (shown ▸ succeeds.1) (state.written + 1)
      have bound := counts after (reach_trans _ _ _ _ _ reached more)
      rw [zeros, codes, shown, succeeds.2, List.count_append, List.count_replicate_self, still] at bound
      omega
    exact ⟨refuted 0 (.inl rfl), fun fails lap => refuted lap (.inr fails)⟩
  · intro never state reached
    have clean : Clean device records state := by
      refine reach_invariant (step device records) always (Clean device records) start state
        (start_clean device records) ?_ reached
      intro before after action clean _ taken
      exact step_clean device counterless records never before after action clean taken
    rw [clean.none]
    exact Nat.zero_le _

def sampleContext : DevxContext 2 where
  rank := 0
  lid := 1
  gid := Vector.replicate 16 0
  ethernet := false
  peerQps := fun peer => if peer = 1 then some ⟨40, 7, true, ⟨0, 0, 41, 2, Vector.replicate 16 0⟩, none⟩ else none

def sampleState : DeviceState := ⟨.mapped, 512, 511, .null⟩

theorem sample_constructed : (gpuComm ⟨.mapped, 512⟩ sampleContext).hStatePerPeer 1 = some sampleState := by
  decide +kernel

theorem odd_byte_counts : NeverSucceeds (fun _ _ => 1) 512 ∧ ∀ state,
    Reach (step sampleState fun _ _ => 1) always start state → zeros state ≤ state.written := by
  have never : NeverSucceeds (fun _ _ => 1) 512 := ⟨by decide, fun _ _ => show ¬ Succeeds 1 by decide⟩
  exact ⟨never, (poll_counts_iff_never_succeeds ⟨.mapped, 512⟩ sampleContext rfl (by decide) 1 sampleState
    sample_constructed fun _ _ => 1).mpr never⟩

theorem one_cqe_counted_twice : (gpuComm ⟨.mapped, 512⟩ sampleContext).hStatePerPeer 1 = some sampleState ∧
    ∃ state, Reach (step sampleState fun _ _ => 0) always start state ∧ zeros state = 2 ∧ state.written = 1 := by
  refine ⟨sample_constructed, ?_⟩
  exact reach_of_decided (step sampleState fun _ _ => 0) always [.write, .call, .turn, .call, .turn] start
    (fun state => zeros state = 2 ∧ state.written = 1) (by decide +kernel)

end OpenGda.GpuComm.PollCq
