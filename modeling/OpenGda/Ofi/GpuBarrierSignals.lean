import OpenGda.Ofi.GpuBarrierSafety

set_option autoImplicit false

namespace OpenGda.GpuBarrier

open Dissemination Machine DeferredWork

variable {size : Nat}

def SignalsKept (state : State size) : Prop :=
  ∀ rank kernel k, (state rank).gpu = some kernel → kernel.pc = .poll k →
    (.trigger k, kernel.expected) ∈ (state (sender rank k)).executed →
    (state rank).signals (sigIdx k kernel.expected) = kernel.expected

structure Stuck (config : Config size) (state : State size) (barrier : Nat) : Prop where
  entered : ∀ rank, barrier ∈ (state rank).entered
  ready : ∀ rank, barrier ≤ (state rank).readyCounter
  landed : ∀ rank, ∀ work ∈ (state rank).nic.pending, ¬ Ready (state rank).nic work
  blocked : ∀ rank, barrier ∉ (state rank).departed → rankStep config rank (state rank) .gpu = none
  inside : ∃ rank, barrier ∉ (state rank).departed

-- The sender of a newer put of the same parity would have left the barrier in
-- between, which the polling rank has not entered.
theorem signals_kept (config : Config size) (state : State size) (inv : Inv config state) : SignalsKept state := by
  intro rank kernel k gpu pc executed
  have single := (inv.host rank).gpu
  simp only [GpuInv, gpu, KernelInv, pc, Inside] at single
  obtain ⟨_, ⟨_, expected, _, _⟩, _, bound⟩ := single
  obtain ⟨origin, newest⟩ := inv.slots rank k (kernel.expected % barrierSignalSlots) bound (Nat.mod_lt _ (by decide))
  rw [← signal_slot] at origin newest
  have least := newest kernel.expected executed rfl
  by_contra different
  have newer : kernel.expected + 2 ≤ (state rank).signals (sigIdx k kernel.expected) := by
    rcases origin with zero | ⟨parity, _⟩
    · omega
    · simp only [barrierSignalSlots] at parity
      omega
  rcases origin with zero | ⟨_, later⟩
  · omega
  · obtain ⟨_, _, _, triggered⟩ := (inv.queue (sender rank k)).executedBound k _ later
    have counter := (inv.queue (sender rank k)).triggers k bound
    have ahead : kernel.expected + 1 < (state (sender rank k)).entered.length := by
      split_ifs at counter <;> omega
    have everyone := informed_everyone (nRounds size) (fun other => (state other).progress) inv.informed
      (rounds_cover size) (sender rank k) rank (kernel.expected + 1) (Nat.le_of_lt ahead) (fun _ _ => Or.inl ahead)
    have own : (state rank).progress.entered = kernel.expected := expected.symm
    omega

theorem inside_blocked_polls (config : Config size) (state : State size) (inv : Inv config state) (rank : Fin size)
    (barrier : Nat) (entered : barrier ∈ (state rank).entered) (inside : barrier ∉ (state rank).departed)
    (ready : barrier ≤ (state rank).readyCounter) (blocked : rankStep config rank (state rank) .gpu = none) :
    ∃ kernel k, (state rank).gpu = some kernel ∧ kernel.pc = .poll k ∧ kernel.expected = barrier ∧
      k < nRounds size ∧ (state rank).signals (sigIdx k kernel.expected) ≠ kernel.expected := by
  have host := inv.host rank
  have gpu := host.gpu
  rw [host.entered, member_count] at entered
  rw [host.departed, member_count] at inside
  unfold GpuInv at gpu
  cases now : (state rank).gpu with
  | none =>
      simp only [now] at gpu
      omega
  | some kernel =>
      simp only [now, KernelInv, Inside] at gpu
      simp only [rankStep, now, Option.bind_some] at blocked
      cases pc : kernel.pc with
      | loop =>
          simp only [pc] at gpu
          omega
      | advance =>
          simp only [pc] at gpu
          omega
      | ready =>
          simp only [pc] at gpu
          simp only [kernelStep, pc] at blocked
          split_ifs at blocked
          omega
      | trigger k => simp [kernelStep, pc] at blocked
      | notify => simp [kernelStep, pc] at blocked
      | poll k =>
          simp only [pc] at gpu
          simp only [kernelStep, pc] at blocked
          split_ifs at blocked with absent
          exact ⟨kernel, k, rfl, pc, by omega, gpu.2.2.2, absent⟩

theorem departed_triggered (config : Config size) (state : State size) (inv : Inv config state) (rank : Fin size)
    (barrier k : Nat) (bound : k < nRounds size) (left : barrier ≤ (state rank).departed.length) :
    barrier ≤ (state rank).nic.counters (.trigger k) := by
  have gpu := (inv.host rank).gpu
  have counter := (inv.queue rank).triggers k bound
  unfold GpuInv at gpu
  unfold Rank.sentRounds at counter
  cases now : (state rank).gpu with
  | none =>
      simp only [now, Option.map_none, Option.getD_none, if_pos bound] at gpu counter
      omega
  | some kernel =>
      simp only [now, KernelInv, Inside] at gpu
      simp only [now, Option.map_some, Option.getD_some, Kernel.sentRounds] at counter
      cases pc : kernel.pc <;> simp only [pc, Nat.not_lt_zero, if_false, bound, if_true] at gpu counter <;>
        first | omega | (split_ifs at counter <;> omega)

-- The least round at which a rank is blocked: its sender is past that round or has left.
theorem not_stuck (config : Config size) (state : State size) (inv : Inv config state) (barrier : Nat) :
    ¬ Stuck config state barrier := by
  intro stuck
  have polls := fun rank inside => inside_blocked_polls config state inv rank barrier (stuck.entered rank) inside
    (stuck.ready rank) (stuck.blocked rank inside)
  have impossible : ∀ k rank kernel, (state rank).gpu = some kernel → kernel.pc = .poll k →
      kernel.expected = barrier → k < nRounds size →
      (state rank).signals (sigIdx k kernel.expected) ≠ kernel.expected → False := by
    intro k
    induction k using Nat.strong_induction_on with
    | _ k earlier =>
        intro rank kernel gpu pc expected bound absent
        have triggered : barrier ≤ (state (sender rank k)).nic.counters (.trigger k) := by
          by_cases left : barrier ∈ (state (sender rank k)).departed
          · rw [(inv.host _).departed, member_count] at left
            exact departed_triggered config state inv _ barrier k bound left.2
          · obtain ⟨other, j, otherGpu, otherPc, otherExpected, otherBound, otherAbsent⟩ := polls _ left
            have after : k ≤ j := by
              by_contra before
              exact earlier j (by omega) _ other otherGpu otherPc otherExpected otherBound otherAbsent
            have counter := (inv.queue (sender rank k)).triggers k bound
            have single := (inv.host (sender rank k)).gpu
            simp only [GpuInv, otherGpu, KernelInv, otherPc, Inside] at single
            simp only [Rank.sentRounds, otherGpu, Option.map_some, Option.getD_some, Kernel.sentRounds,
              otherPc] at counter
            rw [if_pos (by omega)] at counter
            omega
        have called := stuck.entered rank
        rw [(inv.host rank).entered, member_count] at called
        rcases (inv.queue (sender rank k)).executedAll k barrier bound called.1 (stuck.ready _) with
          ⟨work, member, counter, threshold⟩ | executed
        · apply stuck.landed (sender rank k) work member
          rw [Ready, counter, threshold]
          exact triggered
        · exact absent (signals_kept config state inv rank kernel k gpu pc (expected ▸ executed))
  obtain ⟨rank, inside⟩ := stuck.inside
  obtain ⟨kernel, k, gpu, pc, expected, bound, absent⟩ := polls rank inside
  exact impossible k rank kernel gpu pc expected bound absent

theorem signals_kept_never_stuck (config : Config size) (state : State size)
    (reached : Reach (step config) Orderly (initial size) state) :
    SignalsKept state ∧ ∀ barrier, ¬ Stuck config state barrier := by
  have inv := reachable_inv config state reached
  exact ⟨signals_kept config state inv, not_stuck config state inv⟩

def fourThrough (first second : Fin 4 → Nat) : List (Action 4) :=
  List.flatten [
    [0, 1, 2, 3].flatMap (fun rank => moves rank .gpu 3), [0, 1, 2, 3].map (fun rank => .execute rank (first rank)),
    [0, 1, 2, 3].flatMap (fun rank => moves rank .gpu 2), [0, 1, 2, 3].map (fun rank => .execute rank (second rank)),
    [0, 1, 2, 3].flatMap (fun rank => moves rank .gpu 3)]

def beginSingle (rank : Fin 4) : List (Action 4) := moves rank .single 1 ++ moves rank .app 1
def endSingle (rank : Fin 4) : List (Action 4) := moves rank .gpu 1 ++ moves rank .app 3

-- Ranks 1 and 2 each restart continuous mode while their monitor is still in
-- reset(), which leaves them a second put for barriers 2 and 3. Executed after the
-- setups of barriers 4 and 5, these let rank 3 leave barrier 4 and then rank 0 leave
-- barrier 5 while rank 1 still polls round 0 of barrier 4: rank 0's put of barrier 6
-- overwrites the signal that rank 1 has not read.
def lostSignal : List (Action 4) :=
  List.flatten [
    beginSingle 0, beginSingle 3, moves 1 (.startContinuous 1) 1, moves 1 .app 3, moves 2 (.startContinuous 2) 1,
    moves 2 .app 3, fourThrough 0 0, endSingle 0, endSingle 3,
    moves 1 .gpu 1, moves 1 .monitor 3, moves 1 .app 2, moves 1 (.startContinuous 2) 1, moves 1 .app 2,
    moves 1 .monitor 3, moves 1 .app 1, moves 2 .monitor 6, beginSingle 0, beginSingle 3, fourThrough 0 0,
    endSingle 0, endSingle 3,
    moves 1 .monitor 6, moves 2 .gpu 1, moves 2 .monitor 3, moves 2 .app 2, moves 2 (.startContinuous 2) 1,
    moves 2 .app 2, moves 2 .monitor 3, moves 2 .app 1, beginSingle 0, beginSingle 3,
    fourThrough ![0, 2, 0, 0] ![0, 2, 0, 0], endSingle 0, endSingle 3,
    moves 1 .gpu 1, moves 1 .monitor 6, moves 1 .app 2, moves 2 .monitor 6, beginSingle 0, beginSingle 1,
    beginSingle 3, moves 0 .gpu 3, moves 1 .gpu 3, moves 2 .gpu 3, moves 3 .gpu 3,
    [.execute 0 0, .execute 1 2, .execute 2 2, .execute 3 0], moves 0 .gpu 2, moves 2 .gpu 2, moves 3 .gpu 2,
    [.execute 0 0, .execute 2 2, .execute 3 0, .execute 1 1], moves 0 .gpu 3, moves 2 .gpu 3, moves 3 .gpu 3,
    endSingle 0, endSingle 3, moves 2 .gpu 1, moves 2 .monitor 6, moves 2 .app 2,
    beginSingle 0, beginSingle 3, moves 2 .single 1, [.execute 2 1], moves 0 .gpu 3, moves 3 .gpu 3,
    [.execute 0 0, .execute 3 0], moves 0 .gpu 2, [.execute 0 0], moves 0 .gpu 3, endSingle 0,
    beginSingle 0, moves 0 .gpu 3, [.execute 0 0, .execute 1 0, .execute 2 0]]

theorem signal_overwritten : ∃ state : State 4, Reach (step (sampleConfig 4)) always (initial 4) state ∧
    ¬ SignalsKept state ∧ Stuck (sampleConfig 4) state 4 := by
  have ran : ∃ state, Reach (step (sampleConfig 4)) always (initial 4) state ∧
      (state 1).gpu = some ⟨false, 1, 4, .poll 0⟩ ∧ (.trigger 0, 4) ∈ (state (sender 1 0)).executed ∧
      (state 1).signals (sigIdx 0 4) = 6 ∧ (∀ rank, 4 ∈ (state rank).entered) ∧
      (∀ rank, 4 ≤ (state rank).readyCounter) ∧
      (∀ rank, ∀ work ∈ (state rank).nic.pending, ¬ Ready (state rank).nic work) ∧
      (∀ rank, 4 ∉ (state rank).departed → rankStep (sampleConfig 4) rank (state rank) .gpu = none) ∧
      4 ∉ (state 1).departed :=
    reach_of_decided (step (sampleConfig 4)) always lostSignal (initial 4) _ (by decide +kernel)
  obtain ⟨state, reached, gpu, executed, overwritten, entered, ready, landed, blocked, inside⟩ := ran
  refine ⟨state, reached, fun kept => ?_, entered, ready, landed, blocked, ⟨1, inside⟩⟩
  have found := kept 1 _ 0 gpu rfl executed
  simp only at found
  omega

theorem mixed_modes_signals_kept : ∃ state : State 2, Reach (step (sampleConfig 2)) Orderly (initial 2) state ∧
    1 ∈ (state 0).departed ∧ SignalsKept state ∧ ∀ barrier, ¬ Stuck (sampleConfig 2) state barrier := by
  obtain ⟨state, reached, departed⟩ := one_barrier_reached
  exact ⟨state, reached, departed, signals_kept_never_stuck _ state reached⟩

end OpenGda.GpuBarrier
