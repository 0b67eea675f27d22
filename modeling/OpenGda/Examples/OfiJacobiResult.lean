import OpenGda.Examples.OfiJacobiCompletes

set_option autoImplicit false

namespace OpenGda.Examples.OfiJacobi

open Countdown Halo Machine OfiBuffers
open Jacobi (singleGpu)

variable {Real : Type} {program : Program} {numbers : Numbers Real} {rt : Fin program.size → Rt.Runtime}

theorem nic_moves (numbers : Numbers Real) (state : State Real program) (rank : Fin program.size)
    (control : Control program rank (state rank)) (armed : (state rank).toks.isSome = true)
    (all : AllArrived program.nx (iyEnd program rank) (state rank).toSolver) :
    ((state rank).rt.writes = [] ∧ (state rank).rt.atomics = []) ∨
      ∃ action next, step program numbers state action = some next := by
  have trigger := control.fired armed all
  obtain ⟨toks, held⟩ := Option.isSome_iff_exists.mp armed
  obtain ⟨_, two, _⟩ := control.armed toks held
  cases writes : (state rank).rt.writes with
  | cons work rest =>
      right
      have found : (state rank).rt.writes[0]? = some work := by rw [writes]; rfl
      have member := List.mem_of_getElem? found
      obtain ⟨side, same, carries⟩ := control.carries work member
      obtain ⟨below, threshold, _⟩ := control.batch.writes work member
      have ready : Rt.WriteReady (state rank).rt work := by
        rw [Rt.WriteReady, threshold, trigger]
        omega
      by_cases whole : WholeLanded (state rank).landed work
      · refine ⟨.completeWrite rank 0, Option.isSome_iff_exists.mp ?_⟩
        have landed : ∀ other ∈ (state rank).rt.writes[0]?, WholeLanded (state rank).landed other := by
          intro other queued
          rw [found] at queued
          cases queued
          exact whole
        rw [step, if_pos landed, Rt.completeWrite]
        simp only [found, if_pos ready, Option.map_some, Option.isSome_some]
      · obtain ⟨word, inside, pending⟩ : ∃ word, word < words work ∧ (state rank).landed work.slot word = false := by
          simpa [WholeLanded] using whole
        have within : word < program.nx := by rwa [carried_words _ _ _ work carries] at inside
        have dest : work.write.destAddr = (state rank).rt.fabric.avAddrs (peer rank side) := by
          rw [carries.dest, control.opened.addresses]
        refine ⟨.land rank (peer rank side) 0 word, Option.isSome_iff_exists.mp ?_⟩
        simp only [step, landing_cells (state rank).rt (state rank).landed rank (peer rank side) 0 word work _ found
          carries ready dest within pending, Option.isSome_some]
  | nil =>
      cases atomics : (state rank).rt.atomics with
      | nil => exact .inl ⟨rfl, rfl⟩
      | cons work rest =>
          right
          have found : (state rank).rt.atomics[0]? = some work := by rw [atomics]; rfl
          obtain ⟨below, threshold, _⟩ := control.batch.atomics work (List.mem_of_getElem? found)
          have written := (control.batch.completions work.slot below).2 (by simp [Rt.pendingWrites, writes])
          have ready : Rt.AtomicReady (state rank).rt work := by rw [Rt.AtomicReady, threshold, written]
          refine ⟨.completeAtomic rank 0, Option.isSome_iff_exists.mp ?_⟩
          simp only [step, Rt.completeAtomic, found, if_pos ready, Option.map_some, Option.isSome_some]

theorem rank_moves (numbers : Numbers Real) (placed : Placed program) (state : State Real program)
    (rank : Fin program.size) (control : Control program rank (state rank))
    (running : (state rank).launches < totalLaunches program) (outside : (state rank).waiting = false) :
    ∃ action next, step program numbers state action = some next := by
  by_cases queued : (state rank).queued = true
  · have armed := control.holding queued outside
    obtain ⟨toks, held⟩ := Option.isSome_iff_exists.mp armed
    obtain ⟨slots, two, _⟩ := control.armed toks held
    by_cases all : AllArrived program.nx (iyEnd program rank) (state rank).toSolver
    · rcases nic_moves numbers state rank control armed all with ⟨writes, atomics⟩ | moves
      · by_cases synced : (state rank).synced = true
        · have complete : ∀ slot < 2, (state rank).rt.completionCntr slot = 1 ∧ (state rank).rt.atomicCompletionCntr slot = 1 := by
            intro slot below
            rw [← two] at below
            exact ⟨(control.batch.completions slot below).2 (by simp [Rt.pendingWrites, writes]),
              (control.batch.atomicCompletions slot below).2 (by simp [Rt.pendingAtomics, atomics])⟩
          by_cases more : (state rank).waits < 2
          · have waited : Waited (state rank) := by
              refine ⟨toks, held, ?_⟩
              rw [slots]
              split
              · exact Nat.le_of_eq (complete 0 (by decide)).1.symm
              · exact Nat.le_of_eq (complete 1 (by decide)).1.symm
            exact ⟨.wait rank, _, if_pos ⟨synced, more, waited⟩⟩
          · have both := Nat.le_antisymm control.waits (Nat.le_of_not_lt more)
            have ended : (∀ slot < (state rank).rt.nOps, 1 ≤ (state rank).rt.completionCntr slot) ∧
                ((state rank).rt.atomicSignalsQueued = true →
                  ∀ slot < (state rank).rt.nOps, 1 ≤ (state rank).rt.atomicCompletionCntr slot) := by
              rw [two]
              exact ⟨fun slot below => Nat.le_of_eq (complete slot below).1.symm,
                fun _ slot below => Nat.le_of_eq (complete slot below).2.symm⟩
            refine ⟨.finish rank, Option.isSome_iff_exists.mp ?_⟩
            rw [step, if_pos ⟨synced, outside, fun _ => both⟩, Rt.reset, if_pos ended]
            rfl
        · exact ⟨.sync rank, _, if_pos ⟨queued, by simpa using synced, all⟩⟩
      · exact moves
    · rcases grid_moves (state rank).toSolver all with ⟨thread, inGrid, pending⟩ | ⟨block, inside, synced, pending⟩
      · exact ⟨.thread rank thread, _, if_pos ⟨queued, inGrid, pending⟩⟩
      · exact ⟨.block rank block, _, if_pos ⟨inside.1, inside.2, synced, pending⟩⟩
  · have fresh : (state rank).queued = false := by simpa using queued
    obtain ⟨first, second, _, _, queues⟩ := queue_puts_result placed rank (state rank) control.opened
      (control.idle (fresh_token rank _ control fresh)).1
    refine ⟨.queuePuts rank, Option.isSome_iff_exists.mp ?_⟩
    rw [step, if_pos ⟨(running_iff rank _ control).mpr running, fresh, outside⟩, queues]
    rfl

theorem stuck_finished (placed : Placed program) (state : State Real program) (controlled : Controlled state)
    (stuck : Stuck (step program numbers) state) (rank : Fin program.size) :
    (state rank).launches = totalLaunches program := by
  refine barrier_stuck _ state stuck _ (fun rank => (state rank).launches) (fun rank => (state rank).waiting)
    (fun rank => (controlled rank).grid.bound) ?_ ?_ rank
  · exact fun other running outside => rank_moves numbers placed state other (controlled other) running outside
  · exact fun other waiting all => ⟨.leave other, _, if_pos ⟨waiting, all⟩⟩

theorem finished_outside (state : State Real program) (rank : Fin program.size)
    (control : Control program rank (state rank)) (finished : (state rank).launches = totalLaunches program) :
    (state rank).waiting = false := by
  cases waiting : (state rank).waiting with
  | false => rfl
  | true =>
      have running := control.running (control.synced (control.waiting waiting).1).1
      exact absurd finished (Nat.ne_of_lt running)

def sample : Program where
  nx := 4
  nyCli := 6
  size := 2
  loop := ⟨2, fun _ => false⟩
  virtAddrMode := true
  avAddrs := fun _ rank => rank
  ptr := fun _ which => 4096 * (which + 1)
  desc := fun _ _ => 0
  key := fun _ which => UInt64.ofNat which

def sampleNumbers : Numbers Int := ⟨0, fun row => row, fun right left down up => right + left + down + up⟩

def sampleRt (rank : Fin sample.size) : Rt.Runtime :=
  (exchanged sample.toMemory sample.size (bufSize sample) rank).getD (registered sample.toMemory (bufSize sample) rank).2.2

def lastSample : Fin sample.size := ⟨1, Nat.one_lt_two⟩

theorem sample_placed : Placed sample where
  several := by decide
  few := by decide
  columns := by decide
  fits := by decide
  mapped := by decide
  apart rank _ := by
    have disjoint : 4096 * (0 + 1) + bufSize sample ≤ 4096 * (1 + 1) := by decide
    have keys : UInt64.ofNat 0 ≠ UInt64.ofNat 1 := by decide
    exact regions_apart rank disjoint keys
  distinct _ _ _ same := Fin.ext same

theorem sample_set_up : SetUp sample sampleRt := by
  intro rank
  obtain ⟨rt, opens⟩ := exchange_opens sample.toMemory sample.size (bufSize sample) rank
  rw [sampleRt, opens]
  rfl

theorem sample_finishes : ∃ state, Reach (step sample sampleNumbers) always (start sample sampleNumbers sampleRt) state ∧
    Stuck (step sample sampleNumbers) state :=
  stuck_reachable _ Controlled (tally Int sample).all
    (fun before after action controlled taken => step_controlled sample_placed before after action controlled taken)
    (fun before after action controlled taken => step_decreases sample_placed before after action controlled taken)
    _ (start_controlled sample_placed sample_set_up)

-- Between its launches, and whatever the others do, a rank holds its rows of the reference
-- that closes the ring of all the rows computed.
theorem ring_rows (placed : Placed program) (setUp : SetUp program rt) (state : State Real program)
    (reached : Reach (step program numbers) always (start program numbers rt) state) (rank : Fin program.size)
    (outside : (state rank).waiting = false) (iy ix : Nat) (row : 1 ≤ iy ∧ iy ≤ chunkSize program)
    (column : ix < program.nx) :
    (state rank).buf (curBuf warmups (state rank).launches) (iy * program.nx + ix) =
      (singleGpu numbers program.nx (program.size * chunkSize program + 4) ((state rank).launches - warmups)).1
        ((iyStartGlobal program rank - 1 + iy) * program.nx + ix) := by
  obtain ⟨_, consistent⟩ := reach_consistent placed setUp state reached
  exact own_rows (rows placed) warmups numbers Rank.toSolver landed state rank consistent outside iy ix row column

theorem ring_rows_sample : ∃ state, Reach (step sample sampleNumbers) always (start sample sampleNumbers sampleRt) state ∧
    (state lastSample).launches = totalLaunches sample ∧
      (state lastSample).buf (curBuf warmups (state lastSample).launches) (1 * 4 + 1) =
        (singleGpu sampleNumbers 4 8 ((state lastSample).launches - warmups)).1
          ((iyStartGlobal sample lastSample - 1 + 1) * 4 + 1) := by
  obtain ⟨state, reached, stuck⟩ := sample_finishes
  have controlled := (reach_consistent sample_placed sample_set_up state reached).1
  have finished := stuck_finished sample_placed state controlled stuck lastSample
  exact ⟨state, reached, finished, ring_rows sample_placed sample_set_up state reached lastSample
    (finished_outside state lastSample (controlled lastSample) finished) 1 1 (by decide) (by decide)⟩

-- No run goes on for ever, and none stops before every rank has made all its launches
-- and holds its rows of the last sweep.
theorem ofi_jacobi_completes (placed : Placed program) (setUp : SetUp program rt) :
    (∃ bound, ∀ actions state, run (step program numbers) (start program numbers rt) actions = some state →
      actions.length ≤ bound) ∧
    ∀ state, Reach (step program numbers) always (start program numbers rt) state → Stuck (step program numbers) state →
      ∀ rank, (state rank).launches = totalLaunches program ∧
        ∀ iy ix, 1 ≤ iy ∧ iy ≤ chunkSize program → ix < program.nx →
          (state rank).buf (curBuf warmups (totalLaunches program)) (iy * program.nx + ix) =
            (singleGpu numbers program.nx (program.size * chunkSize program + 4) program.loop.iterations).1
              ((iyStartGlobal program rank - 1 + iy) * program.nx + ix) := by
  refine ⟨⟨(tally Real program).all (start program numbers rt), ?_⟩, ?_⟩
  · intro actions state ran
    exact run_length _ Controlled (tally Real program).all
      (fun before after action controlled taken => step_controlled placed before after action controlled taken)
      (fun before after action controlled taken => step_decreases placed before after action controlled taken)
      actions _ state (start_controlled placed setUp) ran
  · intro state reached stuck rank
    obtain ⟨controlled, consistent⟩ := reach_consistent placed setUp state reached
    have finished := stuck_finished placed state controlled stuck rank
    have outside := finished_outside state rank (controlled rank) finished
    refine ⟨finished, fun iy ix row column => ?_⟩
    have held := own_rows (rows placed) warmups numbers Rank.toSolver landed state rank consistent outside iy ix row column
    rw [finished, totalLaunches, Nat.add_sub_cancel_left] at held
    exact held

theorem ofi_jacobi_sample : ∃ state, Reach (step sample sampleNumbers) always (start sample sampleNumbers sampleRt) state ∧
    (state lastSample).launches = totalLaunches sample ∧
      (state lastSample).buf (curBuf warmups (totalLaunches sample)) (2 * 4 + 1) =
        (singleGpu sampleNumbers 4 8 1).1 ((iyStartGlobal sample lastSample - 1 + 2) * 4 + 1) := by
  obtain ⟨state, reached, stuck⟩ := sample_finishes
  obtain ⟨finished, rows⟩ := (ofi_jacobi_completes sample_placed sample_set_up).2 state reached stuck lastSample
  exact ⟨state, reached, finished, rows 2 1 (by decide) (by decide)⟩

end OpenGda.Examples.OfiJacobi
