import OpenGda.Examples.MmMinimalCompletes

set_option autoImplicit false

namespace OpenGda.Examples.MmMinimal

open Matmul Machine Countdown OfiBuffers

variable {Scalar : Type} [CommSemiring Scalar] {program : Program Scalar} {rt : Fin program.sizes.npes → Rt.Runtime}
  {garbage : Place program.sizes → Scalar} {cs : Fin program.sizes.npes → Nat → Scalar}

-- At the barrier of step s the blocks of the steps so far are those of A B, and the others still zero.
theorem blocks_so_far (placed : Placed program) (paired : Paired program) (setUp : SetUp program rt)
    (state : State program) (reached : Reach (step program) always (start program rt garbage cs) state)
    (mype : Fin program.sizes.npes) (waiting : (state mype).waiting = true) (s : Nat)
    (now : stage program.sizes (state mype).round = s + 1) (i column : Nat) (row : i < Ns program.sizes) (inside : column < N program.sizes) :
    (state mype).kernel.cs (i * N program.sizes + column) =
      if ∃ earlier ≤ s, blockNum program.sizes mype earlier = column / Ns program.sizes then
        product program.hAs program.hBs program.sizes mype i column else 0 := by
  have holds := reach_holds placed paired setUp state reached
  have control := holds.controlled mype
  obtain ⟨_, _, _, done⟩ := control.synced ((control.waiting waiting).2.2 (by omega)).1
  have most : s + 1 ≤ program.sizes.npes := by
    have below : stage program.sizes (state mype).round < program.sizes.npes + 1 := Nat.mod_lt _ (Nat.succ_pos _)
    omega
  rw [done_cells program.sizes _ _ _ _ _ ((holds.sums mype).adding s now) done i row column inside, ← columns_done_succ]
  split
  case isTrue touched =>
    obtain ⟨earlier, before, block⟩ := touched
    exact right_product program.hAs program.hBs mype (s + 1) earlier i column most (Nat.lt_succ_of_le before) block
  case isFalse untouched =>
    apply columns_done_untouched
    exact fun earlier before block => untouched ⟨earlier, Nat.le_of_lt_succ before, block⟩

def sample : Program Nat where
  sizes := ⟨2, 2, 0⟩
  plain := rfl
  hAs := fun rank index => rank + index + 1
  hBs := fun rank index => 2 * rank + index + 1
  node := fun rank => rank
  useIpc := fun _ => true
  virtAddrMode := true
  avAddrs := fun _ rank => rank
  ptr := fun _ which => 64 * (which + 1)
  desc := fun _ _ => 0
  key := fun _ which => UInt64.ofNat (which + 1)

theorem sample_placed : Placed sample where
  few := by decide
  fits := by decide
  mapped := by decide
  apart rank _ := by
    have disjoint : 64 * (0 + 1) + stripeSize sample ≤ 64 * (1 + 1) := by decide
    have keys : UInt64.ofNat (0 + 1) ≠ UInt64.ofNat (1 + 1) := by decide
    exact regions_apart rank disjoint keys
  distinct _ _ _ same := Fin.ext same

def sampleRt (mype : Fin sample.sizes.npes) : Rt.Runtime :=
  ((exchanged sample.toMemory sample.sizes.npes (stripeSize sample) mype).bind (warmUp sample mype)).getD
    (registered sample.toMemory (stripeSize sample) mype).2.2

def sampleStart : State sample := start sample sampleRt (fun _ => 0) fun _ _ => 7

theorem sample_paired : Paired sample := fun _ _ _ => rfl

theorem sample_set_up : SetUp sample sampleRt := by
  obtain ⟨rt, setUp⟩ := sets_up sample_placed
  intro mype
  obtain ⟨opened, taken, warmed⟩ := setUp mype
  refine ⟨opened, taken, ?_⟩
  rw [sampleRt, taken, Option.bind_some, warmed]
  rfl

def sampleRefill (mype : Fin sample.sizes.npes) : List (Action sample) :=
  [.clear mype, .refill mype 0 0, .refill mype 0 1, .refill mype 1 0, .refill mype 1 1, .refilled mype]

def firstSample : Fin sample.sizes.npes := ⟨0, Nat.two_pos⟩

def secondSample : Fin sample.sizes.npes := ⟨1, Nat.one_lt_two⟩

def sampleActions : List (Action sample) :=
  sampleRefill firstSample ++ sampleRefill secondSample ++
    [.leave firstSample, .enqueue firstSample, .trigger firstSample, .land firstSample secondSample 0 0,
      .land firstSample secondSample 0 1, .completeWrite firstSample 0, .completeAtomic firstSample 0,
      .thread firstSample (0, 0), .thread firstSample (0, 0),
      .thread firstSample (1, 0), .thread firstSample (1, 0), .sync firstSample, .wait firstSample, .finish firstSample]

theorem blocks_so_far_sample : ∃ state : State sample, Reach (step sample) always sampleStart state ∧
    (state firstSample).kernel.cs 0 = product sample.hAs sample.hBs sample.sizes 0 0 0 ∧
    (state firstSample).kernel.cs 1 = 0 := by
  obtain ⟨state, reached, waiting, round⟩ := reach_of_decided (step sample) always sampleActions sampleStart
    (fun state => (state firstSample).waiting = true ∧ (state firstSample).round = 1) (by decide +kernel)
  have now : stage sample.sizes (state firstSample).round = 0 + 1 := by rw [round]; rfl
  refine ⟨state, reached, ?_, ?_⟩
  · exact blocks_so_far sample_placed sample_paired sample_set_up state reached firstSample waiting 0 now 0 0
      (by decide) (by decide)
  · exact blocks_so_far sample_placed sample_paired sample_set_up state reached firstSample waiting 0 now 0 1
      (by decide) (by decide)

theorem final_product (state : State program) (holds : Holds program garbage state) (mype : Fin program.sizes.npes)
    (last : (state mype).round = totalRounds program) (i column : Nat) (row : i < Ns program.sizes)
    (inside : column < N program.sizes) : (state mype).kernel.cs (i * N program.sizes + column) =
      product program.hAs program.hBs program.sizes mype i column := by
  have first : stage program.sizes (state mype).round = 0 := by rw [last, total_stage]
  have notCleared : (state mype).cleared = false := by
    cases cleared : (state mype).cleared with
    | false => rfl
    | true =>
        have running := ((holds.controlled mype).refilling cleared).2
        omega
  have later : 0 < (state mype).round := by
    rw [last]
    exact Nat.mul_pos (by decide) (Nat.succ_pos _)
  obtain ⟨s, below, block, _⟩ := block_once program.sizes mype _ (column_split program.sizes program.plain column inside).1
  rw [(holds.sums mype).kept first notCleared later i row column inside]
  exact right_product program.hAs program.hBs mype _ s i column (Nat.le_refl _) below block

theorem stripe_moves (state : State program) (mype : Fin program.sizes.npes) (control : Control program mype (state mype))
    (work : Rt.SlotWrite) (rest : List Rt.SlotWrite) (writes : (state mype).rt.writes = work :: rest)
    (ready : Rt.WriteReady (state mype).rt work) : ∃ action next, step program state action = some next := by
  have found : (state mype).rt.writes[0]? = some work := by rw [writes]; rfl
  obtain ⟨slot, carries⟩ := control.carries work (List.mem_of_getElem? found)
  by_cases whole : WholeLanded (state mype).landed work
  · refine ⟨.completeWrite mype 0, Option.isSome_iff_exists.mp ?_⟩
    have landed : ∀ other ∈ (state mype).rt.writes[0]?, WholeLanded (state mype).landed other := by
      intro other queued
      rw [found] at queued
      cases queued
      exact whole
    rw [step, if_pos landed, Rt.completeWrite]
    simp only [found, if_pos ready, Option.map_some, Option.isSome_some]
  · obtain ⟨word, inside, pending⟩ : ∃ word, word < words work ∧ (state mype).landed work.slot word = false := by
      simpa [WholeLanded] using whole
    have within : word < stripe program.sizes := by rwa [carried_words _ _ _ work carries] at inside
    have dest : work.write.destAddr = (state mype).rt.fabric.avAddrs (left program.sizes mype) := by
      rw [carries.dest, control.opened.addresses]
    refine ⟨.land mype (left program.sizes mype) 0 word, Option.isSome_iff_exists.mp ?_⟩
    simp only [step, landing_cells (state mype).rt (state mype).landed mype (left program.sizes mype) 0 word work _ found
      carries ready dest within pending, Option.isSome_some]

theorem token_moves (state : State program) (mype : Fin program.sizes.npes) (control : Control program mype (state mype))
    (synced : (state mype).synced = true) (tok : Rt.Token) (held : (state mype).tok = some tok) :
    ∃ action next, step program state action = some next := by
  obtain ⟨slot, one, _, trigger, need, _, outside⟩ := control.queued tok held
  obtain ⟨_, triggered, _, _⟩ := control.synced synced
  rw [triggered need, Bool.toNat_true] at trigger
  have inSlot : 0 < (state mype).rt.nOps := by omega
  by_cases written : 1 ≤ (state mype).rt.completionCntr 0
  · by_cases signalled : 1 ≤ (state mype).rt.atomicCompletionCntr 0
    · by_cases waited : (state mype).waited = true
      · have all : (∀ slot < (state mype).rt.nOps, 1 ≤ (state mype).rt.completionCntr slot) ∧
            ((state mype).rt.atomicSignalsQueued = true →
              ∀ slot < (state mype).rt.nOps, 1 ≤ (state mype).rt.atomicCompletionCntr slot) := by
          refine ⟨fun slot below => ?_, fun _ slot below => ?_⟩
          · rwa [show slot = 0 by omega]
          · rwa [show slot = 0 by omega]
        refine ⟨.finish mype, Option.isSome_iff_exists.mp ?_⟩
        rw [step, if_pos ⟨synced, outside, fun _ => waited⟩, finish, held, Rt.reset, if_pos all]
        rfl
      · have returns : Waited (state mype) := ⟨tok, held, by rw [Rt.waitOver, slot]; exact written⟩
        exact ⟨.wait mype, _, if_pos ⟨synced, by simpa using waited, returns⟩⟩
    · have pending : 0 ∈ Rt.pendingAtomics (state mype).rt := by
        by_contra absent
        have count := (control.batch.atomicCompletions 0 inSlot).2 absent
        omega
      obtain ⟨work, member, own⟩ := List.mem_map.mp pending
      have within : 0 < (state mype).rt.atomics.length := List.length_pos_of_mem member
      have head := control.batch.atomics _ (List.getElem_mem within)
      have ready : Rt.AtomicReady (state mype).rt ((state mype).rt.atomics[0]) := by
        rw [Rt.AtomicReady, head.2.1, show ((state mype).rt.atomics[0]).slot = 0 by omega]
        exact written
      refine ⟨.completeAtomic mype 0, Option.isSome_iff_exists.mp ?_⟩
      simp only [step, Rt.completeAtomic, List.getElem?_eq_getElem within, if_pos ready, Option.map_some, Option.isSome_some]
  · cases writes : (state mype).rt.writes with
    | nil =>
        have count := (control.batch.completions 0 inSlot).2 (by simp [Rt.pendingWrites, writes])
        omega
    | cons work rest =>
        obtain ⟨below, threshold, _⟩ := control.batch.writes work (by rw [writes]; exact List.mem_cons_self)
        have ready : Rt.WriteReady (state mype).rt work := by
          rw [Rt.WriteReady, threshold, trigger]
          omega
        exact stripe_moves state mype control work rest writes ready

theorem process_moves (placed : Placed program) (state : State program) (holds : Holds program garbage state)
    (mype : Fin program.sizes.npes) (running : (state mype).round < totalRounds program)
    (outside : (state mype).waiting = false) : ∃ action next, step program state action = some next := by
  have control := holds.controlled mype
  by_cases first : stage program.sizes (state mype).round = 0
  · by_cases cleared : (state mype).cleared = true
    · by_cases refilled : AllRefilled program.sizes (state mype).toProcess
      · exact ⟨.refilled mype, _, if_pos ⟨first, cleared, outside, refilled⟩⟩
      · obtain ⟨which, below, index, inside, pending⟩ : ∃ which, which < 2 ∧ ∃ index, index < stripe program.sizes ∧
            (state mype).refilled which index = false := by simpa [AllRefilled] using refilled
        exact ⟨.refill mype which index, _, if_pos ⟨cleared, outside, ⟨first, below, inside⟩, pending⟩⟩
    · exact ⟨.clear mype, _, if_pos ⟨running, first, by simpa using cleared⟩⟩
  · by_cases enqueued : (state mype).enqueued = true
    · by_cases triggered : Triggered program mype (state mype)
      · by_cases pulled : Pulled program mype (state mype)
        · by_cases done : KernelDone program.sizes (state mype).kernel
          · by_cases synced : (state mype).synced = true
            · cases held : (state mype).tok with
              | some tok => exact token_moves state mype control synced tok held
              | none =>
                  refine ⟨.finish mype, Option.isSome_iff_exists.mp ?_⟩
                  rw [step, if_pos ⟨synced, outside, fun some => by simp [held] at some⟩, finish, held]
                  rfl
            · exact ⟨.sync mype, _, if_pos ⟨enqueued, by simpa using synced, triggered, pulled, done⟩⟩
          · obtain ⟨k, inX, j, inY, behind⟩ : ∃ k, k < gridX program.sizes * blockDim ∧ ∃ j, j < gridY program.sizes * blockDim ∧
                (state mype).kernel.progress (k, j) ≠ operations program.sizes (k, j) := by simpa [KernelDone] using done
            obtain ⟨s, now⟩ := Nat.exists_eq_succ_of_ne_zero first
            have more := Nat.lt_of_le_of_ne (((holds.sums mype).adding s now).bounded (k, j)) behind
            exact ⟨.thread mype (k, j), _, if_pos ⟨enqueued, triggered, pulled, ⟨inX, inY⟩, more⟩⟩
        · obtain ⟨near, index, inside, pending⟩ : rightIsLocal program mype = true ∧ ∃ index, index < stripe program.sizes ∧
              (state mype).pulled index = false := by simpa [Pulled, AllPulled] using pulled
          exact ⟨.pull mype index, _, if_pos ⟨enqueued, near, triggered, inside, pending⟩⟩
      · obtain ⟨need, pending⟩ : needDwq program mype = true ∧ (state mype).triggered = false := by
          simpa [Triggered] using triggered
        exact ⟨.trigger mype, _, if_pos ⟨control.holding enqueued need outside, pending⟩⟩
    · have fresh : (state mype).enqueued = false := by simpa using enqueued
      refine ⟨.enqueue mype, Option.isSome_iff_exists.mp ?_⟩
      by_cases need : needDwq program mype = true
      · have none := (control.idle (fresh_token mype _ control fresh)).1
        obtain ⟨write, _, puts⟩ := put_stripe placed mype (state mype).rt control.opened control.batch none
          (curBuf (stepOf program.sizes (state mype).round)) (nextBuf (stepOf program.sizes (state mype).round))
          (Nat.mod_lt _ (by decide)) (Nat.mod_lt _ (by decide))
        rw [step, if_pos ⟨first, fresh⟩, enqueue, if_pos need]
        simp only [puts, Option.map_some, Option.isSome_some]
      · rw [step, if_pos ⟨first, fresh⟩, enqueue, if_neg need]
        rfl

theorem stuck_finished (placed : Placed program) (state : State program) (holds : Holds program garbage state)
    (stuck : Stuck (step program) state) (mype : Fin program.sizes.npes) : (state mype).round = totalRounds program := by
  refine barrier_stuck _ state stuck _ (fun mype => (state mype).round) (fun mype => (state mype).waiting)
    (fun mype => (holds.controlled mype).bound) ?_ ?_ mype
  · exact fun other running outside => process_moves placed state holds other running outside
  · exact fun other waiting all => ⟨.leave other, _, if_pos ⟨waiting, all⟩⟩

-- No run goes on for ever or stops before the last barrier, and then every process has its rows of A B.
theorem mm_minimal_completes (placed : Placed program) (paired : Paired program) (setUp : SetUp program rt) :
    (∃ bound, ∀ actions state, run (step program) (start program rt garbage cs) actions = some state →
      actions.length ≤ bound) ∧
    ∀ state, Reach (step program) always (start program rt garbage cs) state → Stuck (step program) state →
      ∀ mype, (state mype).round = totalRounds program ∧ ∀ i < Ns program.sizes, ∀ column < N program.sizes,
        (state mype).kernel.cs (i * N program.sizes + column) =
          product program.hAs program.hBs program.sizes mype i column := by
  refine ⟨⟨(tally program).all (start program rt garbage cs), ?_⟩, ?_⟩
  · intro actions state ran
    exact run_length _ (Holds program garbage) (tally program).all
      (fun before after action holds taken => step_holds placed paired before after action holds taken)
      (fun before after action holds taken => step_decreases placed before after action holds.controlled taken)
      actions _ state (start_holds placed setUp) ran
  · intro state reached stuck mype
    have holds := reach_holds placed paired setUp state reached
    have last := stuck_finished placed state holds stuck mype
    exact ⟨last, fun i row column inside => final_product state holds mype last i column row inside⟩

theorem mm_minimal_sample : ∃ state : State sample, Reach (step sample) always sampleStart state ∧
    (state secondSample).round = totalRounds sample ∧
    (state secondSample).kernel.cs 1 = product sample.hAs sample.hBs sample.sizes 1 0 1 := by
  obtain ⟨state, reached, stuck⟩ := stuck_reachable _ (Holds sample fun _ => 0) (tally sample).all
    (fun before after action holds taken => step_holds sample_placed sample_paired before after action holds taken)
    (fun before after action holds taken => step_decreases sample_placed before after action holds.controlled taken)
    sampleStart (start_holds sample_placed sample_set_up)
  obtain ⟨last, rows⟩ := (mm_minimal_completes sample_placed sample_paired sample_set_up).2 state reached stuck secondSample
  exact ⟨state, reached, last, rows 0 (by decide) 1 (by decide)⟩

end OpenGda.Examples.MmMinimal
