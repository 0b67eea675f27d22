import OpenGda.Mlx5.BasicPath

set_option autoImplicit false

-- gda_burst_kernel_opt: one thread builds a burst of WQEs ahead of the NIC and
-- rings every batch_size of them.
namespace OpenGda.Mlx5.BurstKernel

open Machine PhaseRing Basic

structure Launch where
  localAddr : BitVec 64
  localLkey : BitVec 32
  size : BitVec 32
  count : Nat
  batchSize : Nat
  batched : 1 ≤ batchSize

inductive Phase where
  | build (i : Nat)
  | ring (i : Nat)
  | returned
deriving DecidableEq, Repr

structure Burst where
  queue : Queue
  baseProd : Nat
  phase : Phase
  fetched : List Wqe

def launched (queue : Queue) : Burst := ⟨queue, queue.prodIdx, .build 0, []⟩

def burstPut (ctx : DeviceCtx) (launch : Launch) (i : Nat) : Put :=
  defaultPut ctx launch.localAddr launch.localLkey launch.size (i = launch.count - 1)

def gdaBurstKernelOpt (ctx : DeviceCtx) (launch : Launch) (burst : Burst) : Option Burst :=
  match burst.phase with
  | .build i =>
      if i < launch.count then
        let queue := buildAt ctx burst.queue (burstPut ctx launch i) (wqeSlot burst.baseProd i)
        if (i + 1) % launch.batchSize = 0 ∨ i = launch.count - 1 then
          some { burst with queue := queue, phase := .ring i }
        else some { burst with queue := queue, phase := .build (i + 1) }
      else
        some { burst with
          queue := { burst.queue with prodIdx := (burst.baseProd + launch.count) % 2 ^ 64 }
          phase := .returned }
  | .ring i =>
      let newProd := (wqeSlot burst.baseProd i + 1) &&& 0xFFFF
      some { burst with queue := ringDoorbellBf ctx burst.queue newProd, phase := .build (i + 1) }
  | .returned => none

-- All earlier WQEs are processed, so the NIC starts at base_prod.
def fetch (ctx : DeviceCtx) (burst : Burst) : Option Burst :=
  let consumer := burst.baseProd + burst.fetched.length
  if consumer % 2 ^ 16 = dbrecIndex burst.queue.dbrec then none
  else some { burst with fetched := burst.fetched ++ [burst.queue.wqeBuf (consumer % ctx.nwqes)] }

inductive Action where
  | kernel
  | fetch
deriving DecidableEq, Repr

def step (ctx : DeviceCtx) (launch : Launch) (burst : Burst) : Action → Option Burst
  | .kernel => gdaBurstKernelOpt ctx launch burst
  | .fetch => fetch ctx burst

def requested (ctx : DeviceCtx) (launch : Launch) (baseProd i : Nat) : Option Executed :=
  some ⟨(baseProd + i) % 2 ^ 16, burstPut ctx launch i⟩

-- `kept`: the WQE about to be overwritten has been fetched.
structure Exact (ctx : DeviceCtx) (launch : Launch) (burst : Burst) : Prop where
  kept : ∀ i, burst.phase = .build i → i < launch.count → ∀ earlier < i,
    getWqeSlot ctx (wqeSlot burst.baseProd earlier) = getWqeSlot ctx (wqeSlot burst.baseProd i) →
      earlier < burst.fetched.length
  executed : burst.fetched.map Wqe.decode =
    (List.range burst.fetched.length).map (requested ctx launch burst.baseProd)
  bounded : burst.fetched.length ≤ launch.count
  finished : burst.phase = .returned → dbrecIndex burst.queue.dbrec = burst.queue.prodIdx % 2 ^ 16 ∧
    (fetch ctx burst = none ↔ burst.fetched.length = launch.count)

def Phase.built (count : Nat) : Phase → Nat
  | .build i => i
  | .ring i => i + 1
  | .returned => count

structure Ahead (ctx : DeviceCtx) (launch : Launch) (burst : Burst) (rung : Nat) : Prop where
  inside : burst.phase.built launch.count ≤ launch.count
  order : burst.fetched.length ≤ rung
  announced : rung ≤ burst.phase.built launch.count
  dbrec : dbrecIndex burst.queue.dbrec = (burst.baseProd + rung) % 2 ^ 16
  slots : ∀ i < burst.phase.built launch.count,
    (burst.queue.wqeBuf ((burst.baseProd + i) % ctx.nwqes)).decode = requested ctx launch burst.baseProd i
  executed : burst.fetched.map Wqe.decode =
    (List.range burst.fetched.length).map (requested ctx launch burst.baseProd)
  last : burst.phase = .build launch.count ∨ burst.phase = .returned → rung = launch.count
  final : burst.phase = .returned → burst.queue.prodIdx = (burst.baseProd + launch.count) % 2 ^ 64

theorem launched_ahead (ctx : DeviceCtx) (launch : Launch) (queue : Queue) (drained : Drained queue) :
    Ahead ctx launch (launched queue) 0 where
  inside := Nat.zero_le _
  order := Nat.le_refl 0
  announced := Nat.le_refl 0
  dbrec := drained
  slots := fun i early => absurd early (Nat.not_lt_zero i)
  executed := rfl
  last := fun done => by
    rcases done with start | never
    · exact Phase.build.inj start
    · exact absurd never (by simp [launched])
  final := fun never => absurd never (by simp [launched])

theorem built_slots (ctx : DeviceCtx) (sized : Sized ctx) (launch : Launch) (fits : launch.count ≤ ctx.nwqes)
    (queue : Queue) (baseProd i : Nat) (more : i < launch.count)
    (slots : ∀ earlier < i,
      (queue.wqeBuf ((baseProd + earlier) % ctx.nwqes)).decode = requested ctx launch baseProd earlier)
    (index : Nat) (early : index < i + 1) :
    ((buildAt ctx queue (burstPut ctx launch i) (wqeSlot baseProd i)).wqeBuf ((baseProd + index) % ctx.nwqes)).decode =
      requested ctx launch baseProd index := by
  simp only [buildAt, wqe_slot_place ctx sized]
  rcases Nat.lt_succ_iff_lt_or_eq.mp early with earlier | same
  · have apart : (baseProd + index) % ctx.nwqes ≠ (baseProd + i) % ctx.nwqes :=
      slots_distinct ctx.nwqes _ _ (by omega) (by omega)
    rw [Function.update_of_ne apart]
    exact slots index earlier
  · subst same
    rw [Function.update_self, wqe_slot_index]
    exact build_decodes ctx.qpn _ _ (Nat.mod_lt _ (by decide))

theorem build_ahead (ctx : DeviceCtx) (sized : Sized ctx) (launch : Launch) (fits : launch.count ≤ ctx.nwqes)
    (burst : Burst) (announced i : Nat) (ahead : Ahead ctx launch burst announced) (here : burst.phase = .build i)
    (more : i < launch.count) (phase : Phase)
    (next : phase = .ring i ∨ phase = .build (i + 1) ∧ i + 1 ≠ launch.count) :
    Ahead ctx launch { burst with
      queue := buildAt ctx burst.queue (burstPut ctx launch i) (wqeSlot burst.baseProd i)
      phase := phase } announced := by
  have early := ahead.announced
  have slots := ahead.slots
  rw [here] at early slots
  have built : phase.built launch.count = i + 1 := by
    rcases next with ring | ⟨build, _⟩
    · rw [ring, Phase.built]
    · rw [build, Phase.built]
  refine ⟨?_, ahead.order, ?_, ahead.dbrec, ?_, ahead.executed, ?_, ?_⟩
  · simp only [built]
    exact more
  · simp only [built]
    exact Nat.le_succ_of_le early
  · simp only [built]
    exact built_slots ctx sized launch fits burst.queue burst.baseProd i more slots
  · rcases next with ring | ⟨build, unfinished⟩
    · simp [ring]
    · simp [build, unfinished]
  · rcases next with ring | ⟨build, _⟩
    · simp [ring]
    · simp [build]

theorem ring_ahead (ctx : DeviceCtx) (launch : Launch) (burst : Burst) (announced i : Nat)
    (ahead : Ahead ctx launch burst announced) (here : burst.phase = .ring i) :
    Ahead ctx launch { burst with
      queue := ringDoorbellBf ctx burst.queue ((wqeSlot burst.baseProd i + 1) &&& 0xFFFF)
      phase := .build (i + 1) } (i + 1) := by
  have inside := ahead.inside
  have early := ahead.announced
  have slots := ahead.slots
  rw [here] at inside early slots
  refine ⟨inside, Nat.le_trans ahead.order early, Nat.le_refl _, ?_, slots, ahead.executed, ?_, by simp⟩
  · simp only [ringDoorbellBf, masked_dbrec, wqe_slot_index]
    omega
  · intro done
    simpa using done

theorem kernel_ahead (ctx : DeviceCtx) (sized : Sized ctx) (launch : Launch) (fits : launch.count ≤ ctx.nwqes)
    (before after : Burst) (announced : Nat) (ahead : Ahead ctx launch before announced)
    (taken : gdaBurstKernelOpt ctx launch before = some after) : ∃ announced, Ahead ctx launch after announced := by
  unfold gdaBurstKernelOpt at taken
  split at taken
  · rename_i i here
    split at taken
    · rename_i more
      split at taken
      · cases taken
        exact ⟨announced, build_ahead ctx sized launch fits before announced i ahead here more (.ring i) (.inl rfl)⟩
      · rename_i quiet
        cases taken
        refine ⟨announced, build_ahead ctx sized launch fits before announced i ahead here more _ (.inr ⟨rfl, ?_⟩)⟩
        omega
    · rename_i done
      cases taken
      have inside := ahead.inside
      have slots := ahead.slots
      have order := ahead.order
      have last := ahead.last
      have early := ahead.announced
      rw [here, Phase.built] at inside early
      have whole : i = launch.count := by omega
      subst whole
      rw [here] at slots
      have all : announced = launch.count := last (.inl here)
      exact ⟨announced, Nat.le_refl _, order, early, ahead.dbrec, slots, ahead.executed, fun _ => all, fun _ => rfl⟩
  · rename_i i here
    cases taken
    exact ⟨i + 1, ring_ahead ctx launch before announced i ahead here⟩
  · cases taken

theorem fetch_idle_iff (ctx : DeviceCtx) (sized : Sized ctx) (launch : Launch) (fits : launch.count ≤ ctx.nwqes)
    (burst : Burst) (announced : Nat) (ahead : Ahead ctx launch burst announced) :
    fetch ctx burst = none ↔ burst.fetched.length = announced := by
  have few := sized.few
  have inside := ahead.inside
  have order := ahead.order
  have early := ahead.announced
  rw [fetch, ahead.dbrec]
  constructor
  · intro idle
    by_contra left
    rw [if_neg (by omega)] at idle
    cases idle
  · intro all
    rw [if_pos (by rw [all])]

theorem fetch_ahead (ctx : DeviceCtx) (sized : Sized ctx) (launch : Launch) (fits : launch.count ≤ ctx.nwqes)
    (before after : Burst) (announced : Nat) (ahead : Ahead ctx launch before announced)
    (taken : fetch ctx before = some after) : Ahead ctx launch after announced := by
  have order := ahead.order
  have early := ahead.announced
  have left : before.fetched.length ≠ announced := by
    intro all
    rw [(fetch_idle_iff ctx sized launch fits before announced ahead).mpr all] at taken
    cases taken
  rw [fetch] at taken
  split at taken
  · cases taken
  · cases taken
    refine ⟨ahead.inside, ?_, early, ahead.dbrec, ahead.slots, ?_, ahead.last, ahead.final⟩
    · simp only [List.length_append, List.length_singleton]
      omega
    · simp only [List.map_append, List.map_singleton, List.length_append, List.length_singleton, List.range_succ]
      rw [ahead.executed, ahead.slots before.fetched.length (by omega)]

theorem reach_ahead (ctx : DeviceCtx) (sized : Sized ctx) (launch : Launch) (fits : launch.count ≤ ctx.nwqes)
    (queue : Queue) (drained : Drained queue) (burst : Burst)
    (reached : Reach (step ctx launch) always (launched queue) burst) : ∃ announced, Ahead ctx launch burst announced := by
  refine reach_invariant (step ctx launch) always (fun burst => ∃ announced, Ahead ctx launch burst announced)
    (launched queue) burst ⟨0, launched_ahead ctx launch queue drained⟩ ?_ reached
  intro before after action ⟨announced, ahead⟩ _ taken
  cases action with
  | kernel => exact kernel_ahead ctx sized launch fits before after announced ahead taken
  | fetch => exact ⟨announced, fetch_ahead ctx sized launch fits before after announced ahead taken⟩

theorem ahead_exact (ctx : DeviceCtx) (sized : Sized ctx) (launch : Launch) (fits : launch.count ≤ ctx.nwqes)
    (burst : Burst) (announced : Nat) (ahead : Ahead ctx launch burst announced) : Exact ctx launch burst := by
  have inside := ahead.inside
  have order := ahead.order
  have early := ahead.announced
  refine ⟨?_, ahead.executed, by omega, ?_⟩
  · intro i _ more earlier before same
    rw [wqe_slot_place ctx sized, wqe_slot_place ctx sized] at same
    exact absurd same (slots_distinct ctx.nwqes _ _ (by omega) (by omega))
  · intro done
    have all := ahead.last (.inr done)
    refine ⟨?_, ?_⟩
    · rw [ahead.dbrec, ahead.final done, all, Nat.mod_mod_of_dvd _ (by decide)]
    · rw [fetch_idle_iff ctx sized launch fits burst announced ahead, all]

theorem kernel_alone (ctx : DeviceCtx) (launch : Launch) (queue : Queue) (i : Nat) (inside : i ≤ launch.count) :
    ∃ burst, Reach (step ctx launch) always (launched queue) burst ∧ burst.phase = .build i ∧ burst.fetched = [] := by
  induction i with
  | zero => exact ⟨launched queue, .start, rfl, rfl⟩
  | succ i ih =>
      obtain ⟨burst, reached, here, none⟩ := ih (by omega)
      have more : i < launch.count := inside
      by_cases rings : (i + 1) % launch.batchSize = 0 ∨ i = launch.count - 1
      · have built : step ctx launch burst .kernel = some { burst with
            queue := buildAt ctx burst.queue (burstPut ctx launch i) (wqeSlot burst.baseProd i)
            phase := .ring i } := by
          simp only [step, gdaBurstKernelOpt, here, if_pos more, if_pos rings]
        exact ⟨_, .step _ _ .kernel (.step _ _ .kernel reached trivial built) trivial rfl, rfl, none⟩
      · have built : step ctx launch burst .kernel = some { burst with
            queue := buildAt ctx burst.queue (burstPut ctx launch i) (wqeSlot burst.baseProd i)
            phase := .build (i + 1) } := by
          simp only [step, gdaBurstKernelOpt, here, if_pos more, if_neg rings]
        exact ⟨_, .step _ _ .kernel reached trivial built, rfl, none⟩

def stepsLeft (launch : Launch) (burst : Burst) : Nat :=
  (launch.count - burst.fetched.length) +
    match burst.phase with
    | .build i => 2 * (launch.count - i) + 1
    | .ring i => 2 * (launch.count - i)
    | .returned => 0

theorem step_decreases (ctx : DeviceCtx) (sized : Sized ctx) (launch : Launch) (fits : launch.count ≤ ctx.nwqes)
    (before after : Burst) (action : Action) (ahead : ∃ announced, Ahead ctx launch before announced)
    (taken : step ctx launch before action = some after) : stepsLeft launch after < stepsLeft launch before := by
  obtain ⟨announced, ahead⟩ := ahead
  have inside := ahead.inside
  cases action with
  | kernel =>
      simp only [step, gdaBurstKernelOpt] at taken
      split at taken
      · rename_i i here
        split at taken
        · split at taken <;> cases taken <;> simp only [stepsLeft, here] <;> omega
        · cases taken
          simp only [stepsLeft, here]
          omega
      · rename_i i here
        rw [here, Phase.built] at inside
        cases taken
        simp only [stepsLeft, here]
        omega
      · cases taken
  | fetch =>
      have later := fetch_ahead ctx sized launch fits before after announced ahead taken
      have order := later.order
      have early := later.announced
      have bound := later.inside
      simp only [step, fetch] at taken
      split at taken
      · cases taken
      · cases taken
        simp only [List.length_append, List.length_singleton] at order
        simp only [stepsLeft, List.length_append, List.length_singleton]
        omega

theorem stuck_returned (ctx : DeviceCtx) (launch : Launch) (burst : Burst) (stuck : Stuck (step ctx launch) burst) :
    burst.phase = .returned := by
  have still := stuck .kernel
  simp only [step, gdaBurstKernelOpt] at still
  split at still
  · split at still
    · split at still <;> cases still
    · cases still
  · cases still
  · rename_i done
    exact done

theorem burst_exact_iff_fits (ctx : DeviceCtx) (sized : Sized ctx) (launch : Launch) (queue : Queue)
    (drained : Drained queue) :
    ((∀ burst, Reach (step ctx launch) always (launched queue) burst → Exact ctx launch burst) ↔
        launch.count ≤ ctx.nwqes) ∧
      (launch.count ≤ ctx.nwqes →
        (∀ actions burst, run (step ctx launch) (launched queue) actions = some burst →
          actions.length ≤ 3 * launch.count + 1) ∧
        ∀ burst, Reach (step ctx launch) always (launched queue) burst → Stuck (step ctx launch) burst →
          burst.phase = .returned ∧ burst.fetched.length = launch.count) := by
  have exactly : launch.count ≤ ctx.nwqes → ∀ burst, Reach (step ctx launch) always (launched queue) burst →
      Exact ctx launch burst := by
    intro fits burst reached
    obtain ⟨announced, ahead⟩ := reach_ahead ctx sized launch fits queue drained burst reached
    exact ahead_exact ctx sized launch fits burst announced ahead
  refine ⟨⟨?_, exactly⟩, fun fits => ⟨?_, ?_⟩⟩
  · intro every
    by_contra large
    obtain ⟨burst, reached, here, none⟩ := kernel_alone ctx launch queue ctx.nwqes (by omega)
    have same : getWqeSlot ctx (wqeSlot burst.baseProd 0) = getWqeSlot ctx (wqeSlot burst.baseProd ctx.nwqes) := by
      rw [wqe_slot_place ctx sized, wqe_slot_place ctx sized, Nat.add_zero, Nat.add_mod_right]
    have kept := (every burst reached).kept ctx.nwqes here (by omega) 0 sized.positive same
    rw [none] at kept
    exact absurd kept (Nat.lt_irrefl 0)
  · intro actions burst ran
    have bound := run_length (step ctx launch) (Reach (step ctx launch) always (launched queue)) (stepsLeft launch)
      (fun before after action reached taken => .step before after action reached trivial taken)
      (fun before after action reached taken => step_decreases ctx sized launch fits before after action
        (reach_ahead ctx sized launch fits queue drained before reached) taken)
      actions (launched queue) burst .start ran
    simp only [stepsLeft, launched, List.length_nil] at bound
    omega
  · intro burst reached stuck
    have done := stuck_returned ctx launch burst stuck
    exact ⟨done, ((exactly fits burst reached).finished done).2.mp (stuck .fetch)⟩

def fourPuts : Launch := ⟨0x1000, 7, 8, 4, 2, by decide⟩

theorem burst_exact_four :
    (∀ burst, Reach (step (prepare 5 2 512 ⟨0x2000, 9⟩ true) fourPuts) always (launched freshQueue) burst →
        Exact (prepare 5 2 512 ⟨0x2000, 9⟩ true) fourPuts burst) ∧
      ∀ burst, Reach (step (prepare 5 2 512 ⟨0x2000, 9⟩ true) fourPuts) always (launched freshQueue) burst →
        Stuck (step (prepare 5 2 512 ⟨0x2000, 9⟩ true) fourPuts) burst →
          burst.phase = .returned ∧ burst.fetched.length = 4 := by
  have outcome := burst_exact_iff_fits (prepare 5 2 512 ⟨0x2000, 9⟩ true) (prepare_sized 5 2 512 ⟨0x2000, 9⟩ true (by decide))
    fourPuts freshQueue fresh_drained
  have fits : fourPuts.count ≤ (prepare 5 2 512 ⟨0x2000, 9⟩ true).nwqes := by decide
  exact ⟨outcome.1.mpr fits, (outcome.2 fits).2⟩

theorem burst_overruns_queue :
    Drained freshQueue ∧ Sized (prepare 5 1 512 ⟨0x2000, 9⟩ true) ∧
      ∃ burst, Reach (step (prepare 5 1 512 ⟨0x2000, 9⟩ true) fourPuts) always (launched freshQueue) burst ∧
        ¬ Exact (prepare 5 1 512 ⟨0x2000, 9⟩ true) fourPuts burst := by
  refine ⟨fresh_drained, prepare_sized 5 1 512 ⟨0x2000, 9⟩ true (by decide), ?_⟩
  obtain ⟨burst, reached, here, base, none⟩ := reach_of_decided (step (prepare 5 1 512 ⟨0x2000, 9⟩ true) fourPuts) always
    [.kernel, .kernel, .kernel] (launched freshQueue)
    (fun burst => burst.phase = .build 2 ∧ burst.baseProd = 0 ∧ burst.fetched = []) (by decide +kernel)
  refine ⟨burst, reached, fun exactly => ?_⟩
  have kept := exactly.kept 2 here (by decide) 0 (by decide) (by rw [base]; decide)
  rw [none] at kept
  exact absurd kept (by decide)

end OpenGda.Mlx5.BurstKernel
