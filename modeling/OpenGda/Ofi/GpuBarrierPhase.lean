import OpenGda.Ofi.GpuBarrierMoves

set_option autoImplicit false

-- How the two host threads and the kernel of one rank stand to each other.
namespace OpenGda.GpuBarrier

open Dissemination Machine DeferredWork

variable {size : Nat}

def Kernel.remaining (kernel : Kernel) : Nat :=
  match kernel.pc with
  | .advance => kernel.todo - 1
  | _ => kernel.todo

def Rank.remaining (rank : Rank size) : Nat :=
  match rank.gpu with
  | none => 0
  | some kernel => kernel.remaining

def Inside (rank : Rank size) (kernel : Kernel) : Prop :=
  rank.entered.length = rank.departed.length + 1 ∧ kernel.expected = rank.entered.length ∧
    rank.expectedSignal = rank.entered.length ∧ 0 < kernel.todo

def KernelInv (rank : Rank size) (kernel : Kernel) : Prop :=
  match kernel.pc with
  | .loop => rank.entered.length = rank.departed.length ∧
      (0 < kernel.todo → rank.expectedSignal = rank.departed.length + 1)
  | .ready => Inside rank kernel
  | .trigger k => Inside rank kernel ∧ rank.entered.length ≤ rank.readyCounter ∧ k < nRounds size
  | .poll k => Inside rank kernel ∧ rank.entered.length ≤ rank.readyCounter ∧ k < nRounds size
  | .notify => Inside rank kernel ∧ rank.entered.length ≤ rank.readyCounter
  | .advance => rank.entered.length = rank.departed.length ∧ 0 < kernel.todo ∧
      rank.expectedSignal = rank.departed.length

def GpuInv (rank : Rank size) : Prop :=
  match rank.gpu with
  | none => rank.entered.length = rank.departed.length
  | some kernel => (kernel.continuous = false → kernel.todo ≤ 1) ∧ KernelInv rank kernel

def Level (rank : Rank size) : Prop :=
  rank.readyCounter = rank.barrierCount ∧ rank.departed.length = rank.barrierCount

def Outstanding (rank : Rank size) : Prop :=
  rank.readyCounter = rank.barrierCount + 1 ∧ rank.barrierCount ≤ rank.departed.length ∧
    rank.departed.length ≤ rank.barrierCount + 1

def Winding (rank : Rank size) : Prop :=
  rank.targetBarrierCount ≤ rank.barrierCount ∧
    match rank.monitor with
    | .top => rank.continuousMode = false
    | .draining expected => expected ≤ rank.readyCounter
    | .deciding => True
    | .closing => True
    | _ => False

def Waiting (rank : Rank size) : Prop :=
  rank.departed.length + rank.remaining = rank.targetBarrierCount ∧
    match rank.monitor with
    | .top => (rank.barrierCount < rank.targetBarrierCount ∧ rank.continuousMode = true ∧ Outstanding rank) ∨
        (rank.barrierCount = rank.targetBarrierCount ∧ rank.continuousMode = false ∧ Level rank)
    | .checked => rank.barrierCount < rank.targetBarrierCount ∧ rank.continuousMode = true ∧ Outstanding rank
    | .counting => rank.barrierCount < rank.targetBarrierCount ∧ rank.continuousMode = true ∧ Outstanding rank ∧
        rank.departed.length = rank.barrierCount + 1
    | .draining expected => rank.barrierCount ≤ rank.targetBarrierCount ∧ rank.continuousMode = true ∧ Level rank ∧
        expected = rank.barrierCount
    | .deciding => rank.barrierCount ≤ rank.targetBarrierCount ∧ rank.continuousMode = true ∧ Level rank
    | .queueing => rank.barrierCount < rank.targetBarrierCount ∧ rank.continuousMode = true ∧ Level rank
    | .closing => rank.barrierCount = rank.targetBarrierCount ∧ rank.continuousMode = true ∧ Level rank

def Phase (rank : Rank size) : Prop :=
  match rank.app with
  | .idle => rank.continuousMode = false ∧ Level rank ∧ rank.remaining = 0 ∧ Winding rank
  | .queued => rank.continuousMode = false ∧ rank.gpu = none ∧ Outstanding rank ∧
      rank.departed.length = rank.barrierCount ∧ rank.expectedSignal = rank.barrierCount + 1 ∧ Winding rank
  | .running => rank.continuousMode = false ∧ Outstanding rank ∧
      rank.departed.length + rank.remaining = rank.barrierCount + 1 ∧ Winding rank
  | .synced => rank.continuousMode = false ∧ rank.gpu = none ∧ Outstanding rank ∧
      rank.departed.length = rank.barrierCount + 1 ∧ Winding rank
  | .draining expected => rank.continuousMode = false ∧ rank.gpu = none ∧ Level rank ∧
      expected = rank.barrierCount ∧ Winding rank
  | .starting numBarriers => rank.continuousMode = false ∧ Level rank ∧ rank.remaining = 0 ∧ 0 < numBarriers ∧
      rank.targetBarrierCount = rank.barrierCount + numBarriers ∧ rank.monitor = .top
  | .armed numBarriers => rank.continuousMode = true ∧ rank.gpu = none ∧ Level rank ∧ 0 < numBarriers ∧
      rank.targetBarrierCount = rank.barrierCount + numBarriers ∧
      rank.expectedSignal = rank.barrierCount + 1 ∧ (rank.monitor = .top ∨ rank.monitor = .checked)
  | .launching numBarriers => rank.continuousMode = true ∧ rank.gpu = none ∧ Outstanding rank ∧
      rank.departed.length = rank.barrierCount ∧ 0 < numBarriers ∧
      rank.targetBarrierCount = rank.barrierCount + numBarriers ∧
      rank.expectedSignal = rank.barrierCount + 1 ∧ (rank.monitor = .top ∨ rank.monitor = .checked)
  | .waiting => Waiting rank
  | .stopping => Level rank ∧ rank.remaining = 0 ∧ Winding rank

structure HostInv (rank : Rank size) : Prop where
  entered : rank.entered = List.range' 1 rank.entered.length
  departed : rank.departed = List.range' 1 rank.departed.length
  done : rank.doneCounter = rank.departed.length
  gpu : GpuInv rank
  phase : Phase rank

theorem initial_host (size : Nat) : HostInv (initialRank size) where
  entered := rfl
  departed := rfl
  done := rfl
  gpu := rfl
  phase := by simp [Phase, initialRank, Level, Rank.remaining, Winding]

theorem setup_gpu (rank next : Rank size) (inv : GpuInv rank) (mode : rank.continuousMode = true ∨ rank.gpu = none)
    (gpu : next.gpu = rank.gpu) (entered : next.entered = rank.entered) (departed : next.departed = rank.departed)
    (ready : rank.readyCounter ≤ next.readyCounter)
    (expected : rank.continuousMode = true → next.expectedSignal = rank.expectedSignal) : GpuInv next := by
  unfold GpuInv at inv ⊢
  rw [gpu]
  cases now : rank.gpu with
  | none => simpa only [now, entered, departed] using inv
  | some kernel =>
      have running : rank.continuousMode = true := by
        rcases mode with on | off
        · exact on
        · simp [now] at off
      simp only [now] at inv
      refine ⟨inv.1, ?_⟩
      have kept := inv.2
      cases pc : kernel.pc <;>
        simp only [KernelInv, Inside, pc, entered, departed, expected running] at kept ⊢ <;> omega

theorem waiting_over (rank : Rank size) (waiting : Waiting rank)
    (reached : rank.targetBarrierCount ≤ rank.barrierCount) : Level rank ∧ rank.remaining = 0 ∧ Winding rank := by
  obtain ⟨total, turn⟩ := waiting
  simp only [Winding, Level]
  cases monitor : rank.monitor <;> simp only [monitor, Level] at turn ⊢ <;> grind

theorem app_host (config : Config size) (self : Fin size) (before after : Rank size) (inv : HostInv before)
    (taken : appStep config self before = some after) : HostInv after := by
  obtain ⟨entered, departed, done, gpu, phase⟩ := inv
  cases app_moves config self before after taken with
  | launch app off =>
      simp only [GpuInv, off] at gpu
      simp only [Phase, app] at phase
      obtain ⟨mode, _, outstanding, left, seeded, winding⟩ := phase
      refine ⟨entered, departed, done, ⟨fun _ => Nat.le_refl 1, gpu, fun _ => ?_⟩, mode, outstanding, ?_, winding⟩
      · simp only
        omega
      · simp [Rank.remaining, Kernel.remaining, left]
  | synchronise app off =>
      simp only [Phase, app, Rank.remaining, off] at phase
      obtain ⟨mode, outstanding, left, winding⟩ := phase
      exact ⟨entered, departed, done, gpu, mode, off, outstanding, left, winding⟩
  | count app =>
      simp only [Phase, app, Outstanding, Winding] at phase
      obtain ⟨mode, off, outstanding, left, target, winding⟩ := phase
      refine ⟨entered, departed, done, gpu, mode, off, ⟨outstanding.1, left⟩, rfl, ?_, winding⟩
      exact Nat.le_succ_of_le target
  | drain expected app drained =>
      simp only [Phase, app] at phase
      obtain ⟨mode, off, level, _, winding⟩ := phase
      exact ⟨entered, departed, done, gpu, mode, level, by simp [Rank.remaining, off], winding⟩
  | seed numBarriers app off =>
      simp only [GpuInv, off] at gpu
      simp only [Phase, app] at phase
      obtain ⟨_, level, _, positive, target, top⟩ := phase
      exact ⟨entered, departed, done, by simpa only [GpuInv, off] using gpu, rfl, off, level, positive, target,
        rfl, Or.inl top⟩
  | queue numBarriers next app queued =>
      obtain ⟨mode, rfl⟩ := setup_result config self before next queued
      simp only [Phase, app, Level] at phase
      obtain ⟨on, off, level, positive, target, seeded, monitor⟩ := phase
      refine ⟨entered, departed, done, ?_, on, off, ?_, level.2, positive, target, ?_, monitor⟩
      · exact setup_gpu before _ gpu mode rfl rfl rfl (Nat.le_succ _) (fun mode => by simp [mode])
      · simp only [Outstanding]
        omega
      · simpa [on] using seeded
  | launchRun numBarriers app off =>
      simp only [GpuInv, off] at gpu
      simp only [Phase, app] at phase
      obtain ⟨on, _, outstanding, left, positive, target, seeded, monitor⟩ := phase
      refine ⟨entered, departed, done, ⟨fun single => by simp at single, gpu, fun _ => ?_⟩, ?_, ?_⟩
      · simp only
        omega
      · simp only [Rank.remaining, Kernel.remaining]
        omega
      · have below : before.barrierCount < before.targetBarrierCount := by omega
        rcases monitor with top | checked
        · simp only [top]
          exact Or.inl ⟨below, on, outstanding⟩
        · simp only [checked]
          exact ⟨below, on, outstanding⟩
  | wait app reached =>
      refine ⟨entered, departed, done, gpu, ?_⟩
      simp only [Phase, app] at phase
      exact waiting_over before phase reached
  | stop app =>
      simp only [Phase, app, Winding] at phase
      obtain ⟨level, finished, target, winding⟩ := phase
      refine ⟨entered, departed, done, gpu, rfl, level, finished, target, ?_⟩
      cases monitor : before.monitor <;> simp only [monitor] at winding ⊢
      exact winding

theorem monitor_keeps (config : Config size) (self : Fin size) (before after : Rank size) (gpu : GpuInv before)
    (taken : monitorStep config self before = some after) :
    after.app = before.app ∧ after.gpu = before.gpu ∧ after.entered = before.entered ∧
      after.departed = before.departed ∧ after.doneCounter = before.doneCounter ∧ after.signals = before.signals ∧
      after.executed = before.executed ∧ GpuInv after := by
  cases monitor_moves config self before after taken with
  | queue next monitor queued =>
      obtain ⟨mode, rfl⟩ := setup_result config self before next queued
      exact ⟨rfl, rfl, rfl, rfl, rfl, rfl, rfl,
        setup_gpu before _ gpu mode rfl rfl rfl (Nat.le_succ _) (fun mode => by simp [mode])⟩
  | _ => exact ⟨rfl, rfl, rfl, rfl, rfl, rfl, rfl, gpu⟩

theorem winding_monitor (config : Config size) (self : Fin size) (before after : Rank size) (winding : Winding before)
    (taken : monitorStep config self before = some after) :
    Winding after ∧ ∃ mode monitor, after = { before with continuousMode := mode, monitor := monitor } ∧
      (before.continuousMode = false → mode = false) := by
  obtain ⟨target, turn⟩ := winding
  cases monitor_moves config self before after taken with
  | rest monitor mode => exact ⟨⟨target, turn⟩, before.continuousMode, before.monitor, rfl, id⟩
  | drain expected monitor drained => exact ⟨⟨target, trivial⟩, before.continuousMode, .deciding, rfl, id⟩
  | finish monitor reached => exact ⟨⟨target, trivial⟩, before.continuousMode, .closing, rfl, id⟩
  | close monitor => exact ⟨⟨target, rfl⟩, false, .top, rfl, fun _ => rfl⟩
  | goOn monitor more => exact absurd more (Nat.not_lt_of_le target)
  | look monitor mode => simp [monitor, mode] at turn
  | find monitor _ | miss monitor _ | count monitor | queue _ monitor _ => simp [monitor] at turn

theorem armed_monitor (config : Config size) (self : Fin size) (before after : Rank size)
    (level : before.doneCounter = before.barrierCount) (mode : before.continuousMode = true)
    (turn : before.monitor = .top ∨ before.monitor = .checked)
    (taken : monitorStep config self before = some after) :
    ∃ monitor, after = { before with monitor := monitor } ∧ (monitor = .top ∨ monitor = .checked) := by
  cases monitor_moves config self before after taken with
  | rest monitor rests => simp [mode] at rests
  | look monitor mode => exact ⟨.checked, rfl, Or.inr rfl⟩
  | find monitor more => exact absurd level (Nat.ne_of_gt more)
  | miss monitor _ => exact ⟨.top, rfl, Or.inl rfl⟩
  | count monitor | drain _ monitor _ | goOn monitor _ | finish monitor _ | queue _ monitor _ | close monitor =>
      simp [monitor] at turn

theorem waiting_monitor (config : Config size) (self : Fin size) (before after : Rank size)
    (done : before.doneCounter = before.departed.length) (waiting : Waiting before)
    (taken : monitorStep config self before = some after) : Waiting after := by
  obtain ⟨total, turn⟩ := waiting
  cases monitor_moves config self before after taken with
  | rest monitor mode => exact ⟨total, turn⟩
  | look monitor mode =>
      simp only [monitor, mode, Bool.true_eq_false, false_and, and_false, or_false] at turn
      obtain ⟨below, _, outstanding⟩ := turn
      exact ⟨total, below, mode, outstanding⟩
  | find monitor more =>
      simp only [monitor] at turn
      obtain ⟨below, mode, outstanding⟩ := turn
      refine ⟨total, below, mode, outstanding, ?_⟩
      have bound := outstanding.2.2
      simp only
      omega
  | miss monitor _ =>
      simp only [monitor] at turn
      exact ⟨total, Or.inl turn⟩
  | count monitor =>
      simp only [monitor] at turn
      obtain ⟨below, mode, outstanding, left⟩ := turn
      exact ⟨total, below, mode, ⟨outstanding.1, left⟩, rfl⟩
  | drain expected monitor drained =>
      simp only [monitor] at turn
      exact ⟨total, turn.1, turn.2.1, turn.2.2.1⟩
  | goOn monitor more =>
      simp only [monitor] at turn
      exact ⟨total, more, turn.2⟩
  | finish monitor reached =>
      simp only [monitor] at turn
      exact ⟨total, Nat.le_antisymm turn.1 reached, turn.2⟩
  | queue next monitor queued =>
      simp only [monitor] at turn
      obtain ⟨_, rfl⟩ := setup_result config self before next queued
      obtain ⟨below, mode, ready, left⟩ := turn
      refine ⟨total, Or.inl ⟨below, mode, ?_⟩⟩
      simp only [Outstanding]
      omega
  | close monitor =>
      simp only [monitor] at turn
      exact ⟨total, Or.inr ⟨turn.1, rfl, turn.2.2⟩⟩

theorem monitor_phase (config : Config size) (self : Fin size) (before after : Rank size) (inv : HostInv before)
    (taken : monitorStep config self before = some after) : Phase after := by
  have done := inv.done
  have phase := inv.phase
  unfold Phase at phase ⊢
  rw [(monitor_keeps config self before after inv.gpu taken).1]
  cases app : before.app with
  | idle =>
      simp only [app] at phase ⊢
      obtain ⟨mode, level, finished, winding⟩ := phase
      obtain ⟨wound, _, _, rfl, stays⟩ := winding_monitor config self before after winding taken
      exact ⟨stays mode, level, finished, wound⟩
  | queued =>
      simp only [app] at phase ⊢
      obtain ⟨mode, off, outstanding, left, seeded, winding⟩ := phase
      obtain ⟨wound, _, _, rfl, stays⟩ := winding_monitor config self before after winding taken
      exact ⟨stays mode, off, outstanding, left, seeded, wound⟩
  | running =>
      simp only [app] at phase ⊢
      obtain ⟨mode, outstanding, left, winding⟩ := phase
      obtain ⟨wound, _, _, rfl, stays⟩ := winding_monitor config self before after winding taken
      exact ⟨stays mode, outstanding, left, wound⟩
  | synced =>
      simp only [app] at phase ⊢
      obtain ⟨mode, off, outstanding, left, winding⟩ := phase
      obtain ⟨wound, _, _, rfl, stays⟩ := winding_monitor config self before after winding taken
      exact ⟨stays mode, off, outstanding, left, wound⟩
  | draining expected =>
      simp only [app] at phase ⊢
      obtain ⟨mode, off, level, count, winding⟩ := phase
      obtain ⟨wound, _, _, rfl, stays⟩ := winding_monitor config self before after winding taken
      exact ⟨stays mode, off, level, count, wound⟩
  | starting numBarriers =>
      simp only [app] at phase ⊢
      obtain ⟨mode, level, finished, positive, target, top⟩ := phase
      simp only [monitorStep, top, mode, Bool.false_eq_true, if_false, Option.some.injEq] at taken
      subst after
      exact ⟨mode, level, finished, positive, target, top⟩
  | armed numBarriers =>
      simp only [app] at phase ⊢
      obtain ⟨mode, off, level, positive, target, seeded, turn⟩ := phase
      obtain ⟨_, rfl, next⟩ := armed_monitor config self before after (done.trans level.2) mode turn taken
      exact ⟨mode, off, level, positive, target, seeded, next⟩
  | launching numBarriers =>
      simp only [app] at phase ⊢
      obtain ⟨mode, off, outstanding, left, positive, target, seeded, turn⟩ := phase
      obtain ⟨_, rfl, next⟩ := armed_monitor config self before after (done.trans left) mode turn taken
      exact ⟨mode, off, outstanding, left, positive, target, seeded, next⟩
  | waiting =>
      simp only [app] at phase ⊢
      exact waiting_monitor config self before after done phase taken
  | stopping =>
      simp only [app] at phase ⊢
      obtain ⟨level, finished, winding⟩ := phase
      obtain ⟨wound, _, _, rfl, _⟩ := winding_monitor config self before after winding taken
      exact ⟨level, finished, wound⟩

theorem monitor_host (config : Config size) (self : Fin size) (before after : Rank size) (inv : HostInv before)
    (taken : monitorStep config self before = some after) : HostInv after := by
  obtain ⟨_, _, entered, departed, done, _, _, gpu⟩ := monitor_keeps config self before after inv.gpu taken
  exact ⟨by rw [entered]; exact inv.entered, by rw [departed]; exact inv.departed,
    by rw [done, departed]; exact inv.done, gpu, monitor_phase config self before after inv taken⟩

structure KernelMoved (before after : Rank size) : Prop where
  app : after.app = before.app
  monitor : after.monitor = before.monitor
  count : after.barrierCount = before.barrierCount
  target : after.targetBarrierCount = before.targetBarrierCount
  mode : after.continuousMode = before.continuousMode
  ready : after.readyCounter = before.readyCounter
  total : after.departed.length + after.remaining = before.departed.length + before.remaining
  leaves : after.departed.length = before.departed.length ∨
    (after.departed.length = before.departed.length + 1 ∧ after.departed.length ≤ before.readyCounter)

theorem kernel_phase (before after : Rank size) (kernel : Kernel) (gpu : before.gpu = some kernel)
    (moved : KernelMoved before after) (phase : Phase before) : Phase after := by
  obtain ⟨app, monitor, count, target, mode, ready, total, leaves⟩ := moved
  unfold Phase at phase ⊢
  rw [app]
  cases now : before.app <;>
    simp only [now, gpu, Winding, Level, Outstanding, monitor, count, target, mode, ready, reduceCtorEq, false_and,
      and_false] at phase ⊢
  case idle => exact ⟨phase.1, by omega, by omega, phase.2.2.2⟩
  case running => exact ⟨phase.1, by omega, by omega, phase.2.2.2⟩
  case starting => exact ⟨phase.1, by omega, by omega, phase.2.2.2⟩
  case stopping => exact ⟨by omega, by omega, phase.2.2⟩
  case waiting =>
    obtain ⟨reached, turn⟩ := phase
    refine ⟨by omega, ?_⟩
    rw [monitor]
    cases seen : before.monitor <;>
      simp only [seen, Level, Outstanding, count, target, mode, ready] at turn ⊢ <;> grind

theorem kernel_within (before : Rank size) (kernel : Kernel) (gpu : before.gpu = some kernel) (phase : Phase before)
    (expectedSignal : Nat) (nic : Nic Cntr (RmaWrite size)) (next : Option Kernel) (entered : List Nat)
    (same : (next.map Kernel.remaining).getD 0 = kernel.remaining) :
    Phase { before with expectedSignal := expectedSignal, nic := nic, gpu := next, entered := entered } := by
  refine kernel_phase before _ kernel gpu ⟨rfl, rfl, rfl, rfl, rfl, rfl, ?_, Or.inl rfl⟩ phase
  simp only [Rank.remaining, gpu]
  cases next <;> simpa [eq_comm] using same

theorem kernel_host (before after : Rank size) (kernel : Kernel) (inv : HostInv before)
    (gpu : before.gpu = some kernel) (taken : kernelStep before kernel = some after) : HostInv after := by
  obtain ⟨entered, departed, done, single, phase⟩ := inv
  simp only [GpuInv, gpu] at single
  obtain ⟨once, turn⟩ := single
  cases kernel_moves before after kernel taken with
  | leave pc ended =>
      simp only [KernelInv, pc] at turn
      refine ⟨entered, departed, done, turn.1, kernel_within before kernel gpu phase _ _ _ _ ?_⟩
      simp [Kernel.remaining, pc, ended]
  | enter pc more =>
      simp only [KernelInv, pc] at turn
      have expected := turn.2 more
      refine ⟨?_, departed, done, ⟨once, ?_⟩, kernel_within before kernel gpu phase _ _ _ _ ?_⟩
      · have next : before.expectedSignal = 1 + before.entered.length := by omega
        rw [next, List.length_append, List.length_singleton, List.range'_concat, Nat.one_mul]
        exact congrArg (· ++ [1 + before.entered.length]) entered
      · simp only [KernelInv, Inside, List.length_append, List.length_singleton]
        omega
      · simp [Kernel.remaining, pc]
  | begin pc ready =>
      simp only [KernelInv, pc] at turn
      have above : before.entered.length ≤ before.readyCounter := by
        have same := turn.2.1
        omega
      refine ⟨entered, departed, done, ⟨once, ?_⟩, kernel_within before kernel gpu phase _ _ _ _ ?_⟩
      · by_cases rounds : 0 < nRounds size
        · simp only [roundHead, if_pos rounds]
          exact ⟨turn, above, rounds⟩
        · simp only [roundHead, if_neg rounds]
          exact ⟨turn, above⟩
      · by_cases rounds : 0 < nRounds size <;>
          simp [Kernel.remaining, pc, roundHead, rounds]
  | trigger k pc =>
      simp only [KernelInv, pc] at turn
      refine ⟨entered, departed, done, ⟨once, turn⟩, kernel_within before kernel gpu phase _ _ _ _ ?_⟩
      simp [Kernel.remaining, pc]
  | see k pc seen =>
      simp only [KernelInv, pc] at turn
      refine ⟨entered, departed, done, ⟨once, ?_⟩, kernel_within before kernel gpu phase _ _ _ _ ?_⟩
      · by_cases more : k + 1 < nRounds size
        · simp only [roundHead, if_pos more]
          exact ⟨turn.1, turn.2.1, more⟩
        · simp only [roundHead, if_neg more]
          exact ⟨turn.1, turn.2.1⟩
      · by_cases more : k + 1 < nRounds size <;>
          simp [Kernel.remaining, pc, roundHead, more]
  | notify pc =>
      simp only [KernelInv, pc] at turn
      obtain ⟨⟨gap, expected, seeded, positive⟩, above⟩ := turn
      refine ⟨entered, ?_, ?_, ⟨once, ?_⟩,
        kernel_phase before _ kernel gpu ⟨rfl, rfl, rfl, rfl, rfl, rfl, ?_, Or.inr ?_⟩ phase⟩
      · have next : kernel.expected = 1 + before.departed.length := by omega
        rw [next, List.length_append, List.length_singleton, List.range'_concat, Nat.one_mul]
        exact congrArg (· ++ [1 + before.departed.length]) departed
      · simp [done]
      · simp only [KernelInv, List.length_append, List.length_singleton]
        omega
      · simp only [Rank.remaining, Kernel.remaining, gpu, pc, List.length_append, List.length_singleton]
        omega
      · simp only [List.length_append, List.length_singleton, true_and]
        omega
  | advance pc =>
      simp only [KernelInv, pc] at turn
      obtain ⟨level, positive, seeded⟩ := turn
      refine ⟨entered, departed, done, ⟨fun mode => Nat.le_trans (Nat.sub_le _ _) (once mode), level, fun more => ?_⟩,
        kernel_within before kernel gpu phase _ _ _ _ ?_⟩
      · have several : kernel.continuous = true := by
          cases mode : kernel.continuous with
          | true => rfl
          | false =>
              have bound := once mode
              simp only at more
              omega
        simp only [several, if_true]
        omega
      · simp [Kernel.remaining, pc]

theorem move_host (config : Config size) (self : Fin size) (before after : Rank size) (move : Move)
    (inv : HostInv before)
    (orderly : ∀ numBarriers, move = .startContinuous numBarriers → 1 ≤ numBarriers ∧ before.monitor = .top)
    (taken : rankStep config self before move = some after) : HostInv after := by
  cases move with
  | app => exact app_host config self before after inv taken
  | monitor => exact monitor_host config self before after inv taken
  | gpu =>
      simp only [rankStep, Option.bind_eq_some_iff] at taken
      obtain ⟨kernel, gpu, taken⟩ := taken
      exact kernel_host before after kernel inv gpu taken
  | single =>
      obtain ⟨entered, departed, done, gpu, phase⟩ := inv
      by_cases idle : before.app = .idle
      · simp only [rankStep, idle, if_true, Option.map_eq_some_iff] at taken
        obtain ⟨next, taken, rfl⟩ := taken
        obtain ⟨free, rfl⟩ := setup_result config self before next taken
        simp only [Phase, idle] at phase
        obtain ⟨mode, ⟨ready, left⟩, _, target, winding⟩ := phase
        have off : before.gpu = none := by simpa [mode] using free
        refine ⟨entered, departed, done, ?_, mode, off, ?_, left, by simp [mode], target, ?_⟩
        · exact setup_gpu before _ gpu free rfl rfl rfl (Nat.le_succ _) (fun on => by simp [on])
        · simp only [Outstanding]
          omega
        · cases monitor : before.monitor <;> simp only [monitor] at winding ⊢
          · exact winding
          · omega
      · simp [rankStep, idle] at taken
  | startContinuous numBarriers =>
      obtain ⟨entered, departed, done, gpu, phase⟩ := inv
      obtain ⟨positive, top⟩ := orderly numBarriers rfl
      by_cases idle : before.app = .idle
      · simp only [rankStep, idle, if_true, Option.some.injEq] at taken
        subst after
        simp only [Phase, idle] at phase
        obtain ⟨mode, level, finished, _⟩ := phase
        exact ⟨entered, departed, done, gpu, mode, level, finished, positive, rfl, top⟩
      · simp [rankStep, idle] at taken

end OpenGda.GpuBarrier
