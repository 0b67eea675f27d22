import OpenGda.Ofi.GpuBarrier

set_option autoImplicit false

-- What a step of each thread of a rank can do, said once.
namespace OpenGda.GpuBarrier

open Machine DeferredWork

variable {size : Nat}

theorem setup_result (config : Config size) (self : Fin size) (rank next : Rank size)
    (taken : setup config self rank = some next) :
    (rank.continuousMode = true ∨ rank.gpu = none) ∧
      next = { rank with
        expectedSignal := if rank.continuousMode then rank.expectedSignal else rank.barrierCount + 1
        signalValues := if nRounds size = 0 then rank.signalValues
          else Function.update rank.signalValues (rank.barrierCount % nSignalBuffers) (rank.barrierCount + 1)
        nic := queueRounds config self rank.nic (rank.barrierCount % nSignalBuffers) (rank.barrierCount + 1)
        readyCounter := rank.readyCounter + 1 } := by
  unfold setup at taken
  by_cases busy : rank.continuousMode = false ∧ rank.gpu.isSome
  · rw [if_pos busy] at taken
    cases taken
  · rw [if_neg busy] at taken
    have idle : rank.continuousMode = true ∨ rank.gpu = none := by
      cases mode : rank.continuousMode <;> cases gpu : rank.gpu <;> simp_all
    by_cases noRounds : nRounds size = 0
    · have same : queueRounds config self rank.nic (rank.barrierCount % nSignalBuffers) (rank.barrierCount + 1) =
          rank.nic := by simp [queueRounds, noRounds]
      simp only [if_pos noRounds, Option.some.injEq] at taken
      exact ⟨idle, by rw [if_pos noRounds, same, ← taken]⟩
    · simp only [if_neg noRounds, Option.some.injEq] at taken
      exact ⟨idle, by rw [if_neg noRounds, ← taken]⟩

theorem gpu_none_of_not_some (rank : Rank size) (off : ¬ rank.gpu.isSome = true) : rank.gpu = none := by
  simpa using off

theorem launch_result (rank next : Rank size) (continuous : Bool) (todo : Nat) (app : App)
    (taken : launch rank continuous todo app = some next) :
    rank.gpu = none ∧ next = { rank with gpu := some ⟨continuous, todo, 0, .loop⟩, app := app } := by
  unfold launch at taken
  by_cases busy : rank.gpu.isSome = true
  · rw [if_pos busy] at taken
    cases taken
  · rw [if_neg busy] at taken
    exact ⟨gpu_none_of_not_some rank busy, (Option.some.inj taken).symm⟩

inductive AppMove (config : Config size) (self : Fin size) (before : Rank size) : Rank size → Prop where
  | launch (app : before.app = .queued) (off : before.gpu = none) :
      AppMove config self before { before with gpu := some ⟨false, 1, 0, .loop⟩, app := .running }
  | synchronise (app : before.app = .running) (off : before.gpu = none) :
      AppMove config self before { before with app := .synced }
  | count (app : before.app = .synced) :
      AppMove config self before { before with
        barrierCount := before.barrierCount + 1
        app := .draining (before.barrierCount + 1) }
  | drain (expected : Nat) (app : before.app = .draining expected) (drained : Drained before expected) :
      AppMove config self before { before with app := .idle }
  | seed (numBarriers : Nat) (app : before.app = .starting numBarriers) (off : before.gpu = none) :
      AppMove config self before { before with
        expectedSignal := before.barrierCount + 1
        continuousMode := true
        app := .armed numBarriers }
  | queue (numBarriers : Nat) (next : Rank size) (app : before.app = .armed numBarriers)
      (taken : setup config self before = some next) :
      AppMove config self before { next with app := .launching numBarriers }
  | launchRun (numBarriers : Nat) (app : before.app = .launching numBarriers) (off : before.gpu = none) :
      AppMove config self before { before with gpu := some ⟨true, numBarriers, 0, .loop⟩, app := .waiting }
  | wait (app : before.app = .waiting) (reached : before.targetBarrierCount ≤ before.barrierCount) :
      AppMove config self before { before with app := .stopping }
  | stop (app : before.app = .stopping) :
      AppMove config self before { before with continuousMode := false, app := .idle }

theorem app_moves (config : Config size) (self : Fin size) (before after : Rank size)
    (taken : appStep config self before = some after) : AppMove config self before after := by
  cases app : before.app with
  | idle => simp [appStep, app] at taken
  | queued =>
      simp only [appStep, app] at taken
      obtain ⟨off, rfl⟩ := launch_result before after false 1 .running taken
      exact .launch app off
  | running =>
      simp only [appStep, app] at taken
      split_ifs at taken with busy
      cases taken
      exact .synchronise app (gpu_none_of_not_some before busy)
  | synced =>
      simp only [appStep, app] at taken
      cases taken
      exact .count app
  | draining expected =>
      simp only [appStep, app] at taken
      split_ifs at taken with drained
      cases taken
      exact .drain expected app drained
  | starting numBarriers =>
      simp only [appStep, app] at taken
      split_ifs at taken with busy
      cases taken
      exact .seed numBarriers app (gpu_none_of_not_some before busy)
  | armed numBarriers =>
      simp only [appStep, app, Option.map_eq_some_iff] at taken
      obtain ⟨next, taken, rfl⟩ := taken
      exact .queue numBarriers next app taken
  | launching numBarriers =>
      simp only [appStep, app] at taken
      obtain ⟨off, rfl⟩ := launch_result before after true numBarriers .waiting taken
      exact .launchRun numBarriers app off
  | waiting =>
      simp only [appStep, app] at taken
      split_ifs at taken with short
      cases taken
      exact .wait app (Nat.le_of_not_lt short)
  | stopping =>
      simp only [appStep, app] at taken
      cases taken
      exact .stop app

inductive MonitorMove (config : Config size) (self : Fin size) (before : Rank size) : Rank size → Prop where
  | rest (monitor : before.monitor = .top) (mode : before.continuousMode = false) :
      MonitorMove config self before before
  | look (monitor : before.monitor = .top) (mode : before.continuousMode = true) :
      MonitorMove config self before { before with monitor := .checked }
  | find (monitor : before.monitor = .checked) (more : before.barrierCount < before.doneCounter) :
      MonitorMove config self before { before with monitor := .counting }
  | miss (monitor : before.monitor = .checked) (level : before.doneCounter ≤ before.barrierCount) :
      MonitorMove config self before { before with monitor := .top }
  | count (monitor : before.monitor = .counting) :
      MonitorMove config self before { before with
        barrierCount := before.barrierCount + 1
        monitor := .draining (before.barrierCount + 1) }
  | drain (expected : Nat) (monitor : before.monitor = .draining expected) (drained : Drained before expected) :
      MonitorMove config self before { before with monitor := .deciding }
  | goOn (monitor : before.monitor = .deciding) (more : before.barrierCount < before.targetBarrierCount) :
      MonitorMove config self before { before with monitor := .queueing }
  | finish (monitor : before.monitor = .deciding) (reached : before.targetBarrierCount ≤ before.barrierCount) :
      MonitorMove config self before { before with monitor := .closing }
  | queue (next : Rank size) (monitor : before.monitor = .queueing) (taken : setup config self before = some next) :
      MonitorMove config self before { next with monitor := .top }
  | close (monitor : before.monitor = .closing) :
      MonitorMove config self before { before with continuousMode := false, monitor := .top }

theorem monitor_moves (config : Config size) (self : Fin size) (before after : Rank size)
    (taken : monitorStep config self before = some after) : MonitorMove config self before after := by
  cases monitor : before.monitor with
  | top =>
      simp only [monitorStep, monitor] at taken
      split_ifs at taken with mode
      · cases taken
        exact .look monitor mode
      · cases taken
        exact .rest monitor (Bool.not_eq_true _ ▸ mode)
  | checked =>
      simp only [monitorStep, monitor] at taken
      split_ifs at taken with more
      · cases taken
        exact .find monitor more
      · cases taken
        exact .miss monitor (Nat.le_of_not_lt more)
  | counting =>
      simp only [monitorStep, monitor] at taken
      cases taken
      exact .count monitor
  | draining expected =>
      simp only [monitorStep, monitor] at taken
      split_ifs at taken with drained
      cases taken
      exact .drain expected monitor drained
  | deciding =>
      simp only [monitorStep, monitor] at taken
      split_ifs at taken with more
      · cases taken
        exact .goOn monitor more
      · cases taken
        exact .finish monitor (Nat.le_of_not_lt more)
  | queueing =>
      simp only [monitorStep, monitor, Option.map_eq_some_iff] at taken
      obtain ⟨next, taken, rfl⟩ := taken
      exact .queue next monitor taken
  | closing =>
      simp only [monitorStep, monitor] at taken
      cases taken
      exact .close monitor

inductive KernelMove (before : Rank size) (kernel : Kernel) : Rank size → Prop where
  | leave (pc : kernel.pc = .loop) (ended : kernel.todo = 0) : KernelMove before kernel { before with gpu := none }
  | enter (pc : kernel.pc = .loop) (more : 0 < kernel.todo) :
      KernelMove before kernel { before with
        gpu := some { kernel with expected := before.expectedSignal, pc := .ready }
        entered := before.entered ++ [before.expectedSignal] }
  | begin (pc : kernel.pc = .ready) (ready : kernel.expected ≤ before.readyCounter) :
      KernelMove before kernel { before with gpu := some { kernel with pc := roundHead size 0 } }
  | trigger (k : Nat) (pc : kernel.pc = .trigger k) :
      KernelMove before kernel { before with
        nic := setCounter before.nic (.trigger k) kernel.expected
        gpu := some { kernel with pc := .poll k } }
  | see (k : Nat) (pc : kernel.pc = .poll k)
      (seen : before.signals (sigIdx k kernel.expected) = kernel.expected) :
      KernelMove before kernel { before with gpu := some { kernel with pc := roundHead size (k + 1) } }
  | notify (pc : kernel.pc = .notify) :
      KernelMove before kernel { before with
        doneCounter := before.doneCounter + 1
        gpu := some { kernel with pc := .advance }
        departed := before.departed ++ [kernel.expected] }
  | advance (pc : kernel.pc = .advance) :
      KernelMove before kernel { before with
        expectedSignal := if kernel.continuous then before.expectedSignal + 1 else before.expectedSignal
        gpu := some { kernel with todo := kernel.todo - 1, pc := .loop } }

theorem kernel_moves (before after : Rank size) (kernel : Kernel) (taken : kernelStep before kernel = some after) :
    KernelMove before kernel after := by
  cases pc : kernel.pc with
  | loop =>
      simp only [kernelStep, pc] at taken
      split_ifs at taken with ended
      · cases taken
        exact .leave pc ended
      · cases taken
        exact .enter pc (Nat.pos_of_ne_zero ended)
  | ready =>
      simp only [kernelStep, pc] at taken
      split_ifs at taken with early
      cases taken
      exact .begin pc (Nat.le_of_not_lt early)
  | trigger k =>
      simp only [kernelStep, pc] at taken
      cases taken
      exact .trigger k pc
  | poll k =>
      simp only [kernelStep, pc] at taken
      split_ifs at taken with seen
      cases taken
      exact .see k pc (not_not.mp seen)
  | notify =>
      simp only [kernelStep, pc] at taken
      cases taken
      exact .notify pc
  | advance =>
      simp only [kernelStep, pc] at taken
      cases taken
      exact .advance pc

end OpenGda.GpuBarrier
