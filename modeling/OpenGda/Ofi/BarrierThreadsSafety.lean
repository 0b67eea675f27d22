import OpenGda.Ofi.BarrierThreads

set_option autoImplicit false

namespace OpenGda.BarrierThreads

open Machine

def Setup.Fits (threshold : Nat) : Setup → Prop
  | .threshold => True
  | .source own | .mode own | .queue own | .ready own => own = threshold
  | .copy _ => False

def Setup.extra : Setup → Nat
  | .ready _ => 1
  | _ => 0

def App.extra : App → Nat
  | .setup _ turn => turn.extra
  | _ => 0

def Monitor.extra : Monitor → Nat
  | .setup turn => turn.extra
  | _ => 0

structure Counts (nRounds extra : Nat) (host : Host) : Prop where
  setups : host.setups = List.range' 1 host.readyCounter
  queued : host.queued = if nRounds = 0 then [] else List.range' 1 (host.readyCounter + extra)

def Kernel.remaining (kernel : Kernel) : Nat :=
  match kernel.pc with
  | .advance => kernel.todo - 1
  | _ => kernel.todo

def Host.remaining (host : Host) : Nat :=
  match host.gpu with
  | none => 0
  | some kernel => kernel.remaining

def KernelInv (host : Host) (kernel : Kernel) : Prop :=
  match kernel.pc with
  | .loop => 0 < kernel.todo → host.expectedSignal = host.doneCounter + 1
  | .ready => 0 < kernel.todo ∧ kernel.expected = host.doneCounter + 1 ∧ host.expectedSignal = host.doneCounter + 1
  | .notify => 0 < kernel.todo ∧ kernel.expected = host.doneCounter + 1 ∧ host.expectedSignal = host.doneCounter + 1 ∧
      host.doneCounter + 1 ≤ host.readyCounter
  | .advance => 0 < kernel.todo ∧ host.expectedSignal = host.doneCounter

def Even (host : Host) : Prop := host.readyCounter = host.barrierCount ∧ host.doneCounter = host.barrierCount

def Monitor.Over (count : Nat) : Monitor → Prop
  | .comparing gpuDone => gpuDone ≤ count
  | .aiming seen => seen = count
  | .loading | .storing _ | .setup _ => False
  | _ => True

def Outstanding (host : Host) : Prop :=
  host.readyCounter = host.barrierCount + 1 ∧ host.barrierCount < host.targetBarrierCount ∧
    host.continuousMode = true ∧ host.barrierCount ≤ host.doneCounter ∧ host.doneCounter ≤ host.barrierCount + 1 ∧
    match host.monitor with
    | .comparing gpuDone => gpuDone ≤ host.doneCounter
    | .aiming seen => seen = host.barrierCount
    | .loading => host.doneCounter = host.barrierCount + 1
    | .storing seen => seen = host.barrierCount ∧ host.doneCounter = host.barrierCount + 1
    | .setup _ => False
    | _ => True

def Level (host : Host) : Prop :=
  Even host ∧ host.barrierCount ≤ host.targetBarrierCount ∧
    (host.barrierCount < host.targetBarrierCount → host.continuousMode = true) ∧
    match host.monitor with
    | .comparing gpuDone => host.targetBarrierCount ≤ host.barrierCount ∧ gpuDone ≤ host.barrierCount
    | .aiming seen => seen = host.barrierCount
    | .setup setup => host.barrierCount < host.targetBarrierCount ∧ setup.Fits (host.barrierCount + 1)
    | .loading | .storing _ => False
    | .expecting | .draining _ | .deciding => True
    | .top | .resting | .polling | .closing => host.targetBarrierCount ≤ host.barrierCount

def Ended (host : Host) : Prop :=
  Even host ∧ host.targetBarrierCount ≤ host.barrierCount ∧ host.remaining = 0 ∧ host.monitor.Over host.barrierCount

def Aimed (numBarriers : Nat) (host : Host) : Prop :=
  1 ≤ numBarriers ∧ Even host ∧ host.targetBarrierCount = host.barrierCount + numBarriers ∧ host.continuousMode = false ∧
    host.remaining = 0 ∧ host.monitor.Over host.barrierCount

def Seeded (host : Host) : Prop := host.gpu = none ∧ host.expectedSignal = host.barrierCount + 1

def Phase (host : Host) : Prop :=
  match host.app with
  | .idle => Ended host ∧ host.continuousMode = false
  | .activating numBarriers | .counting numBarriers => Ended host ∧ host.continuousMode = false ∧ 1 ≤ numBarriers
  | .aiming numBarriers count => Ended host ∧ host.continuousMode = false ∧ 1 ≤ numBarriers ∧ count = host.barrierCount
  | .expecting numBarriers => Aimed numBarriers host
  | .seeding numBarriers expected => Aimed numBarriers host ∧ expected = host.barrierCount + 1
  | .arming numBarriers => Aimed numBarriers host ∧ Seeded host
  | .setup numBarriers setup => 1 ≤ numBarriers ∧ Even host ∧
      host.targetBarrierCount = host.barrierCount + numBarriers ∧ host.continuousMode = true ∧ Seeded host ∧
      host.monitor.Over host.barrierCount ∧ setup.Fits (host.barrierCount + 1)
  | .launching numBarriers => 1 ≤ numBarriers ∧ Seeded host ∧ host.doneCounter = host.barrierCount ∧
      host.targetBarrierCount = host.barrierCount + numBarriers ∧ Outstanding host
  | .watching => host.doneCounter + host.remaining = host.targetBarrierCount ∧ (Outstanding host ∨ Level host)
  | .comparing count => count ≤ host.barrierCount ∧ host.doneCounter + host.remaining = host.targetBarrierCount ∧
      (Outstanding host ∨ Level host)
  | .stopping => Ended host

structure Inv (nRounds : Nat) (host : Host) : Prop where
  counts : Counts nRounds (host.app.extra + host.monitor.extra) host
  kernel : ∀ kernel, host.gpu = some kernel → KernelInv host kernel
  phase : Phase host

theorem init_inv (nRounds : Nat) : Inv nRounds init where
  counts := ⟨rfl, by simp [init, App.extra, Monitor.extra]⟩
  kernel := fun kernel found => by simp [init] at found
  phase := by simp [Phase, Ended, Even, init, Host.remaining, Monitor.Over]

theorem setup_step_moves (nRounds : Nat) (host next : Host) (setup : Setup) (left : Option Setup)
    (mode : host.continuousMode = true) (fits : setup.Fits (host.barrierCount + 1))
    (level : host.readyCounter = host.barrierCount) (counts : Counts nRounds setup.extra host)
    (taken : setupStep nRounds host setup = some (next, left)) :
    (∃ more values queued, left = some more ∧ more.Fits (host.barrierCount + 1) ∧
      next = { host with signalValues := values, queued := queued } ∧ Counts nRounds more.extra next) ∨
    (left = none ∧ next = { host with
      readyCounter := host.readyCounter + 1, setups := host.setups ++ [host.barrierCount + 1] } ∧
      Counts nRounds 0 next) := by
  cases setup with
  | threshold =>
      simp only [setupStep] at taken
      split_ifs at taken <;> cases taken <;> exact .inl ⟨_, _, _, rfl, rfl, rfl, counts⟩
  | source threshold =>
      cases taken
      exact .inl ⟨_, _, _, rfl, fits, rfl, counts.setups, counts.queued⟩
  | mode threshold =>
      simp only [setupStep, mode, if_true, Option.some.injEq, Prod.mk.injEq] at taken
      obtain ⟨rfl, rfl⟩ := taken
      exact .inl ⟨_, _, _, rfl, fits, rfl, counts⟩
  | copy threshold => exact absurd fits id
  | queue threshold =>
      obtain ⟨setups, queued⟩ := counts
      have own : threshold = host.barrierCount + 1 := fits
      simp only [Setup.extra, Nat.add_zero] at queued
      by_cases none : nRounds = 0
      · simp only [setupStep, if_pos none, Option.some.injEq, Prod.mk.injEq] at taken
        obtain ⟨rfl, rfl⟩ := taken
        exact .inl ⟨_, _, _, rfl, own, rfl, setups, by simpa [none] using queued⟩
      · simp only [setupStep, if_neg none, Option.some.injEq, Prod.mk.injEq] at taken
        obtain ⟨rfl, rfl⟩ := taken
        refine .inl ⟨_, _, _, rfl, own, rfl, setups, ?_⟩
        simp only [queued, if_neg none, Setup.extra, own, ← level]
        rw [List.range'_1_concat, Nat.add_comm 1]
  | ready threshold =>
      obtain ⟨setups, queued⟩ := counts
      have own : threshold = host.barrierCount + 1 := fits
      cases taken
      refine .inr ⟨rfl, by rw [own], ?_, ?_⟩
      · simp only [setups, own, ← level]
        rw [List.range'_1_concat, Nat.add_comm 1]
      · simpa only [Setup.extra, Nat.add_zero] using queued

structure KernelMoves (host next : Host) : Prop where
  frame : ∃ expected performed triggered gpu, next = { host with
    expectedSignal := expected, doneCounter := performed, triggered := triggered, gpu := gpu }
  performed : next.doneCounter = host.doneCounter ∧ next.remaining = host.remaining ∨
    next.doneCounter = host.doneCounter + 1 ∧ next.remaining + 1 = host.remaining ∧
      host.doneCounter + 1 ≤ host.readyCounter
  kernel : ∀ kernel, next.gpu = some kernel → KernelInv next kernel

theorem kernel_step_moves (host next : Host) (kernel : Kernel) (found : host.gpu = some kernel)
    (inv : KernelInv host kernel) (taken : kernelStep host kernel = some next) : KernelMoves host next := by
  obtain ⟨todo, expected, pc⟩ := kernel
  cases pc with
  | loop =>
      simp only [kernelStep] at taken
      split_ifs at taken with done
      · cases taken
        exact ⟨⟨_, _, _, _, rfl⟩, .inl ⟨rfl, by simp [Host.remaining, Kernel.remaining, found, done]⟩, fun kernel running => nomatch running⟩
      · cases taken
        refine ⟨⟨_, _, _, _, rfl⟩, .inl ⟨rfl, by simp [Host.remaining, Kernel.remaining, found]⟩, fun kernel running => ?_⟩
        cases running
        have fresh := inv (Nat.pos_of_ne_zero done)
        exact ⟨Nat.pos_of_ne_zero done, fresh, fresh⟩
  | ready =>
      simp only [kernelStep] at taken
      split_ifs at taken with early
      cases taken
      refine ⟨⟨_, _, _, _, rfl⟩, .inl ⟨rfl, by simp [Host.remaining, Kernel.remaining, found]⟩, fun kernel running => ?_⟩
      cases running
      obtain ⟨left, wanted, fresh⟩ := inv
      exact ⟨left, wanted, fresh, wanted.symm.le.trans (Nat.le_of_not_lt early)⟩
  | notify =>
      obtain ⟨left, wanted, fresh, ready⟩ := inv
      cases taken
      refine ⟨⟨_, _, _, _, rfl⟩, .inr ⟨rfl, ?_, ready⟩, fun kernel running => ?_⟩
      · simp only [Host.remaining, Kernel.remaining, found]
        exact Nat.sub_add_cancel left
      · cases running
        exact ⟨left, fresh⟩
  | advance =>
      obtain ⟨_, fresh⟩ := inv
      cases taken
      refine ⟨⟨_, _, _, _, rfl⟩, .inl ⟨rfl, by simp [Host.remaining, Kernel.remaining, found]⟩, fun kernel running => ?_⟩
      cases running
      exact fun _ => congrArg Nat.succ fresh

theorem ended_kept (host next : Host) (moves : KernelMoves host next) (ended : Ended host) : Ended next := by
  obtain ⟨⟨_, done, _, gpu, rfl⟩, performed, _⟩ := moves
  obtain ⟨⟨ready, counted⟩, enough, finished, rest⟩ := ended
  rw [finished] at performed
  rcases performed with ⟨same, still⟩ | ⟨_, impossible, _⟩
  · exact ⟨⟨ready, same.trans counted⟩, enough, still, rest⟩
  · cases impossible

theorem aimed_kept (numBarriers : Nat) (host next : Host) (moves : KernelMoves host next)
    (aimed : Aimed numBarriers host) : Aimed numBarriers next := by
  obtain ⟨⟨_, done, _, gpu, rfl⟩, performed, _⟩ := moves
  obtain ⟨asked, ⟨ready, counted⟩, target, clear, finished, rest⟩ := aimed
  rw [finished] at performed
  rcases performed with ⟨same, still⟩ | ⟨_, impossible, _⟩
  · exact ⟨asked, ⟨ready, same.trans counted⟩, target, clear, still, rest⟩
  · cases impossible

theorem level_kept (host next : Host) (moves : KernelMoves host next) (level : Level host) : Level next := by
  obtain ⟨⟨_, done, _, gpu, rfl⟩, performed, _⟩ := moves
  obtain ⟨⟨ready, counted⟩, within, mode, turn⟩ := level
  rcases performed with ⟨same, _⟩ | ⟨_, _, early⟩
  · exact ⟨⟨ready, same.trans counted⟩, within, mode, turn⟩
  · rw [ready, counted] at early
    exact absurd early (Nat.not_succ_le_self _)

theorem outstanding_kept (host next : Host) (moves : KernelMoves host next) (outstanding : Outstanding host) :
    Outstanding next := by
  obtain ⟨⟨_, done, _, gpu, rfl⟩, performed, _⟩ := moves
  obtain ⟨ready, asked, mode, low, high, turn⟩ := outstanding
  rcases performed with ⟨same, _⟩ | ⟨more, _, early⟩
  · simp only at same
    subst same
    exact ⟨ready, asked, mode, low, high, turn⟩
  · simp only at more
    subst more
    refine ⟨ready, asked, mode, Nat.le_succ_of_le low, ready ▸ early, ?_⟩
    revert turn
    cases host.monitor with
    | comparing gpuDone => exact Nat.le_succ_of_le
    | loading => exact fun full => by omega
    | storing seen => exact fun ⟨_, full⟩ => by omega
    | _ => exact id

theorem kernel_keeps (nRounds : Nat) (host next : Host) (inv : Inv nRounds host)
    (taken : host.gpu.bind (kernelStep host) = some next) : Inv nRounds next := by
  obtain ⟨kernel, running, taken⟩ := Option.bind_eq_some_iff.mp taken
  have moves := kernel_step_moves host next kernel running (inv.kernel kernel running) taken
  have ended := ended_kept host next moves
  have aimed := fun numBarriers => aimed_kept numBarriers host next moves
  have level := level_kept host next moves
  have outstanding := outstanding_kept host next moves
  have unseeded : ¬ Seeded host := fun seeded => nomatch running.symm.trans seeded.1
  have sum : next.doneCounter + next.remaining = host.doneCounter + host.remaining := by
    have performed := moves.performed
    omega
  obtain ⟨⟨setups, queued⟩, _, phase⟩ := inv
  have onward := moves.kernel
  obtain ⟨⟨_, done, _, gpu, rfl⟩, _, _⟩ := moves
  refine ⟨⟨setups, queued⟩, onward, ?_⟩
  revert phase
  simp only [Phase]
  cases host.app with
  | idle | activating numBarriers | counting numBarriers | aiming numBarriers count => exact And.imp_left ended
  | expecting numBarriers => exact aimed numBarriers
  | seeding numBarriers expected => exact And.imp_left (aimed numBarriers)
  | arming numBarriers => exact fun ⟨_, seeded⟩ => absurd seeded unseeded
  | setup numBarriers turn => exact fun ⟨_, _, _, _, seeded, _⟩ => absurd seeded unseeded
  | launching numBarriers => exact fun ⟨_, seeded, _⟩ => absurd seeded unseeded
  | watching => exact And.imp sum.trans (Or.imp outstanding level)
  | comparing count => exact And.imp_right (And.imp sum.trans (Or.imp outstanding level))
  | stopping => exact ended

theorem extra_of_over (count : Nat) (monitor : Monitor) (rest : monitor.Over count) : monitor.extra = 0 := by
  cases monitor with
  | setup turn => exact absurd rest id
  | _ => rfl

theorem app_setup_keeps (nRounds numBarriers : Nat) (host next : Host) (turn : Setup)
    (app : host.app = .setup numBarriers turn) (inv : Inv nRounds host) (taken : appStep nRounds host = some next) :
    Inv nRounds next := by
  simp only [appStep, app, Option.map_eq_some_iff] at taken
  obtain ⟨⟨later, left⟩, taken, rfl⟩ := taken
  obtain ⟨counts, kernel, phase⟩ := inv
  simp only [Phase, app] at phase
  obtain ⟨asked, ⟨ready, counted⟩, target, mode, ⟨idle, seeded⟩, rest, fits⟩ := phase
  have unqueued := extra_of_over host.barrierCount host.monitor rest
  rw [app, unqueued] at counts
  rcases setup_step_moves nRounds host later turn left mode fits ready counts taken with
    ⟨more, values, queued, rfl, onward, rfl, grown⟩ | ⟨rfl, rfl, grown⟩
  · refine ⟨?_, kernel, asked, ⟨ready, counted⟩, target, mode, ⟨idle, seeded⟩, rest, onward⟩
    simp only [App.extra, unqueued]
    exact ⟨grown.setups, grown.queued⟩
  · refine ⟨?_, fun kernel running => (nomatch idle.symm.trans running), asked, ⟨idle, seeded⟩, counted, target, ?_⟩
    · simp only [App.extra, unqueued]
      exact ⟨grown.setups, grown.queued⟩
    · refine ⟨congrArg Nat.succ ready, ?_, mode, counted.ge, counted.le.trans (Nat.le_succ _), ?_⟩
      · simp only [target]
        omega
      · revert rest
        cases host.monitor with
        | comparing gpuDone => exact fun low => low.trans counted.ge
        | aiming seen => exact id
        | loading | storing _ | setup _ => exact False.elim
        | _ => exact fun _ => trivial

theorem launch_keeps (nRounds numBarriers : Nat) (host : Host) (app : host.app = .launching numBarriers)
    (inv : Inv nRounds host) :
    Inv nRounds { host with gpu := some ⟨numBarriers, 0, .loop⟩, app := .watching } := by
  obtain ⟨counts, kernel, phase⟩ := inv
  simp only [Phase, app] at phase
  obtain ⟨asked, ⟨idle, seeded⟩, counted, target, outstanding⟩ := phase
  rw [app] at counts
  refine ⟨⟨counts.setups, counts.queued⟩, fun kernel running => ?_, ?_, .inl outstanding⟩
  · cases running
    exact fun _ => seeded.trans (congrArg Nat.succ counted.symm)
  · simp only [Host.remaining, Kernel.remaining, counted, target]

theorem ended_of_enough (host : Host) (sum : host.doneCounter + host.remaining = host.targetBarrierCount)
    (running : Outstanding host ∨ Level host) (enough : host.targetBarrierCount ≤ host.barrierCount) : Ended host := by
  rcases running with ⟨_, asked, _⟩ | ⟨⟨ready, counted⟩, within, _, turn⟩
  · exact absurd enough (Nat.not_le_of_lt asked)
  · refine ⟨⟨ready, counted⟩, enough, by omega, ?_⟩
    revert turn
    cases host.monitor with
    | comparing gpuDone => exact And.right
    | aiming seen => exact id
    | setup turn => exact fun ⟨asked, _⟩ => absurd enough (Nat.not_le_of_lt asked)
    | loading | storing _ => exact False.elim
    | _ => exact fun _ => trivial

theorem app_keeps (nRounds : Nat) (host next : Host) (inv : Inv nRounds host)
    (taken : appStep nRounds host = some next) : Inv nRounds next := by
  cases app : host.app with
  | idle => simp [appStep, app] at taken
  | setup numBarriers turn => exact app_setup_keeps nRounds numBarriers host next turn app inv taken
  | launching numBarriers =>
      simp only [appStep, app] at taken
      split_ifs at taken
      cases taken
      exact launch_keeps nRounds numBarriers host app inv
  | activating numBarriers =>
      obtain ⟨⟨setups, queued⟩, kernel, phase⟩ := inv
      simp only [appStep, app, Phase] at taken queued phase
      cases taken
      exact ⟨⟨setups, queued⟩, kernel, phase⟩
  | counting numBarriers =>
      obtain ⟨⟨setups, queued⟩, kernel, phase⟩ := inv
      simp only [appStep, app, Phase] at taken queued phase
      obtain ⟨ended, clear, asked⟩ := phase
      cases taken
      exact ⟨⟨setups, queued⟩, kernel, ended, clear, asked, rfl⟩
  | aiming numBarriers count =>
      obtain ⟨⟨setups, queued⟩, kernel, phase⟩ := inv
      simp only [appStep, app, Phase] at taken queued phase
      obtain ⟨⟨even, enough, finished, rest⟩, clear, asked, rfl⟩ := phase
      cases taken
      exact ⟨⟨setups, queued⟩, kernel, asked, even, rfl, clear, finished, rest⟩
  | expecting numBarriers =>
      obtain ⟨⟨setups, queued⟩, kernel, phase⟩ := inv
      simp only [appStep, app, Phase] at taken queued phase
      cases taken
      exact ⟨⟨setups, queued⟩, kernel, phase, rfl⟩
  | seeding numBarriers expected =>
      obtain ⟨⟨setups, queued⟩, kernel, phase⟩ := inv
      simp only [appStep, app, Phase] at taken queued phase
      obtain ⟨aimed, rfl⟩ := phase
      split_ifs at taken with running
      cases taken
      have idle := Option.not_isSome_iff_eq_none.mp running
      exact ⟨⟨setups, queued⟩, fun kernel found => (nomatch idle.symm.trans found), aimed, idle, rfl⟩
  | arming numBarriers =>
      obtain ⟨⟨setups, queued⟩, kernel, phase⟩ := inv
      simp only [appStep, app, Phase] at taken queued phase
      obtain ⟨⟨asked, even, target, _, _, rest⟩, seeded⟩ := phase
      cases taken
      exact ⟨⟨setups, queued⟩, kernel, asked, even, target, rfl, seeded, rest, trivial⟩
  | watching =>
      obtain ⟨⟨setups, queued⟩, kernel, phase⟩ := inv
      simp only [appStep, app, Phase] at taken queued phase
      cases taken
      exact ⟨⟨setups, queued⟩, kernel, Nat.le_refl _, phase⟩
  | comparing count =>
      obtain ⟨⟨setups, queued⟩, kernel, phase⟩ := inv
      simp only [appStep, app, Phase] at taken queued phase
      obtain ⟨seen, sum, running⟩ := phase
      split_ifs at taken with early
      · cases taken
        exact ⟨⟨setups, queued⟩, kernel, sum, running⟩
      · cases taken
        exact ⟨⟨setups, queued⟩, kernel, ended_of_enough host sum running ((Nat.le_of_not_lt early).trans seen)⟩
  | stopping =>
      obtain ⟨⟨setups, queued⟩, kernel, phase⟩ := inv
      simp only [appStep, app, Phase] at taken queued phase
      cases taken
      exact ⟨⟨setups, queued⟩, kernel, phase, rfl⟩

def Watching (host : Host) : Prop :=
  (match host.app with
    | .watching => True
    | .comparing count => count ≤ host.barrierCount
    | _ => False) ∧
  host.doneCounter + host.remaining = host.targetBarrierCount ∧ (Outstanding host ∨ Level host)

theorem phase_of_watching (host : Host) (watching : Watching host) : Phase host := by
  obtain ⟨app, sum, running⟩ := watching
  revert app
  simp only [Phase]
  cases host.app with
  | watching => exact fun _ => ⟨sum, running⟩
  | comparing count => exact fun seen => ⟨seen, sum, running⟩
  | _ => exact False.elim

theorem watching_of_phase (host : Host) (phase : Phase host) (running : ¬ Ended host)
    (started : host.app.starting = false) (late : Outstanding host → host.doneCounter ≠ host.barrierCount) :
    Watching host := by
  revert phase started
  simp only [Phase, Watching]
  cases host.app with
  | idle => exact fun ⟨ended, _⟩ => absurd ended running
  | stopping => exact fun ended => absurd ended running
  | launching numBarriers => exact fun ⟨_, _, counted, _, outstanding⟩ => absurd counted (late outstanding)
  | watching => exact fun phase _ => ⟨trivial, phase⟩
  | comparing count => exact fun phase _ => phase
  | _ => exact fun _ started => nomatch started

theorem phase_kinds (host : Host) (phase : Phase host) :
    Ended host ∨ (host.app.starting = true ∧ Even host ∧ host.monitor.Over host.barrierCount) ∨
      (host.app.starting = false ∧ (Outstanding host ∨ Level host)) := by
  revert phase
  simp only [Phase]
  cases host.app with
  | idle | activating numBarriers | counting numBarriers | aiming numBarriers count => exact fun phase => .inl phase.1
  | expecting numBarriers => exact fun ⟨_, even, _, _, _, rest⟩ => .inr (.inl ⟨rfl, even, rest⟩)
  | seeding numBarriers expected | arming numBarriers =>
      exact fun ⟨⟨_, even, _, _, _, rest⟩, _⟩ => .inr (.inl ⟨rfl, even, rest⟩)
  | setup numBarriers turn => exact fun ⟨_, even, _, _, _, rest, _⟩ => .inr (.inl ⟨rfl, even, rest⟩)
  | launching numBarriers => exact fun ⟨_, _, _, _, outstanding⟩ => .inr (.inr ⟨rfl, .inl outstanding⟩)
  | watching => exact fun ⟨_, running⟩ => .inr (.inr ⟨rfl, running⟩)
  | comparing count => exact fun ⟨_, _, running⟩ => .inr (.inr ⟨rfl, running⟩)
  | stopping => exact .inl

theorem started_of_busy (host : Host) (phase : Phase host) (busy : ¬ host.monitor.Over host.barrierCount) :
    host.app.starting = false := by
  rcases phase_kinds host phase with ⟨_, _, _, rest⟩ | ⟨_, _, rest⟩ | ⟨started, _⟩
  · exact absurd rest busy
  · exact absurd rest busy
  · exact started

theorem watching_of_busy (host : Host) (phase : Phase host) (busy : ¬ host.monitor.Over host.barrierCount)
    (late : Outstanding host → host.doneCounter ≠ host.barrierCount) : Watching host :=
  watching_of_phase host phase (fun ⟨_, _, _, rest⟩ => busy rest) (started_of_busy host phase busy) late

theorem turn_keeps (nRounds : Nat) (host : Host) (monitor : Monitor) (inv : Inv nRounds host)
    (same : host.monitor.extra = monitor.extra)
    (rest : Even host → host.monitor.Over host.barrierCount → monitor.Over host.barrierCount)
    (outstanding : Outstanding host → Outstanding { host with monitor := monitor })
    (level : Level host → Level { host with monitor := monitor }) :
    Inv nRounds { host with monitor := monitor } := by
  obtain ⟨⟨setups, queued⟩, kernel, phase⟩ := inv
  rw [same] at queued
  refine ⟨⟨setups, queued⟩, kernel, ?_⟩
  have ended : Ended host → Ended { host with monitor := monitor } :=
    fun ⟨even, enough, finished, quiet⟩ => ⟨even, enough, finished, rest even quiet⟩
  have aimed : ∀ numBarriers, Aimed numBarriers host → Aimed numBarriers { host with monitor := monitor } :=
    fun _ ⟨asked, even, target, clear, finished, quiet⟩ => ⟨asked, even, target, clear, finished, rest even quiet⟩
  revert phase
  simp only [Phase]
  cases host.app with
  | idle | activating numBarriers | counting numBarriers | aiming numBarriers count => exact And.imp_left ended
  | expecting numBarriers => exact aimed numBarriers
  | seeding numBarriers expected | arming numBarriers => exact And.imp_left (aimed numBarriers)
  | setup numBarriers turn =>
      exact fun ⟨asked, even, target, mode, seeded, quiet, fits⟩ =>
        ⟨asked, even, target, mode, seeded, rest even quiet, fits⟩
  | launching numBarriers =>
      exact fun ⟨asked, seeded, counted, target, left⟩ => ⟨asked, seeded, counted, target, outstanding left⟩
  | watching => exact And.imp_right (Or.imp outstanding level)
  | comparing count => exact And.imp_right (And.imp_right (Or.imp outstanding level))
  | stopping => exact ended

theorem storing_keeps (nRounds count : Nat) (host : Host) (monitor : host.monitor = .storing count)
    (inv : Inv nRounds host) : Inv nRounds { host with barrierCount := count + 1, monitor := .expecting } := by
  obtain ⟨⟨setups, queued⟩, kernel, phase⟩ := inv
  have busy : ¬ host.monitor.Over host.barrierCount := by simp [monitor, Monitor.Over]
  have counting : Outstanding host → count = host.barrierCount ∧ host.doneCounter = host.barrierCount + 1 := by
    simp only [Outstanding, monitor]
    exact fun ⟨_, _, _, _, _, turn⟩ => turn
  have unlevel : ¬ Level host := by simp [Level, monitor]
  obtain ⟨app, sum, running⟩ := watching_of_busy host phase busy
    fun outstanding => (counting outstanding).2.trans_ne (Nat.succ_ne_self _)
  have outstanding := running.resolve_right unlevel
  obtain ⟨rfl, counted⟩ := counting outstanding
  obtain ⟨ready, asked, mode, _⟩ := outstanding
  rw [monitor] at queued
  refine ⟨⟨setups, queued⟩, kernel, phase_of_watching _ ⟨?_, sum, .inr ⟨⟨ready, counted⟩, asked, fun _ => mode, trivial⟩⟩⟩
  revert app
  simp only
  cases host.app with
  | comparing seen => exact Nat.le_succ_of_le
  | _ => exact id

theorem kernel_inv_ready (host : Host) (kernel : Kernel) (setups : List Nat) (monitor : Monitor)
    (inv : KernelInv host kernel) :
    KernelInv { host with readyCounter := host.readyCounter + 1, setups := setups, monitor := monitor } kernel := by
  revert inv
  simp only [KernelInv]
  cases kernel.pc with
  | notify => exact fun ⟨left, wanted, fresh, ready⟩ => ⟨left, wanted, fresh, ready.trans (Nat.le_succ _)⟩
  | _ => exact id

theorem setup_keeps (nRounds : Nat) (host next : Host) (turn : Setup) (monitor : host.monitor = .setup turn)
    (inv : Inv nRounds host) (taken : monitorStep nRounds host = some next) : Inv nRounds next := by
  simp only [monitorStep, monitor, Option.map_eq_some_iff] at taken
  obtain ⟨⟨later, left⟩, taken, rfl⟩ := taken
  obtain ⟨counts, kernel, phase⟩ := inv
  have busy : ¬ host.monitor.Over host.barrierCount := by simp [monitor, Monitor.Over]
  have even : ¬ Outstanding host := by simp [Outstanding, monitor]
  obtain ⟨app, sum, running⟩ := watching_of_busy host phase busy fun outstanding => absurd outstanding even
  obtain ⟨⟨ready, counted⟩, within, mode, going⟩ := running.resolve_left even
  simp only [monitor] at going
  obtain ⟨asked, fits⟩ := going
  have unqueued : host.app.extra = 0 := by
    revert app
    cases host.app with
    | setup numBarriers turn => exact False.elim
    | _ => exact fun _ => rfl
  rw [monitor, unqueued, Nat.zero_add] at counts
  rcases setup_step_moves nRounds host later turn left (mode asked) fits ready counts taken with
    ⟨more, values, queued, rfl, onward, rfl, grown⟩ | ⟨rfl, rfl, grown⟩
  · refine ⟨?_, kernel, phase_of_watching _ ⟨app, sum, .inr ⟨⟨ready, counted⟩, within, mode, asked, onward⟩⟩⟩
    simp only [unqueued, Nat.zero_add]
    exact ⟨grown.setups, grown.queued⟩
  · refine ⟨?_, fun running found => kernel_inv_ready host running _ _ (kernel running found),
      phase_of_watching _ ⟨app, sum, .inl ?_⟩⟩
    · simp only [unqueued]
      exact ⟨grown.setups, grown.queued⟩
    · exact ⟨congrArg Nat.succ ready, asked, mode asked, counted.ge, counted.le.trans (Nat.le_succ _), trivial⟩

theorem aiming_keeps (nRounds count : Nat) (host : Host) (monitor : host.monitor = .aiming count)
    (asked : count < host.targetBarrierCount) (started : host.app.starting = false)
    (ready : host.readyCounter = host.barrierCount) (inv : Inv nRounds host) :
    Inv nRounds { host with monitor := .setup .threshold } := by
  obtain ⟨⟨setups, queued⟩, kernel, phase⟩ := inv
  have even : ¬ Outstanding host := fun ⟨ahead, _⟩ => by omega
  have running : ¬ Ended host := by
    rintro ⟨_, enough, _, seen⟩
    simp only [monitor, Monitor.Over] at seen
    omega
  obtain ⟨app, sum, left⟩ := watching_of_phase host phase running started fun outstanding => absurd outstanding even
  obtain ⟨counted, within, mode, seen⟩ := left.resolve_left even
  simp only [monitor] at seen
  rw [monitor] at queued
  exact ⟨⟨setups, queued⟩, kernel, phase_of_watching _ ⟨app, sum, .inr ⟨counted, within, mode, seen ▸ asked, trivial⟩⟩⟩

theorem closing_keeps (nRounds : Nat) (host : Host) (monitor : host.monitor = .closing)
    (clear : host.barrierCount < host.targetBarrierCount → host.continuousMode = false) (inv : Inv nRounds host) :
    Inv nRounds { host with continuousMode := false, monitor := .top } := by
  obtain ⟨⟨setups, queued⟩, kernel, phase⟩ := inv
  rw [monitor] at queued
  refine ⟨⟨setups, queued⟩, kernel, ?_⟩
  have unasked : Outstanding host → False := fun ⟨_, asked, mode, _⟩ => nomatch mode.symm.trans (clear asked)
  have level : Level host → Level { host with continuousMode := false, monitor := .top } := by
    simp only [Level, monitor]
    exact fun ⟨even, within, _, enough⟩ => ⟨even, within, fun asked => absurd enough (Nat.not_le_of_lt asked), enough⟩
  revert phase
  simp only [Phase]
  cases host.app with
  | idle => exact fun ⟨⟨even, enough, finished, _⟩, _⟩ => ⟨⟨even, enough, finished, trivial⟩, trivial⟩
  | activating numBarriers | counting numBarriers | aiming numBarriers count =>
      exact fun ⟨⟨even, enough, finished, _⟩, _, asked⟩ => ⟨⟨even, enough, finished, trivial⟩, trivial, asked⟩
  | expecting numBarriers =>
      exact fun ⟨asked, even, target, _, finished, _⟩ => ⟨asked, even, target, rfl, finished, trivial⟩
  | seeding numBarriers expected | arming numBarriers =>
      exact fun ⟨⟨asked, even, target, _, finished, _⟩, known⟩ => ⟨⟨asked, even, target, rfl, finished, trivial⟩, known⟩
  | setup numBarriers turn =>
      intro ⟨asked, _, target, mode, _⟩
      exact nomatch mode.symm.trans (clear (target ▸ Nat.lt_add_of_pos_right asked))
  | launching numBarriers => exact fun ⟨_, _, _, _, outstanding⟩ => (unasked outstanding).elim
  | watching => exact And.imp_right (Or.imp (fun outstanding => (unasked outstanding).elim) level)
  | comparing count => exact And.imp_right (And.imp_right (Or.imp (fun outstanding => (unasked outstanding).elim) level))
  | stopping => exact fun ⟨even, enough, finished, _⟩ => ⟨even, enough, finished, trivial⟩

theorem comparing_keeps (nRounds gpuDone : Nat) (host next : Host) (monitor : host.monitor = .comparing gpuDone)
    (inv : Inv nRounds host) (taken : monitorStep nRounds host = some next) : Inv nRounds next := by
  simp only [monitorStep, monitor] at taken
  split_ifs at taken with more
  · cases taken
    refine turn_keeps nRounds host _ inv (by rw [monitor]; rfl) ?_ ?_ ?_
    · simp only [monitor, Monitor.Over]
      exact fun _ seen => absurd more (Nat.not_lt_of_le seen)
    · simp only [Outstanding, monitor]
      exact fun ⟨ready, asked, mode, low, high, seen⟩ =>
        ⟨ready, asked, mode, low, high, Nat.le_antisymm high (Nat.le_trans more seen)⟩
    · simp only [Level, monitor]
      exact fun ⟨_, _, _, _, seen⟩ => absurd more (Nat.not_lt_of_le seen)
  · cases taken
    refine turn_keeps nRounds host _ inv (by rw [monitor]; rfl) (fun _ _ => trivial) ?_ ?_
    · intro ⟨ready, asked, mode, low, high, _⟩
      exact ⟨ready, asked, mode, low, high, trivial⟩
    · simp only [Level, monitor]
      exact fun ⟨even, within, mode, enough, _⟩ => ⟨even, within, mode, enough⟩

theorem polling_keeps (nRounds : Nat) (host : Host) (monitor : host.monitor = .polling) (inv : Inv nRounds host) :
    Inv nRounds { host with monitor := .comparing host.doneCounter } := by
  refine turn_keeps nRounds host _ inv (by rw [monitor]; rfl) (fun even _ => even.2.le) ?_ ?_
  · intro ⟨ready, asked, mode, low, high, _⟩
    exact ⟨ready, asked, mode, low, high, Nat.le_refl _⟩
  · simp only [Level, monitor]
    exact fun ⟨even, within, mode, enough⟩ => ⟨even, within, mode, enough, even.2.le⟩

theorem loading_keeps (nRounds : Nat) (host : Host) (monitor : host.monitor = .loading) (inv : Inv nRounds host) :
    Inv nRounds { host with monitor := .storing host.barrierCount } := by
  refine turn_keeps nRounds host _ inv (by rw [monitor]; rfl) ?_ ?_ ?_
  · simp only [monitor, Monitor.Over]
    exact fun _ => id
  · simp only [Outstanding, monitor]
    exact fun ⟨ready, asked, mode, low, high, counted⟩ => ⟨ready, asked, mode, low, high, trivial, counted⟩
  · simp only [Level, monitor]
    exact id

theorem over_keeps (nRounds count : Nat) (host : Host) (monitor : host.monitor = .aiming count)
    (enough : host.targetBarrierCount ≤ count) (inv : Inv nRounds host) :
    Inv nRounds { host with monitor := .closing } := by
  refine turn_keeps nRounds host _ inv (by rw [monitor]; rfl) (fun _ _ => trivial) ?_ ?_
  · intro ⟨ready, left, mode, low, high, _⟩
    exact ⟨ready, left, mode, low, high, trivial⟩
  · simp only [Level, monitor]
    exact fun ⟨even, within, mode, seen⟩ => ⟨even, within, mode, seen ▸ enough⟩

theorem monitor_keeps (nRounds : Nat) (host next : Host) (inv : Inv nRounds host)
    (untangled : Untangled host .monitor) (taken : monitorStep nRounds host = some next) : Inv nRounds next := by
  simp only [Untangled] at untangled
  cases monitor : host.monitor with
  | setup turn => exact setup_keeps nRounds host next turn monitor inv taken
  | comparing gpuDone => exact comparing_keeps nRounds gpuDone host next monitor inv taken
  | polling =>
      simp only [monitorStep, monitor, Option.some.injEq] at taken
      exact taken ▸ polling_keeps nRounds host monitor inv
  | loading =>
      simp only [monitorStep, monitor, Option.some.injEq] at taken
      exact taken ▸ loading_keeps nRounds host monitor inv
  | storing count =>
      simp only [monitorStep, monitor, Option.some.injEq] at taken
      exact taken ▸ storing_keeps nRounds count host monitor inv
  | aiming count =>
      simp only [monitor] at untangled
      simp only [monitorStep, monitor] at taken
      split_ifs at taken with asked
      · cases taken
        obtain ⟨started, ready⟩ := untangled asked
        exact aiming_keeps nRounds count host monitor asked started ready inv
      · cases taken
        exact over_keeps nRounds count host monitor (Nat.le_of_not_lt asked) inv
  | closing =>
      simp only [monitor] at untangled
      simp only [monitorStep, monitor, Option.some.injEq] at taken
      exact taken ▸ closing_keeps nRounds host monitor untangled inv
  | top =>
      simp only [monitorStep, monitor] at taken
      split_ifs at taken <;> cases taken <;>
        refine turn_keeps nRounds host _ inv (by rw [monitor]; rfl) (fun _ _ => trivial) ?_ ?_ <;>
        simp only [Outstanding, Level, monitor] <;> exact id
  | resting | expecting =>
      simp only [monitorStep, monitor, Option.some.injEq] at taken
      subst taken
      refine turn_keeps nRounds host _ inv (by rw [monitor]; rfl) (fun _ _ => trivial) ?_ ?_ <;>
        simp only [Outstanding, Level, monitor] <;> exact id
  | draining expected =>
      simp only [monitorStep, monitor] at taken
      split_ifs at taken
      cases taken
      refine turn_keeps nRounds host _ inv (by rw [monitor]; rfl) (fun _ _ => trivial) ?_ ?_ <;>
        simp only [Outstanding, Level, monitor] <;> exact id
  | deciding =>
      simp only [monitorStep, monitor, Option.some.injEq] at taken
      subst taken
      refine turn_keeps nRounds host _ inv (by rw [monitor]; rfl) (fun _ _ => rfl) ?_ ?_ <;>
        simp only [Outstanding, Level, monitor] <;> exact id

theorem step_keeps (nRounds : Nat) (before after : Host) (action : Action) (inv : Inv nRounds before)
    (allowed : Careful before action) (taken : step nRounds before action = some after) :
    Inv nRounds after := by
  cases action with
  | app => exact app_keeps nRounds before after inv taken
  | monitor => exact monitor_keeps nRounds before after inv allowed.2 taken
  | gpu => exact kernel_keeps nRounds before after inv taken
  | start numBarriers =>
      simp only [step] at taken
      split_ifs at taken with idle
      cases taken
      obtain ⟨⟨setups, queued⟩, kernel, phase⟩ := inv
      rw [idle] at queued
      simp only [Phase, idle] at phase
      exact ⟨⟨setups, queued⟩, kernel, phase.1, phase.2, allowed.1⟩
  | complete =>
      simp only [step] at taken
      split_ifs at taken
      cases taken
      exact ⟨⟨inv.counts.setups, inv.counts.queued⟩, inv.kernel, inv.phase⟩

theorem reachable_inv (nRounds : Nat) (host : Host)
    (reached : Reach (step nRounds) Careful init host) : Inv nRounds host :=
  reach_invariant (step nRounds) Careful (Inv nRounds) init host (init_inv nRounds) (step_keeps nRounds) reached

theorem ahead_of_phase (host : Host) (phase : Phase host) : host.readyCounter ≤ host.barrierCount + 1 := by
  rcases phase_kinds host phase with ⟨⟨ready, _⟩, _⟩ | ⟨_, ⟨ready, _⟩, _⟩ | ⟨_, ⟨ready, _⟩ | ⟨⟨ready, _⟩, _⟩⟩
  · exact ready.le.trans (Nat.le_succ _)
  · exact ready.le.trans (Nat.le_succ _)
  · exact ready.le
  · exact ready.le.trans (Nat.le_succ _)

theorem ready_of_starting (host : Host) (phase : Phase host) (starting : host.app.starting = true) :
    host.readyCounter = host.barrierCount := by
  rcases phase_kinds host phase with ⟨⟨ready, _⟩, _⟩ | ⟨_, ⟨ready, _⟩, _⟩ | ⟨started, _⟩
  · exact ready
  · exact ready
  · simp [started] at starting

theorem seen_of_phase (host : Host) (count : Nat) (monitor : host.monitor = .aiming count) (phase : Phase host) :
    count = host.barrierCount := by
  have kinds := phase_kinds host phase
  simp only [Ended, Outstanding, Level, monitor, Monitor.Over] at kinds
  rcases kinds with ⟨_, _, _, seen⟩ | ⟨_, _, seen⟩ | ⟨_, ⟨_, _, _, _, _, seen⟩ | ⟨_, _, _, seen⟩⟩
  · exact seen
  · exact seen
  · exact seen
  · exact seen

theorem set_up_once_of_inv (nRounds : Nat) (host : Host) (inv : Inv nRounds host) : SetUpOnce nRounds host where
  setups := inv.counts.setups
  ahead := ahead_of_phase host inv.phase
  queued := by
    rw [inv.counts.queued]
    split_ifs
    · rfl
    · rw [List.length_range']
  kept := by
    intro rounds
    rw [inv.counts.queued, if_neg (Nat.ne_of_gt rounds), List.length_range']
    exact Nat.le_add_right _ _

theorem mode_of_running (host : Host) (running : Outstanding host ∨ Level host)
    (asked : host.barrierCount < host.targetBarrierCount) : host.continuousMode = true := by
  rcases running with ⟨_, _, mode, _⟩ | ⟨_, _, mode, _⟩
  · exact mode
  · exact mode asked

theorem running_of_asked (host : Host) (phase : Phase host) (started : host.app.starting = false)
    (asked : host.barrierCount < host.targetBarrierCount) : Outstanding host ∨ Level host := by
  rcases phase_kinds host phase with ⟨_, enough, _⟩ | ⟨starting, _⟩ | ⟨_, running⟩
  · exact absurd asked (Nat.not_lt_of_le enough)
  · simp [started] at starting
  · exact running

theorem not_abandoned_of_phase (host : Host) (phase : Phase host) : ¬ Abandoned host := by
  intro ⟨started, asked, clear⟩
  have mode := mode_of_running host (running_of_asked host phase started asked) asked
  exact nomatch mode.symm.trans clear

end OpenGda.BarrierThreads
