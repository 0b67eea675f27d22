import OpenGda.Ofi.BarrierThreadsSafety

set_option autoImplicit false

namespace OpenGda.BarrierThreads

open Machine

def appAt (numBarriers : Nat) (host : Host) (left : Option Setup) : Host :=
  { host with
    app := match left with
      | some more => .setup numBarriers more
      | none => .launching numBarriers }

def monitorAt (host : Host) (left : Option Setup) : Host :=
  { host with
    monitor := match left with
      | some more => .setup more
      | none => .top }

theorem setup_step_app (nRounds : Nat) (host : Host) (turn : Setup) (app : App) :
    setupStep nRounds { host with app := app } turn =
      (setupStep nRounds host turn).map fun (next, left) => ({ next with app := app }, left) := by
  cases turn with
  | source threshold | ready threshold => rfl
  | _ => simp only [setupStep]; split_ifs <;> rfl

theorem setup_step_monitor (nRounds : Nat) (host : Host) (turn : Setup) (monitor : Monitor) :
    setupStep nRounds { host with monitor := monitor } turn =
      (setupStep nRounds host turn).map fun (next, left) => ({ next with monitor := monitor }, left) := by
  cases turn with
  | source threshold | ready threshold => rfl
  | _ => simp only [setupStep]; split_ifs <;> rfl

theorem app_setup_step (nRounds numBarriers : Nat) (host next : Host) (turn : Setup) (left : Option Setup)
    (taken : setupStep nRounds host turn = some (next, left)) :
    step nRounds (appAt numBarriers host (some turn)) .app = some (appAt numBarriers next left) := by
  have moved := setup_step_app nRounds host turn (.setup numBarriers turn)
  rw [taken] at moved
  change (setupStep nRounds { host with app := .setup numBarriers turn } turn).map _ = _
  rw [moved]
  cases left <;> rfl

theorem monitor_setup_step (nRounds : Nat) (host next : Host) (turn : Setup) (left : Option Setup)
    (taken : setupStep nRounds host turn = some (next, left)) :
    step nRounds (monitorAt host (some turn)) .monitor = some (monitorAt next left) := by
  have moved := setup_step_monitor nRounds host turn (.setup turn)
  rw [taken] at moved
  change (setupStep nRounds { host with monitor := .setup turn } turn).map _ = _
  rw [moved]
  cases left <;> rfl

structure SetUp (host later : Host) : Prop where
  frame : ∃ expected values queued setups, later = { host with
    expectedSignal := expected, signalValues := values, queued := queued, setups := setups
    readyCounter := host.readyCounter + 1 }

def Setup.left : Setup → Nat
  | .threshold => 5
  | .source _ => 4
  | .mode _ => 3
  | .copy _ => 2
  | .queue _ => 1
  | .ready _ => 0

def Free (host : Host) (turn : Setup) : Prop :=
  host.gpu = none ∨ host.continuousMode = true ∧ ∀ threshold, turn ≠ .copy threshold

theorem setup_step_progress (nRounds : Nat) (host : Host) (turn : Setup) (free : Free host turn) :
    (∃ next, setupStep nRounds host turn = some (next, none) ∧ SetUp host next) ∨
    ∃ next more, setupStep nRounds host turn = some (next, some more) ∧ more.left < turn.left ∧ Free next more ∧
      ∃ expected values queued, next = { host with
        expectedSignal := expected, signalValues := values, queued := queued } := by
  cases turn with
  | threshold =>
      have onward : ∀ threshold, Free host (.mode threshold) ∧ Free host (.source threshold) :=
        fun _ => ⟨free.imp_right fun going => ⟨going.1, by simp⟩, free.imp_right fun going => ⟨going.1, by simp⟩⟩
      right
      simp only [setupStep]
      split_ifs
      · exact ⟨_, _, rfl, by simp [Setup.left], (onward _).1, _, _, _, rfl⟩
      · exact ⟨_, _, rfl, by simp [Setup.left], (onward _).2, _, _, _, rfl⟩
  | source threshold =>
      exact .inr ⟨_, _, rfl, by simp [Setup.left], free.imp_right fun going => ⟨going.1, by simp⟩, _, _, _, rfl⟩
  | mode threshold =>
      right
      simp only [setupStep]
      split_ifs with mode
      · exact ⟨_, _, rfl, by simp [Setup.left], .inr ⟨mode, by simp⟩, _, _, _, rfl⟩
      · exact ⟨_, _, rfl, by simp [Setup.left], .inl (free.resolve_right fun going => mode going.1), _, _, _, rfl⟩
  | copy threshold =>
      have idle : host.gpu = none := free.resolve_right fun going => going.2 threshold rfl
      right
      simp only [setupStep, idle]
      exact ⟨_, _, rfl, by simp [Setup.left], .inl rfl, _, _, _, rfl⟩
  | queue threshold =>
      have onward : ∀ queued, Free { host with queued := queued } (.ready threshold) :=
        fun _ => free.imp_right fun going => ⟨going.1, by simp⟩
      right
      simp only [setupStep]
      split_ifs
      · exact ⟨_, _, rfl, by simp [Setup.left], onward _, _, _, _, rfl⟩
      · exact ⟨_, _, rfl, by simp [Setup.left], onward _, _, _, _, rfl⟩
  | ready threshold => exact .inl ⟨_, rfl, _, _, _, _, rfl⟩

theorem setup_finishes (nRounds : Nat) (caller : Host → Option Setup → Host) (action : Action)
    (moves : ∀ host next turn left, setupStep nRounds host turn = some (next, left) →
      step nRounds (caller host (some turn)) action = some (caller next left))
    (careful : ∀ host turn, Careful (caller host (some turn)) action)
    (host : Host) (turn : Setup) (free : Free host turn) :
    ∃ later, Reach (step nRounds) Careful (caller host (some turn)) (caller later none) ∧ SetUp host later := by
  induction left : turn.left using Nat.strong_induction_on generalizing host turn with
  | _ left ih =>
      subst left
      rcases setup_step_progress nRounds host turn free with
        ⟨next, taken, done⟩ | ⟨next, more, taken, fewer, still, _, _, _, rfl⟩
      · exact ⟨next, .step _ _ action .start (careful host turn) (moves host next turn none taken), done⟩
      · obtain ⟨later, reached, same⟩ := ih more.left fewer _ more still rfl
        refine ⟨later, ?_, ?_⟩
        · exact reach_head (step nRounds) Careful _ _ _ action (careful host turn) (moves host _ turn _ taken) reached
        · obtain ⟨_, _, _, _, rfl⟩ := same
          exact ⟨_, _, _, _, rfl⟩

theorem app_setup_finishes (nRounds numBarriers : Nat) (host : Host) (turn : Setup)
    (app : host.app = .setup numBarriers turn) (free : Free host turn) :
    ∃ later, Reach (step nRounds) Careful host { later with app := .launching numBarriers } ∧ SetUp host later := by
  have there : appAt numBarriers host (some turn) = host := by simp only [appAt, ← app]
  obtain ⟨later, reached, same⟩ := setup_finishes nRounds (appAt numBarriers) .app
    (app_setup_step nRounds numBarriers) (fun _ _ => ⟨trivial, trivial⟩) host turn free
  rw [there] at reached
  exact ⟨later, reached, same⟩

theorem monitor_setup_finishes (nRounds : Nat) (host : Host) (turn : Setup)
    (monitor : host.monitor = .setup turn) (free : Free host turn) :
    ∃ later, Reach (step nRounds) Careful host { later with monitor := .top } ∧ SetUp host later := by
  have there : monitorAt host (some turn) = host := by simp only [monitorAt, ← monitor]
  obtain ⟨later, reached, same⟩ := setup_finishes nRounds monitorAt .monitor
    (monitor_setup_step nRounds) (fun _ _ => ⟨trivial, trivial⟩) host turn free
  rw [there] at reached
  exact ⟨later, reached, same⟩

theorem kernel_drains (nRounds : Nat) (host : Host) (finished : host.remaining = 0)
    (inv : ∀ kernel, host.gpu = some kernel → KernelInv host kernel) :
    ∃ expected, Reach (step nRounds) Careful host { host with expectedSignal := expected, gpu := none } := by
  have leave : ∀ (host : Host) (wanted : Nat), host.gpu = some ⟨0, wanted, .loop⟩ →
      Reach (step nRounds) Careful host { host with gpu := none } :=
    fun host wanted running => .step host _ .gpu .start ⟨trivial, trivial⟩ (by simp [step, running, kernelStep])
  cases running : host.gpu with
  | none =>
      refine ⟨host.expectedSignal, ?_⟩
      rw [← running]
      exact .start
  | some kernel =>
      have own := inv kernel running
      obtain ⟨todo, wanted, pc⟩ := kernel
      simp only [Host.remaining, running, Kernel.remaining] at finished
      cases pc with
      | loop =>
          simp only at finished
          exact ⟨host.expectedSignal, leave host wanted (finished ▸ running)⟩
      | ready => exact absurd own.1 (Nat.not_lt_of_le finished.le)
      | notify => exact absurd own.1 (Nat.not_lt_of_le finished.le)
      | advance =>
          simp only at finished
          refine ⟨host.expectedSignal + 1, ?_⟩
          exact reach_head (step nRounds) Careful host _ _ .gpu ⟨trivial, trivial⟩
            (by simp [step, running, kernelStep, finished]; rfl) (leave _ wanted rfl)

theorem arming_arms (nRounds numBarriers : Nat) (host : Host) (app : host.app = .arming numBarriers) :
    Reach (step nRounds) Careful host { host with continuousMode := true, app := .setup numBarriers .threshold } :=
  .step host _ .app .start ⟨trivial, trivial⟩ (by simp [step, appStep, app])

theorem seeding_arms (nRounds numBarriers expected : Nat) (host : Host) (app : host.app = .seeding numBarriers expected)
    (idle : host.gpu = none) : Reach (step nRounds) Careful host { host with
      expectedSignal := expected, continuousMode := true, app := .setup numBarriers .threshold } :=
  reach_head (step nRounds) Careful host { host with expectedSignal := expected, app := .arming numBarriers } _ .app
    ⟨trivial, trivial⟩ (by simp [step, appStep, app, idle]) (arming_arms nRounds numBarriers _ rfl)

theorem expecting_arms (nRounds numBarriers : Nat) (host : Host) (app : host.app = .expecting numBarriers)
    (idle : host.gpu = none) : Reach (step nRounds) Careful host { host with
      expectedSignal := host.barrierCount + 1, continuousMode := true, app := .setup numBarriers .threshold } :=
  reach_head (step nRounds) Careful host { host with app := .seeding numBarriers (host.barrierCount + 1) } _ .app
    ⟨trivial, trivial⟩ (by simp [step, appStep, app]) (seeding_arms nRounds numBarriers _ _ rfl idle)

theorem starting_arms (nRounds : Nat) (host : Host) (turn : Monitor) (inv : Inv nRounds host)
    (asked : host.barrierCount < host.targetBarrierCount) (starting : host.app.starting = true) :
    ∃ numBarriers setup expected, Reach (step nRounds) Careful { host with monitor := turn } { host with
      expectedSignal := expected, continuousMode := true, gpu := none, app := .setup numBarriers setup
      monitor := turn } := by
  obtain ⟨_, kernel, phase⟩ := inv
  have unended : ¬ Ended host := fun ⟨_, enough, _⟩ => absurd asked (Nat.not_lt_of_le enough)
  have drained : ∀ numBarriers, Aimed numBarriers host → ∃ expected, Reach (step nRounds) Careful
      { host with monitor := turn } { host with monitor := turn, expectedSignal := expected, gpu := none } :=
    fun _ ⟨_, _, _, _, finished, _⟩ => kernel_drains nRounds { host with monitor := turn } finished kernel
  cases app : host.app with
  | expecting numBarriers =>
      simp only [Phase, app] at phase
      obtain ⟨_, first⟩ := drained numBarriers phase
      rw [app] at first
      exact ⟨_, _, _, reach_trans _ _ _ _ _ first (expecting_arms nRounds numBarriers _ rfl rfl)⟩
  | seeding numBarriers expected =>
      simp only [Phase, app] at phase
      obtain ⟨_, first⟩ := drained numBarriers phase.1
      rw [app] at first
      exact ⟨_, _, _, reach_trans _ _ _ _ _ first (seeding_arms nRounds numBarriers expected _ rfl rfl)⟩
  | arming numBarriers =>
      simp only [Phase, app] at phase
      obtain ⟨_, first⟩ := drained numBarriers phase.1
      rw [app] at first
      exact ⟨_, _, _, reach_trans _ _ _ _ _ first (arming_arms nRounds numBarriers _ rfl)⟩
  | setup numBarriers setup =>
      simp only [Phase, app] at phase
      obtain ⟨_, _, _, mode, ⟨idle, _⟩, _⟩ := phase
      refine ⟨numBarriers, setup, host.expectedSignal, ?_⟩
      rw [← app, ← mode, ← idle]
      exact .start
  | activating numBarriers | counting numBarriers | aiming numBarriers count =>
      simp only [Phase, app] at phase
      exact absurd phase.1 unended
  | idle | launching numBarriers | watching | comparing count | stopping => simp [app, App.starting] at starting

def Fine (nRounds : Nat) (host : Host) : Prop := SetUpOnce nRounds host ∧ ¬ Abandoned host

theorem both_set_up (nRounds numBarriers : Nat) (start host : Host) (turn other : Setup)
    (armed : Reach (step nRounds) Careful start host) (app : host.app = .setup numBarriers turn) (monitor : host.monitor = .setup other)
    (idle : host.gpu = none) :
    ∃ later, Reach (step nRounds) Careful start later ∧ later.readyCounter = host.readyCounter + 2 ∧
      later.barrierCount = host.barrierCount := by
  obtain ⟨middle, first, same⟩ := app_setup_finishes nRounds numBarriers host turn app (.inl idle)
  have there : middle.monitor = .setup other ∧ middle.gpu = none ∧ middle.readyCounter = host.readyCounter + 1 ∧
      middle.barrierCount = host.barrierCount := by
    obtain ⟨_, _, _, _, rfl⟩ := same
    exact ⟨monitor, idle, rfl, rfl⟩
  obtain ⟨placed, free, ready, count⟩ := there
  obtain ⟨_, second, ⟨_, _, _, _, rfl⟩⟩ := monitor_setup_finishes nRounds
    { middle with app := .launching numBarriers } other placed (.inl free)
  exact ⟨_, reach_trans _ _ _ _ _ armed (reach_trans _ _ _ _ _ first second), congrArg Nat.succ ready, count⟩

theorem aiming_tangles (nRounds : Nat) (host : Host) (inv : Inv nRounds host)
    (asked : host.barrierCount < host.targetBarrierCount)
    (tangled : host.app.starting = false → host.readyCounter ≠ host.barrierCount) :
    ∃ later, Reach (step nRounds) Careful { host with monitor := .setup .threshold } later ∧ ¬ Fine nRounds later := by
  cases starting : host.app.starting with
  | true =>
      obtain ⟨numBarriers, setup, expected, armed⟩ :=
        starting_arms nRounds host (.setup .threshold) inv asked starting
      obtain ⟨later, reached, ready, count⟩ := both_set_up nRounds numBarriers _ _ setup .threshold armed rfl rfl rfl
      refine ⟨later, reached, fun ⟨once, _⟩ => ?_⟩
      have ahead := once.ahead
      have even := ready_of_starting host inv.phase starting
      simp only at ready count
      omega
  | false =>
      have outstanding := (running_of_asked host inv.phase starting asked).resolve_right
        fun level => tangled starting level.1.1
      obtain ⟨ready, _, mode, _⟩ := outstanding
      obtain ⟨_, reached, ⟨_, _, _, _, rfl⟩⟩ := monitor_setup_finishes nRounds
        { host with monitor := .setup .threshold } .threshold rfl (.inr ⟨mode, by simp⟩)
      refine ⟨_, reached, fun ⟨once, _⟩ => ?_⟩
      have ahead := once.ahead
      simp only at ahead
      omega

theorem closing_tangles (nRounds : Nat) (host : Host) (inv : Inv nRounds host)
    (asked : host.barrierCount < host.targetBarrierCount) (mode : host.continuousMode = true) :
    ∃ later, Reach (step nRounds) Careful { host with continuousMode := false, monitor := .top } later ∧
      ¬ Fine nRounds later := by
  cases app : host.app with
  | setup numBarriers turn =>
      have phase := inv.phase
      simp only [Phase, app] at phase
      obtain ⟨_, _, _, _, ⟨idle, _⟩, _⟩ := phase
      obtain ⟨_, reached, ⟨_, _, _, _, rfl⟩⟩ := app_setup_finishes nRounds numBarriers
        { host with continuousMode := false, monitor := .top } turn app (.inl idle)
      rw [app] at reached
      exact ⟨_, reached, fun fine => fine.2 ⟨rfl, asked, rfl⟩⟩
  | activating numBarriers | counting numBarriers | aiming numBarriers count =>
      have phase := inv.phase
      simp only [Phase, app] at phase
      simp [phase.2.1] at mode
  | expecting numBarriers =>
      have phase := inv.phase
      simp only [Phase, app] at phase
      obtain ⟨_, _, _, clear, _⟩ := phase
      simp [clear] at mode
  | seeding numBarriers expected | arming numBarriers =>
      have phase := inv.phase
      simp only [Phase, app] at phase
      obtain ⟨⟨_, _, _, clear, _⟩, _⟩ := phase
      simp [clear] at mode
  | _ => exact ⟨_, .start, fun fine => fine.2 ⟨rfl, asked, rfl⟩⟩

theorem tangles (nRounds : Nat) (before after : Host) (action : Action) (inv : Inv nRounds before)
    (taken : step nRounds before action = some after) (tangled : ¬ Untangled before action) :
    ∃ later, Reach (step nRounds) Careful after later ∧ ¬ Fine nRounds later := by
  cases action with
  | monitor =>
      simp only [Untangled] at tangled
      cases monitor : before.monitor with
      | aiming count =>
          simp only [monitor, not_forall] at tangled
          obtain ⟨asked, tangled⟩ := tangled
          simp only [step, monitorStep, monitor, if_pos asked, Option.some.injEq] at taken
          subst taken
          have seen := seen_of_phase before count monitor inv.phase
          exact aiming_tangles nRounds before inv (seen ▸ asked) fun started ready => tangled ⟨started, ready⟩
      | closing =>
          simp only [monitor, not_forall, Bool.not_eq_false] at tangled
          obtain ⟨asked, mode⟩ := tangled
          simp only [step, monitorStep, monitor, Option.some.injEq] at taken
          subst taken
          exact closing_tangles nRounds before inv asked mode
      | _ => simp [monitor] at tangled
  | _ => exact absurd trivial tangled

-- In a run of careful steps every threshold is set up once and no barrier is abandoned; any
-- other step leads to a state where that is no longer so.
theorem careful_iff_fine (nRounds : Nat) :
    (∀ host, Reach (step nRounds) Careful init host → SetUpOnce nRounds host ∧ ¬ Abandoned host) ∧
    ∀ before after action, Reach (step nRounds) Careful init before → SomeBarriers action →
      step nRounds before action = some after →
      ((∀ later, Reach (step nRounds) Careful after later → SetUpOnce nRounds later ∧ ¬ Abandoned later) ↔
        Untangled before action) := by
  have fine : ∀ host, Reach (step nRounds) Careful init host → Fine nRounds host := by
    intro host reached
    have inv := reachable_inv nRounds host reached
    exact ⟨set_up_once_of_inv nRounds host inv, not_abandoned_of_phase host inv.phase⟩
  refine ⟨fine, fun before after action reached barriers taken => ⟨fun holds => ?_, fun untangled later more => ?_⟩⟩
  · by_contra tangled
    obtain ⟨later, more, broken⟩ :=
      tangles nRounds before after action (reachable_inv nRounds before reached) taken tangled
    exact broken (holds later more)
  · have first := Reach.step before after action reached ⟨barriers, untangled⟩ taken
    exact fine later (reach_trans (step nRounds) Careful init after later first more)

instance (action : Action) : Decidable (SomeBarriers action) :=
  match action with
  | .start numBarriers => inferInstanceAs (Decidable (1 ≤ numBarriers))
  | .app => isTrue trivial
  | .monitor => isTrue trivial
  | .gpu => isTrue trivial
  | .complete => isTrue trivial

def firstRun : List Action :=
  List.flatten [[.start 1], List.replicate 12 .app, List.replicate 5 .gpu, [.complete], List.replicate 5 .monitor,
    List.replicate 3 .app]

def clearedLate : List Action :=
  List.flatten [firstRun, List.replicate 4 .monitor, [.start 1], List.replicate 11 .app, [.monitor]]

def setUpTwice : List Action :=
  List.flatten [firstRun, List.replicate 2 .monitor, [.start 1], List.replicate 11 .app, List.replicate 7 .monitor]

theorem overlapped_runs_break :
    (¬ ∀ nRounds host, Reach (step nRounds) (fun _ action => SomeBarriers action) init host → ¬ Abandoned host) ∧
    ¬ ∀ nRounds host, Reach (step nRounds) (fun _ action => SomeBarriers action) init host → SetUpOnce nRounds host := by
  constructor
  · intro holds
    obtain ⟨host, reached, abandoned⟩ := reach_of_decided (step 1) (fun _ action => SomeBarriers action) clearedLate init
      (fun host => host.app.starting = false ∧ host.barrierCount < host.targetBarrierCount ∧ host.continuousMode = false)
      (by decide +kernel)
    exact holds 1 host reached abandoned
  · intro holds
    obtain ⟨host, reached, twice⟩ := reach_of_decided (step 1) (fun _ action => SomeBarriers action) setUpTwice init
      (fun host => host.readyCounter = host.barrierCount + 2 ∧ host.setups = [1, 2, 2]) (by decide +kernel)
    have ahead := (holds 1 host reached).ahead
    omega

end OpenGda.BarrierThreads
