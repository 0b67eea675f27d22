import OpenGda.Examples.HaloGrid
import OpenGda.Examples.OfiJacobiSetUp
import OpenGda.Ofi.RuntimeQuiet

set_option autoImplicit false

namespace OpenGda.Examples.OfiJacobi

open Countdown Halo Machine OfiBuffers
open Ofi (RmaWrite)

variable {Real : Type} {program : Program} {numbers : Numbers Real}

def slot : Side → Nat
  | .top => 0
  | .bottom => 1

def RowLanded (program : Program) (now : Rank Real) (side : Side) : Prop :=
  ∀ word < program.nx, now.landed (slot side) word = true

def totalLaunches (program : Program) : Nat := warmups + program.loop.iterations

structure Control (program : Program) (rank : Fin program.size) (now : Rank Real) : Prop where
  grid : GridControl (totalLaunches program) program.nx (iyEnd program rank) now.toSolver
  batch : Rt.BatchInv now.rt
  opened : Opened program rank now.rt
  idle : now.toks = none → now.rt.nOps = 0 ∧ now.rt.fabric.nic.counters .trigger = 0
  armed : ∀ toks, now.toks = some toks → toks = (⟨0⟩, ⟨1⟩) ∧ now.rt.nOps = 2 ∧ now.rt.devCtx.triggerVal = 2 ∧
    now.queued = true ∧ now.waiting = false
  fired : now.toks.isSome = true → AllArrived program.nx (iyEnd program rank) now.toSolver →
    now.rt.fabric.nic.counters .trigger = 2
  unfired : now.toks.isSome = true → ¬ AllArrived program.nx (iyEnd program rank) now.toSolver →
    now.rt.fabric.nic.counters .trigger = 0
  carries : ∀ work ∈ now.rt.writes, ∃ side, work.slot = slot side ∧
    Carries program rank (nextBuf warmups now.launches) side work.write
  sent : now.toks.isSome = true → ∀ side, slot side ∉ Rt.pendingWrites now.rt → RowLanded program now side
  unqueued : now.queued = false → ∀ thread, now.ran thread = false
  running : now.queued = true → now.launches < totalLaunches program
  holding : now.queued = true → now.waiting = false → now.toks.isSome = true
  waits : now.waits ≤ 2
  top : 0 < now.waits → RowLanded program now .top
  bottom : 1 < now.waits → RowLanded program now .bottom
  synced : now.synced = true → now.queued = true ∧ AllArrived program.nx (iyEnd program rank) now.toSolver
  waiting : now.waiting = true → now.synced = true ∧ now.waits = 2

def Controlled (state : State Real program) : Prop := ∀ rank, Control program rank (state rank)

theorem running_iff (rank : Fin program.size) (now : Rank Real) (control : Control program rank now) :
    program.loop.Launches warmups now.launches ↔ now.launches < totalLaunches program :=
  launches_iff program.loop warmups now.launches control.grid.bound

theorem fresh_control (rank : Fin program.size) (launches : Nat) (buf : Nat → Nat → Real) (rt : Rt.Runtime)
    (bound : launches ≤ totalLaunches program) (batch : Rt.BatchInv rt) (opened : Opened program rank rt)
    (idle : rt.nOps = 0 ∧ rt.fabric.nic.counters .trigger = 0) : Control program rank (freshRank buf launches rt) := by
  have empty := (Rt.idle_batch rt batch idle.1).1
  refine ⟨grid_fresh buf launches bound, batch, opened, fun _ => idle, ?_, ?_, ?_, ?_, ?_, ?_, ?_, ?_, Nat.zero_le _,
    ?_, ?_, ?_, ?_⟩ <;> simp [freshRank, freshSolver, empty]

theorem outside_token (rank : Fin program.size) (now : Rank Real) (control : Control program rank now)
    (armed : now.toks.isSome = true) : now.queued = true ∧ ¬ now.waiting = true := by
  obtain ⟨toks, held⟩ := Option.isSome_iff_exists.mp armed
  obtain ⟨_, _, _, queued, outside⟩ := control.armed toks held
  exact ⟨queued, by simp [outside]⟩

theorem fresh_token (rank : Fin program.size) (now : Rank Real) (control : Control program rank now)
    (fresh : now.queued = false) : now.toks = none := by
  cases held : now.toks with
  | none => rfl
  | some toks => exact absurd (fresh.symm.trans (control.armed toks held).2.2.2.1) Bool.noConfusion

theorem waiting_token (rank : Fin program.size) (now : Rank Real) (control : Control program rank now)
    (waiting : now.waiting = true) : now.toks = none := by
  cases held : now.toks with
  | none => rfl
  | some toks => exact absurd (waiting.symm.trans (control.armed toks held).2.2.2.2) Bool.noConfusion

theorem arrived_queued (placed : Placed program) (rank : Fin program.size) (now : Rank Real)
    (control : Control program rank now) (all : AllArrived program.nx (iyEnd program rank) now.toSolver) :
    now.queued = true := by
  cases queued : now.queued with
  | true => rfl
  | false =>
      obtain ⟨thread, ran⟩ := arrived_some now.toSolver control.grid placed.columns ((rows placed).bounds rank rank.isLt).1 all
      rw [control.unqueued queued thread] at ran
      cases ran

theorem write_control (rank : Fin program.size) (now : Rank Real) (which index : Nat) (value : Real)
    (control : Control program rank now) :
    Control program rank { now with toSolver := write now.toSolver which index value } :=
  ⟨grid_write now.toSolver which index value control.grid, control.batch, control.opened, control.idle, control.armed,
    control.fired, control.unfired, control.carries, control.sent, control.unqueued, control.running, control.holding,
    control.waits, control.top, control.bottom, control.synced, control.waiting⟩

theorem queue_control (placed : Placed program) (rank : Fin program.size) (now next : Rank Real)
    (control : Control program rank now) (running : now.launches < totalLaunches program) (fresh : now.queued = false)
    (outside : now.waiting = false) (taken : queuePuts program rank now = some next) : Control program rank next := by
  have notArrived : ¬ AllArrived program.nx (iyEnd program rank) now.toSolver := by
    intro all
    have queued := arrived_queued placed rank now control all
    rw [fresh] at queued
    cases queued
  obtain ⟨none, zero⟩ := control.idle (fresh_token rank now control fresh)
  have empty := (Rt.idle_batch now.rt control.batch none).1
  obtain ⟨first, second, carriesFirst, carriesSecond, queues⟩ := queue_puts_result placed rank now control.opened none
  rw [queues] at taken
  cases taken
  refine ⟨control.grid, queued_rows_batch now.rt first second control.batch none,
    opened_same rank now.rt _ control.opened rfl rfl rfl rfl, fun held => absurd held (Option.some_ne_none _), ?_,
    fun _ all => absurd all notArrived, fun _ _ => zero, ?_, ?_, fun queued => absurd queued (by simp), fun _ => running,
    fun _ _ => rfl, control.waits, control.top, control.bottom, fun synced => ⟨rfl, (control.synced synced).2⟩, control.waiting⟩
  · intro toks held
    obtain rfl := Option.some.inj held
    exact ⟨rfl, rfl, rfl, rfl, outside⟩
  · intro work member
    simp only [queuedRows, Rt.prepareTrigger, empty, List.nil_append, List.cons_append, List.mem_cons, List.not_mem_nil,
      or_false] at member
    rcases member with rfl | rfl
    · exact ⟨.top, rfl, carriesFirst⟩
    · exact ⟨.bottom, rfl, carriesSecond⟩
  · intro _ side absent
    cases side <;> simp [queuedRows, Rt.prepareTrigger, Rt.pendingWrites, slot] at absent

theorem thread_control (rank : Fin program.size) (now : Rank Real) (thread : Thread) (control : Control program rank now)
    (queued : now.queued = true) : Control program rank
      { now with toSolver := runThread numbers warmups program.nx (iyEnd program rank) now.toSolver thread } := by
  obtain ⟨launches, waiting, _⟩ :=
    run_thread_fields program.nx (iyEnd program rank) numbers warmups now.toSolver thread
  have same := run_thread_arrived program.nx (iyEnd program rank) numbers warmups now.toSolver thread
  refine ⟨grid_thread numbers warmups now.toSolver thread control.grid (control.running queued), control.batch,
    control.opened, control.idle, ?_, ?_, ?_, ?_, control.sent, fun fresh => absurd (queued.symm.trans fresh) Bool.noConfusion, ?_, ?_,
    control.waits, control.top, control.bottom, ?_, ?_⟩
  · simp only [waiting]
    exact control.armed
  · simp only [same]
    exact control.fired
  · simp only [same]
    exact control.unfired
  · simp only [launches]
    exact control.carries
  · simp only [launches]
    exact control.running
  · simp only [waiting]
    exact control.holding
  · simp only [same]
    exact control.synced
  · simp only [waiting]
    exact control.waiting

theorem block_done_control (placed : Placed program) (rank : Fin program.size) (now : Rank Real) (block : Nat × Nat)
    (control : Control program rank now) (inside : block.1 < gridX program.nx ∧ block.2 < gridY (iyEnd program rank))
    (synced : Synced now.toSolver block) (before : now.arrived block = false) :
    Control program rank (blockDone program rank now block) := by
  have notAll := not_all_arrived now.toSolver block inside before
  have last := last_block_iff now.toSolver block inside before control.grid (now.blockDoneCounter + 1)
  have grid := grid_arrive now.toSolver block inside before control.grid synced
  have notSynced : ¬ now.synced = true := fun synced => notAll (control.synced synced).2
  have outside : ¬ now.waiting = true := fun waiting => notSynced (control.waiting waiting).1
  have dim : 0 < blockDim := by decide
  have queued : now.queued = true := by
    cases queued : now.queued with
    | true => rfl
    | false =>
        have ran := synced 0 dim 0 dim
        rw [control.unqueued queued] at ran
        cases ran
  have held := control.holding queued (by simpa using outside)
  obtain ⟨toks, same⟩ := Option.isSome_iff_exists.mp held
  obtain ⟨slots, two, value, _⟩ := control.armed toks same
  have several : 1 < program.size := placed.several
  by_cases rings : now.blockDoneCounter = gridX program.nx * gridY (iyEnd program rank) - 1
  · simp only [blockDone, if_pos (And.intro several rings)]
    refine ⟨grid, Rt.batch_frame now.rt _ control.batch ⟨⟨rfl, rfl⟩, rfl, ⟨rfl, rfl⟩, ⟨rfl, rfl⟩, rfl, rfl⟩,
      opened_same rank now.rt _ control.opened rfl rfl rfl rfl, fun none => absurd (none.symm.trans same) (by simp),
      control.armed, ?_, ?_, control.carries, control.sent, control.unqueued, control.running, control.holding,
      control.waits, control.top, control.bottom, fun synced => absurd synced notSynced, control.waiting⟩
    · intro _ _
      simp [Rt.flush, DeferredWork.setCounter, value]
    · exact fun _ missing => absurd (last.mpr rings) missing
  · simp only [blockDone, if_neg (fun both : 1 < program.size ∧ _ => rings both.2)]
    exact ⟨grid, control.batch, control.opened, control.idle, control.armed, fun _ all => absurd (last.mp all) rings,
      fun armed _ => control.unfired armed notAll, control.carries, control.sent, control.unqueued, control.running,
      control.holding, control.waits, control.top, control.bottom, fun synced => absurd synced notSynced, control.waiting⟩

theorem landed_control (rank : Fin program.size) (now : Rank Real) (which word : Nat)
    (control : Control program rank now) : Control program rank
      { now with landed := Function.update now.landed which (Function.update (now.landed which) word true) } := by
  have keeps : ∀ side, RowLanded program now side → RowLanded program
      { now with landed := Function.update now.landed which (Function.update (now.landed which) word true) } side := by
    intro side all index within
    exact row_flag_keep now.landed which word (slot side) index (all index within)
  exact ⟨control.grid, control.batch, control.opened, control.idle, control.armed, control.fired, control.unfired,
    control.carries, fun armed side absent => keeps side (control.sent armed side absent), control.unqueued, control.running,
    control.holding, control.waits, fun once => keeps .top (control.top once), fun twice => keeps .bottom (control.bottom twice),
    control.synced, control.waiting⟩

theorem completion_control (rank : Fin program.size) (now : Rank Real) (rt : Rt.Runtime)
    (control : Control program rank now) (batch : Rt.BatchInv rt) (buffers : rt.localBufs = now.rt.localBufs)
    (fabric : rt.fabric = now.rt.fabric) (nOps : rt.nOps = now.rt.nOps) (devCtx : rt.devCtx = now.rt.devCtx)
    (writes : ∀ work ∈ rt.writes, work ∈ now.rt.writes)
    (sent : now.toks.isSome = true → ∀ side, slot side ∉ Rt.pendingWrites rt → RowLanded program now side) :
    Control program rank { now with rt := rt } := by
  refine ⟨control.grid, batch, ?_, ?_, ?_, ?_, ?_, fun work member => control.carries work (writes work member), sent,
    control.unqueued, control.running, control.holding, control.waits, control.top, control.bottom, control.synced,
    control.waiting⟩
  · exact opened_same rank now.rt _ control.opened buffers (by rw [fabric]) (by rw [fabric]) (by rw [fabric])
  · simp only [nOps, fabric]
    exact control.idle
  · simp only [nOps, devCtx]
    exact control.armed
  · simp only [fabric]
    exact control.fired
  · simp only [fabric]
    exact control.unfired

theorem complete_write_control (rank : Fin program.size) (now : Rank Real) (index : Nat) (rt : Rt.Runtime)
    (control : Control program rank now) (whole : ∀ work ∈ now.rt.writes[index]?, WholeLanded now.landed work)
    (taken : Rt.completeWrite now.rt index = some rt) : Control program rank { now with rt := rt } := by
  have batch := Rt.complete_write_batch now.rt rt index control.batch taken
  obtain ⟨work, found, _, rfl⟩ := Rt.complete_write_result now.rt rt index taken
  obtain ⟨member, _, _, rest, slots⟩ :=
    Rt.taken_slots now.rt.writes Rt.SlotWrite.slot index work found control.batch.writesOnce
  refine completion_control rank now _ control batch rfl rfl rfl rfl rest ?_
  intro armed side absent
  by_cases own : slot side = work.slot
  · obtain ⟨carried, same, carries⟩ := control.carries work member
    intro word within
    rw [own]
    exact whole work found word (by rw [carried_words _ _ _ work carries]; exact within)
  · exact control.sent armed side fun pending => absent (((slots _).mp pending).resolve_left own)

theorem complete_atomic_control (rank : Fin program.size) (now : Rank Real) (index : Nat) (rt : Rt.Runtime)
    (control : Control program rank now) (taken : Rt.completeAtomic now.rt index = some rt) :
    Control program rank { now with rt := rt } := by
  have batch := Rt.complete_atomic_batch now.rt rt index control.batch taken
  obtain ⟨work, _, _, rfl, _⟩ := Rt.complete_atomic_result now.rt rt index control.batch taken
  exact completion_control rank now _ control batch rfl rfl rfl rfl (fun _ member => member) control.sent

theorem sync_control (rank : Fin program.size) (now : Rank Real) (control : Control program rank now)
    (queued : now.queued = true) (all : AllArrived program.nx (iyEnd program rank) now.toSolver) :
    Control program rank { now with synced := true } :=
  ⟨control.grid, control.batch, control.opened, control.idle, control.armed, control.fired, control.unfired,
    control.carries, control.sent, control.unqueued, control.running, control.holding, control.waits, control.top,
    control.bottom, fun _ => ⟨queued, all⟩, fun waiting => ⟨rfl, (control.waiting waiting).2⟩⟩

theorem wait_control (rank : Fin program.size) (now : Rank Real) (control : Control program rank now)
    (more : now.waits < 2) (waited : Waited now) : Control program rank { now with waits := now.waits + 1 } := by
  obtain ⟨toks, held, returned⟩ := waited
  obtain ⟨rfl, _⟩ := control.armed toks held
  have armed : now.toks.isSome = true := Option.isSome_iff_exists.mpr ⟨_, held⟩
  have landed : ∀ side, Rt.waitOver now.rt ⟨slot side⟩ → RowLanded program now side := by
    intro side ended
    apply control.sent armed side
    intro pending
    obtain ⟨work, member, same⟩ := List.mem_map.mp pending
    exact Rt.waited_complete now.rt control.batch _ ended work member same
  refine ⟨control.grid, control.batch, control.opened, control.idle, control.armed, control.fired, control.unfired,
    control.carries, control.sent, control.unqueued, control.running, control.holding, more, ?_, ?_, control.synced, ?_⟩
  · intro _
    by_cases first : now.waits = 0
    · rw [if_pos first] at returned
      exact landed .top returned
    · exact control.top (Nat.pos_of_ne_zero first)
  · intro twice
    rw [if_neg (Nat.ne_of_gt (Nat.lt_of_succ_lt_succ twice))] at returned
    exact landed .bottom returned
  · intro waiting
    exact absurd waiting (outside_token rank now control armed).2

theorem finish_control (rank : Fin program.size) (now : Rank Real) (rt : Rt.Runtime) (control : Control program rank now)
    (synced : now.synced = true) (outside : now.waiting = false) (waited : now.toks.isSome = true → now.waits = 2)
    (taken : Rt.reset now.rt = some rt) :
    Control program rank { now with rt := rt, toks := none, toSolver.waiting := true } := by
  obtain ⟨noWrites, _, _, _, none, _, writes, _, _, zero, _⟩ := Rt.reset_result now.rt rt control.batch taken
  obtain ⟨buffers, remoteInfo, addresses, mode⟩ := Rt.reset_keeps now.rt rt taken
  obtain ⟨queued, _⟩ := control.synced synced
  have both := waited (control.holding queued outside)
  refine ⟨grid_waiting now.toSolver true control.grid, Rt.reset_batch now.rt rt control.batch taken,
    opened_same rank now.rt rt control.opened buffers remoteInfo addresses mode, fun _ => ⟨none, zero⟩,
    fun toks held => absurd held.symm (Option.some_ne_none _), fun armed => absurd armed Bool.noConfusion,
    fun armed => absurd armed Bool.noConfusion, ?_, fun armed => absurd armed Bool.noConfusion, control.unqueued,
    control.running, fun _ inside => absurd inside Bool.noConfusion, control.waits, control.top, control.bottom,
    control.synced, fun _ => ⟨synced, both⟩⟩
  simp [writes, noWrites]

theorem leave_control (rank : Fin program.size) (now : Rank Real) (control : Control program rank now)
    (waiting : now.waiting = true) : Control program rank (freshRank now.buf (now.launches + 1) now.rt) := by
  have running := control.running (control.synced (control.waiting waiting).1).1
  exact fresh_control rank (now.launches + 1) now.buf now.rt running control.batch control.opened
    (control.idle (waiting_token rank now control waiting))

theorem controlled_update (state : State Real program) (rank : Fin program.size) (now : Rank Real)
    (controlled : Controlled state) (control : Control program rank now) : Controlled (Function.update state rank now) :=
  (Function.forall_update_iff state (Control program)).mpr ⟨control, fun other _ => controlled other⟩

def sentWord (state : State Real program) (rank : Fin program.size) (side : Side) (word : Nat) : State Real program :=
  Function.update state rank { state rank with
    landed := Function.update (state rank).landed (slot side) (Function.update ((state rank).landed (slot side)) word true) }

def receivedWord (state : State Real program) (rank : Fin program.size) (side : Side) (word : Nat) : Rank Real :=
  let now := state rank
  let which := nextBuf warmups now.launches
  let receiver := sentWord state rank side word (peer rank side)
  { receiver with
    toSolver := write receiver.toSolver which (remoteRow rank (iyEnd program) side * program.nx + word)
      (now.buf which (localRow rank (iyEnd program) side * program.nx + word)) }

theorem land_result (placed : Placed program) (before after : State Real program) (rank target : Fin program.size)
    (index word : Nat) (control : Control program rank (before rank))
    (taken : step program numbers before (.land rank target index word) = some after) :
    ∃ side, word < program.nx ∧ (before rank).landed (slot side) word = false ∧ (before rank).toks.isSome = true ∧
      AllArrived program.nx (iyEnd program rank) (before rank).toSolver ∧
      after = Function.update (sentWord before rank side word) (peer rank side) (receivedWord before rank side word) := by
  simp only [step] at taken
  split at taken
  case h_2 => cases taken
  case h_1 which source cell moved =>
    obtain ⟨work, found, ready, _, _, pending⟩ := landing_queued _ _ rank target index word _ moved
    have member := List.mem_of_getElem? found
    obtain ⟨side, same, carries⟩ := control.carries work member
    obtain ⟨rfl, within, cells⟩ := landing_result placed.toPlaced rank (peer rank side) target (before rank).rt
      (before rank).landed index word work _ _ control.opened found carries moved
    obtain ⟨rfl, rfl, rfl⟩ : which = work.slot ∧ source = _ ∧ cell = _ := by simpa only [Prod.mk.injEq] using cells
    have armed : (before rank).toks.isSome = true := by
      by_contra none
      rw [Option.not_isSome_iff_eq_none] at none
      rw [(Rt.idle_batch _ control.batch (control.idle none).1).1] at member
      cases member
    refine ⟨side, within, same ▸ pending, armed, ?_, ?_⟩
    · by_contra missing
      rw [Rt.WriteReady, control.unfired armed missing, (control.batch.writes work member).2.1] at ready
      exact absurd ready (Nat.not_succ_le_zero _)
    · rw [← Option.some.inj taken, same]
      rfl

theorem step_controlled (placed : Placed program) (before after : State Real program) (action : Action program)
    (controlled : Controlled before) (taken : step program numbers before action = some after) : Controlled after := by
  cases action with
  | queuePuts rank =>
      simp only [step, Option.ite_none_right_eq_some, Option.map_eq_some_iff] at taken
      obtain ⟨⟨running, fresh, outside⟩, next, queued, rfl⟩ := taken
      exact controlled_update before rank next controlled
        (queue_control placed rank _ next (controlled rank) ((running_iff rank _ (controlled rank)).mp running) fresh
          outside queued)
  | thread rank thread =>
      simp only [step, Option.ite_none_right_eq_some, Option.some.injEq] at taken
      obtain ⟨⟨queued, _, _⟩, rfl⟩ := taken
      exact controlled_update before rank _ controlled (thread_control rank _ thread (controlled rank) queued)
  | block rank block =>
      simp only [step, Option.ite_none_right_eq_some, Option.some.injEq] at taken
      obtain ⟨⟨left, right, synced, fresh⟩, rfl⟩ := taken
      exact controlled_update before rank _ controlled
        (block_done_control placed rank _ block (controlled rank) ⟨left, right⟩ synced fresh)
  | land rank target index word =>
      obtain ⟨side, _, _, _, _, rfl⟩ := land_result placed before after rank target index word (controlled rank) taken
      have sent := controlled_update before rank _ controlled (landed_control rank _ (slot side) word (controlled rank))
      exact controlled_update _ _ _ sent (write_control _ _ _ _ _ (sent (peer rank side)))
  | completeWrite rank index =>
      simp only [step, Option.ite_none_right_eq_some, Option.map_eq_some_iff] at taken
      obtain ⟨whole, rt, completed, rfl⟩ := taken
      exact controlled_update before rank _ controlled
        (complete_write_control rank _ index rt (controlled rank) whole completed)
  | completeAtomic rank index =>
      simp only [step, Option.map_eq_some_iff] at taken
      obtain ⟨rt, completed, rfl⟩ := taken
      exact controlled_update before rank _ controlled (complete_atomic_control rank _ index rt (controlled rank) completed)
  | sync rank =>
      simp only [step, Option.ite_none_right_eq_some, Option.some.injEq] at taken
      obtain ⟨⟨queued, _, all⟩, rfl⟩ := taken
      exact controlled_update before rank _ controlled (sync_control rank _ (controlled rank) queued all)
  | wait rank =>
      simp only [step, Option.ite_none_right_eq_some, Option.some.injEq] at taken
      obtain ⟨⟨_, more, waited⟩, rfl⟩ := taken
      exact controlled_update before rank _ controlled (wait_control rank _ (controlled rank) more waited)
  | finish rank =>
      simp only [step, Option.ite_none_right_eq_some, Option.map_eq_some_iff] at taken
      obtain ⟨⟨synced, outside, waited⟩, rt, reset, rfl⟩ := taken
      exact controlled_update before rank _ controlled (finish_control rank _ rt (controlled rank) synced outside waited reset)
  | leave rank =>
      simp only [step, Option.ite_none_right_eq_some, Option.some.injEq] at taken
      obtain ⟨⟨waiting, _⟩, rfl⟩ := taken
      exact controlled_update before rank _ controlled (leave_control rank _ (controlled rank) waiting)

end OpenGda.Examples.OfiJacobi
