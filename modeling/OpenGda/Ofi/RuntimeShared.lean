import OpenGda.Ofi.FabricWait
import OpenGda.Ofi.RuntimeSignals

set_option autoImplicit false

-- A Runtime and other users of its Fabric (rt.fabric(), also under gicc::am::Am):
-- one trigger counter, two ways to number what waits for it.
namespace OpenGda.Rt

open DeferredWork Machine
open Ofi (Fabric RmaWrite CntrWork Queued rmaWork writebackWork)

inductive SharedAction where
  | runtime (action : Action)
  | fabric (action : Ofi.Action)

-- put, put_raw, trigger and wait of the Fabric; reset_counters() is not among them.
def sharedStep (rt : Runtime) : SharedAction → Option Runtime
  | .runtime action => step rt action
  | .fabric .resetCounters => none
  | .fabric (.trigger threshold) =>
      some { rt with fabric := Ofi.trigger rt.fabric threshold, triggers := rt.triggers ++ [threshold] }
  | .fabric .triggerKernel => (Ofi.triggerKernel rt.fabric).map fun fabric => { rt with fabric := fabric }
  | .fabric action => (Ofi.step rt.fabric action).map fun fabric => { rt with fabric := fabric }

def signal (rt : Runtime) : Nat := rt.fabric.nic.counters .trigger

-- A flush whose value was prepared after the write was queued.
def Flushed (rt : Runtime) (work : SlotWrite) : Prop :=
  ∃ ctx ∈ rt.flushes, ctx.batch = work.batch ∧ work.slot < ctx.queued

def Covered (rt : Runtime) (threshold : Nat) : Prop := ∃ value ∈ rt.triggers, threshold ≤ value

def fabricWrite (work : CntrWork) : Bool :=
  match work.op with
  | .write _ => true
  | .cntrAdd _ _ => false

def WaitsForOwn (rt : Runtime) : Prop :=
  (∀ work ∈ rt.writes, WriteReady rt work → Flushed rt work) ∧
    ∀ work ∈ rt.fabric.nic.pending, fabricWrite work = true → Ready rt.fabric.nic work → Covered rt work.threshold

-- The Fabric's other users are through with their puts: the last one is triggered
-- and no trigger kernel is left on the stream.
def FabricIdle (rt : Runtime) : Prop :=
  rt.fabric.launched = [] ∧ (rt.fabric.currentThreshold = 0 ∨ Covered rt rt.fabric.currentThreshold)

-- The users take turns. A batch of put_no_db is opened on a trigger counter that was
-- set back to 0, with the Fabric idle; until its reset() the others queue and trigger
-- nothing, and what is flushed was prepared after the last reset().
def Separate (rt : Runtime) : SharedAction → Prop
  | .runtime (.putNoDb _ _ _ _ _ _) => rt.nOps = 0 → signal rt = 0 ∧ FabricIdle rt
  | .runtime .flush => rt.devCtx.batch = rt.batch
  | .fabric (.call _) | .fabric (.trigger _) => rt.nOps = 0
  | _ => True

structure SharedInv (rt : Runtime) : Prop where
  batch : BatchInv rt
  queued : Queued rt.fabric
  numbered : ∀ work ∈ rt.fabric.nic.pending, fabricWrite work = true →
    0 < work.threshold ∧ work.threshold ≤ rt.fabric.currentThreshold
  prepared : rt.devCtx.triggerVal ≤ rt.devCtx.queued ∧
    (rt.devCtx.batch = rt.batch → rt.devCtx.queued ≤ rt.nOps)
  launched : ∀ value ∈ rt.fabric.launched, Covered rt value
  closed : rt.nOps = 0 → signal rt = 0 ∨ Covered rt (signal rt)
  opened : 0 < rt.nOps → signal rt ≤ rt.nOps ∧ FabricIdle rt
  waits : WaitsForOwn rt

theorem open_shared (avAddrs : Nat → Nat) (virtAddrMode : Bool) : SharedInv (openRuntime avAddrs virtAddrMode) where
  batch := open_batch avAddrs virtAddrMode
  queued := by simp [Queued, openRuntime, Ofi.openFabric]
  numbered := by simp [openRuntime, Ofi.openFabric]
  prepared := by simp [openRuntime]
  launched := by simp [openRuntime, Ofi.openFabric]
  closed := by simp [signal, openRuntime, Ofi.openFabric]
  opened := by simp [openRuntime]
  waits := by simp [WaitsForOwn, openRuntime, Ofi.openFabric]

theorem queued_write (fabric : Fabric) (queued : Queued fabric) (work : CntrWork) (member : work ∈ fabric.nic.pending)
    (write : fabricWrite work = true) : ∃ desc threshold, work = rmaWork desc threshold := by
  rcases queued work member with ⟨desc, threshold, rfl, _⟩ | ⟨threshold, rfl⟩
  · exact ⟨desc, threshold, rfl⟩
  · exact absurd write Bool.false_ne_true

theorem covered_keep (before after : Runtime) (threshold : Nat) (triggers : ∀ value ∈ before.triggers, value ∈ after.triggers)
    (covered : Covered before threshold) : Covered after threshold := by
  obtain ⟨value, called, reached⟩ := covered
  exact ⟨value, triggers value called, reached⟩

theorem idle_covered (rt : Runtime) (idle : FabricIdle rt) (work : CntrWork)
    (numbered : 0 < work.threshold ∧ work.threshold ≤ rt.fabric.currentThreshold) : Covered rt work.threshold := by
  rcases idle.2 with unused | ⟨value, called, reached⟩
  · omega
  · exact ⟨value, called, Nat.le_trans numbered.2 reached⟩

theorem waits_keep (before after : Runtime) (waits : WaitsForOwn before) (queued : Queued before.fabric)
    (lower : signal after ≤ signal before) (writes : ∀ work ∈ after.writes, work ∈ before.writes)
    (pending : ∀ work ∈ after.fabric.nic.pending, fabricWrite work = true → work ∈ before.fabric.nic.pending)
    (flushes : ∀ ctx ∈ before.flushes, ctx ∈ after.flushes) (triggers : ∀ value ∈ before.triggers, value ∈ after.triggers) :
    WaitsForOwn after := by
  refine ⟨?_, ?_⟩
  · intro work member ready
    obtain ⟨ctx, flushed, own⟩ := waits.1 work (writes work member) (Nat.le_trans ready lower)
    exact ⟨ctx, flushes ctx flushed, own⟩
  · intro work member write ready
    have old := pending work member write
    obtain ⟨desc, threshold, rfl⟩ := queued_write before.fabric queued work old write
    exact covered_keep before after threshold triggers (waits.2 _ old write (Nat.le_trans ready lower))

structure SameTurn (before after : Runtime) : Prop where
  fabric : after.fabric.nic = before.fabric.nic ∧ after.fabric.currentThreshold = before.fabric.currentThreshold ∧
    after.fabric.launched = before.fabric.launched
  calls : after.flushes = before.flushes ∧ after.triggers = before.triggers
  batch : after.nOps = before.nOps ∧ after.batch = before.batch ∧ after.devCtx = before.devCtx
  writes : ∀ work ∈ after.writes, work ∈ before.writes

theorem shared_frame (before after : Runtime) (inv : SharedInv before) (batch : BatchInv after)
    (queued : Queued after.fabric) (same : SameTurn before after) : SharedInv after := by
  obtain ⟨⟨nic, currentThreshold, launched⟩, ⟨flushes, triggers⟩, ⟨nOps, count, devCtx⟩, writes⟩ := same
  have signals : signal after = signal before := by rw [signal, signal, nic]
  have covered : ∀ threshold, Covered after threshold ↔ Covered before threshold := by
    intro threshold
    rw [Covered, Covered, triggers]
  refine ⟨batch, queued, ?_, ?_, ?_, ?_, ?_, ?_⟩
  · rw [nic, currentThreshold]
    exact inv.numbered
  · rw [devCtx, count, nOps]
    exact inv.prepared
  · simp only [covered, launched]
    exact inv.launched
  · simp only [covered, nOps, signals]
    exact inv.closed
  · simp only [FabricIdle, covered, nOps, signals, launched, currentThreshold]
    exact inv.opened
  · refine waits_keep before after inv.waits inv.queued (Nat.le_of_eq signals) writes ?_ ?_ ?_
    · rw [nic]
      exact fun work member _ => member
    · exact fun ctx member => flushes ▸ member
    · exact fun value member => triggers ▸ member

theorem put_no_db_shared (before : Runtime) (write : RmaWrite) (inv : SharedInv before)
    (separate : before.nOps = 0 → signal before = 0 ∧ FabricIdle before) (batch : BatchInv { before with
      nOps := before.nOps + 1
      writes := before.writes ++ [⟨before.nOps, before.nOps + 1, write, before.batch⟩]
      atomics := before.atomics ++ [⟨before.nOps, 1, before.batch⟩]
      atomicSignalsQueued := true }) : SharedInv { before with
      nOps := before.nOps + 1
      writes := before.writes ++ [⟨before.nOps, before.nOps + 1, write, before.batch⟩]
      atomics := before.atomics ++ [⟨before.nOps, 1, before.batch⟩]
      atomicSignalsQueued := true } := by
  have below : signal before ≤ before.nOps ∧ FabricIdle before := by
    rcases Nat.eq_zero_or_pos before.nOps with none | some
    · obtain ⟨zero, idle⟩ := separate none
      exact ⟨zero ▸ Nat.zero_le _, idle⟩
    · exact inv.opened some
  refine ⟨batch, inv.queued, inv.numbered, ?_, inv.launched, ?_, ?_, ?_, inv.waits.2⟩
  · exact ⟨inv.prepared.1, fun now => Nat.le_succ_of_le (inv.prepared.2 now)⟩
  · exact fun none => absurd none (Nat.succ_ne_zero _)
  · exact fun _ => ⟨Nat.le_succ_of_le below.1, below.2⟩
  · intro work member ready
    rcases List.mem_append.mp member with old | new
    · exact inv.waits.1 work old ready
    · rw [List.mem_singleton.mp new] at ready
      exact absurd ready (Nat.not_le.mpr (Nat.lt_succ_of_le below.1))

theorem reset_shared (before after : Runtime) (inv : SharedInv before) (batch : BatchInv after)
    (taken : reset before = some after) : SharedInv after := by
  have context := inv.batch.context.1
  simp only [reset] at taken
  split_ifs at taken
  rw [← Option.some.inj taken] at batch ⊢
  have zero : (setCounter before.fabric.nic .trigger 0).counters .trigger = 0 := by simp [setCounter]
  refine ⟨batch, inv.queued, inv.numbered, ⟨inv.prepared.1, ?_⟩, inv.launched, ?_, ?_, ?_⟩
  · intro now
    have later : before.devCtx.batch = before.batch + 1 := now
    omega
  · exact fun _ => Or.inl zero
  · exact fun some => absurd some (Nat.lt_irrefl 0)
  · refine waits_keep before _ inv.waits inv.queued ?_ (fun work member => member) (fun work member _ => member)
      (fun ctx member => member) fun value member => member
    exact Nat.le_trans (Nat.le_of_eq zero) (Nat.zero_le _)

theorem flush_shared (before : Runtime) (inv : SharedInv before) (now : before.devCtx.batch = before.batch)
    (batch : BatchInv (flush before)) : SharedInv (flush before) := by
  have stored : signal (flush before) = before.devCtx.triggerVal := by simp [signal, flush, setCounter]
  have small : before.devCtx.triggerVal ≤ before.nOps := Nat.le_trans inv.prepared.1 (inv.prepared.2 now)
  refine ⟨batch, inv.queued, inv.numbered, inv.prepared, inv.launched, ?_, ?_, ?_, ?_⟩
  · intro none
    have idle : before.nOps = 0 := none
    left
    omega
  · exact fun some => ⟨stored ▸ small, (inv.opened some).2⟩
  · intro work member ready
    obtain ⟨_, threshold, stamp⟩ := inv.batch.writes work member
    have reached : work.threshold ≤ signal (flush before) := ready
    have counted := inv.prepared.1
    exact ⟨before.devCtx, by simp [flush], now.trans stamp.symm, by omega⟩
  · intro work member write ready
    have numbered := inv.numbered work member write
    obtain ⟨desc, threshold, rfl⟩ := queued_write before.fabric inv.queued work member write
    have reached : threshold ≤ signal (flush before) := ready
    have positive : 0 < threshold := numbered.1
    -- A value above 0 was prepared in an open batch, and the Fabric was idle when that was opened.
    exact idle_covered before (inv.opened (by omega)).2 _ numbered

theorem runtime_shared (before after : Runtime) (action : Action) (inv : SharedInv before)
    (separate : Separate before (.runtime action)) (taken : step before action = some after) : SharedInv after := by
  have batch := step_batch before after action inv.batch taken
  cases action with
  | registerBuffer buf size desc key =>
      rw [← Option.some.inj taken] at batch ⊢
      exact shared_frame before _ inv batch inv.queued ⟨⟨rfl, rfl, rfl⟩, ⟨rfl, rfl⟩, ⟨rfl, rfl, rfl⟩, fun _ member => member⟩
  | exchange raw =>
      obtain ⟨_, rfl⟩ := exchange_result before after raw taken
      exact shared_frame before _ inv batch inv.queued ⟨⟨rfl, rfl, rfl⟩, ⟨rfl, rfl⟩, ⟨rfl, rfl, rfl⟩, fun _ member => member⟩
  | putNoDb src destRank destBufIndex size srcOffset dstOffset =>
      simp only [step, Option.map_eq_some_iff, Prod.exists] at taken
      obtain ⟨tok, next, taken, rfl⟩ := taken
      obtain ⟨_, _, write, rfl⟩ := put_no_db_result before _ src destRank destBufIndex size srcOffset dstOffset tok taken
      exact put_no_db_shared before write inv separate batch
  | prepare =>
      rw [← Option.some.inj taken] at batch ⊢
      exact ⟨batch, inv.queued, inv.numbered, ⟨Nat.le_refl _, fun _ => Nat.le_refl _⟩, inv.launched, inv.closed,
        inv.opened, inv.waits⟩
  | prepareTrigger =>
      rw [← Option.some.inj taken] at batch ⊢
      exact ⟨batch, inv.queued, inv.numbered, ⟨Nat.le_refl _, fun _ => Nat.le_refl _⟩, inv.launched, inv.closed,
        inv.opened, inv.waits⟩
  | reset => exact reset_shared before after inv batch taken
  | flush =>
      rw [← Option.some.inj taken] at batch ⊢
      exact flush_shared before inv separate batch
  | startQuiet blockDim =>
      obtain ⟨_, rfl⟩ := start_quiet_result before after blockDim taken
      exact shared_frame before _ inv batch inv.queued ⟨⟨rfl, rfl, rfl⟩, ⟨rfl, rfl⟩, ⟨rfl, rfl, rfl⟩, fun _ member => member⟩
  | quietStep place =>
      obtain ⟨_, rfl⟩ := quiet_step_result before after place taken
      exact shared_frame before _ inv batch inv.queued ⟨⟨rfl, rfl, rfl⟩, ⟨rfl, rfl⟩, ⟨rfl, rfl, rfl⟩, fun _ member => member⟩
  | completeWrite index =>
      obtain ⟨_, _, _, rfl⟩ := complete_write_result before after index taken
      exact shared_frame before _ inv batch inv.queued ⟨⟨rfl, rfl, rfl⟩, ⟨rfl, rfl⟩, ⟨rfl, rfl, rfl⟩,
        fun _ member => List.mem_of_mem_eraseIdx member⟩
  | completeAtomic index =>
      obtain ⟨work, _, _, rfl, _⟩ := complete_atomic_result before after index inv.batch taken
      exact shared_frame before _ inv batch inv.queued ⟨⟨rfl, rfl, rfl⟩, ⟨rfl, rfl⟩, ⟨rfl, rfl, rfl⟩, fun _ member => member⟩

theorem fabric_batch (before : Runtime) (fabric : Fabric) (inv : BatchInv before) :
    BatchInv { before with fabric := fabric } :=
  batch_frame before _ inv ⟨⟨rfl, rfl⟩, rfl, ⟨rfl, rfl⟩, ⟨rfl, rfl⟩, rfl, rfl⟩

theorem call_shared (before : Runtime) (call : Ofi.Call) (threshold : Nat) (fabric : Fabric) (inv : SharedInv before)
    (none : before.nOps = 0) (taken : Ofi.queueCall before.fabric call = some (threshold, fabric)) :
    SharedInv { before with fabric := fabric } := by
  obtain ⟨_, change⟩ := Ofi.queue_call_queued before.fabric fabric call threshold taken
  have queued := Ofi.call_queued_works before.fabric fabric call inv.queued change
  have counters : ∀ counter, fabric.nic.counters counter = before.fabric.nic.counters counter := by
    rw [change.counters]
    exact fun _ => rfl
  have members : ∀ work ∈ fabric.nic.pending, fabricWrite work = true → work ∈ before.fabric.nic.pending ∨
      work.threshold = before.fabric.currentThreshold + 1 := by
    intro work member write
    obtain ⟨desc, _, pending⟩ := change.pending
    rw [pending, List.mem_append, List.mem_cons] at member
    rcases member with old | rfl | added
    · exact Or.inl old
    · exact Or.inr change.threshold
    · split_ifs at added
      · simp at added
      · rw [List.mem_singleton.mp added] at write
        exact absurd write Bool.false_ne_true
  refine ⟨fabric_batch before fabric inv.batch, queued, ?_, inv.prepared, ?_, ?_, ?_, ?_, ?_⟩
  · intro work member write
    rw [change.threshold]
    rcases members work member write with old | new
    · have numbered := inv.numbered work old write
      exact ⟨numbered.1, Nat.le_succ_of_le numbered.2⟩
    · omega
  · rw [change.launched]
    exact inv.launched
  · intro _
    rw [signal, counters]
    exact inv.closed none
  · exact fun some => absurd none (Nat.ne_of_gt some)
  · intro work member ready
    rw [WriteReady, counters] at ready
    exact inv.waits.1 work member ready
  · intro work member write ready
    have reached : work.threshold ≤ signal before := by
      obtain ⟨desc, threshold, rfl⟩ := queued_write fabric queued work member write
      rw [Ready, counters] at ready
      exact ready
    rcases members work member write with old | new
    · obtain ⟨desc, threshold, rfl⟩ := queued_write before.fabric inv.queued work old write
      exact inv.waits.2 _ old write reached
    · -- Between batches the counter shows what a trigger call has covered.
      rcases inv.closed none with zero | ⟨value, called, above⟩
      · omega
      · exact ⟨value, called, Nat.le_trans reached above⟩

theorem trigger_shared (before : Runtime) (threshold : Nat) (inv : SharedInv before) (none : before.nOps = 0) :
    SharedInv { before with fabric := Ofi.trigger before.fabric threshold, triggers := before.triggers ++ [threshold] } := by
  have later : ∀ value ∈ before.triggers, value ∈ before.triggers ++ [threshold] :=
    fun value member => List.mem_append_left _ member
  refine ⟨batch_frame before _ inv.batch ⟨⟨rfl, rfl⟩, rfl, ⟨rfl, rfl⟩, ⟨rfl, rfl⟩, rfl, rfl⟩, inv.queued, inv.numbered,
    inv.prepared, ?_, ?_, ?_, ?_⟩
  · intro value member
    rcases List.mem_append.mp member with old | new
    · exact covered_keep before _ value later (inv.launched value old)
    · exact ⟨threshold, by simp, Nat.le_of_eq (List.mem_singleton.mp new)⟩
  · exact fun _ => (inv.closed none).imp_right (covered_keep before _ _ later)
  · exact fun some => absurd none (Nat.ne_of_gt some)
  · exact waits_keep before _ inv.waits inv.queued (Nat.le_refl _) (fun work member => member)
      (fun work member _ => member) (fun ctx member => member) later

theorem kernel_shared (before : Runtime) (fabric : Fabric) (inv : SharedInv before)
    (taken : Ofi.triggerKernel before.fabric = some fabric) : SharedInv { before with fabric := fabric } := by
  unfold Ofi.triggerKernel at taken
  cases launched : before.fabric.launched with
  | nil => simp [launched] at taken
  | cons value rest =>
      simp only [launched, Option.some.injEq] at taken
      subst taken
      -- With a kernel on the stream no batch is open, so no put_no_db is waiting.
      have none : before.nOps = 0 := by
        by_contra some
        have idle := (inv.opened (Nat.pos_of_ne_zero some)).2.1
        rw [launched] at idle
        exact absurd idle (List.cons_ne_nil _ _)
      have called : ∀ other ∈ value :: rest, Covered before other := by
        rw [← launched]
        exact inv.launched
      have stored : (setCounter before.fabric.nic .trigger value).counters .trigger = value := by simp [setCounter]
      refine ⟨fabric_batch before _ inv.batch, inv.queued, inv.numbered, inv.prepared, ?_, ?_, ?_, ?_, ?_⟩
      · exact fun other member => called other (List.mem_cons_of_mem _ member)
      · intro _
        right
        rw [signal, stored]
        exact called value List.mem_cons_self
      · exact fun some => absurd none (Nat.ne_of_gt some)
      · intro work member
        rw [(idle_batch before inv.batch none).1] at member
        exact absurd member List.not_mem_nil
      · intro work member write ready
        obtain ⟨desc, threshold, rfl⟩ := queued_write before.fabric inv.queued work member write
        have reached : threshold ≤ value := by simpa [Ready, setCounter, rmaWork] using ready
        obtain ⟨top, given, above⟩ := called value List.mem_cons_self
        exact ⟨top, given, Nat.le_trans reached above⟩

theorem fire_shared (before : Runtime) (index : Nat) (fabric : Fabric) (inv : SharedInv before)
    (taken : Ofi.fireWork before.fabric index = some fabric) : SharedInv { before with fabric := fabric } := by
  have queued := Ofi.step_queued before.fabric fabric (.fire index) inv.queued taken
  obtain ⟨work, nic, fired, rfl⟩ := Ofi.fire_work_fired before.fabric fabric index taken
  obtain ⟨member, rest⟩ := fired_pending _ _ _ fired
  have same : nic.counters .trigger = signal before := by
    rw [fired.counters, signal]
    rcases inv.queued work member with ⟨desc, threshold, rfl, _⟩ | ⟨threshold, rfl⟩
    · simp [credit, rmaWork]
    · simp [credit, writebackWork]
  refine ⟨fabric_batch before _ inv.batch, queued, ?_, inv.prepared, inv.launched, ?_, ?_, ?_⟩
  · exact fun other still write => inv.numbered other (rest other still) write
  · intro none
    rw [signal, same]
    exact inv.closed none
  · intro some
    rw [signal, same]
    exact inv.opened some
  · exact waits_keep before _ inv.waits inv.queued (Nat.le_of_eq same) (fun work member => member)
      (fun other still _ => rest other still) (fun ctx member => member) fun value member => member

theorem shared_step_inv (before after : Runtime) (action : SharedAction) (inv : SharedInv before)
    (separate : Separate before action) (taken : sharedStep before action = some after) : SharedInv after := by
  cases action with
  | runtime action => exact runtime_shared before after action inv separate taken
  | fabric action =>
      cases action with
      | call call =>
          simp only [sharedStep, Ofi.step, Option.map_map, Option.map_eq_some_iff, Prod.exists] at taken
          obtain ⟨threshold, fabric, taken, rfl⟩ := taken
          exact call_shared before call threshold fabric inv separate taken
      | setRemoteInfoByIndex destRank bufIndex remoteAddr remoteKey remoteBaseAddr =>
          rw [← Option.some.inj taken]
          exact shared_frame before _ inv (fabric_batch before _ inv.batch) inv.queued
            ⟨⟨rfl, rfl, rfl⟩, ⟨rfl, rfl⟩, ⟨rfl, rfl, rfl⟩, fun _ member => member⟩
      | trigger threshold =>
          rw [← Option.some.inj taken]
          exact trigger_shared before threshold inv separate
      | resetCounters => simp [sharedStep] at taken
      | triggerKernel =>
          simp only [sharedStep, Option.map_eq_some_iff] at taken
          obtain ⟨fabric, taken, rfl⟩ := taken
          exact kernel_shared before fabric inv taken
      | fire index =>
          simp only [sharedStep, Ofi.step, Option.map_eq_some_iff] at taken
          obtain ⟨fabric, taken, rfl⟩ := taken
          exact fire_shared before index fabric inv taken

theorem writes_wait_for_their_trigger (avAddrs : Nat → Nat) (virtAddrMode : Bool) (rt : Runtime)
    (reached : Reach sharedStep Separate (openRuntime avAddrs virtAddrMode) rt) : WaitsForOwn rt :=
  (reach_invariant sharedStep Separate SharedInv (openRuntime avAddrs virtAddrMode) rt
    (open_shared avAddrs virtAddrMode) shared_step_inv reached).waits

instance (rt : Runtime) (work : SlotWrite) : Decidable (Flushed rt work) :=
  inferInstanceAs (Decidable (∃ ctx ∈ rt.flushes, _ ∧ _))

instance (rt : Runtime) (threshold : Nat) : Decidable (Covered rt threshold) :=
  inferInstanceAs (Decidable (∃ value ∈ rt.triggers, _ ≤ _))

instance (rt : Runtime) : Decidable (WaitsForOwn rt) :=
  inferInstanceAs (Decidable ((∀ work ∈ rt.writes, _ → _) ∧ ∀ work ∈ rt.fabric.nic.pending, _ → _ → _))

instance (rt : Runtime) : Decidable (FabricIdle rt) := inferInstanceAs (Decidable (_ = _ ∧ (_ = _ ∨ _)))

instance (rt : Runtime) : (action : SharedAction) → Decidable (Separate rt action)
  | .runtime (.putNoDb _ _ _ _ _ _) => inferInstanceAs (Decidable (_ → _ ∧ _))
  | .runtime .flush | .fabric (.call _) | .fabric (.trigger _) => inferInstanceAs (Decidable (_ = _))
  | .runtime (.registerBuffer _ _ _ _) | .runtime (.exchange _) | .runtime .prepare | .runtime .prepareTrigger
  | .runtime .reset | .runtime (.startQuiet _) | .runtime (.quietStep _) | .runtime (.completeWrite _)
  | .runtime (.completeAtomic _) | .fabric (.setRemoteInfoByIndex _ _ _ _ _) | .fabric .triggerKernel
  | .fabric .resetCounters | .fabric (.fire _) => isTrue trivial

def samplePutRaw : SharedAction := .fabric (.call (.putRaw ⟨8192, 12, 12⟩ 1 4096 9 8))

def amReleasesPut : List SharedAction :=
  registered.map .runtime ++ [.runtime samplePut, samplePutRaw, samplePutRaw, .fabric (.trigger 2), .fabric .triggerKernel]

theorem am_releases_put_reached : ∃ rt, Reach sharedStep always (openRuntime id true) rt ∧ ¬ WaitsForOwn rt :=
  reach_of_decided sharedStep always amReleasesPut (openRuntime id true) _ (by decide +kernel)

theorem put_released_by_am : ¬ ∀ rt, Reach sharedStep always (openRuntime id true) rt → WaitsForOwn rt := by
  intro claim
  obtain ⟨rt, reached, early⟩ := am_releases_put_reached
  exact early (claim rt reached)

def oneAfterTheOther : List SharedAction :=
  registered.map .runtime ++ [.runtime samplePut, .runtime .prepare, .runtime .flush, .runtime (.completeWrite 0),
    .runtime (.completeAtomic 0), .runtime .reset, samplePutRaw, .fabric (.trigger 1), .fabric .triggerKernel,
    .fabric (.fire 0), .runtime .reset, .runtime samplePut, .runtime samplePut, .runtime .prepare, .runtime .flush]

theorem one_after_the_other_reached : ∃ rt, Reach sharedStep Separate (openRuntime id true) rt ∧
    (rt.batch = 2 ∧ signal rt = 2 ∧ rt.writes.length = 2 ∧ rt.triggers = [1]) :=
  reach_of_decided sharedStep Separate oneAfterTheOther (openRuntime id true) _ (by decide +kernel)

theorem separate_users_wait : ∃ rt : Runtime, rt.batch = 2 ∧ signal rt = 2 ∧ rt.writes.length = 2 ∧
    rt.triggers = [1] ∧ WaitsForOwn rt := by
  obtain ⟨rt, reached, batch, two, writes, triggers⟩ := one_after_the_other_reached
  exact ⟨rt, batch, two, writes, triggers, writes_wait_for_their_trigger id true rt reached⟩

end OpenGda.Rt
