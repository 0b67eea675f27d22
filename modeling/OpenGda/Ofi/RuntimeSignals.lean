import OpenGda.Ofi.RuntimeQuiet

set_option autoImplicit false

-- Completion signals over several prepare() calls of one batch.
namespace OpenGda.Rt

open DeferredWork Machine

def AfterPrepare (_ : Runtime) : Action → Prop
  | .prepare | .prepareTrigger | .reset => False
  | _ => True

-- The context has been flushed since, and everything the flush has released has landed.
def Settled (prepared rt : Runtime) : Prop :=
  prepared.flushes.length < rt.flushes.length ∧ (∀ work ∈ rt.writes, ¬ WriteReady rt work) ∧
    ∀ work ∈ rt.atomics, ¬ AtomicReady rt work

structure SignalInv (before rt : Runtime) : Prop where
  batch : BatchInv rt
  context : rt.devCtx = ⟨before.nOps, true, before.nOps, before.batch, before.nOps⟩
  fewer : ∀ slot < before.nOps, slot ∈ pendingAtomics rt → slot ∈ pendingAtomics before
  grown : before.nOps ≤ rt.nOps
  slots : ∀ slot < before.nOps, 1 ≤ rt.slotPool slot ↔ slot ∈ pendingAtomics before ∧ slot ∉ pendingAtomics rt
  flushes : before.flushes.length ≤ rt.flushes.length
  flushed : before.flushes.length < rt.flushes.length → rt.fabric.nic.counters .trigger = before.nOps

theorem prepare_signal (before : Runtime) (inv : BatchInv before) : SignalInv before (prepare before) where
  batch := prepare_batch before inv
  context := rfl
  fewer := fun _ _ pending => pending
  grown := Nat.le_refl _
  slots := by
    intro slot inside
    have zero : (prepare before).slotPool slot = 0 := if_pos inside
    rw [zero]
    exact ⟨fun signalled => absurd signalled (by decide), fun ⟨pending, gone⟩ => absurd pending gone⟩
  flushes := Nat.le_refl _
  flushed := fun less => absurd less (Nat.lt_irrefl _)

theorem signal_frame (start before after : Runtime) (inv : SignalInv start before) (batch : BatchInv after)
    (context : after.devCtx = before.devCtx) (atomics : after.atomics = before.atomics)
    (slots : after.slotPool = before.slotPool) (grown : before.nOps ≤ after.nOps)
    (flushes : before.flushes.length ≤ after.flushes.length)
    (flushed : start.flushes.length < after.flushes.length → after.fabric.nic.counters .trigger = start.nOps) :
    SignalInv start after := by
  have pending : pendingAtomics after = pendingAtomics before := by rw [pendingAtomics, atomics, pendingAtomics]
  refine ⟨batch, context.trans inv.context, ?_, Nat.le_trans inv.grown grown, ?_, Nat.le_trans inv.flushes flushes, flushed⟩
  · rw [pending]
    exact inv.fewer
  · rw [slots, pending]
    exact inv.slots

theorem signal_step (start before after : Runtime) (action : Action) (inv : SignalInv start before)
    (later : AfterPrepare before action) (taken : step before action = some after) : SignalInv start after := by
  have batch := step_batch before after action inv.batch taken
  cases action with
  | prepare => exact absurd later not_false
  | prepareTrigger => exact absurd later not_false
  | reset => exact absurd later not_false
  | registerBuffer buf size desc key =>
      rw [← Option.some.inj taken] at batch ⊢
      exact signal_frame start before _ inv batch rfl rfl rfl (Nat.le_refl _) (Nat.le_refl _) inv.flushed
  | exchange raw =>
      obtain ⟨_, rfl⟩ := exchange_result before after raw taken
      exact signal_frame start before _ inv batch rfl rfl rfl (Nat.le_refl _) (Nat.le_refl _) inv.flushed
  | putNoDb src destRank destBufIndex size srcOffset dstOffset =>
      simp only [step, Option.map_eq_some_iff, Prod.exists] at taken
      obtain ⟨tok, next, taken, rfl⟩ := taken
      obtain ⟨_, _, write, rfl⟩ := put_no_db_result before _ src destRank destBufIndex size srcOffset dstOffset tok taken
      have grown := inv.grown
      have pending : ∀ slot < start.nOps, slot ∈ before.atomics.map SlotAtomic.slot ++ [before.nOps] ↔
          slot ∈ pendingAtomics before := by
        intro slot inside
        rw [List.mem_append, List.mem_singleton, or_iff_left (by omega)]
        rfl
      refine ⟨batch, inv.context, ?_, Nat.le_succ_of_le grown, ?_, inv.flushes, inv.flushed⟩
      · intro slot inside queued
        simp only [pendingAtomics, List.map_append, List.map_cons, List.map_nil] at queued
        exact inv.fewer slot inside ((pending slot inside).mp queued)
      · intro slot inside
        have same := inv.slots slot inside
        rw [← pending slot inside] at same
        simpa only [pendingAtomics, List.map_append, List.map_cons, List.map_nil] using same
  | flush =>
      rw [← Option.some.inj taken] at batch ⊢
      refine signal_frame start before _ inv batch rfl rfl rfl (Nat.le_refl _) ?_ fun _ => ?_
      · simp [flush]
      · simp [flush, setCounter, inv.context]
  | startQuiet blockDim =>
      obtain ⟨_, rfl⟩ := start_quiet_result before after blockDim taken
      exact signal_frame start before _ inv batch rfl rfl rfl (Nat.le_refl _) (Nat.le_refl _) inv.flushed
  | quietStep place =>
      obtain ⟨_, rfl⟩ := quiet_step_result before after place taken
      exact signal_frame start before _ inv batch rfl rfl rfl (Nat.le_refl _) (Nat.le_refl _) inv.flushed
  | completeWrite index =>
      obtain ⟨_, _, _, rfl⟩ := complete_write_result before after index taken
      exact signal_frame start before _ inv batch rfl rfl rfl (Nat.le_refl _) (Nat.le_refl _) inv.flushed
  | completeAtomic index =>
      obtain ⟨work, member, _, rfl, gone, _, _, _, slots⟩ := complete_atomic_result before after index inv.batch taken
      refine ⟨batch, inv.context, ?_, inv.grown, ?_, inv.flushes, inv.flushed⟩
      · intro slot inside pending
        exact inv.fewer slot inside ((slots slot).mpr (Or.inr pending))
      · intro slot inside
        by_cases here : slot = work.slot
        · subst here
          have queued := inv.fewer _ inside ((slots _).mpr (Or.inl rfl))
          simp only [Function.update_self]
          exact ⟨fun _ => ⟨queued, gone⟩, fun _ => Nat.succ_le_succ (Nat.zero_le _)⟩
        · simp only [Function.update_of_ne here]
          rw [inv.slots slot inside, slots slot]
          simp only [here, false_or]

theorem settled_landed (start rt : Runtime) (inv : SignalInv start rt) (settled : Settled start rt) (slot : Nat)
    (inside : slot < start.nOps) : slot ∉ pendingAtomics rt := by
  obtain ⟨flushed, writes, atomics⟩ := settled
  have trigger := inv.flushed flushed
  have grown := inv.grown
  have written : slot ∉ pendingWrites rt := by
    intro pending
    obtain ⟨work, member, rfl⟩ := List.mem_map.mp pending
    apply writes work member
    rw [WriteReady, (inv.batch.writes work member).2.1, trigger]
    exact inside
  intro pending
  obtain ⟨work, member, rfl⟩ := List.mem_map.mp pending
  apply atomics work member
  rw [AtomicReady, (inv.batch.atomics work member).2.1, (inv.batch.completions _ (by omega)).2 written]

-- quiet() on the last prepared context can return exactly when no signal of the
-- batch had landed before that prepare() zeroed the slots.
theorem signals_kept_iff (avAddrs : Nat → Nat) (virtAddrMode : Bool) (before rt : Runtime)
    (reached : Reach step always (openRuntime avAddrs virtAddrMode) before)
    (later : Reach step AfterPrepare (prepare before) rt) (settled : Settled (prepare before) rt) :
    QuietExits rt ↔ ∀ slot < before.nOps, slot ∈ pendingAtomics before := by
  have start : BatchInv before := reach_invariant step always BatchInv (openRuntime avAddrs virtAddrMode) before
    (open_batch avAddrs virtAddrMode) (fun before after action inv _ taken => step_batch before after action inv taken)
    reached
  have inv : SignalInv before rt := reach_invariant step AfterPrepare (SignalInv before) (prepare before) rt
    (prepare_signal before start) (signal_step before) later
  have landed := settled_landed before rt inv settled
  rw [QuietExits, inv.context]
  constructor
  · exact fun exits slot inside => ((inv.slots slot inside).mp (exits rfl slot inside)).1
  · exact fun pending _ slot inside => (inv.slots slot inside).mpr ⟨pending slot inside, landed slot inside⟩

instance (prepared rt : Runtime) : Decidable (Settled prepared rt) := inferInstanceAs (Decidable (_ ∧ _ ∧ _))

instance (rt : Runtime) : Decidable (QuietExits rt) := inferInstanceAs (Decidable (_ → _))

instance (rt : Runtime) : (action : Action) → Decidable (AfterPrepare rt action)
  | .prepare | .prepareTrigger | .reset => isFalse not_false
  | .registerBuffer _ _ _ _ | .exchange _ | .putNoDb _ _ _ _ _ _ | .flush | .startQuiet _ | .quietStep _
  | .completeWrite _ | .completeAtomic _ => isTrue trivial

def firstSignalled : List Action :=
  registered ++ [samplePut, .prepare, .flush, .completeWrite 0, .completeAtomic 0, samplePut]

def flushAll : List Action := [.flush, .completeWrite 0, .completeAtomic 0]

theorem first_signalled_reached : ∃ before, Reach step always (openRuntime id true) before ∧
    ((run (guarded step AfterPrepare) (prepare before) flushAll).any fun rt =>
      decide (Settled (prepare before) rt ∧ ¬ QuietExits rt)) = true :=
  reach_of_decided step always firstSignalled (openRuntime id true) _ (by decide +kernel)

theorem second_prepare_loses_signal : ¬ ∀ before rt, Reach step always (openRuntime id true) before →
    Reach step AfterPrepare (prepare before) rt → Settled (prepare before) rt → QuietExits rt := by
  intro claim
  obtain ⟨before, reached, decided⟩ := first_signalled_reached
  obtain ⟨rt, later, settled, stuck⟩ := reach_of_decided step AfterPrepare flushAll (prepare before) _ decided
  exact stuck (claim before rt reached later settled)

theorem two_queued_reached : ∃ before, Reach step always (openRuntime id true) before ∧
    (before.nOps = 2 ∧ ((run (guarded step AfterPrepare) (prepare before)
      [.flush, .completeWrite 1, .completeAtomic 1, .completeWrite 0, .completeAtomic 0]).any fun rt =>
        decide (Settled (prepare before) rt ∧ QuietExits rt)) = true) :=
  reach_of_decided step always (registered ++ [samplePut, samplePut]) (openRuntime id true) _ (by decide +kernel)

theorem one_prepare_keeps_signals : ∃ before rt : Runtime, before.nOps = 2 ∧ QuietExits rt ∧
    ∀ slot < before.nOps, slot ∈ pendingAtomics before := by
  obtain ⟨before, reached, two, decided⟩ := two_queued_reached
  obtain ⟨rt, later, settled, exits⟩ := reach_of_decided step AfterPrepare _ (prepare before) _ decided
  exact ⟨before, rt, two, exits, (signals_kept_iff id true before rt reached later settled).mp exits⟩

end OpenGda.Rt
