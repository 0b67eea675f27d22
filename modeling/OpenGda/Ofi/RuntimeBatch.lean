import OpenGda.Ofi.Runtime

set_option autoImplicit false

-- Batches of a Runtime: what the counters and slots say about the writes still queued.
namespace OpenGda.Rt

open DeferredWork Machine
open Ofi (Fabric RmaWrite CntrWork Handle RemoteInfo makeRemoteKey setRemoteInfoByIndex)

def pendingWrites (rt : Runtime) : List Nat := rt.writes.map SlotWrite.slot
def pendingAtomics (rt : Runtime) : List Nat := rt.atomics.map SlotAtomic.slot

def CountsOnce (pending : Prop) (count : Nat) : Prop := (pending → count = 0) ∧ (¬ pending → count = 1)

structure BatchInv (rt : Runtime) : Prop where
  full : rt.nOps ≤ poolSize
  queued : 0 < rt.nOps → rt.atomicSignalsQueued = true
  writes : ∀ work ∈ rt.writes, work.slot < rt.nOps ∧ work.threshold = work.slot + 1 ∧ work.batch = rt.batch
  atomics : ∀ work ∈ rt.atomics, work.slot < rt.nOps ∧ work.threshold = 1 ∧ work.batch = rt.batch
  writesOnce : (pendingWrites rt).Nodup
  atomicsOnce : (pendingAtomics rt).Nodup
  completions : ∀ slot < rt.nOps, CountsOnce (slot ∈ pendingWrites rt) (rt.completionCntr slot)
  atomicCompletions : ∀ slot < rt.nOps, CountsOnce (slot ∈ pendingAtomics rt) (rt.atomicCompletionCntr slot)
  unused : ∀ slot, rt.nOps ≤ slot → rt.completionCntr slot = 0 ∧ rt.atomicCompletionCntr slot = 0
  chained : ∀ slot < rt.nOps, slot ∈ pendingWrites rt → slot ∈ pendingAtomics rt
  context : rt.devCtx.batch ≤ rt.batch ∧ (rt.devCtx.batch = rt.batch → rt.devCtx.nOps ≤ rt.nOps)
  signals : rt.devCtx.batch = rt.batch → ∀ slot < rt.devCtx.nOps, 1 ≤ rt.slotPool slot → slot ∉ pendingAtomics rt

theorem open_batch (avAddrs : Nat → Nat) (virtAddrMode : Bool) : BatchInv (openRuntime avAddrs virtAddrMode) where
  full := Nat.zero_le _
  queued := by simp [openRuntime]
  writes := by simp [openRuntime]
  atomics := by simp [openRuntime]
  writesOnce := by simp [pendingWrites, openRuntime]
  atomicsOnce := by simp [pendingAtomics, openRuntime]
  completions := by simp [openRuntime]
  atomicCompletions := by simp [openRuntime]
  unused := by simp [openRuntime]
  chained := by simp [openRuntime]
  context := by simp [openRuntime]
  signals := by simp [openRuntime]

structure SameBatch (before after : Runtime) : Prop where
  counted : after.nOps = before.nOps ∧ after.batch = before.batch
  queued : after.atomicSignalsQueued = before.atomicSignalsQueued
  pending : after.writes = before.writes ∧ after.atomics = before.atomics
  counters : after.completionCntr = before.completionCntr ∧ after.atomicCompletionCntr = before.atomicCompletionCntr
  gpu : after.slotPool = before.slotPool ∧ after.devCtx = before.devCtx

theorem batch_frame (before after : Runtime) (inv : BatchInv before) (same : SameBatch before after) :
    BatchInv after := by
  obtain ⟨⟨nOps, batch⟩, queued, ⟨writes, atomics⟩, ⟨completions, atomicCompletions⟩, slots, devCtx⟩ := same
  have pending : pendingWrites after = pendingWrites before ∧ pendingAtomics after = pendingAtomics before := by
    rw [pendingWrites, pendingAtomics, writes, atomics]
    exact ⟨rfl, rfl⟩
  constructor
  · rw [nOps]
    exact inv.full
  · rw [nOps, queued]
    exact inv.queued
  · rw [nOps, batch, writes]
    exact inv.writes
  · rw [nOps, batch, atomics]
    exact inv.atomics
  · rw [pending.1]
    exact inv.writesOnce
  · rw [pending.2]
    exact inv.atomicsOnce
  · rw [nOps, completions, pending.1]
    exact inv.completions
  · rw [nOps, atomicCompletions, pending.2]
    exact inv.atomicCompletions
  · rw [nOps, completions, atomicCompletions]
    exact inv.unused
  · rw [nOps, pending.1, pending.2]
    exact inv.chained
  · rw [devCtx, nOps, batch]
    exact inv.context
  · rw [devCtx, batch, slots, pending.2]
    exact inv.signals

theorem idle_batch (rt : Runtime) (inv : BatchInv rt) (idle : rt.nOps = 0) : rt.writes = [] ∧ rt.atomics = [] := by
  constructor
  · rw [List.eq_nil_iff_forall_not_mem]
    intro work member
    have slot := (inv.writes work member).1
    omega
  · rw [List.eq_nil_iff_forall_not_mem]
    intro work member
    have slot := (inv.atomics work member).1
    omega

theorem put_no_db_result (before after : Runtime) (src : Buffer) (destRank destBufIndex size srcOffset : Nat)
    (dstOffset : UInt64) (tok : Token)
    (taken : putNoDb before src destRank destBufIndex size srcOffset dstOffset = some (tok, after)) :
    before.nOps < poolSize ∧ tok = ⟨before.nOps⟩ ∧ ∃ write, after = { before with
      nOps := before.nOps + 1
      writes := before.writes ++ [⟨before.nOps, before.nOps + 1, write, before.batch⟩]
      atomics := before.atomics ++ [⟨before.nOps, 1, before.batch⟩]
      atomicSignalsQueued := true } := by
  unfold putNoDb at taken
  cases found : before.localBufs[src.index]? with
  | none => simp [found] at taken
  | some ob =>
      simp only [found] at taken
      split_ifs at taken with full unset
      simp only [Option.some.injEq, Prod.mk.injEq] at taken
      obtain ⟨rfl, rfl⟩ := taken
      exact ⟨by omega, rfl, _, rfl⟩

theorem put_no_db_batch (before : Runtime) (write : RmaWrite) (inv : BatchInv before) (room : before.nOps < poolSize) :
    BatchInv { before with
      nOps := before.nOps + 1
      writes := before.writes ++ [⟨before.nOps, before.nOps + 1, write, before.batch⟩]
      atomics := before.atomics ++ [⟨before.nOps, 1, before.batch⟩]
      atomicSignalsQueued := true } := by
  have freshWrite : before.nOps ∉ pendingWrites before := by
    intro member
    obtain ⟨work, queued, slot⟩ := List.mem_map.mp member
    have inside := (inv.writes work queued).1
    omega
  have freshAtomic : before.nOps ∉ pendingAtomics before := by
    intro member
    obtain ⟨work, queued, slot⟩ := List.mem_map.mp member
    have inside := (inv.atomics work queued).1
    omega
  refine ⟨room, fun _ => rfl, ?_, ?_, ?_, ?_, ?_, ?_, ?_, ?_, ?_, ?_⟩
  · intro work member
    rcases List.mem_append.mp member with old | new
    · obtain ⟨inside, threshold, batch⟩ := inv.writes work old
      exact ⟨Nat.lt_succ_of_lt inside, threshold, batch⟩
    · rw [List.mem_singleton.mp new]
      exact ⟨Nat.lt_succ_self _, rfl, rfl⟩
  · intro work member
    rcases List.mem_append.mp member with old | new
    · obtain ⟨inside, threshold, batch⟩ := inv.atomics work old
      exact ⟨Nat.lt_succ_of_lt inside, threshold, batch⟩
    · rw [List.mem_singleton.mp new]
      exact ⟨Nat.lt_succ_self _, rfl, rfl⟩
  · simp only [pendingWrites, List.map_append, List.map_cons, List.map_nil]
    exact List.nodup_append.mpr ⟨inv.writesOnce, List.nodup_singleton _, by
      intro slot old other new
      rw [List.mem_singleton.mp new]
      rintro rfl
      exact freshWrite old⟩
  · simp only [pendingAtomics, List.map_append, List.map_cons, List.map_nil]
    exact List.nodup_append.mpr ⟨inv.atomicsOnce, List.nodup_singleton _, by
      intro slot old other new
      rw [List.mem_singleton.mp new]
      rintro rfl
      exact freshAtomic old⟩
  · intro slot inside
    simp only [pendingWrites, List.map_append, List.map_cons, List.map_nil, List.mem_append, List.mem_singleton]
    by_cases last : slot = before.nOps
    · exact ⟨fun _ => (inv.unused slot (by omega)).1, fun absent => absurd (Or.inr last) absent⟩
    · have old : CountsOnce (slot ∈ before.writes.map SlotWrite.slot) (before.completionCntr slot) :=
        inv.completions slot (Nat.lt_of_le_of_ne (Nat.le_of_lt_succ inside) last)
      simpa only [last, or_false] using old
  · intro slot inside
    simp only [pendingAtomics, List.map_append, List.map_cons, List.map_nil, List.mem_append, List.mem_singleton]
    by_cases last : slot = before.nOps
    · exact ⟨fun _ => (inv.unused slot (by omega)).2, fun absent => absurd (Or.inr last) absent⟩
    · have old : CountsOnce (slot ∈ before.atomics.map SlotAtomic.slot) (before.atomicCompletionCntr slot) :=
        inv.atomicCompletions slot (Nat.lt_of_le_of_ne (Nat.le_of_lt_succ inside) last)
      simpa only [last, or_false] using old
  · exact fun slot outside => inv.unused slot (by simp only at outside; omega)
  · intro slot inside
    simp only [pendingWrites, pendingAtomics, List.map_append, List.map_cons, List.map_nil, List.mem_append,
      List.mem_singleton]
    rintro (old | new)
    · have earlier : slot < before.nOps := by
        obtain ⟨work, queued, same⟩ := List.mem_map.mp old
        have bound := (inv.writes work queued).1
        omega
      exact Or.inl (inv.chained slot earlier old)
    · exact Or.inr new
  · refine ⟨inv.context.1, fun now => ?_⟩
    have counted := inv.context.2 now
    simp only
    omega
  · intro now slot counted signal
    have known := inv.context.2 now
    simp only [pendingAtomics, List.map_append, List.map_cons, List.map_nil, List.mem_append, List.mem_singleton,
      not_or]
    simp only at counted
    exact ⟨inv.signals now slot counted signal, by omega⟩

theorem prepare_batch (before : Runtime) (inv : BatchInv before) : BatchInv (prepare before) := by
  refine ⟨inv.full, inv.queued, inv.writes, inv.atomics, inv.writesOnce, inv.atomicsOnce, inv.completions,
    inv.atomicCompletions, inv.unused, inv.chained, ⟨Nat.le_refl _, fun _ => Nat.le_refl _⟩, ?_⟩
  intro _ slot counted signal
  simp only [prepare] at counted signal
  rw [if_pos counted] at signal
  omega

theorem prepare_trigger_batch (before : Runtime) (inv : BatchInv before) : BatchInv (prepareTrigger before) :=
  ⟨inv.full, inv.queued, inv.writes, inv.atomics, inv.writesOnce, inv.atomicsOnce, inv.completions,
    inv.atomicCompletions, inv.unused, inv.chained, ⟨Nat.le_refl _, fun _ => Nat.zero_le _⟩,
    fun _ slot counted => absurd counted (Nat.not_lt_zero slot)⟩

theorem reset_result (before after : Runtime) (inv : BatchInv before) (taken : reset before = some after) :
    before.writes = [] ∧ before.atomics = [] ∧ (∀ slot, after.completionCntr slot = 0) ∧
      (∀ slot, after.atomicCompletionCntr slot = 0) ∧ after.nOps = 0 ∧ after.batch = before.batch + 1 ∧
      after.writes = before.writes ∧ after.atomics = before.atomics ∧ after.devCtx = before.devCtx ∧
      after.fabric.nic.counters .trigger = 0 ∧ after.quiet = before.quiet ∧ after.flushes = before.flushes := by
  unfold reset at taken
  split_ifs at taken with done
  obtain ⟨written, signalled⟩ := done
  have noWrites : before.writes = [] := by
    by_contra some
    obtain ⟨work, member⟩ := List.exists_mem_of_ne_nil _ some
    have inside := (inv.writes work member).1
    have pending : work.slot ∈ pendingWrites before := List.mem_map_of_mem member
    have zero := (inv.completions work.slot inside).1 pending
    have one := written work.slot inside
    omega
  have noAtomics : before.atomics = [] := by
    by_contra some
    obtain ⟨work, member⟩ := List.exists_mem_of_ne_nil _ some
    have inside := (inv.atomics work member).1
    have pending : work.slot ∈ pendingAtomics before := List.mem_map_of_mem member
    have zero := (inv.atomicCompletions work.slot inside).1 pending
    have one := signalled (inv.queued (by omega)) work.slot inside
    omega
  cases taken
  refine ⟨noWrites, noAtomics, ?_, ?_, rfl, rfl, rfl, rfl, rfl, ?_, rfl, rfl⟩
  · intro slot
    simp only
    split_ifs with used
    · rfl
    · exact (inv.unused slot (by omega)).1
  · intro slot
    simp only
    split_ifs with used
    · rfl
    · apply (inv.unused slot _).2
      by_contra inside
      exact used ⟨by omega, inv.queued (by omega)⟩
  · simp [setCounter]

theorem reset_batch (before after : Runtime) (inv : BatchInv before) (taken : reset before = some after) :
    BatchInv after := by
  obtain ⟨noWrites, noAtomics, completions, atomics, nOps, batch, writesSame, atomicsSame, devCtx, _⟩ :=
    reset_result before after inv taken
  have context := inv.context.1
  refine ⟨?_, ?_, ?_, ?_, ?_, ?_, ?_, ?_, ?_, ?_, ?_, ?_⟩
  · rw [nOps]
    exact Nat.zero_le _
  · rw [nOps]
    exact fun none => absurd none (Nat.lt_irrefl 0)
  · rw [writesSame, noWrites]
    simp
  · rw [atomicsSame, noAtomics]
    simp
  · rw [pendingWrites, writesSame, noWrites]
    simp
  · rw [pendingAtomics, atomicsSame, noAtomics]
    simp
  · rw [nOps]
    exact fun slot none => absurd none (Nat.not_lt_zero slot)
  · rw [nOps]
    exact fun slot none => absurd none (Nat.not_lt_zero slot)
  · exact fun slot _ => ⟨completions slot, atomics slot⟩
  · rw [nOps]
    exact fun slot none => absurd none (Nat.not_lt_zero slot)
  · rw [devCtx, batch]
    exact ⟨by omega, fun same => by omega⟩
  · rw [devCtx, batch]
    exact fun same => by omega

theorem exchange_fabric (fabric : Fabric) (raw : List (List BufMeta × Nat)) : ∃ remoteInfo,
    raw.foldl (fun fabric (entry : List BufMeta × Nat) => setRemoteInfos fabric entry.2 entry.1) fabric =
      { fabric with remoteInfo := remoteInfo } := by
  have infos : ∀ (fabric : Fabric) (rank : Nat) (metas : List (BufMeta × Nat)), ∃ remoteInfo,
      metas.foldl (fun fabric (entry : BufMeta × Nat) =>
        Ofi.setRemoteInfoByIndex fabric rank entry.2 entry.1.addr entry.1.key 0) fabric =
          { fabric with remoteInfo := remoteInfo } := by
    intro fabric rank metas
    induction metas generalizing fabric with
    | nil => exact ⟨fabric.remoteInfo, rfl⟩
    | cons entry rest ih => exact ih _
  induction raw generalizing fabric with
  | nil => exact ⟨fabric.remoteInfo, rfl⟩
  | cons entry rest ih =>
      obtain ⟨first, same⟩ := infos fabric entry.2 entry.1.zipIdx
      obtain ⟨last, result⟩ := ih (setRemoteInfos fabric entry.2 entry.1)
      refine ⟨last, ?_⟩
      rw [List.foldl_cons, result, setRemoteInfos, same]

theorem exchange_result (before after : Runtime) (raw : List (List BufMeta)) (taken : exchange before raw = some after) :
    ∃ remoteInfo, after = { before with fabric := { before.fabric with remoteInfo := remoteInfo } } := by
  unfold exchange at taken
  split_ifs at taken
  cases taken
  obtain ⟨remoteInfo, same⟩ := exchange_fabric before.fabric raw.zipIdx
  exact ⟨remoteInfo, by rw [same]⟩

theorem start_quiet_result (before after : Runtime) (blockDim : Nat) (taken : startQuiet before blockDim = some after) :
    ∃ call, after = { before with quiet := some call } := by
  unfold startQuiet at taken
  split_ifs at taken
  exact ⟨_, (Option.some.inj taken).symm⟩

theorem quiet_step_result (before after : Runtime) (place : Nat) (taken : quietStep before place = some after) :
    ∃ call, after = { before with quiet := some call } := by
  unfold quietStep at taken
  split at taken
  · split at taken
    · exact ⟨_, (Option.some.inj taken).symm⟩
    · cases taken
  · cases taken

theorem complete_write_result (before after : Runtime) (index : Nat) (taken : completeWrite before index = some after) :
    ∃ work, before.writes[index]? = some work ∧ WriteReady before work ∧ after = { before with
      writes := before.writes.eraseIdx index
      completionCntr := Function.update before.completionCntr work.slot (before.completionCntr work.slot + 1) } := by
  unfold completeWrite at taken
  split at taken
  · rename_i work found
    split_ifs at taken with ready
    exact ⟨work, found, ready, (Option.some.inj taken).symm⟩
  · cases taken

theorem taken_slots {Item : Type} (queue : List Item) (slot : Item → Nat) (index : Nat) (work : Item)
    (found : queue[index]? = some work) (once : (queue.map slot).Nodup) :
    work ∈ queue ∧ slot work ∉ (queue.eraseIdx index).map slot ∧ ((queue.eraseIdx index).map slot).Nodup ∧
      (∀ other ∈ queue.eraseIdx index, other ∈ queue) ∧
      ∀ place, place ∈ queue.map slot ↔ place = slot work ∨ place ∈ (queue.eraseIdx index).map slot := by
  obtain ⟨within, value⟩ := List.getElem?_eq_some_iff.mp found
  have moved := List.getElem_cons_eraseIdx_perm within
  rw [value] at moved
  have slots := moved.map slot
  rw [List.map_cons] at slots
  obtain ⟨fresh, rest⟩ := List.nodup_cons.mp (slots.nodup_iff.mpr once)
  refine ⟨List.mem_of_getElem? found, fresh, rest, fun other => List.mem_of_mem_eraseIdx, fun place => ?_⟩
  rw [← slots.mem_iff, List.mem_cons]

theorem completed_counts (pending later : List Nat) (counters : Nat → Nat) (own : Nat) (gone : own ∉ later)
    (slots : ∀ place, place ∈ pending ↔ place = own ∨ place ∈ later) (slot : Nat)
    (counts : CountsOnce (slot ∈ pending) (counters slot)) :
    CountsOnce (slot ∈ later) (Function.update counters own (counters own + 1) slot) := by
  obtain ⟨waiting, done⟩ := counts
  by_cases here : slot = own
  · subst here
    have zero := waiting ((slots slot).mpr (Or.inl rfl))
    simp only [Function.update_self, zero]
    exact ⟨fun pending => absurd pending gone, fun _ => rfl⟩
  · simp only [Function.update_of_ne here]
    refine ⟨fun pending => waiting ((slots slot).mpr (Or.inr pending)), fun absent => done fun pending => ?_⟩
    exact absent (((slots slot).mp pending).resolve_left here)

theorem complete_write_batch (before after : Runtime) (index : Nat) (inv : BatchInv before)
    (taken : completeWrite before index = some after) : BatchInv after := by
  obtain ⟨work, found, _, rfl⟩ := complete_write_result before after index taken
  obtain ⟨member, gone, once, rest, slots⟩ := taken_slots before.writes SlotWrite.slot index work found inv.writesOnce
  have inside := (inv.writes work member).1
  refine ⟨inv.full, inv.queued, ?_, inv.atomics, once, inv.atomicsOnce, ?_, inv.atomicCompletions, ?_, ?_, inv.context,
    inv.signals⟩
  · exact fun other queued => inv.writes other (rest other queued)
  · exact fun slot bound => completed_counts _ _ before.completionCntr work.slot gone slots slot (inv.completions slot bound)
  · intro slot outside
    have old := inv.unused slot outside
    simp only at outside ⊢
    rw [Function.update_of_ne (by omega)]
    exact old
  · intro slot bound pending
    exact inv.chained slot bound ((slots slot).mpr (Or.inr pending))

theorem complete_atomic_result (before after : Runtime) (index : Nat) (inv : BatchInv before)
    (taken : completeAtomic before index = some after) : ∃ work ∈ before.atomics, AtomicReady before work ∧
      after = { before with
        atomics := before.atomics.eraseIdx index
        slotPool := Function.update before.slotPool work.slot (before.slotPool work.slot + 1)
        atomicCompletionCntr :=
          Function.update before.atomicCompletionCntr work.slot (before.atomicCompletionCntr work.slot + 1) } ∧
      work.slot ∉ pendingAtomics after ∧ work.slot ∉ pendingWrites before ∧ (pendingAtomics after).Nodup ∧
      (∀ other ∈ after.atomics, other ∈ before.atomics) ∧
      ∀ place, place ∈ pendingAtomics before ↔ place = work.slot ∨ place ∈ pendingAtomics after := by
  unfold completeAtomic at taken
  cases found : before.atomics[index]? with
  | none => simp [found] at taken
  | some work =>
      simp only [found] at taken
      split_ifs at taken with ready
      cases taken
      obtain ⟨member, gone, once, rest, slots⟩ :=
        taken_slots before.atomics SlotAtomic.slot index work found inv.atomicsOnce
      refine ⟨work, member, ready, rfl, gone, ?_, once, rest, slots⟩
      intro pending
      obtain ⟨inside, threshold, _⟩ := inv.atomics work member
      have zero := (inv.completions work.slot inside).1 pending
      rw [AtomicReady, threshold, zero] at ready
      exact absurd ready (by decide)

theorem complete_atomic_inside (before after : Runtime) (index : Nat) (taken : completeAtomic before index = some after) :
    index < before.atomics.length := by
  unfold completeAtomic at taken
  cases found : before.atomics[index]? with
  | none => simp [found] at taken
  | some work => exact (List.getElem?_eq_some_iff.mp found).1

theorem complete_atomic_batch (before after : Runtime) (index : Nat) (inv : BatchInv before)
    (taken : completeAtomic before index = some after) : BatchInv after := by
  obtain ⟨work, member, _, result, gone, written, once, rest, slots⟩ :=
    complete_atomic_result before after index inv taken
  have inside := (inv.atomics work member).1
  subst result
  refine ⟨inv.full, inv.queued, inv.writes, ?_, inv.writesOnce, once, inv.completions, ?_, ?_, ?_, inv.context, ?_⟩
  · exact fun other queued => inv.atomics other (rest other queued)
  · exact fun slot bound =>
      completed_counts _ _ before.atomicCompletionCntr work.slot gone slots slot (inv.atomicCompletions slot bound)
  · intro slot outside
    have old := inv.unused slot outside
    simp only at outside ⊢
    rw [Function.update_of_ne (by omega)]
    exact old
  · intro slot bound pending
    rcases (slots slot).mp (inv.chained slot bound pending) with same | still
    · subst same
      exact absurd pending written
    · exact still
  · intro now slot counted signal
    by_cases here : slot = work.slot
    · subst here
      exact gone
    · simp only [Function.update_of_ne here] at signal
      exact fun pending => inv.signals now slot counted signal ((slots slot).mpr (Or.inr pending))

theorem step_batch (before after : Runtime) (action : Action) (inv : BatchInv before)
    (taken : step before action = some after) : BatchInv after := by
  cases action with
  | registerBuffer buf size desc key =>
      rw [← Option.some.inj taken]
      exact batch_frame before _ inv ⟨⟨rfl, rfl⟩, rfl, ⟨rfl, rfl⟩, ⟨rfl, rfl⟩, rfl, rfl⟩
  | exchange raw =>
      obtain ⟨_, rfl⟩ := exchange_result before after raw taken
      exact batch_frame before _ inv ⟨⟨rfl, rfl⟩, rfl, ⟨rfl, rfl⟩, ⟨rfl, rfl⟩, rfl, rfl⟩
  | putNoDb src destRank destBufIndex size srcOffset dstOffset =>
      simp only [step, Option.map_eq_some_iff, Prod.exists] at taken
      obtain ⟨tok, next, taken, rfl⟩ := taken
      obtain ⟨room, _, write, rfl⟩ := put_no_db_result before _ src destRank destBufIndex size srcOffset dstOffset tok taken
      exact put_no_db_batch before write inv room
  | prepare =>
      rw [← Option.some.inj taken]
      exact prepare_batch before inv
  | prepareTrigger =>
      rw [← Option.some.inj taken]
      exact prepare_trigger_batch before inv
  | reset => exact reset_batch before after inv taken
  | flush =>
      rw [← Option.some.inj taken]
      exact batch_frame before _ inv ⟨⟨rfl, rfl⟩, rfl, ⟨rfl, rfl⟩, ⟨rfl, rfl⟩, rfl, rfl⟩
  | startQuiet blockDim =>
      obtain ⟨_, rfl⟩ := start_quiet_result before after blockDim taken
      exact batch_frame before _ inv ⟨⟨rfl, rfl⟩, rfl, ⟨rfl, rfl⟩, ⟨rfl, rfl⟩, rfl, rfl⟩
  | quietStep place =>
      obtain ⟨_, rfl⟩ := quiet_step_result before after place taken
      exact batch_frame before _ inv ⟨⟨rfl, rfl⟩, rfl, ⟨rfl, rfl⟩, ⟨rfl, rfl⟩, rfl, rfl⟩
  | completeWrite index => exact complete_write_batch before after index inv taken
  | completeAtomic index => exact complete_atomic_batch before after index inv taken

end OpenGda.Rt
