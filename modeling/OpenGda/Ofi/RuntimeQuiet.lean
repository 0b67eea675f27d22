import OpenGda.Ofi.RuntimeBatch

set_option autoImplicit false

-- What quiet(), wait() and reset() promise when they return.
namespace OpenGda.Rt

open DeferredWork Machine

def Passed (slot : Nat) : Thread → Prop
  | .entering => False
  | .polling next => slot < next
  | .returned => True

structure CallInv (rt : Runtime) (call : Quiet) : Prop where
  batch : call.batch ≤ rt.batch
  threads : 0 < call.threads.length
  counted : call.batch = rt.batch → call.counted ≤ rt.nOps
  context : call.batch = rt.batch → quietReturned call = false →
    rt.devCtx.completion = true ∧ rt.devCtx.batch = rt.batch ∧ call.counted ≤ rt.devCtx.nOps
  aligned : ∀ place slot, call.threads[place]? = some (.polling slot) → slot % call.threads.length = place
  passed : call.batch = rt.batch → ∀ (place : Nat) (thread : Thread), call.threads[place]? = some thread →
    ∀ slot < call.counted, slot % call.threads.length = place → Passed slot thread → slot ∉ pendingWrites rt

structure Inv (rt : Runtime) : Prop where
  batch : BatchInv rt
  quiet : ∀ call, rt.quiet = some call → call.prepared = true → CallInv rt call

-- Host calls go on while a kernel is inside quiet(); only prepare_trigger() does
-- not take the context of a kernel of the same batch away from under it.
def KeepsContext (rt : Runtime) : Action → Prop
  | .prepareTrigger => ∀ call ∈ rt.quiet, call.prepared = true → call.batch = rt.batch → quietReturned call = true
  | _ => True

theorem call_keep (before after : Runtime) (call : Quiet) (inv : CallInv before call) (batch : after.batch = before.batch)
    (grown : before.nOps ≤ after.nOps)
    (context : before.devCtx.completion = true ∧ before.devCtx.batch = before.batch ∧
        call.counted ≤ before.devCtx.nOps → call.batch = before.batch → quietReturned call = false →
      after.devCtx.completion = true ∧ after.devCtx.batch = after.batch ∧ call.counted ≤ after.devCtx.nOps)
    (writes : ∀ slot < before.nOps, slot ∈ pendingWrites after → slot ∈ pendingWrites before) : CallInv after call := by
  refine ⟨by rw [batch]; exact inv.batch, inv.threads, ?_, ?_, inv.aligned, ?_⟩
  · intro now
    rw [batch] at now
    exact Nat.le_trans (inv.counted now) grown
  · intro now busy
    rw [batch] at now
    exact context (inv.context now busy) now busy
  · intro now place thread found slot small stride passed pending
    rw [batch] at now
    have bound := inv.counted now
    exact inv.passed now place thread found slot small stride passed (writes slot (by omega) pending)

theorem call_unchanged (before after : Runtime) (call : Quiet) (inv : CallInv before call) (same : SameBatch before after) :
    CallInv after call := by
  obtain ⟨⟨nOps, batch⟩, _, ⟨writes, _⟩, _, _, devCtx⟩ := same
  apply call_keep before after call inv batch (Nat.le_of_eq nOps.symm)
  · intro context _ _
    rw [devCtx, batch]
    exact context
  · intro slot _ pending
    rw [pendingWrites, writes] at pending
    exact pending

theorem unchanged_inv (before after : Runtime) (inv : Inv before) (same : SameBatch before after)
    (quiet : after.quiet = before.quiet) : Inv after := by
  refine ⟨batch_frame before after inv.batch same, fun call found prepared => ?_⟩
  rw [quiet] at found
  exact call_unchanged before after call (inv.quiet call found prepared) same

theorem thread_aligned (rt : Runtime) (place blockDim next : Nat) (thread : Thread) (inside : place < blockDim)
    (aligned : ∀ slot, thread = .polling slot → slot % blockDim = place)
    (moved : quietThread rt place blockDim thread = .polling next) : next % blockDim = place := by
  cases thread with
  | entering =>
      simp only [quietThread] at moved
      split_ifs at moved
      rw [← Thread.polling.inj moved]
      exact Nat.mod_eq_of_lt inside
  | polling slot =>
      have stride := aligned slot rfl
      simp only [quietThread] at moved
      split_ifs at moved
      · rw [← Thread.polling.inj moved, Nat.add_mod_right]
        exact stride
      · rw [← Thread.polling.inj moved]
        exact stride
  | returned => simp [quietThread] at moved

theorem stride_gap (stride place slot next : Nat) (less : next ≤ slot) (near : slot < next + stride)
    (first : next % stride = place) (second : slot % stride = place) : slot = next := by
  have multiple : stride ∣ slot - next := (Nat.modEq_iff_dvd' less).mp (first.trans second.symm)
  have none := Nat.eq_zero_of_dvd_of_lt multiple (by omega)
  omega

theorem thread_passes (rt : Runtime) (call : Quiet) (place : Nat) (thread : Thread) (batch : BatchInv rt)
    (inv : CallInv rt call) (found : call.threads[place]? = some thread) (now : call.batch = rt.batch) (slot : Nat)
    (small : slot < call.counted) (same : slot % call.threads.length = place)
    (passed : Passed slot (quietThread rt place call.threads.length thread)) : slot ∉ pendingWrites rt := by
  have old := inv.passed now place thread found slot small same
  have busy : thread ≠ .returned → quietReturned call = false := by
    intro running
    rw [quietReturned, List.all_eq_false]
    exact ⟨thread, List.mem_of_getElem? found, by simpa using running⟩
  cases thread with
  | entering =>
      obtain ⟨pool, _, _⟩ := inv.context now (busy (by simp))
      have least : slot % call.threads.length ≤ slot := Nat.mod_le _ _
      simp only [quietThread, pool, if_true, Passed] at passed
      omega
  | polling next =>
      obtain ⟨pool, filled, counted⟩ := inv.context now (busy (by simp))
      simp only [quietThread] at passed
      by_cases more : next < rt.devCtx.nOps
      · rw [if_pos more] at passed
        by_cases signalled : 1 ≤ rt.slotPool next
        · rw [if_pos signalled] at passed
          rcases Nat.lt_or_ge slot next with before | after
          · exact old before
          · have here := stride_gap _ place slot next after passed (inv.aligned place next found) same
            subst here
            have known := batch.context.2 filled
            exact fun pending => batch.signals filled slot more signalled (batch.chained slot (by omega) pending)
        · rw [if_neg signalled] at passed
          exact old passed
      · exact old (Nat.lt_of_lt_of_le small (Nat.le_trans counted (Nat.le_of_not_lt more)))
  | returned => exact old trivial

theorem quiet_step_inv (before after : Runtime) (place : Nat) (inv : Inv before)
    (taken : quietStep before place = some after) : Inv after := by
  unfold quietStep at taken
  cases running : before.quiet with
  | none => simp [running] at taken
  | some call =>
      cases found : call.threads[place]? with
      | none => simp [running, found] at taken
      | some thread =>
          simp only [running, found, Option.some.injEq] at taken
          subst taken
          refine ⟨batch_frame before _ inv.batch ⟨⟨rfl, rfl⟩, rfl, ⟨rfl, rfl⟩, ⟨rfl, rfl⟩, rfl, rfl⟩, ?_⟩
          intro next same prepared
          obtain rfl := Option.some.inj same
          have old := inv.quiet call running prepared
          have inside := (List.getElem?_eq_some_iff.mp found).1
          have length : (call.threads.set place (quietThread before place call.threads.length thread)).length =
              call.threads.length := List.length_set
          have others : ∀ (other : Nat) (item : Thread),
              (call.threads.set place (quietThread before place call.threads.length thread))[other]? = some item →
              (other = place ∧ item = quietThread before place call.threads.length thread) ∨
                (other ≠ place ∧ call.threads[other]? = some item) := by
            intro other item same
            by_cases here : other = place
            · subst here
              rw [List.getElem?_set_self inside] at same
              exact Or.inl ⟨rfl, (Option.some.inj same).symm⟩
            · rw [List.getElem?_set_ne (Ne.symm here)] at same
              exact Or.inr ⟨here, same⟩
          refine ⟨old.batch, by rw [length]; exact old.threads, old.counted, ?_, ?_, ?_⟩
          · intro now busy
            apply old.context now
            by_contra idle
            rw [Bool.not_eq_false, quietReturned, List.all_eq_true] at idle
            rw [quietReturned, List.all_eq_false] at busy
            obtain ⟨item, member, awake⟩ := busy
            obtain ⟨other, same⟩ := List.mem_iff_getElem?.mp member
            apply awake
            rcases others other item same with ⟨_, rfl⟩ | ⟨_, still⟩
            · have done := idle thread (List.mem_of_getElem? found)
              rw [beq_iff_eq] at done
              rw [done]
              rfl
            · exact idle item (List.mem_of_getElem? still)
          · intro other slot same
            rw [length]
            rcases others other _ same with ⟨rfl, next⟩ | ⟨_, still⟩
            · exact thread_aligned before other _ slot thread inside (fun slot polls => old.aligned other slot (polls ▸ found))
                next.symm
            · exact old.aligned other slot still
          · intro now other item same slot small stride passed
            rw [length] at stride
            rcases others other item same with ⟨rfl, rfl⟩ | ⟨_, still⟩
            · exact thread_passes before call other thread inv.batch old found now slot small stride passed
            · exact old.passed now other item still slot small stride passed

theorem start_quiet_inv (before after : Runtime) (blockDim : Nat) (inv : Inv before)
    (taken : startQuiet before blockDim = some after) : Inv after := by
  unfold startQuiet at taken
  split_ifs at taken with refused
  rw [← Option.some.inj taken]
  refine ⟨batch_frame before _ inv.batch ⟨⟨rfl, rfl⟩, rfl, ⟨rfl, rfl⟩, ⟨rfl, rfl⟩, rfl, rfl⟩, ?_⟩
  intro call same prepared
  obtain rfl := Option.some.inj same
  have entering : ∀ (place : Nat) (thread : Thread), (List.replicate blockDim Thread.entering)[place]? = some thread →
      thread = .entering := fun place thread found => List.eq_of_mem_replicate (List.mem_of_getElem? found)
  refine ⟨inv.batch.context.1, ?_, inv.batch.context.2, ?_, ?_, ?_⟩
  · rw [List.length_replicate]
    omega
  · exact fun now _ => ⟨prepared, now, Nat.le_refl _⟩
  · exact fun place slot found => by cases entering place _ found
  · intro _ place thread found slot _ _ passed
    rw [entering place thread found] at passed
    exact absurd passed not_false

theorem reset_inv (before after : Runtime) (inv : Inv before) (taken : reset before = some after) : Inv after := by
  obtain ⟨_, _, _, _, _, batch, _, _, _, _, quiet, _⟩ := reset_result before after inv.batch taken
  refine ⟨reset_batch before after inv.batch taken, fun call found prepared => ?_⟩
  rw [quiet] at found
  have old := inv.quiet call found prepared
  have earlier := old.batch
  exact ⟨by omega, old.threads, fun now => by omega, fun now => by omega, old.aligned, fun now => by omega⟩

theorem step_inv (before after : Runtime) (action : Action) (inv : Inv before) (keeps : KeepsContext before action)
    (taken : step before action = some after) : Inv after := by
  have batch := step_batch before after action inv.batch taken
  cases action with
  | registerBuffer buf size desc key =>
      rw [← Option.some.inj taken]
      exact unchanged_inv before _ inv ⟨⟨rfl, rfl⟩, rfl, ⟨rfl, rfl⟩, ⟨rfl, rfl⟩, rfl, rfl⟩ rfl
  | exchange raw =>
      obtain ⟨_, rfl⟩ := exchange_result before after raw taken
      exact unchanged_inv before _ inv ⟨⟨rfl, rfl⟩, rfl, ⟨rfl, rfl⟩, ⟨rfl, rfl⟩, rfl, rfl⟩ rfl
  | putNoDb src destRank destBufIndex size srcOffset dstOffset =>
      simp only [step, Option.map_eq_some_iff, Prod.exists] at taken
      obtain ⟨tok, next, taken, rfl⟩ := taken
      obtain ⟨_, _, write, rfl⟩ := put_no_db_result before _ src destRank destBufIndex size srcOffset dstOffset tok taken
      refine ⟨batch, fun call found prepared => ?_⟩
      refine call_keep before _ call (inv.quiet call found prepared) rfl (Nat.le_succ _) (fun context _ _ => context) ?_
      intro slot inside pending
      simp only [pendingWrites, List.map_append, List.map_cons, List.map_nil, List.mem_append,
        List.mem_singleton] at pending
      exact pending.resolve_right (by omega)
  | prepare =>
      rw [← Option.some.inj taken] at batch ⊢
      refine ⟨batch, fun call found prepared => ?_⟩
      have old := inv.quiet call found prepared
      refine call_keep before _ call old rfl (Nat.le_refl _) ?_ ?_
      · exact fun _ now _ => ⟨rfl, rfl, old.counted now⟩
      · exact fun _ _ pending => pending
  | prepareTrigger =>
      rw [← Option.some.inj taken] at batch ⊢
      refine ⟨batch, fun call found prepared => ?_⟩
      refine call_keep before _ call (inv.quiet call found prepared) rfl (Nat.le_refl _) ?_ ?_
      · intro _ now busy
        have ended := keeps call found prepared now
        rw [busy] at ended
        exact absurd ended Bool.false_ne_true
      · exact fun _ _ pending => pending
  | reset => exact reset_inv before after inv taken
  | flush =>
      rw [← Option.some.inj taken]
      exact unchanged_inv before _ inv ⟨⟨rfl, rfl⟩, rfl, ⟨rfl, rfl⟩, ⟨rfl, rfl⟩, rfl, rfl⟩ rfl
  | startQuiet blockDim => exact start_quiet_inv before after blockDim inv taken
  | quietStep place => exact quiet_step_inv before after place inv taken
  | completeWrite index =>
      obtain ⟨_, _, _, rfl⟩ := complete_write_result before after index taken
      refine ⟨batch, fun call found prepared => ?_⟩
      refine call_keep before _ call (inv.quiet call found prepared) rfl (Nat.le_refl _) (fun context _ _ => context) ?_
      intro slot _ pending
      obtain ⟨other, member, same⟩ := List.mem_map.mp pending
      exact List.mem_map.mpr ⟨other, List.mem_of_mem_eraseIdx member, same⟩
  | completeAtomic index =>
      obtain ⟨work, _, _, rfl, _⟩ := complete_atomic_result before after index inv.batch taken
      refine ⟨batch, fun call found prepared => ?_⟩
      refine call_keep before _ call (inv.quiet call found prepared) rfl (Nat.le_refl _) (fun context _ _ => context) ?_
      exact fun _ _ pending => pending

theorem open_inv (avAddrs : Nat → Nat) (virtAddrMode : Bool) : Inv (openRuntime avAddrs virtAddrMode) :=
  ⟨open_batch avAddrs virtAddrMode, by simp [openRuntime]⟩

theorem quiet_returned_complete (rt : Runtime) (inv : Inv rt) (call : Quiet) (running : rt.quiet = some call)
    (prepared : call.prepared = true) (returned : quietReturned call = true) (work : SlotWrite)
    (pending : work ∈ rt.writes) (same : work.batch = call.batch) : call.counted ≤ work.slot := by
  have old := inv.quiet call running prepared
  have now := same.symm.trans (inv.batch.writes work pending).2.2
  by_contra small
  have inside := Nat.mod_lt work.slot old.threads
  have found := List.getElem?_eq_getElem inside
  have done := List.all_eq_true.mp returned _ (List.getElem_mem inside)
  rw [beq_iff_eq] at done
  rw [done] at found
  exact old.passed now _ .returned found work.slot (by omega) rfl trivial (List.mem_map_of_mem pending)

theorem waited_complete (rt : Runtime) (inv : BatchInv rt) (tok : Token) (returned : waitOver rt tok)
    (work : SlotWrite) (pending : work ∈ rt.writes) : work.slot ≠ tok.slotIdx := by
  intro same
  have inside := (inv.writes work pending).1
  have zero := (inv.completions work.slot inside).1 (List.mem_map_of_mem pending)
  rw [waitOver, ← same, zero] at returned
  exact absurd returned (by decide)

instance (rt : Runtime) : (action : Action) → Decidable (KeepsContext rt action)
  | .prepareTrigger => inferInstanceAs (Decidable (∀ call ∈ rt.quiet, _ → _ → _))
  | .registerBuffer _ _ _ _ | .exchange _ | .putNoDb _ _ _ _ _ _ | .prepare | .reset | .flush | .startQuiet _
  | .quietStep _ | .completeWrite _ | .completeAtomic _ => isTrue trivial

def sampleBuffer : Buffer := ⟨4096, 64, 4096, 0, 7, 0⟩

def registered : List Action := [.registerBuffer 4096 64 11 7, .exchange [[⟨4096, 7⟩], [⟨8192, 8⟩]]]

def samplePut : Action := .putNoDb sampleBuffer 1 0 8 0 0

def twoBatches : List Action :=
  registered ++ [samplePut, .prepareTrigger, .flush, .completeWrite 0, .completeAtomic 0, .reset,
    samplePut, samplePut, .prepare, .flush, .startQuiet 2, .quietStep 0, .completeWrite 1, .completeWrite 0,
    .quietStep 1, .completeAtomic 1, .completeAtomic 0, .quietStep 0, .quietStep 0, .quietStep 1, .quietStep 1]

theorem two_batches_reached : ∃ rt, Reach step KeepsContext (openRuntime id true) rt ∧
    (rt.batch = 1 ∧ (rt.quiet.any fun call => quietReturned call && call.prepared && call.counted == 2) = true) :=
  reach_of_decided step KeepsContext twoBatches (openRuntime id true) _ (by decide +kernel)

-- A context taken away from under a kernel in quiet(): the thread that polls slot 0
-- reads n_ops_ anew, and prepare_trigger() has left 0 there.
def contextTaken : List Action :=
  registered ++ [samplePut, .prepare, .flush, .startQuiet 1, .quietStep 0, .prepareTrigger, .quietStep 0]

theorem context_taken_reached : ∃ rt, Reach step always (openRuntime id true) rt ∧
    (rt.quiet.any fun call => quietReturned call && call.prepared && call.counted == 1 && call.batch == 0 &&
      rt.writes.any fun work => work.batch == 0 && work.slot == 0) = true :=
  reach_of_decided step always contextTaken (openRuntime id true) _ (by decide +kernel)

end OpenGda.Rt
