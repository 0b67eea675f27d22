import OpenGda.Ofi.FabricWait

set_option autoImplicit false

-- How the completion counter runs ahead of the writes it is meant to count.
namespace OpenGda.Ofi

open DeferredWork Machine

theorem call_known_same (before after : Fabric) (call : Call) (same : after.remoteInfo = before.remoteInfo)
    (known : call.known before) : call.known after := by
  cases call with
  | put => simpa only [Call.known, same] using known
  | putRaw => trivial

theorem reach_fires (batch : Batch) (nic : Nic Cntr RmaWrite) (reached : Reach fireStep always batch.fabric.nic nic) :
    Reach batchStep always batch { batch with fabric := { batch.fabric with nic := nic } } := by
  induction reached with
  | start => exact .start
  | step before after index _ _ taken ih =>
      refine .step _ _ (.fire index) ih trivial ?_
      simp [batchStep, fireWork, taken]

structure HostQueued (calls : List Call) (before after : Batch) : Prop where
  reached : Reach batchStep always before after
  triggered : after.triggered = before.triggered
  counters : after.fabric.nic.counters = before.fabric.nic.counters
  launched : after.fabric.launched = before.fabric.launched
  batch : after.fabric.batch = before.fabric.batch
  remoteInfo : after.fabric.remoteInfo = before.fabric.remoteInfo
  threshold : after.fabric.currentThreshold = before.fabric.currentThreshold + calls.length
  last : before.lastThreshold = before.fabric.currentThreshold → after.lastThreshold = after.fabric.currentThreshold
  works : Queued before.fabric → Queued after.fabric
  pending : ∃ added, after.fabric.nic.pending = before.fabric.nic.pending ++ added ∧
    added.countP (batchWrite before.fabric.batch) = calls.length ∧
    (∀ work ∈ added, work.threshold ≤ after.fabric.currentThreshold) ∧
    ∀ call ∈ calls, call.isPut = false → ∃ threshold ≤ after.fabric.currentThreshold, writebackWork threshold ∈ added

theorem host_queues (calls : List Call) (batch : Batch) (rest : List Call) (todo : batch.todo = calls ++ rest)
    (known : ∀ call ∈ calls, call.known batch.fabric) :
    ∃ after, HostQueued calls batch after ∧ after.todo = rest := by
  induction calls generalizing batch with
  | nil => exact ⟨batch, ⟨.start, rfl, rfl, rfl, rfl, rfl, rfl, id, id, [], by simp⟩, todo⟩
  | cons call calls ih =>
      obtain ⟨threshold, fabric, taken⟩ := queue_call_known batch.fabric call (known call (by simp))
      obtain ⟨rfl, change⟩ := queue_call_queued batch.fabric fabric call threshold taken
      have stepped : batchStep batch .host = some { batch with
          fabric := fabric, todo := calls ++ rest, lastThreshold := fabric.currentThreshold } := by
        simp [batchStep, todo, taken]
      have knownLater : ∀ other ∈ calls, other.known fabric := fun other member =>
        call_known_same batch.fabric fabric other change.remoteInfo (known other (by simp [member]))
      obtain ⟨after, queued, left⟩ := ih { batch with
        fabric := fabric, todo := calls ++ rest, lastThreshold := fabric.currentThreshold } rfl knownLater
      obtain ⟨write, stamp, pending⟩ := change.pending
      obtain ⟨added, later, own, within, writebacks⟩ := queued.pending
      have total : after.fabric.currentThreshold = fabric.currentThreshold + calls.length := queued.threshold
      have next := change.threshold
      refine ⟨after, ⟨reach_head batchStep always _ _ _ .host trivial stepped queued.reached, queued.triggered,
        queued.counters.trans change.counters, queued.launched.trans change.launched,
        queued.batch.trans change.batch, queued.remoteInfo.trans change.remoteInfo, ?_, fun _ => queued.last rfl,
        fun works => queued.works (call_queued_works batch.fabric fabric call works change), ?_⟩, left⟩
      · rw [total, next, List.length_cons]
        omega
      · refine ⟨rmaWork write fabric.currentThreshold ::
          ((if call.isPut then [] else [writebackWork fabric.currentThreshold]) ++ added), ?_, ?_, ?_, ?_⟩
        · simp [later, pending]
        · have chosen : batchWrite batch.fabric.batch (rmaWork write fabric.currentThreshold) = true := by
            simp [batchWrite, rmaWork, stamp]
          rw [List.countP_cons_of_pos chosen, List.countP_append, List.length_cons]
          simp only [change.batch] at own
          rw [own]
          split <;> simp [batchWrite, writebackWork]
        · intro work member
          simp only [List.mem_cons, List.mem_append] at member
          rcases member with rfl | written | member
          · simp only [rmaWork]
            omega
          · split at written
            · simp at written
            · rw [List.mem_singleton.mp written]
              simp only [writebackWork]
              omega
          · exact within work member
        · intro other member raw
          rcases List.mem_cons.mp member with rfl | member
          · exact ⟨fabric.currentThreshold, by omega, by simp [raw]⟩
          · obtain ⟨t, bound, found⟩ := writebacks other member raw
            exact ⟨t, bound, by simp [found]⟩

structure Loaded (count : Nat) (batch : Batch) : Prop where
  triggered : batch.triggered = true
  last : batch.lastThreshold = count
  works : Queued batch.fabric
  own : batch.fabric.nic.pending.countP (batchWrite batch.fabric.batch) = count
  within : ∀ work ∈ batch.fabric.nic.pending, batchWrite batch.fabric.batch work = true → work.threshold ≤ count

theorem host_loads (fabric : Fabric) (queued : Queued fabric) (calls : List Call) (final : Call)
    (known : ∀ call ∈ calls ++ [final], call.known fabric) :
    ∃ batch, Reach batchStep always (startBatch fabric (calls ++ [final])) batch ∧ Loaded (calls.length + 1) batch ∧
      batch.fabric.batch = fabric.batch + 1 ∧ batch.fabric.launched = fabric.launched ++ [calls.length + 1] ∧
      batch.fabric.nic.counters .completion = 0 ∧
      (∀ work ∈ (releaseReady fabric.nic).pending, work ∈ batch.fabric.nic.pending) ∧
      ∀ call ∈ calls, call.isPut = false → ∃ threshold ≤ calls.length,
        writebackWork threshold ∈ batch.fabric.nic.pending := by
  have queuedStart : Queued (startBatch fabric (calls ++ [final])).fabric :=
    step_queued fabric _ .resetCounters queued rfl
  have knownStart : ∀ call ∈ calls ++ [final], call.known (startBatch fabric (calls ++ [final])).fabric :=
    fun call member => call_known_same fabric _ call rfl (known call member)
  obtain ⟨before, ahead, todo⟩ := host_queues calls (startBatch fabric (calls ++ [final])) [final] rfl
    (fun call member => knownStart call (by simp [member]))
  have knownFinal : final.known before.fabric :=
    call_known_same _ before.fabric final ahead.remoteInfo (knownStart final (by simp))
  obtain ⟨after, behind, emptied⟩ := host_queues [final] before [] todo (by simpa using knownFinal)
  obtain ⟨added, pending, own, within, writebacks⟩ := ahead.pending
  obtain ⟨ending, pendingFinal, ownFinal, withinFinal, _⟩ := behind.pending
  have batchEq : before.fabric.batch = fabric.batch + 1 := ahead.batch
  have current : before.fabric.currentThreshold = calls.length :=
    ahead.threshold.trans (Nat.zero_add calls.length)
  have count : after.fabric.currentThreshold = calls.length + 1 := by rw [behind.threshold, current]; rfl
  have last : after.lastThreshold = calls.length + 1 := (behind.last (ahead.last rfl)).trans count
  let loaded : Batch := { after with fabric := trigger after.fabric after.lastThreshold, triggered := true }
  have all : loaded.fabric.nic.pending = (releaseReady fabric.nic).pending ++ added ++ ending :=
    pendingFinal.trans (congrArg (· ++ ending) pending)
  have stamp : loaded.fabric.batch = fabric.batch + 1 := behind.batch.trans batchEq
  have none := start_no_batch_write fabric queued
  have stepped : batchStep after .host = some loaded := by
    have untriggered : after.triggered = false := behind.triggered.trans ahead.triggered
    simp [batchStep, emptied, untriggered, loaded]
  refine ⟨loaded, .step _ _ .host (reach_trans batchStep always _ _ _ ahead.reached behind.reached) trivial stepped,
    ⟨rfl, last, behind.works (ahead.works queuedStart), ?_, ?_⟩, stamp, ?_, ?_, ?_, ?_⟩
  · have own : added.countP (batchWrite (fabric.batch + 1)) = calls.length := own
    rw [batchEq] at ownFinal
    rw [all, stamp, List.countP_append, List.countP_append, release_batch_writes, none, own, ownFinal]
    simp
  · intro work member chosen
    rw [all, List.append_assoc, List.mem_append, List.mem_append] at member
    rw [stamp] at chosen
    rcases member with old | early | final
    · rw [← release_batch_writes, List.countP_eq_zero] at none
      exact absurd chosen (none work old)
    · exact Nat.le_succ_of_le (current ▸ within work early)
    · exact count ▸ withinFinal work final
  · simp only [loaded, trigger, last, behind.launched, ahead.launched]
    rfl
  · have counters := congrFun (behind.counters.trans ahead.counters) .completion
    exact counters.trans (by simp [startBatch, resetCounters, setCounter])
  · intro work member
    rw [all]
    exact List.mem_append_left _ (List.mem_append_left _ member)
  · intro call member raw
    obtain ⟨t, bound, found⟩ := writebacks call member raw
    exact ⟨t, current ▸ bound, by simp [all, found]⟩

structure Kept (before after : Batch) : Prop where
  batch : after.fabric.batch = before.fabric.batch
  completion : after.fabric.nic.counters .completion = before.fabric.nic.counters .completion
  pending : ∀ work ∈ before.fabric.nic.pending, ∃ left ≤ work.threshold,
    { work with threshold := left } ∈ after.fabric.nic.pending

theorem kept_trans (first second third : Batch) (early : Kept first second) (late : Kept second third) :
    Kept first third where
  batch := late.batch.trans early.batch
  completion := late.completion.trans early.completion
  pending := by
    intro work member
    obtain ⟨left, bound, found⟩ := early.pending work member
    obtain ⟨last, lower, kept⟩ := late.pending _ found
    exact ⟨last, Nat.le_trans lower bound, kept⟩

theorem kernel_loaded (count : Nat) (batch : Batch) (loaded : Loaded count batch) (value : Nat) (rest : List Nat)
    (launched : batch.fabric.launched = value :: rest) :
    ∃ after, batchStep batch .triggerKernel = some after ∧ Loaded count after ∧ Kept batch after ∧
      after.fabric.launched = rest ∧ after.fabric.nic.counters .trigger = value := by
  let after : Batch := { batch with fabric := { batch.fabric with
    nic := setCounter (releaseReady batch.fabric.nic) .trigger value, launched := rest } }
  refine ⟨after, by simp [batchStep, storeTrigger, triggerKernel, launched, after],
    ⟨loaded.triggered, loaded.last, release_queued batch.fabric loaded.works, ?_, ?_⟩, ⟨rfl, ?_, ?_⟩, rfl, ?_⟩
  · exact (release_batch_writes _ _).trans loaded.own
  · intro work member chosen
    obtain ⟨before, queued, rfl⟩ := List.mem_map.mp member
    exact Nat.le_trans (release_threshold _ _) (loaded.within before queued (by simpa [batchWrite] using chosen))
  · simp [after, setCounter]
  · intro work member
    exact ⟨_, release_threshold batch.fabric.nic work, List.mem_map.mpr ⟨work, member, release_same _ _⟩⟩
  · simp [after, setCounter]

theorem kernels_loaded (count : Nat) (front : List Nat) (batch : Batch) (loaded : Loaded count batch) (value : Nat)
    (rest : List Nat) (launched : batch.fabric.launched = front ++ value :: rest) :
    ∃ after, Reach batchStep always batch after ∧ Loaded count after ∧ Kept batch after ∧
      after.fabric.launched = rest ∧ after.fabric.nic.counters .trigger = value := by
  induction front generalizing batch with
  | nil =>
      obtain ⟨after, stepped, result⟩ := kernel_loaded count batch loaded value rest launched
      exact ⟨after, .step _ _ .triggerKernel .start trivial stepped, result⟩
  | cons first front ih =>
      obtain ⟨next, stepped, loadedNext, keptNext, left, _⟩ :=
        kernel_loaded count batch loaded first (front ++ value :: rest) launched
      obtain ⟨after, reached, loadedAfter, keptAfter, result⟩ := ih next loadedNext left
      exact ⟨after, reach_head batchStep always _ _ _ .triggerKernel trivial stepped reached, loadedAfter,
        kept_trans batch next after keptNext keptAfter, result⟩

theorem returns_early (count : Nat) (batch : Batch) (triggered : batch.triggered = true)
    (last : batch.lastThreshold = count) (enough : count ≤ batch.fabric.nic.counters .completion)
    (late : ∃ write threshold, write.batch = batch.fabric.batch ∧ threshold ≤ count ∧
      rmaWork write threshold ∈ batch.fabric.nic.pending) : batch.waitReturns ∧ ¬ batch.writesDone := by
  obtain ⟨write, threshold, own, bound, member⟩ := late
  refine ⟨⟨triggered, by simpa only [waitOver, last] using enough⟩, fun done => ?_⟩
  exact done write threshold member own (last.symm ▸ bound)

theorem own_writes_complete (earlier : Nat) (batch : Batch) (loaded : Loaded (earlier + 1) batch)
    (signal : batch.fabric.nic.counters .trigger = earlier + 1) :
    ∃ nic, Reach fireStep always batch.fabric.nic nic ∧
      nic.counters .completion = batch.fabric.nic.counters .completion + earlier ∧
      (∃ write threshold, write.batch = batch.fabric.batch ∧ threshold ≤ earlier + 1 ∧
        rmaWork write threshold ∈ nic.pending) ∧
      ∀ work ∈ batch.fabric.nic.pending, batchWrite batch.fabric.batch work = false → work ∈ nic.pending := by
  have own : ∀ work ∈ batch.fabric.nic.pending, batchWrite batch.fabric.batch work = true →
      ∃ write threshold, work = rmaWork write threshold ∧ write.batch = batch.fabric.batch ∧ threshold ≤ earlier + 1 := by
    intro work member chosen
    rcases loaded.works work member with ⟨write, threshold, rfl, _⟩ | ⟨threshold, rfl⟩
    · exact ⟨write, threshold, rfl, by simpa [batchWrite, rmaWork] using chosen, loaded.within _ member chosen⟩
    · simp [batchWrite, writebackWork] at chosen
  obtain ⟨nic, reached, gained, left, subset, kept⟩ :=
    fire_some (batchWrite batch.fabric.batch) .completion earlier batch.fabric.nic (by
      intro work member chosen
      obtain ⟨write, threshold, rfl, _, bound⟩ := own work member chosen
      exact ⟨by simpa only [Ready, rmaWork, signal] using bound, by simp [credit, rmaWork]⟩) (by
      rw [loaded.own]
      exact Nat.le_succ earlier)
  have one : 0 < nic.pending.countP (batchWrite batch.fabric.batch) := by
    have counted := loaded.own
    omega
  obtain ⟨work, member, chosen⟩ := List.countP_pos_iff.mp one
  obtain ⟨write, threshold, rfl, stamp, bound⟩ := own work (subset work member) chosen
  exact ⟨nic, reached, gained, ⟨write, threshold, stamp, bound, member⟩, kept⟩

theorem extra_bump_returns_early (earlier : Nat) (batch : Batch) (loaded : Loaded (earlier + 1) batch)
    (signal : batch.fabric.nic.counters .trigger = earlier + 1)
    (extra : 1 ≤ batch.fabric.nic.counters .completion ∨
      ∃ threshold < earlier + 1, writebackWork threshold ∈ batch.fabric.nic.pending) :
    ∃ after, Reach batchStep always batch after ∧ after.waitReturns ∧ ¬ after.writesDone := by
  obtain ⟨nic, fires, completion, late, stays⟩ := own_writes_complete earlier batch loaded signal
  have reached := reach_fires batch nic fires
  rcases extra with bumped | ⟨threshold, low, queued⟩
  · exact ⟨_, reached, returns_early _ _ loaded.triggered loaded.last (by simp only; omega) late⟩
  · have waiting : writebackWork threshold ∈ nic.pending := stays _ queued (by simp [batchWrite, writebackWork])
    obtain ⟨bumped, fires, fired⟩ := fire_member nic (writebackWork threshold) waiting
      (show threshold ≤ nic.counters .completion by omega)
    have gained := fired.counters .completion
    simp [credit, writebackWork] at gained
    obtain ⟨write, stamp, own, bound, outstanding⟩ := late
    have still : rmaWork write stamp ∈ bumped.pending := by
      have both := fired.perm.mem_iff.mp outstanding
      simpa [rmaWork, writebackWork] using both
    have later := reach_fires { batch with fabric := { batch.fabric with nic := nic } } bumped fires
    exact ⟨_, reach_trans batchStep always _ _ _ reached later,
      returns_early _ _ loaded.triggered loaded.last (by simp only; omega) ⟨write, stamp, own, bound, still⟩⟩

theorem foreign_fire_loaded (count : Nat) (batch : Batch) (loaded : Loaded count batch) (work : CntrWork)
    (nic : Nic Cntr RmaWrite) (fired : Fired batch.fabric.nic nic work)
    (foreign : batchWrite batch.fabric.batch work = false) :
    Loaded count { batch with fabric := { batch.fabric with nic := nic } } := by
  have counted := fired_count _ _ _ fired (batchWrite batch.fabric.batch)
  simp only [foreign, Bool.false_eq_true, if_false, Nat.add_zero] at counted
  obtain ⟨_, remaining⟩ := fired_pending _ _ _ fired
  exact ⟨loaded.triggered, loaded.last, fun other left => loaded.works other (remaining other left),
    counted.symm.trans loaded.own, fun other left chosen => loaded.within other (remaining other left) chosen⟩

theorem kernels_finish (count : Nat) (batch : Batch) (loaded : Loaded count batch) (front rest : List Nat) (value : Nat)
    (launched : front ++ [count] = value :: rest) (left : batch.fabric.launched = rest)
    (signal : batch.fabric.nic.counters .trigger = value) :
    ∃ after, Reach batchStep always batch after ∧ Loaded count after ∧
      after.fabric.nic.counters .trigger = count ∧
      after.fabric.nic.counters .completion = batch.fabric.nic.counters .completion := by
  cases front with
  | nil =>
      obtain ⟨rfl, rfl⟩ : count = value ∧ [] = rest := by simpa using launched
      exact ⟨batch, .start, loaded, signal, rfl⟩
  | cons first front =>
      obtain ⟨_, rfl⟩ : first = value ∧ front ++ [count] = rest := by simpa using launched
      obtain ⟨after, reached, loadedAfter, kept, _, stored⟩ := kernels_loaded count front batch loaded count [] left
      exact ⟨after, reached, loadedAfter, stored, kept.completion⟩

theorem release_overtakes (fabric : Fabric) (count : Nat) (positive : 0 < count) (work : CntrWork)
    (disturbs : Disturbs fabric count work) : Overtakes fabric.launched count (release fabric.nic work) := by
  unfold release
  split
  · cases triggering : work.triggering with
    | trigger => simp [Overtakes]
    | completion => simpa [Overtakes, triggering] using positive
  · rename_i waiting
    exact disturbs.resolve_left waiting

theorem leftover_write_returns_early (earlier : Nat) (launched : List Nat) (batch : Batch)
    (loaded : Loaded (earlier + 1) batch) (stream : batch.fabric.launched = launched ++ [earlier + 1])
    (write : RmaWrite) (threshold : Nat) (old : write.batch < batch.fabric.batch)
    (member : rmaWork write threshold ∈ batch.fabric.nic.pending)
    (overtakes : Overtakes launched (earlier + 1) (rmaWork write threshold)) :
    ∃ after, Reach batchStep always batch after ∧ after.waitReturns ∧ ¬ after.writesDone := by
  obtain ⟨value, stored, low⟩ := overtakes
  obtain ⟨front, rest, split⟩ := List.append_of_mem stored
  obtain ⟨released, kernels, loadedReleased, kept, left, signal⟩ :=
    kernels_loaded (earlier + 1) front batch loaded value rest (stream.trans split)
  obtain ⟨lower, bound, found⟩ := kept.pending _ member
  have waiting : rmaWork write lower ∈ released.fabric.nic.pending := found
  have below : lower ≤ value := Nat.le_trans bound low
  obtain ⟨nic, fires, fired⟩ := fire_member released.fabric.nic (rmaWork write lower) waiting
    (by simpa only [Ready, rmaWork, signal] using below)
  have foreign : batchWrite released.fabric.batch (rmaWork write lower) = false := by
    simp [batchWrite, rmaWork, kept.batch]
    omega
  have loadedNow := foreign_fire_loaded (earlier + 1) released loadedReleased _ nic fired foreign
  have completion := fired.counters .completion
  have trigger := fired.counters .trigger
  simp [credit, rmaWork] at completion trigger
  obtain ⟨back, tail⟩ : ∃ back, back ++ [earlier + 1] = value :: rest := by
    refine ⟨(value :: rest).dropLast, List.dropLast_append_getLast? _ ?_⟩
    have final := congrArg List.getLast? split
    simpa [List.getLast?_append, List.getLast?_cons] using final.symm
  obtain ⟨ready, finish, loadedReady, signalReady, completionReady⟩ :=
    kernels_finish (earlier + 1) _ loadedNow back rest value tail left (trigger.trans signal)
  obtain ⟨after, later, early⟩ := extra_bump_returns_early earlier ready loadedReady signalReady
    (Or.inl (by rw [completionReady]; simp only [completion]; omega))
  exact ⟨after, reach_trans _ _ _ _ _ kernels (reach_trans _ _ _ _ _ (reach_fires released nic fires)
    (reach_trans _ _ _ _ _ finish later)), early⟩

theorem writeback_returns_early (earlier : Nat) (launched : List Nat) (batch : Batch)
    (loaded : Loaded (earlier + 1) batch) (stream : batch.fabric.launched = launched ++ [earlier + 1])
    (threshold : Nat) (low : threshold < earlier + 1) (member : writebackWork threshold ∈ batch.fabric.nic.pending) :
    ∃ after, Reach batchStep always batch after ∧ after.waitReturns ∧ ¬ after.writesDone := by
  obtain ⟨ready, kernels, loadedReady, kept, _, signal⟩ :=
    kernels_loaded (earlier + 1) launched batch loaded (earlier + 1) [] stream
  obtain ⟨left, bound, found⟩ := kept.pending _ member
  obtain ⟨after, later, early⟩ := extra_bump_returns_early earlier ready loadedReady signal
    (Or.inr ⟨left, Nat.lt_of_le_of_lt bound low, found⟩)
  exact ⟨after, reach_trans _ _ _ _ _ kernels later, early⟩

theorem disturbed_returns_early (fabric : Fabric) (queued : Queued fabric) (calls : List Call) (final : Call)
    (known : ∀ call ∈ calls ++ [final], call.known fabric)
    (disturbed : (∃ call ∈ calls, call.isPut = false) ∨
      ∃ work ∈ fabric.nic.pending, Disturbs fabric (calls.length + 1) work) :
    ∃ after, Reach batchStep always (startBatch fabric (calls ++ [final])) after ∧ after.waitReturns ∧
      ¬ after.writesDone := by
  obtain ⟨batch, reached, loaded, stamped, launched, _, stays, writebacks⟩ :=
    host_loads fabric queued calls final known
  suffices returns : ∃ after, Reach batchStep always batch after ∧ after.waitReturns ∧ ¬ after.writesDone by
    obtain ⟨after, later, early⟩ := returns
    exact ⟨after, reach_trans _ _ _ _ _ reached later, early⟩
  rcases disturbed with ⟨call, member, raw⟩ | ⟨work, member, disturbs⟩
  · obtain ⟨threshold, bound, found⟩ := writebacks call member raw
    exact writeback_returns_early calls.length fabric.launched batch loaded launched threshold
      (Nat.lt_succ_of_le bound) found
  · have overtakes := release_overtakes fabric (calls.length + 1) (Nat.succ_pos _) work disturbs
    have left := stays _ (List.mem_map.mpr ⟨work, member, rfl⟩)
    rcases queued work member with ⟨write, threshold, rfl, stamp⟩ | ⟨threshold, rfl⟩
    · obtain ⟨lower, _, same⟩ := release_rma_work fabric.nic write threshold
      rw [same] at overtakes left
      exact leftover_write_returns_early calls.length fabric.launched batch loaded launched write lower
        (by omega) left overtakes
    · obtain ⟨lower, _, same⟩ := release_writeback_work fabric.nic threshold
      rw [same] at overtakes left
      exact writeback_returns_early calls.length fabric.launched batch loaded launched lower overtakes left

-- The batch is `calls` and then `final`, whose threshold is the one triggered and waited for.
theorem wait_covers_batch_iff (avAddrs : Nat → Nat) (virtAddrMode : Bool) (fabric : Fabric)
    (reached : Reach step always (openFabric avAddrs virtAddrMode) fabric) (calls : List Call) (final : Call)
    (known : ∀ call ∈ calls ++ [final], call.known fabric) :
    (∀ batch, Reach batchStep always (startBatch fabric (calls ++ [final])) batch → batch.waitReturns →
        batch.writesDone) ↔
      (∀ call ∈ calls, call.isPut = true) ∧ ∀ work ∈ fabric.nic.pending, ¬ Disturbs fabric (calls.length + 1) work := by
  have queued := reach_queued avAddrs virtAddrMode fabric reached
  constructor
  · intro covers
    by_contra bad
    have disturbed : (∃ call ∈ calls, call.isPut = false) ∨
        ∃ work ∈ fabric.nic.pending, Disturbs fabric (calls.length + 1) work := by
      by_contra calm
      simp only [not_or, not_exists, not_and, Bool.not_eq_false] at calm
      exact bad calm
    obtain ⟨batch, later, returns, undone⟩ := disturbed_returns_early fabric queued calls final known disturbed
    exact undone (covers batch later returns)
  · rintro ⟨puts, leftover⟩ batch later returns
    have calm : Calm fabric.launched (calls ++ [final]).length batch :=
      reach_invariant batchStep always _ _ batch
        (start_calm fabric queued (calls ++ [final]) (by simpa using puts) (by simpa using leftover))
        (fun before after turn calm _ taken => batch_step_calm _ _ before after turn calm taken) later
    exact calm_wait_done _ _ batch calm returns

def messagePuts : List Call :=
  [.putRaw ⟨8, 1, 1⟩ 1 8 77 56, .putRaw ⟨0, 1, 1⟩ 1 0 77 8]

theorem message_puts_return_early : ∃ batch, Reach batchStep always (startBatch (openFabric id true) messagePuts) batch ∧
    batch.waitReturns ∧ ¬ batch.writesDone := by
  let outstanding : RmaWrite := ⟨0, 1, 8, 1, 0, 77, 1⟩
  obtain ⟨batch, reached, pending, stamp, triggered, last, completion⟩ := reach_of_decided batchStep always
    [.host, .host, .host, .triggerKernel, .fire 0, .fire 0] (startBatch (openFabric id true) messagePuts)
    (fun batch => batch.fabric.nic.pending = [rmaWork outstanding 2, writebackWork 2] ∧ batch.fabric.batch = 1 ∧
      batch.triggered = true ∧ batch.lastThreshold = 2 ∧ batch.fabric.nic.counters .completion = 2) (by decide +kernel)
  refine ⟨batch, reached,
    returns_early 2 batch triggered last (Nat.le_of_eq completion.symm) ⟨outstanding, 2, stamp.symm, Nat.le_refl 2, ?_⟩⟩
  simp [pending]

def announced : Fabric := setRemoteInfoByIndex (openFabric id true) 1 0 4096 77 0

theorem put_then_raw_covered : ∃ batch,
    Reach batchStep always (startBatch announced ([.put ⟨64, 1, 1⟩ 1 0 8] ++ [.putRaw ⟨64, 1, 1⟩ 1 4096 77 8])) batch ∧
      batch.waitReturns ∧ batch.writesDone := by
  obtain ⟨batch, reached, returns⟩ := reach_of_decided batchStep always
    [.host, .host, .host, .triggerKernel, .fire 0, .fire 0]
    (startBatch announced ([.put ⟨64, 1, 1⟩ 1 0 8] ++ [.putRaw ⟨64, 1, 1⟩ 1 4096 77 8]))
    (fun batch => batch.triggered = true ∧ waitOver batch.fabric batch.lastThreshold) (by decide +kernel)
  refine ⟨batch, reached, returns, ?_⟩
  refine (wait_covers_batch_iff id true announced ?_ _ _ ?_).mpr ⟨by decide, fun work member => ?_⟩ batch reached returns
  · exact .step _ _ (.setRemoteInfoByIndex 1 0 4096 77 0) .start trivial rfl
  · decide
  · simp [announced, setRemoteInfoByIndex, openFabric] at member

end OpenGda.Ofi
