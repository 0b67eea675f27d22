import OpenGda.Ofi.FabricSignal

set_option autoImplicit false

namespace OpenGda.FabricSignal

open DeferredWork Machine OpenGda.Ofi OpenGda.Dwq

def atomicWork (fabric : Fabric) (threshold : Nat) : SignalWork :=
  atomicDwqWork (signalMessage fabric) true .completion .atomicCompletion threshold

def callWorks (fabric : Fabric) (threshold : Nat) (call : Call) : List SignalWork :=
  match call.write fabric with
  | none => []
  | some message =>
      rmaDwqWork message call.signaled .trigger .completion threshold ::
        if call.signaled then [atomicWork fabric threshold] else []

def planWorks (fabric : Fabric) (threshold : Nat) : List Call → List SignalWork
  | [] => []
  | call :: rest => callWorks fabric (threshold + 1) call ++ planWorks fabric (threshold + 1) rest

theorem plan_works_append (fabric : Fabric) (threshold : Nat) (first second : List Call) :
    planWorks fabric threshold (first ++ second) =
      planWorks fabric threshold first ++ planWorks fabric (threshold + first.length) second := by
  induction first generalizing threshold with
  | nil => simp [planWorks]
  | cons call rest ih =>
      simp only [List.cons_append, planWorks, ih, List.length_cons, List.append_assoc]
      rw [show threshold + 1 + rest.length = threshold + (rest.length + 1) by omega]

inductive PlannedWork (fabric : Fabric) (low high : Nat) : SignalWork → Prop where
  | write (message : RmaMessage) (signaled : Bool) (threshold : Nat) (after : low < threshold)
      (upto : threshold ≤ high) :
      PlannedWork fabric low high (rmaDwqWork message signaled .trigger .completion threshold)
  | atomic (threshold : Nat) (after : low < threshold) (upto : threshold ≤ high) :
      PlannedWork fabric low high (atomicWork fabric threshold)

theorem planned_widen (fabric : Fabric) (low high low' high' : Nat) (work : SignalWork) (below : low' ≤ low)
    (above : high ≤ high') (planned : PlannedWork fabric low high work) : PlannedWork fabric low' high' work := by
  cases planned with
  | write message signaled threshold after upto => exact .write message signaled threshold (by omega) (by omega)
  | atomic threshold after upto => exact .atomic threshold (by omega) (by omega)

theorem call_works_planned (fabric : Fabric) (threshold : Nat) (call : Call) (work : SignalWork)
    (member : work ∈ callWorks fabric (threshold + 1) call) :
    PlannedWork fabric threshold (threshold + 1) work := by
  unfold callWorks at member
  cases written : call.write fabric with
  | none => simp [written] at member
  | some message =>
      simp only [written, List.mem_cons] at member
      rcases member with rfl | signal
      · exact .write message call.signaled (threshold + 1) (by omega) (by omega)
      · split at signal
        · cases List.mem_singleton.mp signal
          exact .atomic (threshold + 1) (by omega) (by omega)
        · simp at signal

theorem plan_works_planned (fabric : Fabric) (threshold : Nat) (calls : List Call) (work : SignalWork)
    (member : work ∈ planWorks fabric threshold calls) :
    PlannedWork fabric threshold (threshold + calls.length) work := by
  induction calls generalizing threshold with
  | nil => simp [planWorks] at member
  | cons call rest ih =>
      rw [List.length_cons]
      rcases List.mem_append.mp member with own | later
      · exact planned_widen fabric _ _ _ _ work (by omega) (by omega) (call_works_planned fabric threshold call work own)
      · exact planned_widen fabric _ _ _ _ work (by omega) (by omega) (ih (threshold + 1) later)

def atomicThreshold (work : SignalWork) : Option Nat := if isAtomic work then some work.threshold else none

theorem atomic_thresholds_length (works : List SignalWork) :
    (works.filterMap atomicThreshold).length = works.countP isAtomic := by
  induction works with
  | nil => rfl
  | cons work rest ih => cases kind : isAtomic work <;> simp [atomicThreshold, kind, ← ih]

theorem atomic_thresholds_mem (works : List SignalWork) (threshold : Nat) :
    threshold ∈ works.filterMap atomicThreshold ↔
      ∃ work ∈ works, isAtomic work = true ∧ work.threshold = threshold := by
  simp [atomicThreshold, List.mem_filterMap]

theorem call_works_atomics (fabric : Fabric) (threshold : Nat) (call : Call) (known : call.known fabric = true) :
    (callWorks fabric threshold call).filterMap atomicThreshold = if call.signaled then [threshold] else [] := by
  obtain ⟨message, written⟩ := Option.isSome_iff_exists.mp known
  cases kind : call.signaled <;>
    simp [callWorks, written, kind, atomicThreshold, isAtomic, rmaDwqWork, atomicWork, atomicDwqWork]

theorem plan_atomics_nodup (fabric : Fabric) (threshold : Nat) (calls : List Call)
    (known : ∀ call ∈ calls, call.known fabric = true) :
    ((planWorks fabric threshold calls).filterMap atomicThreshold).Nodup := by
  induction calls generalizing threshold with
  | nil => simp [planWorks]
  | cons call rest ih =>
      have later := ih (threshold + 1) fun other member => known other (List.mem_cons_of_mem call member)
      simp only [planWorks, List.filterMap_append, call_works_atomics fabric (threshold + 1) call (known call (by simp))]
      cases kind : call.signaled with
      | false => simpa using later
      | true =>
          simp only [if_true, List.singleton_append, List.nodup_cons]
          refine ⟨fun again => ?_, later⟩
          obtain ⟨work, member, _, same⟩ := (atomic_thresholds_mem _ _).mp again
          cases plan_works_planned fabric (threshold + 1) rest work member with
          | write message signaled bound after upto =>
              have := show bound = threshold + 1 from same
              omega
          | atomic bound after upto =>
              have := show bound = threshold + 1 from same
              omega

theorem plan_write_counts (fabric : Fabric) (threshold : Nat) (calls : List Call)
    (known : ∀ call ∈ calls, call.known fabric = true) :
    (planWorks fabric threshold calls).countP isWrite = calls.length ∧
      (planWorks fabric threshold calls).countP isSignaledWrite = calls.countP Call.signaled ∧
      (planWorks fabric threshold calls).countP isAtomic = calls.countP Call.signaled := by
  induction calls generalizing threshold with
  | nil => simp [planWorks]
  | cons call rest ih =>
      obtain ⟨writes, signaled, atomics⟩ :=
        ih (threshold + 1) fun other member => known other (List.mem_cons_of_mem call member)
      obtain ⟨message, written⟩ := Option.isSome_iff_exists.mp (known call (by simp))
      simp only [planWorks, List.countP_append, writes, signaled, atomics]
      cases kind : call.signaled <;>
        simp [callWorks, written, kind, List.countP_cons, isWrite, isSignaledWrite, isAtomic, rmaDwqWork, atomicWork,
          atomicDwqWork, Nat.add_comm]

theorem puts_first_atomics (fabric : Fabric) (threshold : Nat) (calls : List Call)
    (known : ∀ call ∈ calls, call.known fabric = true)
    (putsFirst : calls.Pairwise fun earlier later => earlier.signaled = true → later.signaled = true) (bound : Nat)
    (member : bound ∈ (planWorks fabric threshold calls).filterMap atomicThreshold) :
    threshold + (calls.length - calls.countP Call.signaled) < bound := by
  induction calls generalizing threshold bound with
  | nil => simp [planWorks] at member
  | cons call rest ih =>
      obtain ⟨first, putsFirst⟩ := List.pairwise_cons.mp putsFirst
      have small := List.countP_le_length (p := Call.signaled) (l := rest)
      simp only [planWorks, List.filterMap_append, List.mem_append,
        call_works_atomics fabric (threshold + 1) call (known call (by simp))] at member
      have below := ih (threshold + 1) (fun other member => known other (List.mem_cons_of_mem call member)) putsFirst
      cases kind : call.signaled with
      | false =>
          have later := below bound (by simpa [kind] using member)
          simp only [List.length_cons, List.countP_cons_of_neg (p := Call.signaled) (a := call) (l := rest) (by simp [kind])]
          omega
      | true =>
          have all : rest.countP Call.signaled = rest.length :=
            List.countP_eq_length.mpr fun other member => first other member kind
          simp only [List.length_cons, List.countP_cons_of_pos (p := Call.signaled) (a := call) (l := rest) kind, all]
          rcases member with own | later
          · simp only [kind, if_true, List.mem_singleton] at own
            omega
          · have := below bound later
            omega

structure SameSettings (fabric other : Fabric) : Prop where
  remoteInfo : other.remoteInfo = fabric.remoteInfo
  virtAddrMode : other.virtAddrMode = fabric.virtAddrMode
  localAddrInAv : other.localAddrInAv = fabric.localAddrInAv
  atomicResultAddr : other.atomicResultAddr = fabric.atomicResultAddr

theorem next_write_same (fabric other : Fabric) (same : SameSettings fabric other) (srcHandle : Handle)
    (destRank destBufIndex size : Nat) :
    nextWrite other srcHandle destRank destBufIndex size = nextWrite fabric srcHandle destRank destBufIndex size := by
  simp only [nextWrite, same.remoteInfo, same.virtAddrMode]

theorem call_write_same (fabric other : Fabric) (same : SameSettings fabric other) (call : Call) :
    call.write other = call.write fabric := by
  cases call with
  | put => exact next_write_same fabric other same _ _ _ _
  | putWithSignal => exact next_write_same fabric other same _ _ _ _

theorem call_works_same (fabric other : Fabric) (same : SameSettings fabric other) (threshold : Nat) (call : Call) :
    callWorks other threshold call = callWorks fabric threshold call := by
  simp only [callWorks, atomicWork, signalMessage, call_write_same fabric other same call, same.virtAddrMode,
    same.localAddrInAv, same.atomicResultAddr]

structure Queued (before : Fabric) (call : Call) (after : Fabric) : Prop where
  settings : SameSettings before after
  known : call.known before = true
  threshold : after.currentThreshold = before.currentThreshold + 1
  pending : after.nic.pending = before.nic.pending ++ callWorks before (before.currentThreshold + 1) call
  counters : after.nic.counters = before.nic.counters
  atomicResult : after.atomicResult = before.atomicResult
  finished : after.finished = before.finished
  launched : after.launched = before.launched

theorem queue_call_queued (before after : Fabric) (call : Call) (threshold : Nat)
    (taken : queueCall before call = some (threshold, after)) :
    threshold = after.currentThreshold ∧ Queued before call after := by
  cases call with
  | put srcHandle destRank destBufIndex size =>
      simp only [queueCall, put] at taken
      cases written : nextWrite before srcHandle destRank destBufIndex size with
      | none => simp [written] at taken
      | some message =>
          simp only [written, Dwq.queueRmaWrite, Option.some.injEq, Prod.mk.injEq] at taken
          obtain ⟨rfl, rfl⟩ := taken
          exact ⟨rfl, ⟨rfl, rfl, rfl, rfl⟩, by simp [Call.known, Call.write, written], rfl,
            by simp [queueWork, callWorks, Call.write, Call.signaled, written], rfl, rfl, rfl, rfl⟩
  | putWithSignal srcHandle destRank destBufIndex size =>
      simp only [queueCall, putWithSignal] at taken
      cases written : nextWrite before srcHandle destRank destBufIndex size with
      | none => simp [written] at taken
      | some message =>
          simp only [written, Dwq.queueRmaWrite, queueAtomicSignal, Option.some.injEq, Prod.mk.injEq] at taken
          obtain ⟨rfl, rfl⟩ := taken
          exact ⟨rfl, ⟨rfl, rfl, rfl, rfl⟩, by simp [Call.known, Call.write, written], rfl,
            by simp [queueWork, callWorks, Call.write, Call.signaled, written, atomicWork], rfl, rfl, rfl, rfl⟩

theorem queue_call_known (fabric : Fabric) (call : Call) (known : call.known fabric = true) :
    ∃ threshold after, queueCall fabric call = some (threshold, after) := by
  have accepted : (queueCall fabric call).isSome = true := by
    rw [← known]
    cases call with
    | put srcHandle destRank destBufIndex size =>
        simp only [queueCall, put, Call.known, Call.write]
        cases nextWrite fabric srcHandle destRank destBufIndex size <;> rfl
    | putWithSignal srcHandle destRank destBufIndex size =>
        simp only [queueCall, putWithSignal, Call.known, Call.write]
        cases nextWrite fabric srcHandle destRank destBufIndex size <;> rfl
  obtain ⟨⟨threshold, after⟩, taken⟩ := Option.isSome_iff_exists.mp accepted
  exact ⟨threshold, after, taken⟩

structure Planned (fabric : Fabric) (calls : List Call) (batch : Batch) : Prop where
  settings : SameSettings fabric batch.fabric
  calls : batch.made ++ batch.todo = calls
  known : ∀ call ∈ batch.made, call.known fabric = true
  threshold : batch.fabric.currentThreshold = batch.made.length
  works : (batch.fabric.finished ++ batch.fabric.nic.pending).Perm (planWorks fabric 0 batch.made)
  completion : batch.fabric.nic.counters .completion = batch.fabric.finished.countP isWrite
  result : batch.fabric.atomicResult = batch.fabric.finished.countP isAtomic
  released : ∀ work ∈ batch.fabric.finished, isAtomic work = true →
    work.threshold ≤ batch.fabric.nic.counters .completion

theorem start_planned (fabric : Fabric) (quiet : Quiescent fabric) (calls : List Call) :
    Planned fabric calls (startBatch fabric calls) := by
  refine ⟨⟨rfl, rfl, rfl, rfl⟩, rfl, by simp [startBatch], rfl, ?_, ?_, rfl, by simp [startBatch, resetAtomicResult,
    resetCounters]⟩
  · simp [startBatch, resetAtomicResult, resetCounters, setCounter, quiet.pending, planWorks]
  · simp [startBatch, resetAtomicResult, resetCounters, setCounter]

theorem planned_effects (fabric : Fabric) (low high : Nat) (work : SignalWork)
    (planned : PlannedWork fabric low high work) :
    credit .completion work = (if isWrite work then 1 else 0) ∧
      atomicGain .atomicResult work = (if isAtomic work then 1 else 0) ∧
      (isAtomic work = true → work.triggering = .completion) := by
  cases planned <;>
    simp [credit, atomicGain, isWrite, isAtomic, rmaDwqWork, atomicWork, atomicDwqWork, signalMessage, atomicOperand]

theorem fire_planned (fabric : Fabric) (calls : List Call) (before : Batch) (work : SignalWork)
    (nic : Nic Cntr SignalMessage) (planned : Planned fabric calls before)
    (fired : Fired before.fabric.nic nic work) :
    Planned fabric calls { before with fabric := { before.fabric with
      nic := nic
      atomicResult := before.fabric.atomicResult + atomicGain .atomicResult work
      finished := before.fabric.finished ++ [work] } } := by
  have member : work ∈ planWorks fabric 0 before.made :=
    planned.works.mem_iff.mp (List.mem_append.mpr (.inr (fired_pending before.fabric.nic nic work fired).1))
  obtain ⟨credited, gained, triggering⟩ :=
    planned_effects fabric _ _ work (plan_works_planned fabric 0 before.made work member)
  have completion : nic.counters .completion =
      before.fabric.nic.counters .completion + if isWrite work then 1 else 0 := by
    rw [fired.counters, credited]
  obtain ⟨remoteInfo, virtAddrMode, localAddrInAv, atomicResultAddr⟩ := planned.settings
  refine ⟨⟨remoteInfo, virtAddrMode, localAddrInAv, atomicResultAddr⟩, planned.calls, planned.known,
    planned.threshold, ?_, ?_, ?_, ?_⟩
  · have moved : (before.fabric.finished ++ [work] ++ nic.pending).Perm
        (before.fabric.finished ++ before.fabric.nic.pending) := by
      rw [List.append_assoc]
      exact (fired.perm.symm).append_left before.fabric.finished
    exact moved.trans planned.works
  · rw [completion, planned.completion, List.countP_append, List.countP_singleton]
  · rw [planned.result, gained, List.countP_append, List.countP_singleton]
  · intro other member atomic
    rw [completion]
    rcases List.mem_append.mp member with earlier | last
    · exact Nat.le_add_right_of_le (planned.released other earlier atomic)
    · cases List.mem_singleton.mp last
      have ready := fired.ready
      rw [Ready, triggering atomic] at ready
      exact Nat.le_add_right_of_le ready

theorem step_planned (fabric : Fabric) (calls : List Call) (before after : Batch) (turn : Turn)
    (planned : Planned fabric calls before) (taken : batchStep before turn = some after) :
    Planned fabric calls after := by
  obtain ⟨remoteInfo, virtAddrMode, localAddrInAv, atomicResultAddr⟩ := planned.settings
  cases turn with
  | host =>
      cases todo : before.todo with
      | nil => simp [batchStep, todo] at taken
      | cons call rest =>
          simp only [batchStep, todo, Option.map_eq_some_iff] at taken
          obtain ⟨⟨threshold, next⟩, queued, rfl⟩ := taken
          obtain ⟨_, change⟩ := queue_call_queued before.fabric next call threshold queued
          have settings := change.settings
          have known : call.known fabric = true := by
            have := change.known
            rwa [Call.known, call_write_same fabric before.fabric planned.settings call] at this
          refine ⟨⟨?_, ?_, ?_, ?_⟩, ?_, ?_, ?_, ?_, ?_, ?_, ?_⟩
          · exact settings.remoteInfo.trans remoteInfo
          · exact settings.virtAddrMode.trans virtAddrMode
          · exact settings.localAddrInAv.trans localAddrInAv
          · exact settings.atomicResultAddr.trans atomicResultAddr
          · simpa [todo] using planned.calls
          · intro other member
            rcases List.mem_append.mp member with earlier | last
            · exact planned.known other earlier
            · cases List.mem_singleton.mp last
              exact known
          · simp [change.threshold, planned.threshold]
          · rw [plan_works_append, change.finished, change.pending, ← List.append_assoc, planned.threshold,
              call_works_same fabric before.fabric planned.settings]
            simpa [planWorks] using planned.works.append_right (callWorks fabric (before.made.length + 1) call)
          · rw [change.counters, change.finished]
            exact planned.completion
          · rw [change.atomicResult, change.finished]
            exact planned.result
          · rw [change.counters, change.finished]
            exact planned.released
  | trigger threshold =>
      cases taken
      exact ⟨⟨remoteInfo, virtAddrMode, localAddrInAv, atomicResultAddr⟩, planned.calls, planned.known,
        planned.threshold, planned.works, planned.completion, planned.result, planned.released⟩
  | triggerKernel =>
      simp only [batchStep, Option.map_eq_some_iff] at taken
      obtain ⟨next, stored, rfl⟩ := taken
      unfold triggerKernel at stored
      split at stored
      · simp at stored
      · cases stored
        exact ⟨⟨remoteInfo, virtAddrMode, localAddrInAv, atomicResultAddr⟩, planned.calls, planned.known,
          planned.threshold, planned.works, planned.completion, planned.result, planned.released⟩
  | fire index =>
      simp only [batchStep, fireWork, Option.map_map, Option.map_eq_some_iff] at taken
      obtain ⟨⟨work, nic⟩, taken, rfl⟩ := taken
      exact fire_planned fabric calls before work nic planned (fire_fired before.fabric.nic nic index work taken)

theorem reach_planned (fabric : Fabric) (quiet : Quiescent fabric) (calls : List Call) (batch : Batch)
    (reached : Reach batchStep inRange (startBatch fabric calls) batch) : Planned fabric calls batch :=
  reach_invariant batchStep inRange (Planned fabric calls) _ batch (start_planned fabric quiet calls)
    (fun before after turn planned _ taken => step_planned fabric calls before after turn planned taken) reached

theorem plan_prefix (fabric : Fabric) (calls : List Call) (batch : Batch) (planned : Planned fabric calls batch) :
    calls.takeWhile (Call.known fabric) = batch.made ++ batch.todo.takeWhile (Call.known fabric) := by
  rw [← planned.calls, List.takeWhile_append_of_pos planned.known]

theorem planned_split (fabric : Fabric) (calls : List Call) (batch : Batch) (planned : Planned fabric calls batch)
    (kind : SignalWork → Bool) :
    batch.fabric.finished.countP kind + batch.fabric.nic.pending.countP kind =
      (planWorks fabric 0 batch.made).countP kind := by
  rw [← List.countP_append, planned.works.countP_eq]

theorem signaled_write_is_write (work : SignalWork) (signaled : isSignaledWrite work = true) : isWrite work = true := by
  unfold isSignaledWrite at signaled
  split at signaled <;> simp_all [isWrite]

theorem finished_atomics_bounded (fabric : Fabric) (calls : List Call) (batch : Batch)
    (planned : Planned fabric calls batch)
    (putsFirst : batch.made.Pairwise fun earlier later => earlier.signaled = true → later.signaled = true) :
    batch.fabric.atomicResult ≤
      batch.fabric.nic.counters .completion - (batch.made.length - batch.made.countP Call.signaled) := by
  have thresholds := planned.works.filterMap atomicThreshold
  rw [List.filterMap_append] at thresholds
  have distinct : (batch.fabric.finished.filterMap atomicThreshold).Nodup :=
    (List.nodup_append.mp (thresholds.nodup_iff.mpr (plan_atomics_nodup fabric 0 batch.made planned.known))).1
  have inside : (batch.fabric.finished.filterMap atomicThreshold).toFinset ⊆
      Finset.Ioc (batch.made.length - batch.made.countP Call.signaled) (batch.fabric.nic.counters .completion) := by
    intro threshold member
    rw [List.mem_toFinset] at member
    obtain ⟨work, ran, atomic, same⟩ := (atomic_thresholds_mem _ threshold).mp member
    have released := planned.released work ran atomic
    have late := puts_first_atomics fabric 0 batch.made planned.known putsFirst threshold
      (thresholds.mem_iff.mp (List.mem_append.mpr (.inl member)))
    exact Finset.mem_Ioc.mpr ⟨by omega, by omega⟩
  calc batch.fabric.atomicResult
      = (batch.fabric.finished.filterMap atomicThreshold).length := by rw [planned.result, atomic_thresholds_length]
    _ = (batch.fabric.finished.filterMap atomicThreshold).toFinset.card := (List.toFinset_card_of_nodup distinct).symm
    _ ≤ _ := Finset.card_le_card inside
    _ = _ := Nat.card_Ioc _ _

theorem puts_first_honest (fabric : Fabric) (calls : List Call) (batch : Batch) (planned : Planned fabric calls batch)
    (putsFirst : batch.made.Pairwise fun earlier later => earlier.signaled = true → later.signaled = true) :
    batch.Honest := by
  obtain ⟨writes, signaled, _⟩ := plan_write_counts fabric 0 batch.made planned.known
  have writesSplit := planned_split fabric calls batch planned isWrite
  have signaledSplit := planned_split fabric calls batch planned isSignaledWrite
  have queuedSignaled : batch.fabric.nic.pending.countP isSignaledWrite ≤ batch.fabric.nic.pending.countP isWrite :=
    List.countP_mono_left fun work _ => signaled_write_is_write work
  have bounded := finished_atomics_bounded fabric calls batch planned putsFirst
  have completion := planned.completion
  have counted : batch.fabric.atomicResult ≤ batch.fabric.finished.countP isSignaledWrite := by omega
  refine ⟨counted, fun reached work member => ?_⟩
  have none : batch.fabric.nic.pending.countP isSignaledWrite = 0 := by omega
  exact Bool.eq_false_iff.mpr (List.countP_eq_zero.mp none work member)

end OpenGda.FabricSignal
