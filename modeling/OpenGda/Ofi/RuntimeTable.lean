import OpenGda.Ofi.ActiveMessageOrder
import OpenGda.Ofi.RuntimeShared

set_option autoImplicit false

-- Active messages on the Fabric of a Runtime, and the table of remote buffers
-- that exchange() has filled: staging slots and buffers share one numbering.
namespace OpenGda.Rt

open DeferredWork Machine
open Ofi (Fabric RmaWrite CntrWork RemoteInfo makeRemoteKey setRemoteInfoByIndex)

variable {size : Nat}

structure ReplyConfig (size : Nat) where
  stagingSize : Nat
  stagingBase : Nat → Nat
  stagingDesc : Nat → Nat
  remoteAckAddr : Fin size → UInt64
  remoteAckKey : Fin size → UInt64

structure AmHost (size : Nat) where
  am : Am.State size
  replyStaging : Nat → UInt64
  replyStagingIdx : Nat

def AmHost.fabric (host : AmHost size) (self : Fin size) : Fabric := (host.am self).fabric

def reply (replies : ReplyConfig size) (self : Fin size) (host : AmHost size) (dest : Fin size) (ackValue : UInt64) :
    Int × AmHost size :=
  if replies.stagingSize ≤ host.replyStagingIdx then (-1, host)
  else
    let rank := host.am self
    let slot := host.replyStagingIdx
    let rmaAddr := if rank.fabric.virtAddrMode then replies.remoteAckAddr dest else 0
    let put := Ofi.putRaw rank.fabric ⟨replies.stagingBase slot, 0, replies.stagingDesc slot⟩ dest rmaAddr
      (replies.remoteAckKey dest) 8
    (0, { am := Function.update host.am self { rank with
            fabric := put.2, maxThreshold := if rank.maxThreshold < put.1 then put.1 else rank.maxThreshold }
          replyStaging := Function.update host.replyStaging slot ackValue
          replyStagingIdx := slot + 1 })

inductive AmCall (size : Nat) where
  | am (action : Am.Action size)
  | reply (dest : Fin size) (ackValue : UInt64)

def hostStep (config : Am.Config size) (replies : ReplyConfig size) (self : Fin size) (host : AmHost size) :
    AmCall size → Option (AmHost size)
  | .am action => (Am.step config host.am action).map fun am =>
      { host with
        am := am
        replyStagingIdx := match action with
          | .waitReturn rank => if rank = self then 0 else host.replyStagingIdx
          | _ => host.replyStagingIdx }
  | .reply dest ackValue =>
      if (host.am self).waiting then none else some (reply replies self host dest ackValue).2

def Recorded (fabric : Fabric) (rank bufIndex : Nat) : Prop :=
  (fabric.remoteInfo (makeRemoteKey rank bufIndex)).isSome = true

theorem set_remote_info_recorded (fabric : Fabric) (destRank destIndex rank bufIndex : Nat) (addr key base : UInt64)
    (recorded : Recorded fabric rank bufIndex ∨ destRank = rank ∧ destIndex = bufIndex) :
    Recorded (setRemoteInfoByIndex fabric destRank destIndex addr key base) rank bufIndex := by
  unfold Recorded setRemoteInfoByIndex
  by_cases same : makeRemoteKey rank bufIndex = makeRemoteKey destRank destIndex
  · simp [same]
  · rcases recorded with old | ⟨rfl, rfl⟩
    · simpa only [Function.update_of_ne same, Recorded] using old
    · exact absurd rfl same

theorem set_remote_infos_recorded (metas : List (BufMeta × Nat)) (fabric : Fabric) (destRank rank bufIndex : Nat)
    (recorded : Recorded fabric rank bufIndex ∨ destRank = rank ∧ ∃ entry ∈ metas, entry.2 = bufIndex) :
    Recorded (metas.foldl (fun fabric (entry : BufMeta × Nat) =>
      setRemoteInfoByIndex fabric destRank entry.2 entry.1.addr entry.1.key 0) fabric) rank bufIndex := by
  induction metas generalizing fabric with
  | nil => simpa using recorded
  | cons entry rest ih =>
      apply ih
      rcases recorded with old | ⟨own, found, member, index⟩
      · exact .inl (set_remote_info_recorded fabric destRank entry.2 rank bufIndex _ _ _ (.inl old))
      · rcases List.mem_cons.mp member with rfl | later
        · exact .inl (set_remote_info_recorded fabric destRank found.2 rank bufIndex _ _ _ (.inr ⟨own, index⟩))
        · exact .inr ⟨own, found, later, index⟩

theorem exchange_records (rt after : Runtime) (raw : List (List BufMeta)) (exchanged : exchange rt raw = some after)
    (rank bufIndex : Nat) (metas : List BufMeta) (inside : raw[rank]? = some metas) (registered : bufIndex < metas.length) :
    Recorded after.fabric rank bufIndex := by
  have fold : ∀ (entries : List (List BufMeta × Nat)) (fabric : Fabric),
      Recorded fabric rank bufIndex ∨ (metas, rank) ∈ entries →
      Recorded (entries.foldl (fun fabric (entry : List BufMeta × Nat) =>
        setRemoteInfos fabric entry.2 entry.1) fabric) rank bufIndex := by
    intro entries
    induction entries with
    | nil => simp
    | cons entry rest ih =>
        intro fabric recorded
        apply ih
        rcases recorded with old | member
        · exact .inl (set_remote_infos_recorded _ fabric entry.2 rank bufIndex (.inl old))
        · rcases List.mem_cons.mp member with rfl | later
          · refine .inl (set_remote_infos_recorded _ fabric rank rank bufIndex (.inr ⟨rfl, ?_⟩))
            exact ⟨(metas[bufIndex], bufIndex), List.mk_mem_zipIdx_iff_getElem?.mpr (by simp [registered]), rfl⟩
          · exact .inr later
  unfold exchange at exchanged
  split_ifs at exchanged
  rw [← Option.some.inj exchanged]
  exact fold raw.zipIdx rt.fabric (.inr (List.mk_mem_zipIdx_iff_getElem?.mpr inside))

def Undisturbed (before after : Fabric) : Prop :=
  ∀ rank bufIndex, Recorded before rank bufIndex →
    getRemoteInfo after rank bufIndex = getRemoteInfo before rank bufIndex ∧
      remoteBuffer after rank bufIndex = remoteBuffer before rank bufIndex ∧
      ∀ ob destRank size srcOffset dstOffset,
        (putWrite after ob (getRemoteInfo after rank bufIndex) destRank size srcOffset dstOffset).remoteAddr =
            (putWrite before ob (getRemoteInfo before rank bufIndex) destRank size srcOffset dstOffset).remoteAddr ∧
          (putWrite after ob (getRemoteInfo after rank bufIndex) destRank size srcOffset dstOffset).remoteKey =
            (putWrite before ob (getRemoteInfo before rank bufIndex) destRank size srcOffset dstOffset).remoteKey

def announces (config : Am.Config size) (self : Fin size) (host : AmHost size) : AmCall size → Option (Fin size × Nat)
  | .am (.sendHandle me dest _ _) =>
      if me = self ∧ (host.am self).stagingIdx < config.stagingSize self then some (dest, (host.am self).stagingIdx)
      else none
  | _ => none

def ringInfo (config : Am.Config size) (self dest : Fin size) (avAddr : Nat) : RemoteInfo :=
  let ss := Am.sendState config self dest
  ⟨avAddr, ss.remoteRingBase, ss.remoteRingKey, ss.remoteRingBase⟩

-- The staging slot of a send_handle has no recorded buffer's number, unless the entry is the same.
def KeepsTable (config : Am.Config size) (self : Fin size) (table : Fabric) (host : AmHost size) (call : AmCall size) :
    Prop :=
  ∀ entry ∈ announces config self host call, ∀ rank bufIndex, Recorded table rank bufIndex →
    makeRemoteKey entry.1 entry.2 = makeRemoteKey rank bufIndex →
    ringInfo config self entry.1 (table.avAddrs entry.1) = getRemoteInfo table rank bufIndex

structure TableStep (config : Am.Config size) (owner : Fin size) (entry : Option (Fin size × Nat))
    (before after : Fabric) : Prop where
  avAddrs : after.avAddrs = before.avAddrs
  virtAddrMode : after.virtAddrMode = before.virtAddrMode
  remoteInfo : after.remoteInfo = match entry with
    | none => before.remoteInfo
    | some (dest, idx) => Function.update before.remoteInfo (makeRemoteKey dest idx)
        (some (ringInfo config owner dest (before.avAddrs dest)))

theorem table_same (config : Am.Config size) (self : Fin size) (fabric : Fabric) :
    TableStep config self none fabric fabric := ⟨rfl, rfl, rfl⟩

theorem queue_message_table (config : Am.Config size) (self : Fin size) (rank : Am.Rank size) (dest : Fin size)
    (message : Am.Message) : TableStep config self none rank.fabric (Am.queueMessage config self rank dest message).fabric :=
  ⟨rfl, rfl, rfl⟩

theorem deliver_fabric (config : Am.Config size) (state : Am.State size) (write : RmaWrite) (bytes : List UInt8)
    (self : Fin size) : (Am.deliver config state write bytes self).fabric = (state self).fabric := by
  unfold Am.deliver
  cases Am.lookup (fun rank : Fin size => config.avAddr rank) write.destAddr with
  | none => rfl
  | some dest =>
      by_cases same : self = dest
      · subst same
        simp only [Function.update_self, Am.receive]
        split
        · split_ifs <;> rfl
        · rfl
      · simp only [Function.update_of_ne same]

theorem land_table (config : Am.Config size) (before after : Am.State size) (source self : Fin size) (index : Nat)
    (taken : Am.land config before source index = some after) :
    TableStep config self none (before self).fabric (after self).fabric := by
  simp only [Am.land, Option.map_eq_some_iff, Prod.exists] at taken
  obtain ⟨work, nic, _, rfl⟩ := taken
  cases op : work.op with
  | write write =>
      simp only
      rw [deliver_fabric]
      by_cases same : self = source
      · subst same
        rw [Function.update_self]
        exact ⟨rfl, rfl, rfl⟩
      · rw [Function.update_of_ne same]
        exact table_same config self _
  | cntrAdd counter value =>
      simp only
      by_cases same : self = source
      · subst same
        rw [Function.update_self]
        exact ⟨rfl, rfl, rfl⟩
      · rw [Function.update_of_ne same]
        exact table_same config self _

theorem update_table (config : Am.Config size) (self me : Fin size) (entry : Option (Fin size × Nat))
    (state : Am.State size) (rank : Am.Rank size)
    (own : me = self → TableStep config self entry (state self).fabric rank.fabric) (others : me ≠ self → entry = none) :
    TableStep config self entry (state self).fabric (Function.update state me rank self).fabric := by
  by_cases same : self = me
  · subst same
    rw [Function.update_self]
    exact own rfl
  · rw [Function.update_of_ne same, others (Ne.symm same)]
    exact table_same config self _

theorem send_handle_table (config : Am.Config size) (self : Fin size) (rank : Am.Rank size) (dest : Fin size)
    (handlerId : UInt32) (args : Am.Args) :
    TableStep config self (if rank.stagingIdx < config.stagingSize self then some (dest, rank.stagingIdx) else none)
      rank.fabric (Am.sendHandle config self rank dest handlerId args).2.fabric := by
  unfold Am.sendHandle
  by_cases full : config.stagingSize self ≤ rank.stagingIdx
  · rw [if_pos full, if_neg (Nat.not_lt.mpr full)]
    exact table_same config self _
  · rw [if_neg full, if_pos (Nat.lt_of_not_le full)]
    exact ⟨rfl, rfl, rfl⟩

theorem send_payload_table (config : Am.Config size) (self : Fin size) (rank : Am.Rank size) (dest : Fin size)
    (handlerId : UInt32) (args : Am.Args) (payload : List UInt8) :
    TableStep config self none rank.fabric (Am.sendPayload config self rank dest handlerId args payload).2.fabric := by
  unfold Am.sendPayload
  split_ifs with fits full
  · exact table_same config self _
  · exact queue_message_table config self rank dest _
  · exact table_same config self _

theorem trigger_kernel_table (config : Am.Config size) (self : Fin size) (before after : Fabric)
    (taken : Ofi.triggerKernel before = some after) : TableStep config self none before after := by
  unfold Ofi.triggerKernel at taken
  split at taken
  · exact absurd taken (by simp)
  · rw [← Option.some.inj taken]
    exact ⟨rfl, rfl, rfl⟩

theorem reply_table (config : Am.Config size) (replies : ReplyConfig size) (self dest : Fin size)
    (host : AmHost size) (ackValue : UInt64) :
    TableStep config self none (host.fabric self) ((reply replies self host dest ackValue).2.fabric self) := by
  unfold reply
  split_ifs with full
  · exact table_same config self _
  · exact update_table config self self none host.am _ (fun _ => ⟨rfl, rfl, rfl⟩) fun _ => rfl

theorem am_step_table (config : Am.Config size) (self : Fin size) (host : AmHost size) (action : Am.Action size)
    (after : Am.State size) (taken : Am.step config host.am action = some after) :
    TableStep config self (announces config self host (.am action)) (host.fabric self) (after self).fabric := by
  cases action with
  | land source index => exact land_table config host.am after source self index taken
  | sendHandle me dest handlerId args =>
      simp only [Am.step, Am.rankStep] at taken
      split_ifs at taken with waiting
      · exact absurd taken (by simp)
      rw [← Option.some.inj taken]
      refine update_table config self me _ host.am _ ?_ ?_
      · rintro rfl
        simpa only [announces, true_and] using send_handle_table config me (host.am me) dest handlerId args
      · intro other
        simp [announces, other]
  | sendPayload me dest handlerId args payload =>
      simp only [Am.step, Am.rankStep] at taken
      split_ifs at taken with waiting
      · exact absurd taken (by simp)
      rw [← Option.some.inj taken]
      refine update_table config self me none host.am _ ?_ fun _ => rfl
      rintro rfl
      exact send_payload_table config me (host.am me) dest handlerId args payload
  | triggerAndWait me =>
      simp only [Am.step, Am.rankStep] at taken
      split_ifs at taken with waiting
      · exact absurd taken (by simp)
      rw [← Option.some.inj taken]
      refine update_table config self me none host.am _ ?_ fun _ => rfl
      rintro rfl
      unfold Am.triggerAndWait
      split_ifs
      · exact table_same config me _
      · exact ⟨rfl, rfl, rfl⟩
  | waitReturn me =>
      simp only [Am.step, Am.rankStep, Am.waitReturn] at taken
      split_ifs at taken with returned
      swap
      · exact absurd taken (by simp)
      rw [← Option.some.inj taken]
      refine update_table config self me none host.am _ ?_ fun _ => rfl
      rintro rfl
      exact table_same config me _
  | triggerKernel me =>
      simp only [Am.step, Am.rankStep, Option.map_map, Option.map_eq_some_iff] at taken
      obtain ⟨fabric, stored, rfl⟩ := taken
      refine update_table config self me none host.am _ ?_ fun _ => rfl
      rintro rfl
      exact trigger_kernel_table config me _ fabric stored
  | poll me peer maxPoll =>
      simp only [Am.step, Am.rankStep] at taken
      split at taken
      · exact absurd taken (by simp)
      · rw [← Option.some.inj taken]
        refine update_table config self me none host.am _ ?_ fun _ => rfl
        rintro rfl
        exact table_same config me _
  | check me peer =>
      simp only [Am.step, Am.rankStep, Option.map_map, Option.map_eq_some_iff] at taken
      obtain ⟨rank, checked, rfl⟩ := taken
      refine update_table config self me none host.am _ ?_ fun _ => rfl
      rintro rfl
      unfold Am.pollCheck at checked
      split at checked
      · split_ifs at checked <;> (rw [← Option.some.inj checked]; exact table_same config me _)
      · exact absurd checked (by simp)
  | dispatch me peer =>
      simp only [Am.step, Am.rankStep, Option.map_map, Option.map_eq_some_iff] at taken
      obtain ⟨rank, dispatched, rfl⟩ := taken
      refine update_table config self me none host.am _ ?_ fun _ => rfl
      rintro rfl
      unfold Am.pollDispatch at dispatched
      split at dispatched
      · rw [← Option.some.inj dispatched]
        exact table_same config me _
      · exact absurd dispatched (by simp)

theorem host_step_table (config : Am.Config size) (replies : ReplyConfig size) (self : Fin size)
    (before after : AmHost size) (call : AmCall size) (taken : hostStep config replies self before call = some after) :
    TableStep config self (announces config self before call) (before.fabric self) (after.fabric self) := by
  cases call with
  | am action =>
      simp only [hostStep, Option.map_eq_some_iff] at taken
      obtain ⟨state, stepped, rfl⟩ := taken
      exact am_step_table config self before action state stepped
  | reply dest ackValue =>
      simp only [hostStep] at taken
      split_ifs at taken
      rw [← Option.some.inj taken]
      exact reply_table config replies self dest before ackValue

structure SameTable (table fabric : Fabric) : Prop where
  avAddrs : fabric.avAddrs = table.avAddrs
  virtAddrMode : fabric.virtAddrMode = table.virtAddrMode
  entries : ∀ rank bufIndex, Recorded table rank bufIndex →
    fabric.remoteInfo (makeRemoteKey rank bufIndex) = table.remoteInfo (makeRemoteKey rank bufIndex)

theorem same_table_undisturbed (table fabric : Fabric) (same : SameTable table fabric) : Undisturbed table fabric := by
  intro rank bufIndex recorded
  have entry : getRemoteInfo fabric rank bufIndex = getRemoteInfo table rank bufIndex := by
    simp only [getRemoteInfo, same.entries rank bufIndex recorded]
  refine ⟨entry, ?_, ?_⟩
  · simp only [remoteBuffer, entry]
  · intro ob destRank size srcOffset dstOffset
    simp only [putWrite, entry, same.virtAddrMode, and_self]

theorem get_recorded (fabric : Fabric) (rank bufIndex : Nat) (recorded : Recorded fabric rank bufIndex) :
    fabric.remoteInfo (makeRemoteKey rank bufIndex) = some (getRemoteInfo fabric rank bufIndex) := by
  obtain ⟨info, found⟩ := Option.isSome_iff_exists.mp recorded
  simp [getRemoteInfo, found]

theorem host_same_table (config : Am.Config size) (replies : ReplyConfig size) (self : Fin size) (table : Fabric)
    (before after : AmHost size) (call : AmCall size) (same : SameTable table (before.fabric self))
    (keeps : KeepsTable config self table before call) (taken : hostStep config replies self before call = some after) :
    SameTable table (after.fabric self) := by
  have change := host_step_table config replies self before after call taken
  refine ⟨change.avAddrs.trans same.avAddrs, change.virtAddrMode.trans same.virtAddrMode, ?_⟩
  intro rank bufIndex recorded
  rw [change.remoteInfo]
  cases entry : announces config self before call with
  | none => exact same.entries rank bufIndex recorded
  | some announced =>
      obtain ⟨dest, idx⟩ := announced
      by_cases collides : makeRemoteKey rank bufIndex = makeRemoteKey dest idx
      · have equal := keeps (dest, idx) entry rank bufIndex recorded collides.symm
        simp only [collides, Function.update_self]
        rw [← collides, get_recorded table rank bufIndex recorded, ← equal, same.avAddrs]
      · simp only [Function.update_of_ne collides]
        exact same.entries rank bufIndex recorded

theorem host_av_addrs (config : Am.Config size) (replies : ReplyConfig size) (self : Fin size) (start host : AmHost size)
    (reached : Reach (hostStep config replies self) always start host) :
    (host.fabric self).avAddrs = (start.fabric self).avAddrs := by
  refine reach_invariant (hostStep config replies self) always
    (fun host => (host.fabric self).avAddrs = (start.fabric self).avAddrs) start host rfl ?_ reached
  intro before after call same _ taken
  exact (host_step_table config replies self before after call taken).avAddrs.trans same

theorem disturbed_entry (config : Am.Config size) (replies : ReplyConfig size) (self : Fin size) (table : Fabric)
    (before after : AmHost size) (call : AmCall size) (avAddrs : (before.fabric self).avAddrs = table.avAddrs)
    (taken : hostStep config replies self before call = some after)
    (undisturbed : Undisturbed table (after.fabric self)) : KeepsTable config self table before call := by
  rintro ⟨dest, idx⟩ entry rank bufIndex recorded collides
  have change := host_step_table config replies self before after call taken
  have found := (undisturbed rank bufIndex recorded).1
  rw [Option.mem_def] at entry
  simp only [entry] at change
  rw [← found, getRemoteInfo, change.remoteInfo]
  simp only at collides
  simp only [← collides, Function.update_self, Option.getD_some, avAddrs]

-- Every state of a run has the table as it was exactly when no send_handle of
-- the run takes a staging slot with the number of a recorded buffer of its peer.
theorem table_kept_iff (config : Am.Config size) (replies : ReplyConfig size) (self : Fin size) (rt : Runtime)
    (host : AmHost size) (calls : List (AmCall size)) (shared : host.fabric self = rt.fabric) :
    (∀ done state, run (hostStep config replies self) host (calls.take done) = some state →
        Undisturbed rt.fabric (state.fabric self)) ↔
      AllSteps (hostStep config replies self) (KeepsTable config self rt.fabric) host calls := by
  constructor
  · intro undisturbed done before after call ran found taken
    have reached := reach_of_steps (hostStep config replies self) always host calls
      (fun _ _ _ _ _ _ _ => trivial) done before ran
    have avAddrs := host_av_addrs config replies self host before reached
    rw [shared] at avAddrs
    exact disturbed_entry config replies self rt.fabric before after call avAddrs taken
      (undisturbed (done + 1) after (run_take_succ _ calls done host before after call ran found taken))
  · intro keeps done state ran
    have reached := reach_of_steps _ _ host calls keeps done state ran
    have initially : SameTable rt.fabric (host.fabric self) := by
      rw [shared]
      exact ⟨rfl, rfl, fun _ _ _ => rfl⟩
    exact same_table_undisturbed _ _ (reach_invariant _ _ (fun host => SameTable rt.fabric (host.fabric self)) host state
      initially (host_same_table config replies self rt.fabric) reached)

def Registers (_ : Runtime) : Action → Prop
  | .registerBuffer _ _ _ _ | .exchange _ => True
  | _ => False

instance (rt : Runtime) : (action : Action) → Decidable (Registers rt action)
  | .registerBuffer _ _ _ _ | .exchange _ => isTrue trivial
  | .putNoDb _ _ _ _ _ _ | .prepare | .prepareTrigger | .reset | .flush | .startQuiet _ | .quietStep _
  | .completeWrite _ | .completeAtomic _ => isFalse not_false

instance (fabric : Fabric) (rank bufIndex : Nat) : Decidable (Recorded fabric rank bufIndex) :=
  inferInstanceAs (Decidable (_ = true))

def sampleReplies : ReplyConfig 2 where
  stagingSize := 2
  stagingBase := fun slot => 262144 + slot * 8
  stagingDesc := fun slot => 200 + slot
  remoteAckAddr := fun _ => 524288
  remoteAckKey := fun _ => 9

def hostOn (rt : Runtime) : AmHost 2 where
  am := Function.update (Am.initial Am.sampleConfig) 0 { Am.initialRank Am.sampleConfig with fabric := rt.fabric }
  replyStaging := fun _ => 0
  replyStagingIdx := 0

theorem host_on_fabric (rt : Runtime) : (hostOn rt).fabric 0 = rt.fabric := by
  simp [hostOn, AmHost.fabric]

def firstHandle : List (AmCall 2) := [.am (.sendHandle 0 1 5 Am.sampleArgs)]

theorem first_handle_reached : ∃ rt, Reach step Registers (openRuntime id true) rt ∧ (Recorded rt.fabric 1 0 ∧
    ((run (guarded (hostStep Am.sampleConfig sampleReplies 0) always) (hostOn rt) firstHandle).any fun state =>
      decide (getRemoteInfo (state.fabric 0) 1 0 ≠ getRemoteInfo rt.fabric 1 0)) = true) :=
  reach_of_decided step Registers registered (openRuntime id true) _ (by decide +kernel)

theorem handle_overwrites_buffer : ¬ ∀ (rt : Runtime) (host state : AmHost 2),
    Reach step Registers (openRuntime id true) rt → host.fabric 0 = rt.fabric →
    Reach (hostStep Am.sampleConfig sampleReplies 0) always host state → Undisturbed rt.fabric (state.fabric 0) := by
  intro claim
  obtain ⟨rt, reached, recorded, decided⟩ := first_handle_reached
  obtain ⟨state, later, changed⟩ := reach_of_decided _ always firstHandle (hostOn rt) _ decided
  exact changed (claim rt (hostOn rt) state reached (host_on_fabric rt) later 1 0 recorded).1

def payloadAndReply : List (AmCall 2) :=
  [.am (.sendPayload 0 1 6 Am.sampleArgs [1, 2, 3]), .reply 1 7, .am (.triggerAndWait 0), .am (.triggerKernel 0)]

theorem payload_and_reply_run : ∃ rt, Reach step Registers (openRuntime id true) rt ∧ (Recorded rt.fabric 1 0 ∧
    (run (hostStep Am.sampleConfig sampleReplies 0) (hostOn rt) (payloadAndReply.take 4)).isSome = true) :=
  reach_of_decided step Registers registered (openRuntime id true) _ (by decide +kernel)

theorem payload_and_reply_keep_table : ∃ (rt : Runtime) (state : AmHost 2), Recorded rt.fabric 1 0 ∧
    run (hostStep Am.sampleConfig sampleReplies 0) (hostOn rt) (payloadAndReply.take 4) = some state ∧
    Undisturbed rt.fabric (state.fabric 0) := by
  obtain ⟨rt, _, recorded, ends⟩ := payload_and_reply_run
  obtain ⟨state, ran⟩ := Option.isSome_iff_exists.mp ends
  refine ⟨rt, state, recorded, ran, ?_⟩
  apply (table_kept_iff Am.sampleConfig sampleReplies 0 rt (hostOn rt) payloadAndReply (host_on_fabric rt)).mpr _ 4 state ran
  intro done before after call _ found _ entry announced
  have member := List.mem_of_getElem? found
  simp only [payloadAndReply, List.mem_cons, List.not_mem_nil, or_false] at member
  rcases member with rfl | rfl | rfl | rfl <;> simp [announces] at announced

end OpenGda.Rt
