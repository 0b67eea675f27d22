import OpenGda.Ofi.ActiveMessageRing

set_option autoImplicit false

-- The whole system: every step of the ranks and of their NICs keeps every ring.
namespace OpenGda.Am

open ByteMemory DeferredWork Machine SequenceRing
open Ofi (Fabric RmaWrite CntrWork Handle)

variable {size : Nat}

structure Inv (config : Config size) (state : State size) : Prop where
  senders : ∀ rank, SenderInv config rank (state rank)
  rings : ∀ source dest, PairInv config source dest ((state source).sent dest) (state source).executed
    ((state dest).delivered source) ((state dest).expectedSeq source) ((state dest).inboxSlots source)
    ((state dest).polling source)

theorem initial_inv (config : Config size) : Inv config (initial config) where
  senders := fun rank => initial_sender config rank
  rings := fun source dest => initial_pair config source dest

theorem polled_slot (config : Config size) (self peer : Fin size) (rank : Rank size) (m : Nat)
    (expects : rank.expectedSeq peer = seqAt m) : polledSlot config self rank peer = slotOf config self m := by
  rw [polledSlot, expects, Config.nslots, slot_idx_seq m _ (config.slotsFit self)]
  rfl

inductive Change (config : Config size) (self : Fin size) (before after : Rank size) : Prop where
  | kept (sender : SenderInv config self after) (sent : after.sent = before.sent)
      (executed : after.executed = before.executed)
      (elsewhere : after.expectedSeq = before.expectedSeq ∧ after.inboxSlots = before.inboxSlots ∧
        after.polling = before.polling ∧ after.delivered = before.delivered)
  | queued (dest : Fin size) (message : Message) (queued : Queued config self dest message before after)
  | polled (peer : Fin size) (poller : Option Poller) (calls : Fin size → Nat)
      (result : after = { before with polling := Function.update before.polling peer poller, polled := calls })
      (found : ∀ left processed, poller = some ⟨left, processed, true⟩ →
        slotSeq (before.inboxSlots peer) (polledSlot config self before peer) = before.expectedSeq peer)
  | dispatched (peer : Fin size) (left processed : Nat) (tails : Fin size → UInt64)
      (waiting : before.polling peer = some ⟨left, processed, true⟩)
      (result : after = { before with
        delivered := Function.update before.delivered peer (before.delivered peer ++
          [readDelivery (before.inboxSlots peer) (polledSlot config self before peer)])
        expectedSeq := Function.update before.expectedSeq peer (before.expectedSeq peer + 1)
        tailSeq := tails
        polling := Function.update before.polling peer (some ⟨left - 1, processed + 1, false⟩) })

theorem unchanged (config : Config size) (self : Fin size) (rank : Rank size) (inv : SenderInv config self rank) :
    Change config self rank rank :=
  .kept inv rfl rfl ⟨rfl, rfl, rfl, rfl⟩

theorem send_handle_change (config : Config size) (self dest : Fin size) (before : Rank size) (handlerId : UInt32)
    (args : Args) (inv : SenderInv config self before) :
    Change config self before (sendHandle config self before dest handlerId args).2 := by
  unfold sendHandle
  by_cases full : config.stagingSize self ≤ before.stagingIdx
  · rw [if_pos full]
    exact unchanged config self before inv
  · rw [if_neg full]
    let ss := sendState config self dest
    let fabric := Ofi.setRemoteInfoByIndex before.fabric dest before.stagingIdx ss.remoteRingBase ss.remoteRingKey 0
    have announced := sender_frame config self before { before with fabric := fabric } inv rfl rfl rfl rfl rfl rfl rfl
    obtain ⟨av, batch, current, head, executed, sent, elsewhere⟩ :=
      queue_message_queued config self dest ⟨handlerId, args, none, by simp⟩ _ announced (Nat.lt_of_not_le full)
    exact .queued dest ⟨handlerId, args, none, by simp⟩ ⟨av, batch, current, head, executed, sent, elsewhere⟩

theorem send_payload_change (config : Config size) (self dest : Fin size) (before : Rank size) (handlerId : UInt32)
    (args : Args) (payload : List UInt8) (inv : SenderInv config self before) :
    Change config self before (sendPayload config self before dest handlerId args payload).2 := by
  unfold sendPayload
  by_cases fits : payload.length ≤ amMaxPayloadSize
  · rw [dif_pos fits]
    by_cases full : config.stagingSize self ≤ before.stagingIdx
    · rw [if_pos full]
      exact unchanged config self before inv
    · rw [if_neg full]
      exact .queued dest _ (queue_message_queued config self dest _ before inv (Nat.lt_of_not_le full))
  · rw [dif_neg fits]
    exact unchanged config self before inv

theorem poll_check_change (config : Config size) (self peer : Fin size) (before after : Rank size)
    (taken : pollCheck config self before peer = some after) : Change config self before after := by
  unfold pollCheck at taken
  cases polling : before.polling peer with
  | none => simp [polling] at taken
  | some poller =>
      obtain ⟨left, processed, found⟩ := poller
      cases found with
      | true => simp [polling] at taken
      | false =>
          simp only [polling] at taken
          split_ifs at taken with stop
          · rw [← Option.some.inj taken]
            exact .polled peer none _ rfl (by simp)
          · rw [← Option.some.inj taken]
            rw [not_or, not_not] at stop
            exact .polled peer _ _ rfl fun _ _ _ => stop.2

theorem poll_dispatch_change (config : Config size) (self peer : Fin size) (before after : Rank size)
    (taken : pollDispatch config self before peer = some after) : Change config self before after := by
  unfold pollDispatch at taken
  cases polling : before.polling peer with
  | none => simp [polling] at taken
  | some poller =>
      obtain ⟨left, processed, found⟩ := poller
      cases found with
      | false => simp [polling] at taken
      | true =>
          simp only [polling, Option.some.injEq] at taken
          exact .dispatched peer left processed _ polling taken.symm

theorem trigger_change (config : Config size) (self : Fin size) (before : Rank size)
    (inv : SenderInv config self before) :
    Change config self before (triggerAndWait before) := by
  unfold triggerAndWait
  by_cases none : before.maxThreshold = 0
  · rw [if_pos none]
    exact unchanged config self before inv
  · rw [if_neg none]
    exact .kept (sender_frame config self before _ inv rfl rfl rfl rfl rfl rfl rfl) rfl rfl ⟨rfl, rfl, rfl, rfl⟩

theorem wait_change (config : Config size) (self : Fin size) (before after : Rank size)
    (inv : SenderInv config self before) (taken : waitReturn before = some after) : Change config self before after := by
  unfold waitReturn at taken
  split_ifs at taken
  rw [← Option.some.inj taken]
  exact .kept (sender_frame config self before _ inv rfl rfl rfl rfl rfl rfl rfl) rfl rfl ⟨rfl, rfl, rfl, rfl⟩

theorem kernel_change (config : Config size) (self : Fin size) (before : Rank size) (fabric : Fabric)
    (inv : SenderInv config self before) (taken : Ofi.triggerKernel before.fabric = some fabric) :
    Change config self before { before with fabric := fabric } := by
  unfold Ofi.triggerKernel at taken
  cases launched : before.fabric.launched with
  | nil => simp [launched] at taken
  | cons threshold rest =>
      simp only [launched, Option.some.injEq] at taken
      rw [← taken]
      exact .kept (sender_frame config self before _ inv rfl rfl rfl rfl rfl rfl rfl) rfl rfl ⟨rfl, rfl, rfl, rfl⟩

theorem rank_step_change (config : Config size) (state : State size) (action : Action size) (self : Fin size)
    (after : Rank size) (inv : Inv config state) (taken : rankStep config state action = some (self, after)) :
    Change config self (state self) after := by
  cases action with
  | sendHandle me dest handlerId args =>
      simp only [rankStep] at taken
      split_ifs at taken
      cases taken
      exact send_handle_change config self dest (state self) handlerId args (inv.senders self)
  | sendPayload me dest handlerId args payload =>
      simp only [rankStep] at taken
      split_ifs at taken
      cases taken
      exact send_payload_change config self dest (state self) handlerId args payload (inv.senders self)
  | triggerAndWait me =>
      simp only [rankStep] at taken
      split_ifs at taken
      cases taken
      exact trigger_change config self (state self) (inv.senders self)
  | waitReturn me =>
      simp only [rankStep, Option.map_eq_some_iff, Prod.mk.injEq] at taken
      obtain ⟨next, taken, rfl, rfl⟩ := taken
      exact wait_change config me (state me) next (inv.senders me) taken
  | triggerKernel me =>
      simp only [rankStep, Option.map_eq_some_iff, Prod.mk.injEq] at taken
      obtain ⟨fabric, taken, rfl, rfl⟩ := taken
      exact kernel_change config me (state me) fabric (inv.senders me) taken
  | land source index => simp [rankStep] at taken
  | poll me peer maxPoll =>
      simp only [rankStep] at taken
      cases polling : (state me).polling peer with
      | some poller => simp [polling] at taken
      | none =>
          simp only [polling, Option.some.injEq, Prod.mk.injEq] at taken
          obtain ⟨rfl, rfl⟩ := taken
          exact .polled peer _ _ rfl (by simp)
  | check me peer =>
      simp only [rankStep, Option.map_eq_some_iff, Prod.mk.injEq] at taken
      obtain ⟨next, taken, rfl, rfl⟩ := taken
      exact poll_check_change config me peer (state me) next taken
  | dispatch me peer =>
      simp only [rankStep, Option.map_eq_some_iff, Prod.mk.injEq] at taken
      obtain ⟨next, taken, rfl, rfl⟩ := taken
      exact poll_dispatch_change config me peer (state me) next taken

structure RankRings (config : Config size) (state : State size) (self : Fin size) (after : Rank size) : Prop where
  sender : SenderInv config self after
  sources : ∀ dest, PairInv config self dest (after.sent dest) after.executed
    ((Function.update state self after dest).delivered self) ((Function.update state self after dest).expectedSeq self)
    ((Function.update state self after dest).inboxSlots self) ((Function.update state self after dest).polling self)
  receivers : ∀ source, source ≠ self → PairInv config source self ((state source).sent self) (state source).executed
    (after.delivered source) (after.expectedSeq source) (after.inboxSlots source) (after.polling source)

theorem rank_rings_inv (config : Config size) (state : State size) (self : Fin size) (after : Rank size)
    (inv : Inv config state) (parts : RankRings config state self after) :
    Inv config (Function.update state self after) := by
  obtain ⟨sender, sources, receivers⟩ := parts
  constructor
  · intro rank
    by_cases same : rank = self
    · subst same
      rwa [Function.update_self]
    · rw [Function.update_of_ne same]
      exact inv.senders rank
  · intro source dest
    by_cases mine : source = self
    · subst mine
      simpa only [Function.update_self] using sources dest
    · rw [Function.update_of_ne mine]
      by_cases here : dest = self
      · subst here
        simpa only [Function.update_self] using receivers source mine
      · rw [Function.update_of_ne here]
        exact inv.rings source dest

theorem inbox_rings (config : Config size) (state : State size) (self : Fin size) (after : Rank size)
    (inv : Inv config state) (sender : SenderInv config self after) (sent : after.sent = (state self).sent)
    (executed : after.executed = (state self).executed)
    (inbox : ∀ source, PairInv config source self ((state source).sent self) (state source).executed
      (after.delivered source) (after.expectedSeq source) (after.inboxSlots source) (after.polling source)) :
    RankRings config state self after where
  sender := sender
  sources := by
    intro dest
    rw [sent, executed]
    by_cases here : dest = self
    · subst here
      rw [Function.update_self]
      exact inbox dest
    · rw [Function.update_of_ne here]
      exact inv.rings self dest
  receivers := fun source _ => inbox source

theorem queued_rings (config : Config size) (state : State size) (self dest : Fin size) (message : Message)
    (after : Rank size) (inv : Inv config state) (queued : Queued config self dest message (state self) after) :
    RankRings config state self after := by
  have sender := inv.senders self
  have next := sender_queued config self dest message (state self) after sender queued
  obtain ⟨_, _, _, _, executed, ⟨record, _, _, _, threshold, sent, _⟩, expected, inbox, polling, delivered⟩ := queued
  have fresh : ∀ due, (state self).fabric.currentThreshold < due → due ∉ (state self).executed := by
    intro due beyond ran
    have past := sender.past due (List.mem_append_right _ ran)
    omega
  have appended : ∀ target, PairInv config self target (after.sent target) after.executed
      ((state target).delivered self) ((state target).expectedSeq self) ((state target).inboxSlots self)
      ((state target).polling self) := by
    intro target
    rw [sent, executed]
    by_cases chosen : target = dest
    · subst chosen
      rw [Function.update_self]
      exact pair_append config self target _ _ _ _ _ _ record (inv.rings self target) (fresh _ (by omega))
        (fresh _ (by omega))
    · rw [Function.update_of_ne chosen]
      exact inv.rings self target
  refine ⟨next, ?_, ?_⟩
  · intro target
    by_cases here : target = self
    · subst here
      rw [Function.update_self, expected, inbox, polling, delivered]
      exact appended target
    · rw [Function.update_of_ne here]
      exact appended target
  · intro source other
    rw [expected, inbox, polling, delivered]
    exact inv.rings source self

theorem polled_inbox (config : Config size) (state : State size) (self peer : Fin size) (poller : Option Poller)
    (inv : Inv config state)
    (found : ∀ left processed, poller = some ⟨left, processed, true⟩ →
      slotSeq ((state self).inboxSlots peer) (polledSlot config self (state self) peer) = (state self).expectedSeq peer)
    (source : Fin size) : PairInv config source self ((state source).sent self) (state source).executed
      ((state self).delivered source) ((state self).expectedSeq source) ((state self).inboxSlots source)
      (Function.update (state self).polling peer poller source) := by
  by_cases chosen : source = peer
  · subst chosen
    rw [Function.update_self]
    apply pair_polling config source self _ _ _ _ _ _ _ (inv.rings source self)
    intro left processed waiting
    have expects := (inv.rings source self).expects
    rw [← polled_slot config self source (state self) _ expects, ← expects]
    exact found left processed waiting
  · rw [Function.update_of_ne chosen]
    exact inv.rings source self

theorem dispatched_inbox (config : Config size) (state : State size) (self peer : Fin size) (left processed : Nat)
    (inv : Inv config state) (waiting : (state self).polling peer = some ⟨left, processed, true⟩) (source : Fin size) :
    PairInv config source self ((state source).sent self) (state source).executed
      (Function.update (state self).delivered peer ((state self).delivered peer ++
        [readDelivery ((state self).inboxSlots peer) (polledSlot config self (state self) peer)]) source)
      (Function.update (state self).expectedSeq peer ((state self).expectedSeq peer + 1) source)
      ((state self).inboxSlots source)
      (Function.update (state self).polling peer (some ⟨left - 1, processed + 1, false⟩) source) := by
  by_cases chosen : source = peer
  · subst chosen
    have ring := inv.rings source self
    rw [waiting] at ring
    simp only [Function.update_self, polled_slot config self source (state self) _ ring.expects]
    exact pair_dispatch config source self _ _ _ _ _ left processed (left - 1) (processed + 1) ring
  · simp only [Function.update_of_ne chosen]
    exact inv.rings source self

theorem change_inv (config : Config size) (state : State size) (self : Fin size) (after : Rank size)
    (inv : Inv config state) (change : Change config self (state self) after) :
    Inv config (Function.update state self after) := by
  have sender := inv.senders self
  apply rank_rings_inv config state self after inv
  cases change with
  | kept next sent executed elsewhere =>
      obtain ⟨expected, inbox, polling, delivered⟩ := elsewhere
      refine inbox_rings config state self after inv next sent executed fun source => ?_
      rw [expected, inbox, polling, delivered]
      exact inv.rings source self
  | queued dest message queued => exact queued_rings config state self dest message after inv queued
  | polled peer poller calls result found =>
      subst result
      refine inbox_rings config state self _ inv ?_ rfl rfl (polled_inbox config state self peer poller inv found)
      exact sender_frame config self (state self) _ sender rfl rfl rfl rfl rfl rfl rfl
  | dispatched peer left processed tails waiting result =>
      subst result
      refine inbox_rings config state self _ inv ?_ rfl rfl
        (dispatched_inbox config state self peer left processed inv waiting)
      exact sender_frame config self (state self) _ sender rfl rfl rfl rfl rfl rfl rfl

theorem dst_offset_value (config : Config size) (dest : Fin size) (m field : Nat) (inside : field ≤ amSlotSize) :
    (dstOffset (seqAt m) (config.nslots dest) field).toNat = slotOf config dest m + field := by
  have small : config.nslots dest < 2 ^ 31 := Nat.pow_lt_pow_right (by decide) (config.slotsFit dest)
  have slot : slotIdx (seqAt m) (config.nslots dest) = (m + 1) % config.nslots dest :=
    slot_idx_seq m _ (config.slotsFit dest)
  have bound := Nat.mod_lt (m + 1) (nslots_positive config dest)
  rw [dstOffset, slot, UInt64.toNat_ofNat', slotOf]
  apply Nat.mod_eq_of_lt
  simp only [amSlotSize, amShortSize, amMaxPayloadSize] at inside ⊢
  omega

theorem deliver_field (config : Config size) (state : State size) (source dest : Fin size) (slot m field fieldSize : Nat)
    (bytes : List UInt8) (fits : field + bytes.length ≤ amSlotSize) :
    deliver config state (fieldWrite config source dest slot (seqAt m) field fieldSize) bytes =
      Function.update state dest { state dest with
        inboxSlots := Function.update (state dest).inboxSlots source
          (store ((state dest).inboxSlots source) (slotOf config dest m + field) bytes) } := by
  have found : lookup (fun rank : Fin size => config.avAddr rank) (config.avAddr dest) = some dest :=
    lookup_key (fun rank : Fin size => config.avAddr rank)
      (fun one other same => Fin.ext (config.avAddrs same)) dest
  have ring := lookup_key (config.ringKey dest) (config.ringKeys dest) source
  have value := dst_offset_value config dest m field (by omega)
  have offset : (if config.virtAddrMode = true then
        rmaAddr config.virtAddrMode (config.ringBase dest source) (dstOffset (seqAt m) (config.nslots dest) field) -
          config.ringBase dest source
      else rmaAddr config.virtAddrMode (config.ringBase dest source)
        (dstOffset (seqAt m) (config.nslots dest) field)).toNat = slotOf config dest m + field := by
    rw [← value]
    cases mode : config.virtAddrMode with
    | true =>
        rw [if_pos rfl, rmaAddr, if_pos rfl, UInt64.add_comm, UInt64.add_sub_cancel]
    | false =>
        rw [if_neg Bool.false_ne_true, rmaAddr, if_neg Bool.false_ne_true]
  have whole : slotOf config dest m + amSlotSize ≤ config.nslots dest * amSlotSize :=
    slot_offset_inside _ amSlotSize m (nslots_positive config dest)
  have inside : slotOf config dest m + field + bytes.length ≤ config.nslots dest * amSlotSize := by omega
  simp only [deliver, fieldWrite, found, receive, ring, offset]
  rw [if_pos inside]

theorem ring_write_inv (config : Config size) (state : State size) (source dest : Fin size) (fabric : Fabric)
    (threshold slot m field fieldSize : Nat) (bytes : List UInt8) (inv : Inv config state)
    (fits : field + bytes.length ≤ amSlotSize)
    (sender : SenderInv config source { state source with
      fabric := fabric, executed := threshold :: (state source).executed })
    (ring : PairInv config source dest ((state source).sent dest) (threshold :: (state source).executed)
      ((state dest).delivered source) ((state dest).expectedSeq source)
      (store ((state dest).inboxSlots source) (slotOf config dest m + field) bytes) ((state dest).polling source))
    (others : ∀ target, target ≠ dest → ∀ (n : Nat) (record : Sent), ((state source).sent target)[n]? = some record →
      record.threshold ≠ threshold ∧ record.threshold + 1 ≠ threshold) :
    Inv config (deliver config
      (Function.update state source { state source with
        fabric := fabric, executed := threshold :: (state source).executed })
      (fieldWrite config source dest slot (seqAt m) field fieldSize) bytes) := by
  rw [deliver_field config _ source dest slot m field fieldSize bytes fits]
  have ran : ∀ rank, (Function.update state source { state source with
      fabric := fabric, executed := threshold :: (state source).executed } rank) = { state rank with
        fabric := if rank = source then fabric else (state rank).fabric
        executed := if rank = source then threshold :: (state rank).executed else (state rank).executed } := by
    intro rank
    by_cases same : rank = source
    · subst same
      simp
    · simp [same]
  simp only [ran]
  have after : ∀ rank, (Function.update (Function.update state source { state source with
      fabric := fabric, executed := threshold :: (state source).executed }) dest { state dest with
        fabric := if dest = source then fabric else (state dest).fabric
        executed := if dest = source then threshold :: (state dest).executed else (state dest).executed
        inboxSlots := Function.update (state dest).inboxSlots source
          (store ((state dest).inboxSlots source) (slotOf config dest m + field) bytes) }) rank = { state rank with
        fabric := if rank = source then fabric else (state rank).fabric
        executed := if rank = source then threshold :: (state rank).executed else (state rank).executed
        inboxSlots := if rank = dest then Function.update (state rank).inboxSlots source
            (store ((state rank).inboxSlots source) (slotOf config rank m + field) bytes)
          else (state rank).inboxSlots } := by
    intro rank
    by_cases same : rank = dest
    · subst same
      simp
    · rw [Function.update_of_ne same, ran, if_neg same]
  constructor
  · intro rank
    rw [after]
    by_cases same : rank = source
    · subst same
      apply sender_frame config rank _ _ sender
      all_goals simp
    · apply sender_frame config rank _ _ (inv.senders rank)
      all_goals simp [same]
  · intro origin target
    rw [after, after]
    by_cases mine : origin = source
    · subst mine
      by_cases here : target = dest
      · subst here
        simpa using ring
      · simpa [here] using pair_executed_other config origin target _ _ _ _ _ _ threshold (inv.rings origin target)
          (others target here)
    · by_cases here : target = dest
      · subst here
        simpa [mine] using inv.rings origin target
      · simpa [mine, here] using inv.rings origin target

theorem body_bytes (config : Config size) (source dest : Fin size) (m : Nat) (record : Sent) (rank : Rank size)
    (sender : SenderInv config source rank) (found : (rank.sent dest)[m]? = some record)
    (image : ReadsImage config source rank (bodyWork config source dest m record) record) :
    sourceBytes config source rank (fieldWrite config source dest record.slot (seqAt m) hdrOffset
      record.message.bodySize) = record.message.body source.val := by
  have filled := (sender.records dest m record found).2.1
  have bytes : sourceBytes config source rank (fieldWrite config source dest record.slot (seqAt m) hdrOffset
      record.message.bodySize) = load record.image
        (config.stagingBase source record.slot + hdrOffset - config.stagingBase source record.slot)
        record.message.bodySize := image
  rw [bytes, Nat.add_sub_cancel_left, filled, image_body]

theorem seq_bytes (config : Config size) (source dest : Fin size) (m : Nat) (record : Sent) (rank : Rank size)
    (sender : SenderInv config source rank) (found : (rank.sent dest)[m]? = some record)
    (image : ReadsImage config source rank (seqWork config source dest m record) record) :
    sourceBytes config source rank (fieldWrite config source dest record.slot (seqAt m) seqOffset seqSize) =
      leBytes seqSize (seqAt m).toNat := by
  have filled := (sender.records dest m record found).2.1
  have bytes : sourceBytes config source rank (fieldWrite config source dest record.slot (seqAt m) seqOffset seqSize) =
      load record.image
        (config.stagingBase source record.slot + seqOffset - config.stagingBase source record.slot) seqSize := image
  rw [bytes, Nat.add_sub_cancel_left, filled, image_seq]

theorem land_inv (config : Config size) (before after : State size) (source : Fin size) (index : Nat)
    (inv : Inv config before) (untorn : Untorn config before (.land source index))
    (taken : land config before source index = some after) : Inv config after := by
  unfold land at taken
  simp only [Option.map_eq_some_iff, Prod.exists] at taken
  obtain ⟨work, nic, fire, rfl⟩ := taken
  have queuedWork : queuedAt (before source) index = some work := by
    unfold DeferredWork.fire at fire
    cases found : (before source).fabric.nic.pending[index]? with
    | none => simp [found] at fire
    | some other =>
        simp only [found] at fire
        split_ifs at fire
        rw [queuedAt, found]
        exact congrArg some (congrArg Prod.fst (Option.some.inj fire))
  have fired := fire_fired _ nic index work fire
  have member := (fired_pending _ nic work fired).1
  have sender := inv.senders source
  obtain ⟨fresh, behind, room⟩ := untorn
  have fresh := fresh work queuedWork
  have behind := behind work queuedWork
  have room := room work queuedWork
  rcases sender.queued work member with ⟨threshold, rfl⟩ | ⟨dest, m, record, found, body | release⟩
  · have counted := sender_counted config source (before source) nic threshold sender fired
    exact change_inv config before source _ inv (.kept counted rfl rfl ⟨rfl, rfl, rfl, rfl⟩)
  · subst body
    obtain ⟨ran, landed⟩ := sender_landed config source (before source) nic _ record.threshold sender fired
    have belongs : BodyOf (bodyWork config source dest m record) record := rfl
    have image := fresh dest record (List.mem_of_getElem? found) (Or.inl belongs)
    have bytes := body_bytes config source dest m record (before source) sender found image
    have inside : m < ((before source).sent dest).length := (List.getElem?_eq_some_iff.mp found).1
    have near := room dest m inside record found belongs
    simp only [bodyWork, Ofi.rmaWork] at bytes ⊢
    rw [bytes]
    apply ring_write_inv config before source dest _ record.threshold record.slot m hdrOffset _ _ inv
    · rw [body_length]
      exact body_fits record.message
    · exact landed
    · exact pair_body config source dest _ _ _ _ _ _ m record (inv.rings source dest) found ran
        (fun n another same => (sender.records dest n another same).2.2.1)
        (fun n another same due => (sender.distinct dest n another dest m record same found due).2) near
    · intro target elsewhere n another same
      have first := (sender.records dest m record found).2.2.1
      have second := (sender.records target n another same).2.2.1
      refine ⟨fun due => elsewhere (sender.distinct target n another dest m record same found due).1, ?_⟩
      omega
  · subst release
    obtain ⟨ran, landed⟩ := sender_landed config source (before source) nic _ (record.threshold + 1) sender fired
    have belongs : SeqOf (seqWork config source dest m record) record := rfl
    have image := fresh dest record (List.mem_of_getElem? found) (Or.inr belongs)
    have bytes := seq_bytes config source dest m record (before source) sender found image
    have ahead := behind dest record (List.mem_of_getElem? found) belongs
    simp only [seqWork, Ofi.rmaWork] at bytes ⊢
    rw [bytes]
    apply ring_write_inv config before source dest _ (record.threshold + 1) record.slot m seqOffset _ _ inv
    · rw [le_bytes_length]
      decide
    · exact landed
    · exact pair_seq config source dest _ _ _ _ _ _ m record (inv.rings source dest) found ran ahead
        (fun n another same => (sender.records dest n another same).2.2.1)
        (fun n another same due => (sender.distinct dest n another dest m record same found due).2)
    · intro target elsewhere n another same
      have first := (sender.records dest m record found).2.2.1
      have second := (sender.records target n another same).2.2.1
      refine ⟨by omega, fun due => elsewhere ?_⟩
      exact (sender.distinct target n another dest m record same found (by omega)).1

theorem step_inv (config : Config size) (before after : State size) (action : Action size) (inv : Inv config before)
    (untorn : Untorn config before action) (taken : step config before action = some after) : Inv config after := by
  have others : ∀ self rank, rankStep config before action = some (self, rank) →
      after = Function.update before self rank → Inv config after := by
    rintro self rank moved rfl
    exact change_inv config before self rank inv (rank_step_change config before action self rank inv moved)
  cases action with
  | land source index => exact land_inv config before after source index inv untorn taken
  | _ =>
      simp only [step, Option.map_eq_some_iff, Prod.exists] at taken
      obtain ⟨self, rank, moved, rfl⟩ := taken
      exact others self rank moved rfl

theorem reachable_inv (config : Config size) (state : State size)
    (reached : Reach (step config) (Untorn config) (initial config) state) : Inv config state :=
  reach_invariant (step config) (Untorn config) (Inv config) (initial config) state (initial_inv config)
    (step_inv config) reached

end OpenGda.Am
