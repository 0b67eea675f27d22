import OpenGda.Ofi.ActiveMessageDelivery

set_option autoImplicit false

-- Which runs dispatch torn messages: nothing makes the NIC land a body before its seq.
namespace OpenGda.Am

open ByteMemory DeferredWork Machine SequenceRing
open Ofi (Fabric RmaWrite CntrWork Handle)

variable {size : Nat}

def Seen (config : Config size) (state : State size) (receiver peer : Fin size) : Prop :=
  slotSeq ((state receiver).inboxSlots peer) (polledSlot config receiver (state receiver) peer) =
      (state receiver).expectedSeq peer ∨
    ((state receiver).polling peer).any Poller.found = true

def NotTorn (config : Config size) (state : State size) : Prop :=
  ∀ receiver peer, Seen config state receiver peer →
    ∃ record, ((state peer).sent receiver)[((state receiver).delivered peer).length]? = some record ∧
      (state receiver).expectedSeq peer = seqAt ((state receiver).delivered peer).length ∧
      readDelivery ((state receiver).inboxSlots peer) (polledSlot config receiver (state receiver) peer) =
        record.message.delivery peer.val

instance (config : Config size) (state : State size) (receiver peer : Fin size) :
    Decidable (Seen config state receiver peer) := inferInstanceAs (Decidable (_ ∨ _))

theorem seen_number (config : Config size) (state : State size) (inv : Inv config state) (receiver peer : Fin size)
    (seen : Seen config state receiver peer) :
    slotSeq ((state receiver).inboxSlots peer) (slotOf config receiver ((state receiver).delivered peer).length) =
      seqAt ((state receiver).delivered peer).length := by
  have ring := inv.rings peer receiver
  rcases seen with now | before
  · rwa [polled_slot config receiver peer (state receiver) _ ring.expects, ring.expects] at now
  · obtain ⟨⟨left, processed, found⟩, waiting, on⟩ := (Option.any_eq_true _ _).mp before
    subst on
    exact ring.found left processed waiting

theorem never_torn_when_ordered (config : Config size) (state : State size)
    (reached : Reach (step config) (Untorn config) (initial config) state) : NotTorn config state := by
  intro receiver peer seen
  have inv := reachable_inv config state reached
  have ring := inv.rings peer receiver
  have number := seen_number config state inv receiver peer seen
  obtain ⟨record, found, _, read⟩ := found_delivery config peer receiver _ _ _ _ _ _ ring number
  refine ⟨record, found, ring.expects, ?_⟩
  rw [polled_slot config receiver peer (state receiver) _ ring.expects]
  exact read

instance (work other : CntrWork) : Decidable (SameDest work other) := by
  unfold SameDest
  cases work.op <;> cases other.op <;> infer_instance

instance (rank : Rank size) (index : Nat) : Decidable (InOrder rank index) :=
  inferInstanceAs (Decidable (∀ work ∈ queuedAt rank index, ∀ other ∈ rank.fabric.nic.pending, _ → _))

instance (work : CntrWork) (record : Sent) : Decidable (BodyOf work record) := by
  unfold BodyOf
  cases work.op <;> infer_instance

instance (work : CntrWork) (record : Sent) : Decidable (SeqOf work record) := by
  unfold SeqOf
  cases work.op <;> infer_instance

instance (config : Config size) (source : Fin size) (rank : Rank size) (work : CntrWork) (record : Sent) :
    Decidable (ReadsImage config source rank work record) := by
  unfold ReadsImage
  cases work.op <;> infer_instance

instance (config : Config size) (source : Fin size) (rank : Rank size) (index : Nat) :
    Decidable (Fresh config source rank index) :=
  inferInstanceAs (Decidable (∀ work ∈ queuedAt rank index, ∀ dest, ∀ record ∈ rank.sent dest, _ → _))

instance (rank : Rank size) (index : Nat) : Decidable (AfterBody rank index) :=
  inferInstanceAs (Decidable (∀ work ∈ queuedAt rank index, ∀ dest, ∀ record ∈ rank.sent dest, _ → _))

instance (config : Config size) (state : State size) (source : Fin size) (index : Nat) :
    Decidable (NoOverrun config state source index) :=
  inferInstanceAs (Decidable (∀ work ∈ queuedAt (state source) index, ∀ dest,
    ∀ m < ((state source).sent dest).length, ∀ record ∈ ((state source).sent dest)[m]?, _ → _))

instance (config : Config size) (state : State size) : (action : Action size) → Decidable (Untorn config state action)
  | .land _ _ => inferInstanceAs (Decidable (_ ∧ _ ∧ _))
  | .sendHandle _ _ _ _ | .sendPayload _ _ _ _ _ | .triggerAndWait _ | .waitReturn _ | .triggerKernel _ | .poll _ _ _
  | .check _ _ | .dispatch _ _ => isTrue trivial

instance (config : Config size) (state : State size) : Decidable (Within config state) :=
  inferInstanceAs (Decidable (∀ _ _, _ ≤ _))

instance (config : Config size) (state : State size) : (action : Action size) → Decidable (Ordered config state action)
  | .land source index => inferInstanceAs (Decidable ((_ ∧ _) ∧ ∀ after ∈ step config state (.land source index), _))
  | .sendHandle _ _ _ _ | .sendPayload _ _ _ _ _ | .triggerAndWait _ | .waitReturn _ | .triggerKernel _ | .poll _ _ _
  | .check _ _ | .dispatch _ _ => inferInstanceAs (Decidable (True ∧ ∀ after ∈ step config state _, _))

def sampleConfig : Config 2 where
  virtAddrMode := true
  logSlots := fun _ => 1
  slotsFit := fun _ => by decide
  stagingSize := fun _ => 2
  stagingBase := fun _ slot => 65536 + slot * 16384
  stagingDesc := fun _ slot => 100 + slot
  stagingDescs := fun _ first second same => by simpa using same
  ringBase := fun owner peer => UInt64.ofNat (4096 + 131072 * owner.val + 65536 * peer.val)
  ringKey := fun _ peer => UInt64.ofNat (7 + peer.val)
  ringKeys := fun _ first second same => by
    revert first second
    decide
  avAddr := id
  avAddrs := fun _ _ same => same

def sampleArgs : Args := ⟨(List.range 48).map UInt8.ofNat, by decide⟩

def seqFirst : List (Action 2) :=
  [.sendHandle 0 1 5 sampleArgs, .triggerAndWait 0, .triggerKernel 0, .land 0 2, .poll 1 0 4, .check 1 0]

theorem seq_first_reached : ∃ state : State 2,
    Reach (step sampleConfig) always (initial sampleConfig) state ∧ Seen sampleConfig state 1 0 ∧
      ∀ record ∈ (state 0).sent 1,
        readDelivery ((state 1).inboxSlots 0) (polledSlot sampleConfig 1 (state 1) 0) ≠ record.message.delivery 0 :=
  reach_of_decided (step sampleConfig) always seqFirst (initial sampleConfig) _ (by decide +kernel)

theorem torn_message_seen : ¬ ∀ state : State 2, Reach (step sampleConfig) always (initial sampleConfig) state →
    NotTorn sampleConfig state := by
  intro claim
  obtain ⟨state, reached, seen, torn⟩ := seq_first_reached
  obtain ⟨record, found, _, read⟩ := claim state reached 1 0 seen
  exact torn record (List.mem_of_getElem? found) read

def inOrder : List (Action 2) :=
  [.sendHandle 0 1 5 sampleArgs, .sendPayload 0 1 6 sampleArgs [1, 2, 3], .triggerAndWait 0, .triggerKernel 0,
    .land 0 0, .land 0 1, .land 0 2, .land 0 3, .poll 1 0 1, .check 1 0, .dispatch 1 0, .check 1 0]

theorem in_order_reached : ∃ state : State 2,
    Reach (step sampleConfig) (Untorn sampleConfig) (initial sampleConfig) state ∧ Seen sampleConfig state 1 0 :=
  reach_of_decided (step sampleConfig) (Untorn sampleConfig) inOrder (initial sampleConfig) _ (by decide +kernel)

theorem ordered_message_whole : ∃ state : State 2, Seen sampleConfig state 1 0 ∧ NotTorn sampleConfig state := by
  obtain ⟨state, reached, seen⟩ := in_order_reached
  exact ⟨state, seen, never_torn_when_ordered sampleConfig state reached⟩

end OpenGda.Am
