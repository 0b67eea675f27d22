import OpenGda.Ofi.ActiveMessageTorn

set_option autoImplicit false

-- With puts landing in threshold order and at most one ring of messages under
-- way, every receiver dispatches what was sent to it, in order, once.
namespace OpenGda.Am

open ByteMemory DeferredWork Machine SequenceRing
open Ofi (Fabric RmaWrite CntrWork Handle)

variable {size : Nat}

structure Faithful (peer : Fin size) (record : Sent) (delivery : Delivery) : Prop where
  handlerId : record.message.handlerId.toNat < 2 ^ 16 →
    delivery.hdr.handlerId.toNat = record.message.handlerId.toNat
  srcRank : delivery.hdr.srcRank = UInt16.ofNat peer.val
  args : delivery.args = record.message.args.bytes
  payload : delivery.payload = record.message.payload

theorem delivery_faithful (peer : Fin size) (record : Sent) : Faithful peer record (record.message.delivery peer.val) where
  handlerId := by
    intro small
    simp only [Message.delivery, Message.header, UInt32.toNat_toUInt16]
    exact Nat.mod_eq_of_lt small
  srcRank := rfl
  args := rfl
  payload := rfl

theorem seq_after_body (config : Config size) (source : Fin size) (rank : Rank size) (index : Nat)
    (sender : SenderInv config source rank) (ordered : InOrder rank index) : AfterBody rank index := by
  intro work queued dest record member release
  obtain ⟨m, found⟩ := List.mem_iff_getElem?.mp member
  have pending := List.mem_of_getElem? queued
  rcases (sender.kept dest m record found).1 with ran | waiting
  · exact ran
  · -- The body would be the earlier put to the same peer.
    have parity := (sender.records dest m record found).2.2.1
    rcases sender.queued work pending with ⟨due, rfl⟩ | ⟨other, n, another, same, rfl | rfl⟩
    · exact absurd release not_false
    · have odd := (sender.records other n another same).2.2.1
      have threshold : another.threshold = record.threshold + 1 := release
      omega
    · have threshold : another.threshold + 1 = record.threshold + 1 := release
      obtain ⟨rfl, rfl⟩ := sender.distinct other n another dest m record same found (by omega)
      have less : another.threshold + 1 ≤ record.threshold := ordered _ queued _ waiting rfl
      omega

theorem ordered_untorn (config : Config size) (state : State size) (action : Action size) (inv : Inv config state)
    (within : Within config state) (ordered : Ordered config state action) : Untorn config state action := by
  cases action with
  | land source index =>
      obtain ⟨⟨inOrder, fresh⟩, _⟩ := ordered
      refine ⟨fresh, seq_after_body config source (state source) index (inv.senders source) inOrder, ?_⟩
      intro work _ dest m bound record _ _
      have room := within source dest
      omega
  | _ => trivial

theorem ordered_inv (config : Config size) (state : State size)
    (reached : Reach (step config) (Ordered config) (initial config) state) : Inv config state ∧ Within config state := by
  apply reach_invariant (step config) (Ordered config) (fun state => Inv config state ∧ Within config state)
    (initial config) state ?_ ?_ reached
  · exact ⟨initial_inv config, fun _ _ => Nat.zero_le _⟩
  · rintro before after action ⟨inv, within⟩ ordered taken
    have untorn := ordered_untorn config before action inv within ordered
    exact ⟨step_inv config before after action inv untorn taken, ordered.2 after taken⟩

theorem ring_deliveries (config : Config size) (state : State size) (inv : Inv config state) (receiver peer : Fin size) :
    (state receiver).delivered peer =
      (((state peer).sent receiver).take ((state receiver).delivered peer).length).map
        fun record => record.message.delivery peer.val := by
  have ring := inv.rings peer receiver
  apply List.ext_getElem?
  intro m
  rw [List.getElem?_map]
  by_cases early : m < ((state receiver).delivered peer).length
  · obtain ⟨record, found, _⟩ := ring.consumed m early
    rw [List.getElem?_take_of_lt early, found, ring.deliveries m record early found]
    rfl
  · rw [List.getElem?_eq_none (by omega), List.getElem?_eq_none]
    · rfl
    · rw [List.length_take]
      omega

theorem seen_iff_landed (config : Config size) (state : State size) (inv : Inv config state) (receiver peer : Fin size) :
    slotSeq ((state receiver).inboxSlots peer) (polledSlot config receiver (state receiver) peer) =
        (state receiver).expectedSeq peer ↔
      SeqLanded ((state peer).sent receiver) (state peer).executed ((state receiver).delivered peer).length := by
  have ring := inv.rings peer receiver
  rw [polled_slot config receiver peer (state receiver) _ ring.expects, ring.expects]
  constructor
  · exact found_landed config peer receiver _ _ _ _ _ _ ring
  · intro landed
    have positive := nslots_positive config receiver
    exact (ring.seqs _ (Nat.le_refl _) (by omega)).1 landed

def AllLanded (config : Config size) (state : State size) (receiver peer : Fin size) : Prop :=
  ∀ work ∈ (state peer).fabric.nic.pending, ∀ write, work.op = .write write →
    write.destAddr ≠ config.avAddr receiver

theorem all_landed_seq (config : Config size) (state : State size) (inv : Inv config state) (receiver peer : Fin size)
    (landed : AllLanded config state receiver peer) (m : Nat) (bound : m < ((state peer).sent receiver).length) :
    SeqLanded ((state peer).sent receiver) (state peer).executed m := by
  have found : ((state peer).sent receiver)[m]? = some ((state peer).sent receiver)[m] :=
    List.getElem?_eq_getElem bound
  rcases ((inv.senders peer).kept receiver m _ found).2 with ran | waiting
  · exact ⟨_, found, ran⟩
  · exact absurd rfl (landed _ waiting _ rfl)

theorem update_within (config : Config size) (state : State size) (self : Fin size) (rank : Rank size)
    (within : Within config state) (sent : rank.sent = (state self).sent)
    (more : ∀ peer, ((state self).delivered peer).length ≤ (rank.delivered peer).length) :
    Within config (Function.update state self rank) := by
  intro source dest
  have room := within source dest
  have senders : (Function.update state self rank source).sent = (state source).sent := by
    by_cases same : source = self
    · subst same
      rw [Function.update_self, sent]
    · rw [Function.update_of_ne same]
  rw [senders]
  by_cases here : dest = self
  · subst here
    rw [Function.update_self]
    have grown := more source
    omega
  · rw [Function.update_of_ne here]
    exact room

theorem poll_round (config : Config size) (state : State size) (receiver peer : Fin size) (left processed : Nat)
    (inv : Inv config state) (within : Within config state)
    (polling : (state receiver).polling peer = some ⟨left + 1, processed, false⟩)
    (landed : SeqLanded ((state peer).sent receiver) (state peer).executed ((state receiver).delivered peer).length) :
    ∃ after, Reach (step config) (Ordered config) state after ∧
      ((after receiver).delivered peer).length = ((state receiver).delivered peer).length + 1 ∧
      (after receiver).polling peer = some ⟨left, processed + 1, false⟩ ∧
      (∀ rank, (after rank).sent = (state rank).sent ∧ (after rank).executed = (state rank).executed) := by
  have number := (seen_iff_landed config state inv receiver peer).mpr landed
  let checked : Rank size := { state receiver with
    polling := Function.update (state receiver).polling peer (some ⟨left + 1, processed, true⟩) }
  have goesOn : ¬ (left + 1 = 0 ∨ slotSeq ((state receiver).inboxSlots peer)
      (polledSlot config receiver (state receiver) peer) ≠ (state receiver).expectedSeq peer) := by
    rw [not_or, not_not]
    exact ⟨Nat.succ_ne_zero left, number⟩
  have check : step config state (.check receiver peer) = some (Function.update state receiver checked) := by
    simp only [step, rankStep, pollCheck, polling]
    rw [if_neg goesOn]
    rfl
  have between : Within config (Function.update state receiver checked) :=
    update_within config state receiver checked within rfl fun _ => Nat.le_refl _
  obtain ⟨dispatched, dispatch, delivered, waiting, same⟩ : ∃ rank : Rank size,
      pollDispatch config receiver checked peer = some rank ∧
      rank.delivered = Function.update (state receiver).delivered peer ((state receiver).delivered peer ++
        [readDelivery ((state receiver).inboxSlots peer) (polledSlot config receiver (state receiver) peer)]) ∧
      rank.polling peer = some ⟨left, processed + 1, false⟩ ∧
      rank.sent = (state receiver).sent ∧ rank.executed = (state receiver).executed := by
    have now : checked.polling peer = some ⟨left + 1, processed, true⟩ := Function.update_self ..
    simp only [pollDispatch, now]
    exact ⟨_, rfl, rfl, Function.update_self .., rfl, rfl⟩
  have taken : step config (Function.update state receiver checked) (.dispatch receiver peer) =
      some (Function.update (Function.update state receiver checked) receiver dispatched) := by
    simp only [step, rankStep, Function.update_self, dispatch]
    rfl
  have longer : ∀ other, ((state receiver).delivered other).length ≤ (dispatched.delivered other).length := by
    intro other
    rw [delivered]
    by_cases chosen : other = peer
    · subst chosen
      simp
    · rw [Function.update_of_ne chosen]
  have last : Within config (Function.update (Function.update state receiver checked) receiver dispatched) := by
    rw [Function.update_idem]
    exact update_within config state receiver dispatched within same.1 longer
  refine ⟨_, .step _ _ _ (.step _ _ _ .start ⟨trivial, ?_⟩ check) ⟨trivial, ?_⟩ taken, ?_, ?_, ?_⟩
  · intro after found
    rw [check] at found
    rw [← Option.some.inj found]
    exact between
  · intro after found
    rw [taken] at found
    rw [← Option.some.inj found]
    exact last
  · rw [Function.update_self, delivered, Function.update_self, List.length_append]
    rfl
  · rw [Function.update_self, waiting]
  · intro rank
    rw [Function.update_idem]
    by_cases mine : rank = receiver
    · subst mine
      rw [Function.update_self]
      exact same
    · rw [Function.update_of_ne mine]
      exact ⟨rfl, rfl⟩

theorem poll_rounds (config : Config size) (count : Nat) (state : State size) (receiver peer : Fin size)
    (left processed : Nat) (reached : Reach (step config) (Ordered config) (initial config) state)
    (polling : (state receiver).polling peer = some ⟨left + count, processed, false⟩)
    (landed : ∀ m < ((state receiver).delivered peer).length + count,
      SeqLanded ((state peer).sent receiver) (state peer).executed m) :
    ∃ after, Reach (step config) (Ordered config) (initial config) after ∧
      Reach (step config) (Ordered config) state after ∧
      ((after receiver).delivered peer).length = ((state receiver).delivered peer).length + count ∧
      (after receiver).polling peer = some ⟨left, processed + count, false⟩ ∧
      (after peer).sent = (state peer).sent := by
  induction count generalizing state processed with
  | zero => exact ⟨state, reached, .start, rfl, polling, rfl⟩
  | succ count ih =>
      obtain ⟨inv, within⟩ := ordered_inv config state reached
      obtain ⟨middle, moved, one, waiting, same⟩ := poll_round config state receiver peer (left + count) processed inv
        within polling (landed _ (by omega))
      have far := reach_trans _ _ _ _ _ reached moved
      obtain ⟨after, final, rest, many, done, sent⟩ := ih middle (processed + 1) far waiting (by
        intro m bound
        rw [(same peer).1, (same peer).2]
        exact landed m (by omega))
      refine ⟨after, final, reach_trans _ _ _ _ _ moved rest, by omega, ?_, sent.trans (same peer).1⟩
      rw [done, show processed + 1 + count = processed + (count + 1) by omega]

-- Once the puts to a receiver have landed, one poll with room for them
-- dispatches all that was sent to it and was not dispatched yet.
theorem poll_dispatches_all (config : Config size) (state : State size) (receiver peer : Fin size) (maxPoll : Nat)
    (reached : Reach (step config) (Ordered config) (initial config) state)
    (idle : (state receiver).polling peer = none) (landed : AllLanded config state receiver peer)
    (room : ((state peer).sent receiver).length ≤ ((state receiver).delivered peer).length + maxPoll) :
    ∃ after, Reach (step config) (Ordered config) state after ∧ (after peer).sent = (state peer).sent ∧
      (after receiver).delivered peer =
        ((state peer).sent receiver).map fun record => record.message.delivery peer.val := by
  obtain ⟨inv, within⟩ := ordered_inv config state reached
  have behind : ((state receiver).delivered peer).length ≤ ((state peer).sent receiver).length := by
    have same := congrArg List.length (ring_deliveries config state inv receiver peer)
    rw [List.length_map, List.length_take] at same
    omega
  obtain ⟨count, total⟩ := Nat.exists_eq_add_of_le behind
  obtain ⟨left, size⟩ : ∃ left, maxPoll = left + count := ⟨maxPoll - count, by omega⟩
  let polling : Rank _ := { state receiver with
    polling := Function.update (state receiver).polling peer (some ⟨maxPoll, 0, false⟩) }
  have taken : step config state (.poll receiver peer maxPoll) = some (Function.update state receiver polling) := by
    simp only [step, rankStep, idle]
    rfl
  have ordered : Ordered config state (.poll receiver peer maxPoll) := by
    refine ⟨trivial, fun after found => ?_⟩
    rw [taken] at found
    rw [← Option.some.inj found]
    exact update_within config state receiver polling within rfl fun _ => Nat.le_refl _
  have started : Reach (step config) (Ordered config) state (Function.update state receiver polling) :=
    .step _ _ _ .start ordered taken
  have same : ∀ rank, (Function.update state receiver polling rank).sent = (state rank).sent ∧
      (Function.update state receiver polling rank).executed = (state rank).executed ∧
      (Function.update state receiver polling rank).delivered = (state rank).delivered := by
    intro rank
    by_cases mine : rank = receiver
    · subst mine
      rw [Function.update_self]
      exact ⟨rfl, rfl, rfl⟩
    · rw [Function.update_of_ne mine]
      exact ⟨rfl, rfl, rfl⟩
  have waiting : (Function.update state receiver polling receiver).polling peer = some ⟨left + count, 0, false⟩ := by
    rw [Function.update_self, ← size]
    exact Function.update_self ..
  obtain ⟨after, final, moved, many, _, sent⟩ := poll_rounds config count _ receiver peer left 0
    (reach_trans _ _ _ _ _ reached started) waiting (by
      intro m bound
      rw [(same peer).1, (same peer).2.1]
      rw [(same receiver).2.2] at bound
      exact all_landed_seq config state inv receiver peer landed m (by omega))
  have kept := sent.trans (same peer).1
  refine ⟨after, reach_trans _ _ _ _ _ started moved, kept, ?_⟩
  have all := ring_deliveries config after (ordered_inv config after final).1 receiver peer
  rw [(same receiver).2.2] at many
  rw [all, kept, many, ← total, List.take_length]

theorem one_dispatched_reached : ∃ state : State 2,
    Reach (step sampleConfig) (Ordered sampleConfig) (initial sampleConfig) state ∧
      (((state 1).delivered 0).length = 1 ∧ ((state 0).sent 1).length = 2 ∧ (state 1).polling 0 = none ∧
        ∀ work ∈ (state 0).fabric.nic.pending, writeThreshold work = none) :=
  reach_of_decided (step sampleConfig) (Ordered sampleConfig) inOrder (initial sampleConfig) _ (by decide +kernel)

end OpenGda.Am
