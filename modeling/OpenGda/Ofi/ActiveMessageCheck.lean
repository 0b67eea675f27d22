import OpenGda.Lib.Machine
import OpenGda.Lib.SequenceRing

set_option autoImplicit false

-- check_can_send() of am.hpp between one sender and one receiver: the sequence
-- numbers, the ring they lie in and what am_poll_peer has dispatched.
namespace OpenGda.AmCheck

open Machine SequenceRing

def passesCheck (nslots : BitVec 32) : Bool := nslots &&& (nslots - 1) == 0

structure Accepts (nslots : Int) : Prop where
  fits : nslots < 2 ^ 31
  mask : passesCheck (BitVec.ofInt 32 nslots) = true
  -- A negative count makes slots_size a size that hipMalloc refuses.
  allocated : 0 ≤ nslots

structure SendState where
  nslots : Int
  headSeq : UInt64
deriving DecidableEq, Repr

structure RecvState where
  nslots : Int
  expectedSeq : UInt64
  tailSeq : UInt64
  -- The seq field of each slot, 0 where nothing was written.
  inboxSlots : Int → UInt64

structure Link where
  send : SendState
  recv : RecvState
  -- Messages sent whose seq put has not landed.
  flying : List UInt64
  -- Ghost: all messages sent, and those dispatched.
  sent : List UInt64
  dispatched : List UInt64

-- `int slot_idx = seq & (nslots - 1)`, the mask sign-extended to 64 bits.
def slotOf (seq : UInt64) (nslots : Int) : Int := (seq &&& UInt64.ofInt (nslots - 1)).toUInt32.toInt32.toInt

def openLink (nslots : Int) : Link where
  send := ⟨nslots, 1⟩
  recv := ⟨nslots, 1, 0, fun _ => 0⟩
  flying := []
  sent := []
  dispatched := []

-- `in_flight < (uint64_t)(ss.nslots - margin)`
def checkCanSend (ss : SendState) (margin : Int) : Bool := decide (ss.headSeq < UInt64.ofInt (ss.nslots - margin))

def sendMessage (link : Link) : Link :=
  let seq := link.send.headSeq
  { link with
    send := { link.send with headSeq := seq + 1 }
    flying := link.flying ++ [seq]
    sent := link.sent ++ [seq] }

def land (link : Link) (index : Nat) : Option Link :=
  link.flying[index]?.map fun seq => { link with
    recv := { link.recv with
      inboxSlots := Function.update link.recv.inboxSlots (slotOf seq link.send.nslots) seq }
    flying := link.flying.eraseIdx index }

def amPollPeer (link : Link) : Nat → Link
  | 0 => link
  | maxPoll + 1 =>
      let expected := link.recv.expectedSeq
      if link.recv.inboxSlots (slotOf expected link.recv.nslots) ≠ expected then link
      else
        amPollPeer { link with
          recv := { link.recv with expectedSeq := expected + 1, tailSeq := expected + 1 - 1 }
          dispatched := link.dispatched ++ [expected] } maxPoll

inductive Action where
  | send
  | land (index : Nat)
  | poll (maxPoll : Nat)
deriving DecidableEq, Repr

def step (link : Link) : Action → Option Link
  | .send => some (sendMessage link)
  | .land index => land link index
  | .poll maxPoll => some (amPollPeer link maxPoll)

-- A send is made only after check_can_send() has returned true.
def Checked (margin : Int) (link : Link) : Action → Prop
  | .send => checkCanSend link.send margin = true
  | .land _ => True
  | .poll _ => True

instance (margin : Int) (link : Link) (action : Action) : Decidable (Checked margin link action) :=
  match action with
  | .send => inferInstanceAs (Decidable (_ = _))
  | .land _ => isTrue trivial
  | .poll _ => isTrue trivial

def nextSlot (link : Link) : Int := slotOf link.send.headSeq link.send.nslots

structure SlotFree (link : Link) : Prop where
  inside : 0 ≤ nextSlot link ∧ nextSlot link < link.send.nslots
  free : ∀ seq ∈ link.sent, slotOf seq link.send.nslots = nextSlot link → seq ∈ link.dispatched

structure SlotEmpty (link : Link) : Prop where
  inside : 0 ≤ nextSlot link ∧ nextSlot link < link.send.nslots
  empty : ∀ seq ∈ link.sent, link.recv.inboxSlots (nextSlot link) = seq → seq ∈ link.dispatched

def Sound (nslots margin : Int) (safe : Link → Prop) : Prop :=
  ∀ link, Reach step (Checked margin) (openLink nslots) link → checkCanSend link.send margin = true → safe link

theorem accepts_cases (nslots : Int) (accepts : Accepts nslots) :
    nslots = 0 ∨ ∃ log < 31, nslots = ((2 ^ log : Nat) : Int) := by
  obtain ⟨count, rfl⟩ := Int.eq_ofNat_of_zero_le accepts.allocated
  rcases Nat.eq_zero_or_pos count with rfl | positive
  · exact .inl rfl
  · have small : count < 2 ^ 31 := by
      have := accepts.fits
      omega
    have value : (BitVec.ofInt 32 (count : Int)).toNat = count := by
      simp only [BitVec.ofInt_natCast, BitVec.toNat_ofNat]
      omega
    have before : (BitVec.ofInt 32 (count : Int) - 1).toNat = count - 1 := by
      rw [BitVec.toNat_sub, value]
      simp only [BitVec.ofNat_eq_ofNat, BitVec.toNat_ofNat]
      omega
    have mask : count &&& (count - 1) = 0 := by
      have word := accepts.mask
      rw [passesCheck, beq_iff_eq] at word
      have bits := congrArg BitVec.toNat word
      rwa [BitVec.toNat_and, value, before, BitVec.ofNat_eq_ofNat, BitVec.toNat_ofNat, Nat.zero_mod] at bits
    obtain ⟨log, power⟩ := (Nat.and_sub_one_eq_zero_iff_isPowerOfTwo (by omega)).mp mask
    refine .inr ⟨log, ?_, by rw [power]⟩
    rw [power] at small
    exact (Nat.pow_lt_pow_iff_right (by decide)).mp small

theorem slot_of_idx (seq : UInt64) (log : Nat) (fits : log < 31) :
    slotOf seq ((2 ^ log : Nat) : Int) = (slotIdx seq (2 ^ log) : Int) := by
  have small : 2 ^ log < 2 ^ 31 := Nat.pow_lt_pow_right (by decide) fits
  have positive : 0 < 2 ^ log := Nat.two_pow_pos log
  have mask : UInt64.ofInt (((2 ^ log : Nat) : Int) - 1) = UInt64.ofNat (2 ^ log - 1) := by
    rw [UInt64.ofInt]
    congr 1
    omega
  have below : slotIdx seq (2 ^ log) < 2 ^ 31 := by
    rw [slotIdx, UInt64.toNat_and, UInt64.toNat_ofNat']
    have less := Nat.and_le_right (n := seq.toNat) (m := (2 ^ log - 1) % 2 ^ 64)
    omega
  have word : (seq &&& UInt64.ofNat (2 ^ log - 1)).toUInt32.toNat = slotIdx seq (2 ^ log) := by
    rw [UInt64.toNat_toUInt32]
    exact Nat.mod_eq_of_lt (by rw [slotIdx] at below; omega)
  rw [slotOf, mask, UInt32.toInt32, Int32.toInt, BitVec.toInt_eq_toNat_of_lt]
  · exact congrArg Int.ofNat word
  · have bits : ((seq &&& UInt64.ofNat (2 ^ log - 1)).toUInt32.toBitVec).toNat = slotIdx seq (2 ^ log) := word
    exact bits ▸ (by omega)

theorem slot_of_seq (m log : Nat) (fits : log < 31) :
    slotOf (seqAt m) ((2 ^ log : Nat) : Int) = (((m + 1) % 2 ^ log : Nat) : Int) := by
  rw [slot_of_idx (seqAt m) log fits, slot_idx_seq m log fits]

theorem poll_keeps (link : Link) (maxPoll : Nat) :
    (amPollPeer link maxPoll).send = link.send ∧ (amPollPeer link maxPoll).sent = link.sent ∧
      (amPollPeer link maxPoll).flying = link.flying ∧
      (amPollPeer link maxPoll).recv.inboxSlots = link.recv.inboxSlots := by
  induction maxPoll generalizing link with
  | zero => exact ⟨rfl, rfl, rfl, rfl⟩
  | succ maxPoll ih =>
      rw [amPollPeer]
      split
      · exact ⟨rfl, rfl, rfl, rfl⟩
      · obtain ⟨send, sent, flying, slots⟩ := ih { link with
          recv := { link.recv with
            expectedSeq := link.recv.expectedSeq + 1, tailSeq := link.recv.expectedSeq + 1 - 1 }
          dispatched := link.dispatched ++ [link.recv.expectedSeq] }
        exact ⟨send, sent, flying, slots⟩

structure Numbered (count : Int) (link : Link) : Prop where
  nslots : link.send.nslots = count
  head : link.send.headSeq = seqAt link.sent.length
  sent : link.sent = (List.range link.sent.length).map seqAt
  slots : ∀ slot, link.recv.inboxSlots slot ≠ 0 → slotOf (link.recv.inboxSlots slot) count = slot

theorem open_numbered (nslots : Int) : Numbered nslots (openLink nslots) :=
  ⟨rfl, rfl, rfl, fun _ written => absurd rfl written⟩

theorem step_numbered (nslots : Int) (before after : Link) (action : Action) (numbered : Numbered nslots before)
    (taken : step before action = some after) : Numbered nslots after := by
  cases action with
  | send =>
      cases taken
      refine ⟨numbered.nslots, ?_, ?_, numbered.slots⟩
      · simp only [sendMessage, numbered.head, seq_at_succ, List.length_append, List.length_singleton]
      · simp only [sendMessage, List.length_append, List.length_singleton, List.range_succ, List.map_append,
          List.map_singleton, ← numbered.sent, numbered.head]
  | land index =>
      simp only [step, land, Option.map_eq_some_iff] at taken
      obtain ⟨seq, _, rfl⟩ := taken
      refine ⟨numbered.nslots, numbered.head, numbered.sent, fun slot written => ?_⟩
      by_cases same : slot = slotOf seq before.send.nslots
      · subst same
        simp only [Function.update_self, numbered.nslots]
      · simp only [Function.update_of_ne same] at written ⊢
        exact numbered.slots slot written
  | poll maxPoll =>
      cases taken
      obtain ⟨send, sent, _, slots⟩ := poll_keeps before maxPoll
      refine ⟨by rw [send, numbered.nslots], by rw [send, sent, numbered.head], ?_, ?_⟩
      · rw [sent]
        exact numbered.sent
      · rw [slots]
        exact numbered.slots

theorem numbered_mem (nslots : Int) (link : Link) (numbered : Numbered nslots link) (seq : UInt64) :
    seq ∈ link.sent ↔ ∃ m < link.sent.length, seqAt m = seq := by
  conv_lhs => rw [numbered.sent]
  simp

theorem check_value (nslots margin : Int) (link : Link) (numbered : Numbered nslots link)
    (room : 0 ≤ nslots - margin) (fits : nslots - margin < 2 ^ 31) (few : link.sent.length < 2 ^ 31)
    (checked : checkCanSend link.send margin = true) : (link.sent.length : Int) + 1 < nslots - margin := by
  rw [checkCanSend, decide_eq_true_eq, numbered.head, numbered.nslots, UInt64.lt_iff_toNat_lt, seq_at_value,
    UInt64.ofInt, UInt64.toNat_ofNat'] at checked
  omega

structure Few (nslots : Int) (link : Link) : Prop where
  numbered : Numbered nslots link
  few : (link.sent.length : Int) ≤ nslots

theorem step_few (nslots margin : Int) (before after : Link) (action : Action) (small : nslots < 2 ^ 31)
    (nonneg : 0 ≤ margin) (room : margin ≤ nslots) (inv : Few nslots before) (checked : Checked margin before action)
    (taken : step before action = some after) : Few nslots after := by
  refine ⟨step_numbered nslots before after action inv.numbered taken, ?_⟩
  have few := inv.few
  cases action with
  | send =>
      cases taken
      have value := check_value nslots margin before inv.numbered (by omega) (by omega) (by omega) checked
      simp only [sendMessage, List.length_append, List.length_singleton]
      omega
  | land index =>
      simp only [step, land, Option.map_eq_some_iff] at taken
      obtain ⟨seq, _, rfl⟩ := taken
      exact few
  | poll maxPoll =>
      cases taken
      rw [(poll_keeps before maxPoll).2.1]
      exact few

theorem few_slot_free (log : Nat) (margin : Int) (link : Link) (fits : log < 31) (nonneg : 0 ≤ margin)
    (room : margin ≤ ((2 ^ log : Nat) : Int)) (inv : Few ((2 ^ log : Nat) : Int) link)
    (checked : checkCanSend link.send margin = true) : SlotFree link ∧ SlotEmpty link := by
  have small : 2 ^ log < 2 ^ 31 := Nat.pow_lt_pow_right (by decide) fits
  have numbered := inv.numbered
  have few := inv.few
  have value := check_value _ margin link numbered (by omega) (by omega) (by omega) checked
  have next : nextSlot link = ((link.sent.length + 1 : Nat) : Int) := by
    rw [nextSlot, numbered.head, numbered.nslots, slot_of_seq _ log fits, Nat.mod_eq_of_lt (by omega)]
  have inside : 0 ≤ nextSlot link ∧ nextSlot link < link.send.nslots := by
    rw [next, numbered.nslots]
    omega
  have apart : ∀ seq ∈ link.sent, slotOf seq link.send.nslots ≠ nextSlot link := by
    intro seq member same
    obtain ⟨m, less, rfl⟩ := (numbered_mem _ link numbered seq).mp member
    rw [next, numbered.nslots, slot_of_seq m log fits, Nat.mod_eq_of_lt (by omega)] at same
    omega
  refine ⟨⟨inside, fun seq member same => absurd same (apart seq member)⟩, inside, fun seq member same => ?_⟩
  obtain ⟨m, less, rfl⟩ := (numbered_mem _ link numbered seq).mp member
  have written : link.recv.inboxSlots (nextSlot link) ≠ 0 := by
    rw [same]
    exact seq_at_first_lap m log fits (by omega)
  have own := numbered.slots (nextSlot link) written
  rw [same, ← numbered.nslots] at own
  exact absurd own (apart _ member)

structure Unpolled (log n : Nat) (link : Link) : Prop where
  numbered : Numbered ((2 ^ log : Nat) : Int) link
  count : link.sent.length = n
  flying : link.flying = []
  dispatched : link.dispatched = []
  first : 0 < n → link.recv.inboxSlots (slotOf (seqAt 0) ((2 ^ log : Nat) : Int)) = seqAt 0

theorem negative_room_accepts (nslots margin : Int) (link : Link) (numbered : Numbered nslots link)
    (few : link.sent.length ≤ 2 ^ 31) (nonneg : 0 ≤ nslots) (fits : margin < 2 ^ 31) (more : nslots < margin) :
    checkCanSend link.send margin = true := by
  rw [checkCanSend, decide_eq_true_eq, numbered.head, numbered.nslots, UInt64.lt_iff_toNat_lt, seq_at_value,
    UInt64.ofInt, UInt64.toNat_ofNat']
  omega

theorem unpolled_reached (log n : Nat) (margin : Int) (fits : log < 31) (small : margin < 2 ^ 31)
    (more : ((2 ^ log : Nat) : Int) < margin) (within : n ≤ 2 ^ log) :
    ∃ link, Reach step (Checked margin) (openLink ((2 ^ log : Nat) : Int)) link ∧ Unpolled log n link := by
  have bound : 2 ^ log < 2 ^ 31 := Nat.pow_lt_pow_right (by decide) fits
  induction n with
  | zero => exact ⟨_, .start, open_numbered _, rfl, rfl, rfl, fun absurd => by omega⟩
  | succ n ih =>
      obtain ⟨link, reached, inv⟩ := ih (by omega)
      have numbered := inv.numbered
      have count := inv.count
      have checked := negative_room_accepts _ margin link numbered (by omega) (by omega) small more
      have landed : land (sendMessage link) 0 = some { sendMessage link with
          recv := { link.recv with
            inboxSlots := Function.update link.recv.inboxSlots (slotOf (seqAt n) ((2 ^ log : Nat) : Int)) (seqAt n) }
          flying := [] } := by
        simp [land, sendMessage, inv.flying, numbered.head, numbered.nslots, count]
      have numberedSent := step_numbered _ link (sendMessage link) .send numbered rfl
      refine ⟨_, .step _ _ (.land 0) (.step _ _ .send reached checked rfl) trivial landed,
        step_numbered _ _ _ (.land 0) numberedSent landed, ?_, rfl, inv.dispatched, fun _ => ?_⟩
      · simp [sendMessage, count]
      · -- The later messages lie in other slots.
        rcases Nat.eq_zero_or_pos n with rfl | positive
        · simp
        · have apart : slotOf (seqAt 0) ((2 ^ log : Nat) : Int) ≠ slotOf (seqAt n) ((2 ^ log : Nat) : Int) := by
            rw [slot_of_seq 0 log fits, slot_of_seq n log fits]
            exact fun same => PhaseRing.slots_distinct (2 ^ log) 1 (n + 1) (by omega) (by omega) (Int.ofNat_inj.mp same)
          simp only [Function.update_of_ne apart]
          exact inv.first positive

theorem wide_margin_overruns (nslots margin : Int) (accepts : Accepts nslots) (small : margin < 2 ^ 31)
    (more : nslots < margin) :
    ∃ link, Reach step (Checked margin) (openLink nslots) link ∧ checkCanSend link.send margin = true ∧
      ¬ SlotFree link ∧ ¬ SlotEmpty link := by
  rcases accepts_cases nslots accepts with rfl | ⟨log, fits, rfl⟩
  · refine ⟨openLink 0, .start, negative_room_accepts 0 margin _ (open_numbered 0) (by simp [openLink]) (by omega) small
      more, fun free => ?_, fun empty => ?_⟩
    · exact absurd (free.inside.1.trans_lt free.inside.2) (by simp [openLink])
    · exact absurd (empty.inside.1.trans_lt empty.inside.2) (by simp [openLink])
  · have bound : 2 ^ log < 2 ^ 31 := Nat.pow_lt_pow_right (by decide) fits
    have positive : 0 < 2 ^ log := Nat.two_pow_pos log
    obtain ⟨link, reached, inv⟩ := unpolled_reached log (2 ^ log) margin fits small more (Nat.le_refl _)
    have numbered := inv.numbered
    have count := inv.count
    have next : nextSlot link = slotOf (seqAt 0) ((2 ^ log : Nat) : Int) := by
      rw [nextSlot, numbered.head, numbered.nslots, count, slot_of_seq _ log fits, slot_of_seq 0 log fits,
        Nat.add_comm, Nat.add_mod_right]
    have sent : seqAt 0 ∈ link.sent := (numbered_mem _ link numbered _).mpr ⟨0, by omega, rfl⟩
    have undispatched : seqAt 0 ∉ link.dispatched := by simp [inv.dispatched]
    refine ⟨link, reached, negative_room_accepts _ margin link numbered (by omega) (by omega) small more,
      fun free => undispatched (free.free _ sent ?_), fun empty => undispatched (empty.empty _ sent ?_)⟩
    · rw [next, numbered.nslots]
    · rw [next]
      exact inv.first positive

theorem check_can_send_sound_iff (nslots margin : Int) (accepts : Accepts nslots) (nonneg : 0 ≤ margin)
    (small : margin < 2 ^ 31) :
    (Sound nslots margin SlotFree ↔ margin ≤ nslots) ∧ (Sound nslots margin SlotEmpty ↔ margin ≤ nslots) := by
  have needed : (Sound nslots margin SlotFree ∨ Sound nslots margin SlotEmpty) → margin ≤ nslots := by
    intro sound
    by_contra more
    obtain ⟨link, reached, checked, full, held⟩ := wide_margin_overruns nslots margin accepts small (by omega)
    rcases sound with free | empty
    · exact full (free link reached checked)
    · exact held (empty link reached checked)
  have enough : margin ≤ nslots → ∀ link, Reach step (Checked margin) (openLink nslots) link →
      checkCanSend link.send margin = true → SlotFree link ∧ SlotEmpty link := by
    intro room link reached checked
    have few : Few nslots link :=
      reach_invariant step (Checked margin) (Few nslots) _ link ⟨open_numbered nslots, by simpa [openLink] using
        accepts.allocated⟩ (fun before after action =>
        step_few nslots margin before after action accepts.fits nonneg room) reached
    rcases accepts_cases nslots accepts with rfl | ⟨log, fits, rfl⟩
    · have value := check_value 0 margin link few.numbered (by omega) (by omega) (by have := few.few; omega) checked
      omega
    · exact few_slot_free log margin link fits nonneg room few checked
  exact ⟨⟨fun sound => needed (.inl sound), fun room link reached checked => (enough room link reached checked).1⟩,
    fun sound => needed (.inr sound), fun room link reached checked => (enough room link reached checked).2⟩

theorem check_can_send_sound_default : Accepts 128 ∧
    (Sound 128 32 SlotFree ↔ (32 : Int) ≤ 128) ∧ (Sound 128 32 SlotEmpty ↔ (32 : Int) ≤ 128) :=
  have accepts : Accepts 128 := ⟨by decide, by decide, by decide⟩
  ⟨accepts, check_can_send_sound_iff 128 32 accepts (by decide) (by decide)⟩

theorem default_margin_overruns : ¬ ∀ nslots margin : Int, Accepts nslots → 0 ≤ margin → margin < 2 ^ 31 →
    Sound nslots margin SlotEmpty := by
  intro sound
  obtain ⟨link, reached, checked, sent, slot, dispatched⟩ := reach_of_decided step (Checked 32)
    [.send, .land 0, .send, .land 0] (openLink 2)
    (fun link => checkCanSend link.send 32 = true ∧ link.sent = [1, 2] ∧ link.recv.inboxSlots (nextSlot link) = 1 ∧
      link.dispatched = []) (by decide +kernel)
  have empty := sound 2 32 ⟨by decide, by decide, by decide⟩ (by decide) (by decide) link reached checked
  have gone := empty.empty 1 (by rw [sent]; decide) slot
  rw [dispatched] at gone
  exact absurd gone List.not_mem_nil

end OpenGda.AmCheck
