import OpenGda.Ofi.ActiveMessageSends

set_option autoImplicit false

-- One ring: what its slots hold between the messages dispatched and the
-- messages that may land.
namespace OpenGda.Am

open ByteMemory DeferredWork Machine SequenceRing
open Ofi (Fabric RmaWrite CntrWork Handle)

variable {size : Nat}

def slotOf (config : Config size) (dest : Fin size) (m : Nat) : Nat := slotOffset (config.nslots dest) amSlotSize m

def BodyLanded (sent : List Sent) (executed : List Nat) (m : Nat) : Prop :=
  ∃ record, sent[m]? = some record ∧ record.threshold ∈ executed

def SeqLanded (sent : List Sent) (executed : List Nat) (m : Nat) : Prop :=
  ∃ record, sent[m]? = some record ∧ record.threshold + 1 ∈ executed

-- The seq field of a slot: the number of the message that may land in it, or
-- what the lap before has left there.
def SeqField (nslots m : Nat) (landed : Prop) (value : UInt64) : Prop :=
  (landed → value = seqAt m) ∧ (¬ landed → value = if m < nslots then 0 else seqAt (m - nslots))

structure PairInv (config : Config size) (source dest : Fin size) (sent : List Sent) (executed : List Nat)
    (delivered : List Delivery) (expected : UInt64) (inbox : Memory) (polling : Option Poller) : Prop where
  expects : expected = seqAt delivered.length
  released : ∀ m, SeqLanded sent executed m → BodyLanded sent executed m
  window : ∀ m, BodyLanded sent executed m → m < delivered.length + config.nslots dest
  consumed : ∀ m < delivered.length, SeqLanded sent executed m
  bodies : ∀ m record, delivered.length ≤ m → sent[m]? = some record → record.threshold ∈ executed →
    load inbox (slotOf config dest m + hdrOffset) record.message.bodySize = record.message.body source.val
  seqs : ∀ m, delivered.length ≤ m → m < delivered.length + config.nslots dest →
    SeqField (config.nslots dest) m (SeqLanded sent executed m) (slotSeq inbox (slotOf config dest m))
  deliveries : ∀ m record, m < delivered.length → sent[m]? = some record →
    delivered[m]? = some (record.message.delivery source.val)
  found : ∀ left processed, polling = some ⟨left, processed, true⟩ →
    slotSeq inbox (slotOf config dest delivered.length) = seqAt delivered.length

theorem nslots_positive (config : Config size) (dest : Fin size) : 0 < config.nslots dest := Nat.two_pow_pos _

theorem zeros_seq (offset : Nat) : slotSeq zeros offset = 0 := by
  rw [slotSeq, load_zeros, le_value_zeros]
  rfl

theorem initial_pair (config : Config size) (source dest : Fin size) :
    PairInv config source dest [] [] [] 1 zeros none where
  expects := rfl
  released := by simp [SeqLanded]
  window := by simp [BodyLanded]
  consumed := by simp
  bodies := by simp
  seqs := by
    intro m _ near
    rw [zeros_seq]
    simp only [List.length_nil, Nat.zero_add] at near
    exact ⟨by simp [SeqLanded], fun _ => by rw [if_pos near]⟩
  deliveries := by simp
  found := by simp

theorem slot_seq_apart (memory : Memory) (offset slot : Nat) (bytes : List UInt8)
    (apart : slot + 8 ≤ offset ∨ offset + bytes.length ≤ slot) :
    slotSeq (store memory offset bytes) slot = slotSeq memory slot := by
  simp only [slotSeq, seqOffset, seqSize, Nat.add_zero]
  rw [load_store_apart memory offset slot 8 bytes apart]

theorem body_fits (message : Message) : hdrOffset + message.bodySize ≤ amSlotSize := by
  have fits := payload_fits message
  simp only [Message.bodySize, hdrOffset, hdrSize, argsSize, amSlotSize, amShortSize]
  omega

theorem found_landed (config : Config size) (source dest : Fin size) (sent : List Sent) (executed : List Nat)
    (delivered : List Delivery) (expected : UInt64) (inbox : Memory) (polling : Option Poller)
    (inv : PairInv config source dest sent executed delivered expected inbox polling)
    (seen : slotSeq inbox (slotOf config dest delivered.length) = seqAt delivered.length) :
    SeqLanded sent executed delivered.length := by
  have positive := nslots_positive config dest
  obtain ⟨_, vacant⟩ := inv.seqs delivered.length (Nat.le_refl _) (by omega)
  by_contra absent
  rw [seen] at vacant
  have value := vacant absent
  by_cases first : delivered.length < config.nslots dest
  · rw [if_pos first] at value
    exact seq_at_first_lap _ _ (config.slotsFit dest) first value
  · rw [if_neg first] at value
    apply seq_at_next_lap (delivered.length - config.nslots dest) _ (config.slotsFit dest)
    rw [← value]
    congr 1
    exact Nat.sub_add_cancel (by omega)

theorem landed_append (sent : List Sent) (executed : List Nat) (record : Sent) (offset m : Nat)
    (fresh : record.threshold + offset ∉ executed) :
    (∃ another, (sent ++ [record])[m]? = some another ∧ another.threshold + offset ∈ executed) ↔
      ∃ another, sent[m]? = some another ∧ another.threshold + offset ∈ executed := by
  constructor
  · rintro ⟨another, found, ran⟩
    by_cases old : m < sent.length
    · rw [List.getElem?_append_left old] at found
      exact ⟨another, found, ran⟩
    · rw [List.getElem?_append_right (by omega), List.getElem?_singleton] at found
      split_ifs at found
      rw [← Option.some.inj found] at ran
      exact absurd ran fresh
  · rintro ⟨another, found, ran⟩
    refine ⟨another, ?_, ran⟩
    rw [List.getElem?_append_left (List.getElem?_eq_some_iff.mp found).1]
    exact found

theorem pair_append (config : Config size) (source dest : Fin size) (sent : List Sent) (executed : List Nat)
    (delivered : List Delivery) (expected : UInt64) (inbox : Memory) (polling : Option Poller) (record : Sent)
    (inv : PairInv config source dest sent executed delivered expected inbox polling)
    (body : record.threshold ∉ executed) (release : record.threshold + 1 ∉ executed) :
    PairInv config source dest (sent ++ [record]) executed delivered expected inbox polling := by
  have bodies : ∀ m, BodyLanded (sent ++ [record]) executed m ↔ BodyLanded sent executed m :=
    fun m => landed_append sent executed record 0 m body
  have seqs : ∀ m, SeqLanded (sent ++ [record]) executed m ↔ SeqLanded sent executed m :=
    fun m => landed_append sent executed record 1 m release
  have known : ∀ m another, BodyLanded sent executed m → (sent ++ [record])[m]? = some another →
      sent[m]? = some another := by
    rintro m another ⟨old, found, _⟩ same
    rwa [List.getElem?_append_left (List.getElem?_eq_some_iff.mp found).1] at same
  refine ⟨inv.expects, ?_, ?_, ?_, ?_, ?_, ?_, inv.found⟩
  · intro m landed
    exact (bodies m).mpr (inv.released m ((seqs m).mp landed))
  · exact fun m landed => inv.window m ((bodies m).mp landed)
  · exact fun m before => (seqs m).mpr (inv.consumed m before)
  · intro m another later found ran
    have landed := (bodies m).mp ⟨another, found, ran⟩
    exact inv.bodies m another later (known m another landed found) ran
  · intro m later near
    simp only [SeqField, seqs]
    exact inv.seqs m later near
  · intro m another before found
    have landed := inv.released m (inv.consumed m before)
    exact inv.deliveries m another before (known m another landed found)

theorem pair_executed_other (config : Config size) (source dest : Fin size) (sent : List Sent) (executed : List Nat)
    (delivered : List Delivery) (expected : UInt64) (inbox : Memory) (polling : Option Poller) (threshold : Nat)
    (inv : PairInv config source dest sent executed delivered expected inbox polling)
    (other : ∀ (m : Nat) (record : Sent), sent[m]? = some record →
      record.threshold ≠ threshold ∧ record.threshold + 1 ≠ threshold) :
    PairInv config source dest sent (threshold :: executed) delivered expected inbox polling := by
  have bodies : ∀ m, BodyLanded sent (threshold :: executed) m ↔ BodyLanded sent executed m := by
    intro m
    refine exists_congr fun record => and_congr_right fun found => ?_
    simp [(other m record found).1]
  have seqs : ∀ m, SeqLanded sent (threshold :: executed) m ↔ SeqLanded sent executed m := by
    intro m
    refine exists_congr fun record => and_congr_right fun found => ?_
    simp [(other m record found).2]
  refine ⟨inv.expects, ?_, ?_, ?_, ?_, ?_, inv.deliveries, inv.found⟩
  · intro m landed
    exact (bodies m).mpr (inv.released m ((seqs m).mp landed))
  · exact fun m landed => inv.window m ((bodies m).mp landed)
  · exact fun m before => (seqs m).mpr (inv.consumed m before)
  · intro m record later found ran
    obtain ⟨same, found', ran⟩ := (bodies m).mp ⟨record, found, ran⟩
    rw [found] at found'
    rw [← Option.some.inj found'] at ran
    exact inv.bodies m record later found ran
  · intro m later near
    simp only [SeqField, seqs]
    exact inv.seqs m later near

theorem pair_polling (config : Config size) (source dest : Fin size) (sent : List Sent) (executed : List Nat)
    (delivered : List Delivery) (expected : UInt64) (inbox : Memory) (before after : Option Poller)
    (inv : PairInv config source dest sent executed delivered expected inbox before)
    (found : ∀ left processed, after = some ⟨left, processed, true⟩ →
      slotSeq inbox (slotOf config dest delivered.length) = seqAt delivered.length) :
    PairInv config source dest sent executed delivered expected inbox after :=
  ⟨inv.expects, inv.released, inv.window, inv.consumed, inv.bodies, inv.seqs, inv.deliveries, found⟩

theorem store_other_slot (config : Config size) (dest : Fin size) (inbox : Memory) (m other offset field count : Nat)
    (bytes : List UInt8) (different : m ≠ other) (near : m < other + config.nslots dest)
    (close : other < m + config.nslots dest) (fits : offset + bytes.length ≤ amSlotSize)
    (inside : field + count ≤ amSlotSize) :
    load (store inbox (slotOf config dest m + offset) bytes) (slotOf config dest other + field) count =
      load inbox (slotOf config dest other + field) count := by
  have apart : slotOf config dest m + amSlotSize ≤ slotOf config dest other ∨
      slotOf config dest other + amSlotSize ≤ slotOf config dest m :=
    slot_offsets_apart _ amSlotSize m other different near close
  apply load_store_apart
  rcases apart with less | less
  · exact Or.inr (by omega)
  · exact Or.inl (by omega)

theorem store_other_seq (config : Config size) (dest : Fin size) (inbox : Memory) (m other offset : Nat)
    (bytes : List UInt8) (different : m ≠ other) (near : m < other + config.nslots dest)
    (close : other < m + config.nslots dest) (fits : offset + bytes.length ≤ amSlotSize) :
    slotSeq (store inbox (slotOf config dest m + offset) bytes) (slotOf config dest other) =
      slotSeq inbox (slotOf config dest other) := by
  simp only [slotSeq]
  rw [store_other_slot config dest inbox m other offset seqOffset seqSize bytes different near close fits (by decide)]

theorem not_landed_later (config : Config size) (source dest : Fin size) (sent : List Sent) (executed : List Nat)
    (delivered : List Delivery) (expected : UInt64) (inbox : Memory) (polling : Option Poller) (m : Nat) (record : Sent)
    (inv : PairInv config source dest sent executed delivered expected inbox polling) (found : sent[m]? = some record)
    (fresh : record.threshold ∉ executed ∨ record.threshold + 1 ∉ executed) : delivered.length ≤ m := by
  by_contra early
  have released := inv.consumed m (by omega)
  obtain ⟨first, same, ran⟩ := inv.released m released
  obtain ⟨second, again, done⟩ := released
  rw [found] at same again
  rw [← Option.some.inj same] at ran
  rw [← Option.some.inj again] at done
  rcases fresh with absent | absent
  · exact absent ran
  · exact absent done

theorem pair_body (config : Config size) (source dest : Fin size) (sent : List Sent) (executed : List Nat)
    (delivered : List Delivery) (expected : UInt64) (inbox : Memory) (polling : Option Poller) (m : Nat) (record : Sent)
    (inv : PairInv config source dest sent executed delivered expected inbox polling) (found : sent[m]? = some record)
    (fresh : record.threshold ∉ executed)
    (odd : ∀ (n : Nat) (another : Sent), sent[n]? = some another → another.threshold % 2 = 1)
    (distinct : ∀ (n : Nat) (another : Sent), sent[n]? = some another → another.threshold = record.threshold → n = m)
    (near : m < delivered.length + config.nslots dest) :
    PairInv config source dest sent (record.threshold :: executed) delivered expected
      (store inbox (slotOf config dest m + hdrOffset) (record.message.body source.val)) polling := by
  have later := not_landed_later config source dest sent executed delivered expected inbox polling m record inv found
    (Or.inl fresh)
  have positive := nslots_positive config dest
  have fits : hdrOffset + (record.message.body source.val).length ≤ amSlotSize := by
    rw [body_length]
    exact body_fits record.message
  have bodies : ∀ n, BodyLanded sent (record.threshold :: executed) n → n = m ∨ BodyLanded sent executed n := by
    rintro n ⟨another, same, ran⟩
    rcases List.mem_cons.mp ran with now | before
    · exact Or.inl (distinct n another same now)
    · exact Or.inr ⟨another, same, before⟩
  have seqs : ∀ n, SeqLanded sent (record.threshold :: executed) n ↔ SeqLanded sent executed n := by
    intro n
    refine exists_congr fun another => and_congr_right fun same => ?_
    have first := odd m record found
    have second := odd n another same
    rw [List.mem_cons, or_iff_right (by omega)]
  have untouched : ∀ n, delivered.length ≤ n → n < delivered.length + config.nslots dest →
      slotSeq (store inbox (slotOf config dest m + hdrOffset) (record.message.body source.val)) (slotOf config dest n) =
        slotSeq inbox (slotOf config dest n) := by
    intro n after close
    by_cases same : m = n
    · subst same
      exact slot_seq_apart inbox _ _ _ (Or.inl (Nat.le_refl _))
    · exact store_other_seq config dest inbox m n hdrOffset _ same (by omega) (by omega) fits
  refine ⟨inv.expects, ?_, ?_, ?_, ?_, ?_, inv.deliveries, ?_⟩
  · intro n landed
    obtain ⟨another, same, ran⟩ := inv.released n ((seqs n).mp landed)
    exact ⟨another, same, List.mem_cons_of_mem _ ran⟩
  · intro n landed
    rcases bodies n landed with rfl | old
    · exact near
    · exact inv.window n old
  · exact fun n before => (seqs n).mpr (inv.consumed n before)
  · intro n another after same ran
    by_cases here : m = n
    · subst here
      rw [found] at same
      rw [← Option.some.inj same, ← body_length record.message source.val]
      exact load_store_same inbox _ _
    · have old : BodyLanded sent executed n :=
        (bodies n ⟨another, same, ran⟩).resolve_left (Ne.symm here)
      have close := inv.window n old
      have before : another.threshold ∈ executed := by
        rcases List.mem_cons.mp ran with now | before
        · exact absurd (distinct n another same now).symm here
        · exact before
      rw [store_other_slot config dest inbox m n hdrOffset hdrOffset another.message.bodySize _ here (by omega)
        (by omega) fits (body_fits another.message)]
      exact inv.bodies n another after same before
  · intro n after close
    simp only [SeqField, seqs, untouched n after close]
    exact inv.seqs n after close
  · intro left processed waiting
    rw [untouched _ (Nat.le_refl _) (by omega)]
    exact inv.found left processed waiting

theorem pair_seq (config : Config size) (source dest : Fin size) (sent : List Sent) (executed : List Nat)
    (delivered : List Delivery) (expected : UInt64) (inbox : Memory) (polling : Option Poller) (m : Nat) (record : Sent)
    (inv : PairInv config source dest sent executed delivered expected inbox polling) (found : sent[m]? = some record)
    (fresh : record.threshold + 1 ∉ executed) (behind : record.threshold ∈ executed)
    (odd : ∀ (n : Nat) (another : Sent), sent[n]? = some another → another.threshold % 2 = 1)
    (distinct : ∀ (n : Nat) (another : Sent), sent[n]? = some another → another.threshold = record.threshold → n = m) :
    PairInv config source dest sent ((record.threshold + 1) :: executed) delivered expected
      (store inbox (slotOf config dest m + seqOffset) (leBytes seqSize (seqAt m).toNat)) polling := by
  have later := not_landed_later config source dest sent executed delivered expected inbox polling m record inv found
    (Or.inr fresh)
  have positive := nslots_positive config dest
  have near := inv.window m ⟨record, found, behind⟩
  have fits : seqOffset + (leBytes seqSize (seqAt m).toNat).length ≤ amSlotSize := by
    rw [le_bytes_length]
    decide
  have bodies : ∀ n, BodyLanded sent ((record.threshold + 1) :: executed) n ↔ BodyLanded sent executed n := by
    intro n
    refine exists_congr fun another => and_congr_right fun same => ?_
    have first := odd m record found
    have second := odd n another same
    rw [List.mem_cons, or_iff_right (by omega)]
  have seqs : ∀ n, SeqLanded sent ((record.threshold + 1) :: executed) n → n = m ∨ SeqLanded sent executed n := by
    rintro n ⟨another, same, ran⟩
    rcases List.mem_cons.mp ran with now | before
    · exact Or.inl (distinct n another same (by omega))
    · exact Or.inr ⟨another, same, before⟩
  have written : slotSeq (store inbox (slotOf config dest m + seqOffset) (leBytes seqSize (seqAt m).toNat))
      (slotOf config dest m) = seqAt m := by
    have bytes := load_store_same inbox (slotOf config dest m + seqOffset) (leBytes seqSize (seqAt m).toNat)
    rw [le_bytes_length] at bytes
    rw [slotSeq, bytes]
    exact uint64_round_trip (seqAt m)
  have untouched : ∀ n, m ≠ n → delivered.length ≤ n → n < delivered.length + config.nslots dest →
      slotSeq (store inbox (slotOf config dest m + seqOffset) (leBytes seqSize (seqAt m).toNat)) (slotOf config dest n) =
        slotSeq inbox (slotOf config dest n) := by
    intro n different after close
    exact store_other_seq config dest inbox m n seqOffset _ different (by omega) (by omega) fits
  have keep : ∀ n, SeqLanded sent executed n → SeqLanded sent ((record.threshold + 1) :: executed) n := by
    rintro n ⟨another, same, ran⟩
    exact ⟨another, same, List.mem_cons_of_mem _ ran⟩
  refine ⟨inv.expects, ?_, ?_, ?_, ?_, ?_, inv.deliveries, ?_⟩
  · intro n landed
    rcases seqs n landed with rfl | old
    · exact (bodies n).mpr ⟨record, found, behind⟩
    · exact (bodies n).mpr (inv.released n old)
  · exact fun n landed => inv.window n ((bodies n).mp landed)
  · exact fun n before => keep n (inv.consumed n before)
  · intro n another after same ran
    obtain ⟨again, found', before⟩ := (bodies n).mp ⟨another, same, ran⟩
    rw [same] at found'
    rw [← Option.some.inj found'] at before
    have close := inv.window n ⟨another, same, before⟩
    have body := inv.bodies n another after same before
    by_cases here : m = n
    · subst here
      have behindSeq : slotOf config dest m + seqOffset + (leBytes seqSize (seqAt m).toNat).length ≤
          slotOf config dest m + hdrOffset := by simp [seqOffset, hdrOffset, seqSize]
      rw [load_store_apart inbox _ _ _ _ (Or.inr behindSeq)]
      exact body
    · rw [store_other_slot config dest inbox m n seqOffset hdrOffset another.message.bodySize _ here (by omega)
        (by omega) fits (body_fits another.message)]
      exact body
  · intro n after close
    by_cases here : m = n
    · subst here
      exact ⟨fun _ => written, fun absent => absurd ⟨record, found, by simp⟩ absent⟩
    · rw [untouched n here after close]
      obtain ⟨full, vacant⟩ := inv.seqs n after close
      refine ⟨fun landed => full ((seqs n landed).resolve_left (Ne.symm here)), fun absent => vacant ?_⟩
      exact fun landed => absent (keep n landed)
  · intro left processed waiting
    by_cases here : m = delivered.length
    · rw [← here]
      exact written
    · rw [untouched _ here (Nat.le_refl _) (by omega)]
      exact inv.found left processed waiting

theorem found_delivery (config : Config size) (source dest : Fin size) (sent : List Sent) (executed : List Nat)
    (delivered : List Delivery) (expected : UInt64) (inbox : Memory) (polling : Option Poller)
    (inv : PairInv config source dest sent executed delivered expected inbox polling)
    (seen : slotSeq inbox (slotOf config dest delivered.length) = seqAt delivered.length) :
    ∃ record, sent[delivered.length]? = some record ∧ record.threshold + 1 ∈ executed ∧
      readDelivery inbox (slotOf config dest delivered.length) = record.message.delivery source.val := by
  have released := found_landed config source dest sent executed delivered expected inbox polling inv seen
  obtain ⟨record, found, ran⟩ := inv.released _ released
  obtain ⟨again, same, done⟩ := released
  rw [found] at same
  rw [← Option.some.inj same] at done
  have body := inv.bodies _ record (Nat.le_refl _) found ran
  exact ⟨record, found, done, read_delivery_body inbox _ source.val record.message body⟩

theorem pair_dispatch (config : Config size) (source dest : Fin size) (sent : List Sent) (executed : List Nat)
    (delivered : List Delivery) (expected : UInt64) (inbox : Memory) (left processed next count : Nat)
    (inv : PairInv config source dest sent executed delivered expected inbox (some ⟨left, processed, true⟩)) :
    PairInv config source dest sent executed
      (delivered ++ [readDelivery inbox (slotOf config dest delivered.length)]) (expected + 1) inbox
      (some ⟨next, count, false⟩) := by
  have seen := inv.found left processed rfl
  obtain ⟨record, found, done, read⟩ :=
    found_delivery config source dest sent executed delivered expected inbox _ inv seen
  have length : (delivered ++ [readDelivery inbox (slotOf config dest delivered.length)]).length =
      delivered.length + 1 := by simp
  refine ⟨?_, inv.released, ?_, ?_, ?_, ?_, ?_, by simp⟩
  · rw [length, inv.expects, seq_at_succ]
  · intro m landed
    have near := inv.window m landed
    omega
  · intro m before
    rw [length] at before
    by_cases last : m = delivered.length
    · subst last
      exact ⟨record, found, done⟩
    · exact inv.consumed m (by omega)
  · intro m another later
    rw [length] at later
    exact inv.bodies m another (by omega)
  · intro m later near
    rw [length] at later near
    by_cases old : m < delivered.length + config.nslots dest
    · exact inv.seqs m (by omega) old
    · have last : m = delivered.length + config.nslots dest := by omega
      have absent : ¬ SeqLanded sent executed m := fun landed => old (inv.window m (inv.released m landed))
      refine ⟨fun landed => absurd landed absent, fun _ => ?_⟩
      rw [if_neg (by omega), last, slotOf, slot_offset_next_lap, Nat.add_sub_cancel]
      exact seen
  · intro m another before same
    rw [length] at before
    by_cases last : m = delivered.length
    · subst last
      rw [found] at same
      rw [← Option.some.inj same, List.getElem?_append_right (Nat.le_refl _), Nat.sub_self, read]
      rfl
    · rw [List.getElem?_append_left (by omega)]
      exact inv.deliveries m another (by omega) same

end OpenGda.Am
