import OpenGda.Mlx5.ShortMessage

set_option autoImplicit false

-- What a slot holds while writes become visible byte by byte, and what a receiver reads
-- of it that looks between the writes.
namespace OpenGda.Mlx5.Am

open ByteMemory Machine SequenceRing

def slotOf (config : Config) (m : Nat) : Nat := slotOffset config.nslots amSlotSize m

def Reached (ring : Ring) (message place : Nat) : Prop :=
  message < ring.queue.executed ∨ (message = ring.queue.executed ∧ place < ring.part)

structure WireInv (config : Config) (ring : Ring) : Prop where
  known : ∀ m place, Reached ring m place → m < ring.sent.length
  sized : ring.queue.posted.length = ring.sent.length
  puts : ∀ m put, ring.queue.posted[m]? = some put →
    put.size.toNat = amShortSize ∧ (put.remoteAddr - config.remoteRingBase).toNat = slotOf config m
  numbered : ∀ m slot, ring.sent[m]? = some slot → slot.seq = seqAt m
  short : ring.part < amShortSize
  bytes : ∀ m slot place, ring.sent[m]? = some slot → place < amShortSize → Reached ring m place →
    ¬ Reached ring (m + config.nslots) place → slot.toBytes[place]? = some (ring.inbox (slotOf config m + place))
  untouched : ∀ m place, m < config.nslots → place < amShortSize → ¬ Reached ring m place →
    ring.inbox (slotOf config m + place) = 0

def Phase.inHand : Phase → Nat
  | .dispatching _ _ => 1
  | .token _ _ => 1
  | _ => 0

structure ReaderInv (config : Config) (ring : Ring) : Prop where
  held : ring.phase.inHand ≤ ring.matched.length
  expects : ring.expectedSeq = seqAt (ring.matched.length - ring.phase.inHand)
  slots : ∀ m slot, ring.matched[m]? = some slot → slot = slotOf config m
  whole : ring.matched.length ≤ ring.queue.executed
  untorn : NotTorn ring

structure Inv (config : Config) (ring : Ring) : Prop where
  wire : WireInv config ring
  reader : ReaderInv config ring

theorem hdr_bytes_length (hdr : AmHdr) : hdr.toBytes.length = wordSize := by
  simp [AmHdr.toBytes, wordSize]

theorem words_sized (slot : AmSlot) : ∀ word ∈ slot.words, word.length = wordSize := by
  intro word member
  simp only [AmSlot.words, List.mem_cons, List.mem_ofFn] at member
  rcases member with rfl | rfl | ⟨index, rfl⟩
  · exact le_bytes_length _ _
  · exact hdr_bytes_length slot.hdr
  · exact le_bytes_length _ _

theorem to_bytes_length (slot : AmSlot) : slot.toBytes.length = amShortSize := by
  have lengths : slot.words.map List.length = List.replicate 8 wordSize := by
    have each := List.map_congr_left (words_sized slot)
    rw [each, List.map_const']
    simp [AmSlot.words]
  rw [AmSlot.toBytes, List.length_flatten, lengths]
  rfl

theorem field_bytes (slot : AmSlot) (field : Field) :
    (slot.toBytes.drop field.offset).take wordSize = slot.field field := by
  cases field with
  | hdr => exact flatten_chunk wordSize slot.words (words_sized slot) 1 (slot.field .hdr) rfl
  | args index =>
      apply flatten_chunk wordSize slot.words (words_sized slot) (2 + index.val)
      rw [Nat.add_comm, AmSlot.words, List.getElem?_cons_succ, List.getElem?_cons_succ, List.getElem?_ofFn,
        dif_pos index.isLt]

theorem field_inside (field : Field) : field.offset + wordSize ≤ amShortSize := by
  cases field with
  | hdr => decide
  | args index =>
      simp only [Field.offset, wordSize, amShortSize]
      omega

theorem nslots_positive (config : Config) : 0 < config.nslots := Nat.two_pow_pos _

theorem polled_slot (config : Config) (ring : Ring) (m : Nat) (expects : ring.expectedSeq = seqAt m) :
    polledSlot config ring = slotOf config m := by
  rw [polledSlot, expects, Config.nslots, slot_idx_seq m _ config.slotsFit]
  rfl

theorem wire_frame (config : Config) (before after : Ring) (inv : WireInv config before)
    (queue : after.queue = before.queue) (sent : after.sent = before.sent) (part : after.part = before.part)
    (inbox : after.inbox = before.inbox) : WireInv config after := by
  have reached : ∀ m place, Reached after m place ↔ Reached before m place := by
    intro m place
    rw [Reached, Reached, queue, part]
  refine ⟨?_, ?_, ?_, ?_, ?_, ?_, ?_⟩
  · intro m place arrived
    rw [sent]
    exact inv.known m place ((reached m place).mp arrived)
  · rw [queue, sent]
    exact inv.sized
  · rw [queue]
    exact inv.puts
  · rw [sent]
    exact inv.numbered
  · rw [part]
    exact inv.short
  · intro m slot place found inside arrived vacant
    rw [sent] at found
    rw [inbox]
    exact inv.bytes m slot place found inside ((reached m place).mp arrived) (fun later => vacant ((reached _ _).mpr later))
  · intro m place first inside missing
    rw [inbox]
    exact inv.untouched m place first inside fun arrived => missing ((reached m place).mpr arrived)

theorem fresh_inv (config : Config) : Inv config freshRing where
  wire :=
    { known := fun m place arrived => by simp [Reached, freshRing, emptyFifo] at arrived
      sized := rfl
      puts := by simp [freshRing, emptyFifo]
      numbered := by simp [freshRing]
      short := by decide
      bytes := by simp [freshRing]
      untouched := fun _ _ _ _ _ => rfl }
  reader :=
    { held := Nat.le_refl 0
      expects := rfl
      slots := by simp [freshRing]
      whole := Nat.le_refl 0
      untorn := by simp [NotTorn, freshRing] }

theorem short_put_place (config : Config) (localSlot : BitVec 64) (m : Nat) (signaled : Bool) :
    (shortPut config localSlot (slotIdx (seqAt m) config.nslots) signaled).size.toNat = amShortSize ∧
      ((shortPut config localSlot (slotIdx (seqAt m) config.nslots) signaled).remoteAddr -
        config.remoteRingBase).toNat = slotOf config m := by
  have slot : slotIdx (seqAt m) config.nslots = (m + 1) % config.nslots := slot_idx_seq m _ config.slotsFit
  have bound := Nat.mod_lt (m + 1) (nslots_positive config)
  have small : config.nslots < 2 ^ 31 := Nat.pow_lt_pow_right (by decide) config.slotsFit
  refine ⟨by rfl, ?_⟩
  rw [shortPut, BitVec.add_comm, BitVec.add_sub_cancel, slot, dstOffset, BitVec.toNat_ofNat]
  apply Nat.mod_eq_of_lt
  simp only [amSlotSize, amShortSize, amMaxPayloadSize]
  omega

theorem send_wire (config : Config) (ring : Ring) (request : Bool) (localSlot : BitVec 64) (hdr : AmHdr)
    (args : Fin 6 → UInt64) (inv : WireInv config ring) : WireInv config (send config ring request localSlot hdr args) := by
  obtain ⟨signaled, queue⟩ : ∃ signaled, (send config ring request localSlot hdr args).queue =
      ring.queue.applyOp config.ctx
        (.put (shortPut config localSlot (slotIdx (seqAt ring.sent.length) config.nslots) signaled)) := by
    cases request with
    | true => exact ⟨false, rfl⟩
    | false => exact ⟨true, rfl⟩
  have reached : ∀ m place, Reached (send config ring request localSlot hdr args) m place ↔ Reached ring m place := by
    intro m place
    rw [Reached, Reached, queue]
    rfl
  have posted : (send config ring request localSlot hdr args).queue.posted = ring.queue.posted ++
      [shortPut config localSlot (slotIdx (seqAt ring.sent.length) config.nslots) signaled] := by
    rw [queue]
    rfl
  have sent : (send config ring request localSlot hdr args).sent =
      ring.sent ++ [⟨seqAt ring.sent.length, hdr, args⟩] := rfl
  refine ⟨?_, ?_, ?_, ?_, inv.short, ?_, ?_⟩
  · intro m place arrived
    have old := inv.known m place ((reached m place).mp arrived)
    rw [sent, List.length_append]
    omega
  · rw [posted, sent, List.length_append, List.length_append, inv.sized]
    rfl
  · intro m put found
    rw [posted] at found
    by_cases old : m < ring.queue.posted.length
    · rw [List.getElem?_append_left old] at found
      exact inv.puts m put found
    · rw [List.getElem?_append_right (by omega), List.getElem?_singleton] at found
      split_ifs at found with last
      have here : m = ring.sent.length := by
        rw [← inv.sized]
        omega
      rw [← Option.some.inj found, here]
      exact short_put_place config localSlot ring.sent.length signaled
  · intro m slot found
    rw [sent] at found
    by_cases old : m < ring.sent.length
    · rw [List.getElem?_append_left old] at found
      exact inv.numbered m slot found
    · rw [List.getElem?_append_right (by omega), List.getElem?_singleton] at found
      split_ifs at found with last
      have here : m = ring.sent.length := by omega
      rw [← Option.some.inj found, here]
  · intro m slot place found inside arrived vacant
    have before := (reached m place).mp arrived
    rw [sent, List.getElem?_append_left (inv.known m place before)] at found
    exact inv.bytes m slot place found inside before fun later => vacant ((reached _ _).mpr later)
  · intro m place first inside missing
    exact inv.untouched m place first inside fun arrived => missing ((reached m place).mpr arrived)

structure Revealed (config : Config) (before after : Ring) (count : Nat) (slot : AmSlot) : Prop where
  current : before.sent[before.queue.executed]? = some slot
  fits : before.part + count ≤ amShortSize
  posted : after.queue.posted = before.queue.posted
  sent : after.sent = before.sent
  short : after.part < amShortSize
  inbox : after.inbox = store before.inbox (slotOf config before.queue.executed + before.part)
    ((slot.toBytes.drop before.part).take count)
  known : ∀ m place, Reached after m place → m ≤ before.queue.executed
  reached : ∀ m place, place < amShortSize → (Reached after m place ↔
    m < before.queue.executed ∨ (m = before.queue.executed ∧ place < before.part + count))
  onward : before.queue.executed ≤ after.queue.executed
  reader : after.phase = before.phase ∧ after.expectedSeq = before.expectedSeq ∧ after.matched = before.matched ∧
    after.observed = before.observed

theorem reveal_result (config : Config) (before after : Ring) (count : Nat) (inv : WireInv config before)
    (taken : reveal config before count = some after) : ∃ slot, Revealed config before after count slot := by
  unfold reveal at taken
  cases foundPut : before.queue.posted[before.queue.executed]? with
  | none => simp [foundPut] at taken
  | some put =>
      cases foundSlot : before.sent[before.queue.executed]? with
      | none => simp [foundPut, foundSlot] at taken
      | some slot =>
          obtain ⟨size, place⟩ := inv.puts _ put foundPut
          simp only [foundPut, foundSlot, size, place] at taken
          split_ifs at taken with allowed whole
          · cases taken
            refine ⟨slot, foundSlot, allowed.2.2, rfl, rfl, Nat.zero_lt_succ 63, rfl, ?_, ?_, Nat.le_succ _, rfl, rfl, rfl,
              rfl⟩
            · intro m place arrived
              simp only [Reached] at arrived
              omega
            · intro m place inside
              simp only [Reached]
              omega
          · cases taken
            refine ⟨slot, foundSlot, allowed.2.2, rfl, rfl, by simp only; omega, rfl, ?_, ?_, Nat.le_refl _, rfl, rfl, rfl,
              rfl⟩
            · intro m place arrived
              simp only [Reached] at arrived
              omega
            · intro m place inside
              simp only [Reached]

theorem reveal_wire (config : Config) (before after : Ring) (count : Nat) (slot : AmSlot) (inv : WireInv config before)
    (revealed : Revealed config before after count slot) : WireInv config after := by
  have length := to_bytes_length slot
  have piece : ((slot.toBytes.drop before.part).take count).length = count := by
    have fits := revealed.fits
    rw [List.length_take, List.length_drop, length]
    omega
  have positive := nslots_positive config
  refine ⟨?_, ?_, ?_, ?_, revealed.short, ?_, ?_⟩
  · intro m place arrived
    have early := revealed.known m place arrived
    have bound := (List.getElem?_eq_some_iff.mp revealed.current).1
    rw [revealed.sent]
    omega
  · rw [revealed.posted, revealed.sent]
    exact inv.sized
  · rw [revealed.posted]
    exact inv.puts
  · rw [revealed.sent]
    exact inv.numbered
  · intro m other place found inside arrived vacant
    rw [revealed.sent] at found
    rw [revealed.reached m place inside] at arrived
    rw [revealed.reached (m + config.nslots) place inside] at vacant
    rw [revealed.inbox]
    have old : Reached before m place → ¬ Reached before (m + config.nslots) place →
        other.toBytes[place]? = some (before.inbox (slotOf config m + place)) :=
      inv.bytes m other place found inside
    by_cases here : m = before.queue.executed
    · -- The message being written: either an earlier piece or this one.
      subst here
      have same : other = slot := Option.some.inj (found.symm.trans revealed.current)
      subst same
      by_cases fresh : before.part ≤ place
      · have index : place - before.part < ((other.toBytes.drop before.part).take count).length := by omega
        have address : slotOf config before.queue.executed + place =
            slotOf config before.queue.executed + before.part + (place - before.part) := by omega
        rw [address, store_inside _ _ _ _ index, List.getElem_take, List.getElem_drop]
        rw [List.getElem?_eq_getElem (by omega)]
        congr 2
        omega
      · rw [store_below _ _ _ _ (by omega)]
        apply old
        · exact Or.inr ⟨rfl, by omega⟩
        · simp only [Reached]
          omega
    · have earlier : m < before.queue.executed := by omega
      have kept := old (Or.inl earlier) (by
        simp only [Reached]
        omega)
      rw [kept]
      congr 1
      by_cases next : m + config.nslots = before.queue.executed
      · -- The next message in this slot has not come to this byte.
        have slots : slotOf config before.queue.executed = slotOf config m := by
          rw [← next]
          exact slot_offset_next_lap _ _ _
        rw [slots, store_above _ _ _ _ (by omega)]
      · have apart : slotOf config m + amSlotSize ≤ slotOf config before.queue.executed ∨
            slotOf config before.queue.executed + amSlotSize ≤ slotOf config m :=
          slot_offsets_apart _ amSlotSize m _ here (by omega) (by omega)
        have fits := revealed.fits
        have room : amShortSize ≤ amSlotSize := by decide
        rcases apart with below | above
        · rw [store_below _ _ _ _ (by omega)]
        · rw [store_above _ _ _ _ (by omega)]
  · intro m place first inside missing
    rw [revealed.reached m place inside] at missing
    have old := inv.untouched m place first inside (by
      simp only [Reached]
      omega)
    rw [revealed.inbox]
    by_cases here : m = before.queue.executed
    · rw [here] at old ⊢
      rw [store_above _ _ _ _ (by omega), old]
    · -- A message of the first lap that is still to come has a slot of its own.
      have apart : slotOf config m + amSlotSize ≤ slotOf config before.queue.executed ∨
          slotOf config before.queue.executed + amSlotSize ≤ slotOf config m :=
        slot_offsets_apart _ amSlotSize m _ here (by omega) (by omega)
      have fits := revealed.fits
      have room : amShortSize ≤ amSlotSize := by decide
      rcases apart with below | above
      · rw [store_below _ _ _ _ (by omega), old]
      · rw [store_above _ _ _ _ (by omega), old]

theorem whole_read (config : Config) (ring : Ring) (m : Nat) (field : Field) (inv : WireInv config ring)
    (complete : m < ring.queue.executed) (room : ¬ Begun ring (m + config.nslots)) :
    ∃ slot, ring.sent[m]? = some slot ∧ slot.seq = seqAt m ∧ readField ring (slotOf config m) field = slot.field field := by
  have bound := inv.known m 0 (Or.inl complete)
  have found : ring.sent[m]? = some ring.sent[m] := List.getElem?_eq_getElem bound
  have inside := field_inside field
  refine ⟨ring.sent[m], found, inv.numbered m _ found, ?_⟩
  rw [← field_bytes, readField]
  apply load_agrees
  intro place after before
  apply inv.bytes m _ place found (by omega) (Or.inl complete)
  simp only [Begun] at room
  simp only [Reached]
  omega

theorem observe_untorn (config : Config) (ring : Ring) (m : Nat) (field : Field) (inv : Inv config ring)
    (matched : m < ring.matched.length) (room : ¬ Begun ring (m + config.nslots)) :
    NotTorn (observe ring m (slotOf config m) field) := by
  intro seen member
  rcases List.mem_append.mp member with old | new
  · exact inv.reader.untorn seen old
  · obtain ⟨slot, found, number, bytes⟩ :=
      whole_read config ring m field inv.wire (Nat.lt_of_lt_of_le matched inv.reader.whole) room
    rw [List.mem_singleton.mp new]
    exact ⟨slot, found, number, bytes⟩

theorem next_seq_absent (config : Config) (ring : Ring) (inv : WireInv config ring) (between : ring.part = 0) :
    slotSeq ring.inbox (slotOf config ring.queue.executed) ≠ seqAt ring.queue.executed := by
  have positive := nslots_positive config
  have missing : ∀ place, ¬ Reached ring ring.queue.executed place := by
    intro place
    simp only [Reached]
    omega
  rcases Nat.lt_or_ge ring.queue.executed config.nslots with first | later
  · have zero : slotSeq ring.inbox (slotOf config ring.queue.executed) = 0 := by
      have same : load ring.inbox (slotOf config ring.queue.executed) wordSize = load zeros 0 wordSize := by
        apply List.map_congr_left
        intro place member
        have inside := List.mem_range.mp member
        exact inv.untouched _ place first (Nat.lt_trans inside (by decide)) (missing place)
      rw [slotSeq, same, load_zeros, le_value_zeros]
      rfl
    rw [zero]
    exact (seq_at_first_lap _ config.logSlots config.slotsFit first).symm
  · obtain ⟨old, lap⟩ : ∃ old, old + config.nslots = ring.queue.executed :=
      ⟨ring.queue.executed - config.nslots, Nat.sub_add_cancel later⟩
    have complete : old < ring.queue.executed := by omega
    have bound := inv.known old 0 (Or.inl complete)
    have found : ring.sent[old]? = some ring.sent[old] := List.getElem?_eq_getElem bound
    have slots : slotOf config ring.queue.executed = slotOf config old := by
      rw [← lap]
      exact slot_offset_next_lap _ _ _
    have word : load ring.inbox (slotOf config old + 0) wordSize = (ring.sent[old].toBytes.drop 0).take wordSize := by
      apply load_agrees
      intro place _ inside
      refine inv.bytes old _ place found (Nat.lt_trans inside (by decide)) (Or.inl complete) ?_
      rw [lap]
      exact missing place
    have seq : (ring.sent[old].toBytes.drop 0).take wordSize = leBytes wordSize ring.sent[old].seq.toNat :=
      flatten_chunk wordSize ring.sent[old].words (words_sized _) 0 _ rfl
    have number : UInt64.ofNat (leValue (leBytes wordSize ring.sent[old].seq.toNat)) = ring.sent[old].seq :=
      uint64_round_trip _
    rw [slots, slotSeq, ← Nat.add_zero (slotOf config old), word, seq, number, inv.numbered old _ found, ← lap]
    exact (seq_at_next_lap old config.logSlots config.slotsFit).symm

theorem seen_complete (config : Config) (ring : Ring) (inv : WireInv config ring) (m : Nat) (before : m ≤ ring.queue.executed)
    (between : 0 < ring.part → slotOf config ring.queue.executed ≠ slotOf config m)
    (seen : slotSeq ring.inbox (slotOf config m) = seqAt m) : m < ring.queue.executed := by
  refine Nat.lt_of_le_of_ne before ?_
  rintro rfl
  have idle : ring.part = 0 := by
    by_contra busy
    exact between (Nat.pos_of_ne_zero busy) rfl
  exact next_seq_absent config ring inv idle seen

structure Moved (config : Config) (before after : Ring) : Prop where
  wire : after.queue = before.queue ∧ after.sent = before.sent ∧ after.part = before.part ∧ after.inbox = before.inbox
  held : after.phase.inHand ≤ after.matched.length
  expects : after.expectedSeq = seqAt (after.matched.length - after.phase.inHand)
  matched : after.matched = before.matched ∨
    (after.matched = before.matched ++ [slotOf config before.matched.length] ∧
      before.matched.length < before.queue.executed)
  observed : NotTorn before → NotTorn after

theorem moved_inv (config : Config) (before after : Ring) (inv : Inv config before) (moved : Moved config before after) :
    Inv config after := by
  obtain ⟨queue, sent, part, inbox⟩ := moved.wire
  refine ⟨wire_frame config before after inv.wire queue sent part inbox, moved.held, moved.expects, ?_, ?_,
    moved.observed inv.reader.untorn⟩
  · intro m slot found
    rcases moved.matched with same | ⟨more, _⟩
    · rw [same] at found
      exact inv.reader.slots m slot found
    · rw [more] at found
      by_cases old : m < before.matched.length
      · rw [List.getElem?_append_left old] at found
        exact inv.reader.slots m slot found
      · rw [List.getElem?_append_right (by omega), List.getElem?_singleton] at found
        split_ifs at found with last
        have here : m = before.matched.length := by omega
        rw [← Option.some.inj found, here]
  · rw [queue]
    rcases moved.matched with same | ⟨more, complete⟩
    · rw [same]
      exact inv.reader.whole
    · rw [more, List.length_append]
      exact complete

theorem written_slot (config : Config) (ring : Ring) : writtenSlot config ring = slotOf config ring.queue.executed := by
  rw [writtenSlot, Config.nslots, slot_idx_seq _ _ config.slotsFit]
  rfl

theorem check_complete (config : Config) (ring : Ring) (inv : Inv config ring)
    (between : 0 < ring.part → writtenSlot config ring ≠ polledSlot config ring)
    (expects : ring.expectedSeq = seqAt ring.matched.length)
    (same : slotSeq ring.inbox (polledSlot config ring) = ring.expectedSeq) :
    ring.matched.length < ring.queue.executed := by
  have slot := polled_slot config ring _ expects
  rw [slot, expects] at same
  rw [slot, written_slot] at between
  exact seen_complete config ring inv.wire _ inv.reader.whole between same

theorem check_moved (config : Config) (before after : Ring) (inv : Inv config before)
    (between : BetweenWrites config before .check) (taken : check config before = some after) :
    Moved config before after := by
  have expects := inv.reader.expects
  unfold check at taken
  cases phase : before.phase with
  | idle => simp [phase] at taken
  | dispatching left processed => simp [phase] at taken
  | token iterIdx ackAddr => simp [phase] at taken
  | polling left processed =>
      simp only [phase, Phase.inHand, Nat.sub_zero] at expects
      have slot := polled_slot config before _ expects
      simp only [phase] at taken
      split_ifs at taken with stop
      · rw [← Option.some.inj taken]
        exact ⟨⟨rfl, rfl, rfl, rfl⟩, Nat.zero_le _, expects, Or.inl rfl, id⟩
      · have same := not_not.mp (not_or.mp stop).2
        have complete := check_complete config before inv between expects same
        rw [← Option.some.inj taken]
        refine ⟨⟨rfl, rfl, rfl, rfl⟩, ?_, ?_, Or.inr ⟨by rw [slot], complete⟩, id⟩
        · simp [Phase.inHand]
        · simpa [Phase.inHand] using expects
  | waiting =>
      simp only [phase, Phase.inHand, Nat.sub_zero] at expects
      have slot := polled_slot config before _ expects
      simp only [phase] at taken
      split_ifs at taken with same
      · have complete := check_complete config before inv between expects same
        rw [← Option.some.inj taken]
        refine ⟨⟨rfl, rfl, rfl, rfl⟩, Nat.zero_le _, ?_, Or.inr ⟨by rw [slot], complete⟩, id⟩
        simp only [Phase.inHand, List.length_append, List.length_singleton, Nat.sub_zero, expects, seq_at_succ]
      · rw [← Option.some.inj taken]
        exact ⟨⟨rfl, rfl, rfl, rfl⟩, inv.reader.held, inv.reader.expects, Or.inl rfl, id⟩
  | requested iterIdx =>
      simp only [phase, Phase.inHand, Nat.sub_zero] at expects
      have slot := polled_slot config before _ expects
      simp only [phase] at taken
      split_ifs at taken with same
      · have complete := check_complete config before inv between expects same
        rw [← Option.some.inj taken]
        refine ⟨⟨rfl, rfl, rfl, rfl⟩, ?_, ?_, Or.inr ⟨by rw [slot], complete⟩, id⟩
        · simp [Phase.inHand]
        · simpa [Phase.inHand] using expects
      · rw [← Option.some.inj taken]
        exact ⟨⟨rfl, rfl, rfl, rfl⟩, inv.reader.held, inv.reader.expects, Or.inl rfl, id⟩

theorem dispatched_moved (config : Config) (before after : Ring) (inv : Inv config before)
    (taken : dispatched before = some after) : Moved config before after := by
  have held := inv.reader.held
  have expects := inv.reader.expects
  unfold dispatched at taken
  cases phase : before.phase with
  | dispatching left processed =>
      simp only [phase, Phase.inHand] at held expects
      simp only [phase, Option.some.injEq] at taken
      rw [← taken]
      refine ⟨⟨rfl, rfl, rfl, rfl⟩, Nat.zero_le _, ?_, Or.inl rfl, id⟩
      simp only [Phase.inHand, Nat.sub_zero, expects, seq_at_succ]
      rw [Nat.sub_add_cancel held]
  | _ => simp [phase] at taken

theorem token_moved (config : Config) (before after : Ring) (inv : Inv config before)
    (room : ¬ Begun before (before.matched.length - 1 + config.nslots)) (taken : readToken config before = some after) :
    Moved config before after := by
  have held := inv.reader.held
  have expects := inv.reader.expects
  unfold readToken at taken
  cases phase : before.phase with
  | token iterIdx ackAddr =>
      simp only [phase, Phase.inHand] at held expects
      have slot := polled_slot config before _ expects
      have whole := observe_untorn config before _ (tokenField ackAddr) inv (Nat.sub_lt held Nat.one_pos) room
      cases ackAddr with
      | none =>
          simp only [phase, Option.some.injEq, slot] at taken
          rw [← taken]
          exact ⟨⟨rfl, rfl, rfl, rfl⟩, held, expects, Or.inl rfl, fun _ => whole⟩
      | some ackAddr =>
          simp only [phase, Option.some.injEq, slot] at taken
          rw [← taken]
          refine ⟨⟨rfl, rfl, rfl, rfl⟩, Nat.zero_le _, ?_, Or.inl rfl, fun _ => whole⟩
          simp only [observe, Phase.inHand, Nat.sub_zero, expects, seq_at_succ]
          rw [Nat.sub_add_cancel held]
  | _ => simp [phase] at taken

theorem call_moved (config : Config) (before : Ring) (phase : Phase) (inv : Inv config before)
    (idle : before.phase = .idle) (spins : phase.inHand = 0) : Moved config before { before with phase := phase } := by
  have expects := inv.reader.expects
  simp only [idle, Phase.inHand] at expects
  refine ⟨⟨rfl, rfl, rfl, rfl⟩, ?_, ?_, Or.inl rfl, id⟩
  · rw [spins]
    exact Nat.zero_le _
  · rw [spins]
    exact expects

theorem step_inv (config : Config) (before after : Ring) (action : Action) (inv : Inv config before)
    (between : BetweenWrites config before action) (taken : step config before action = some after) :
    Inv config after := by
  have call : ∀ phase : Phase, phase.inHand = 0 →
      (if before.phase = .idle then some { before with phase := phase } else none) = some after → Inv config after := by
    intro phase spins taken
    split_ifs at taken with idle
    rw [← Option.some.inj taken]
    exact moved_inv config before _ inv (call_moved config before phase inv idle spins)
  cases action with
  | send request localSlot hdr args =>
      rw [← Option.some.inj taken]
      have executed : (send config before request localSlot hdr args).queue.executed = before.queue.executed := by
        cases request <;> rfl
      refine ⟨send_wire config before request localSlot hdr args inv.wire, inv.reader.held, inv.reader.expects,
        inv.reader.slots, executed ▸ inv.reader.whole, fun seen member => ?_⟩
      obtain ⟨slot, found, number, bytes⟩ := inv.reader.untorn seen member
      refine ⟨slot, ?_, number, bytes⟩
      exact List.getElem?_append_left (List.getElem?_eq_some_iff.mp found).1 ▸ found
  | reveal count =>
      obtain ⟨slot, revealed⟩ := reveal_result config before after count inv.wire taken
      obtain ⟨phase, expected, matched, observed⟩ := revealed.reader
      refine ⟨reveal_wire config before after count slot inv.wire revealed, ?_, ?_, ?_, ?_, ?_⟩
      · rw [phase, matched]
        exact inv.reader.held
      · rw [expected, phase, matched]
        exact inv.reader.expects
      · rw [matched]
        exact inv.reader.slots
      · rw [matched]
        exact Nat.le_trans inv.reader.whole revealed.onward
      · intro seen member
        rw [observed] at member
        rw [revealed.sent]
        exact inv.reader.untorn seen member
  | amPollPeer maxPoll => exact call (.polling maxPoll 0) rfl taken
  | amWaitOne => exact call .waiting rfl taken
  | amRecvAndReplyFast iterIdx => exact call (.requested iterIdx) rfl taken
  | check => exact moved_inv config before after inv (check_moved config before after inv between taken)
  | read message field =>
      simp only [step, Option.map_eq_some_iff] at taken
      obtain ⟨slot, found, rfl⟩ := taken
      rw [inv.reader.slots message slot found]
      have matched := (List.getElem?_eq_some_iff.mp found).1
      have whole := observe_untorn config before message field inv matched between
      exact moved_inv config before _ inv
        ⟨⟨rfl, rfl, rfl, rfl⟩, inv.reader.held, inv.reader.expects, Or.inl rfl, fun _ => whole⟩
  | dispatched => exact moved_inv config before after inv (dispatched_moved config before after inv taken)
  | readToken => exact moved_inv config before after inv (token_moved config before after inv between taken)

instance (ring : Ring) (message : Nat) : Decidable (Begun ring message) := inferInstanceAs (Decidable (_ ∨ _))

instance (config : Config) (ring : Ring) (action : Action) : Decidable (BetweenWrites config ring action) := by
  cases action with
  | check => exact inferInstanceAs (Decidable (_ → _))
  | read message field => exact inferInstanceAs (Decidable (¬ _))
  | readToken => exact inferInstanceAs (Decidable (¬ _))
  | _ => exact isTrue trivial

def sampleConfig : Config where
  ctx := prepare 5 1 512 ⟨0, 0⟩ true
  logSlots := 1
  slotsFit := by decide
  remoteRingBase := 65536
  remoteRkey := 7
  localLkey := 8
  replyBufBase := 4096
  replyLkey := 9

def sampleHdr : AmHdr := ⟨1, 0, 0, 1, 0⟩

def sampleSend : Action := .send false 8192 sampleHdr fun index => UInt64.ofNat (index.val + 10)

def seqOnly : List Action := [sampleSend, .reveal 8, .amWaitOne, .check, .read 0 .hdr, .read 0 (tokenField none)]

theorem seq_only_reached : ∃ ring, Reach (step sampleConfig) always freshRing ring ∧
    ∃ seen ∈ ring.observed, ∀ slot ∈ ring.sent, seen.bytes ≠ slot.field seen.field :=
  reach_of_decided (step sampleConfig) always seqOnly freshRing _ (by decide +kernel)

def readComplete : List Action :=
  [sampleSend, sampleSend, .amRecvAndReplyFast 0, .check, .reveal 12, .reveal 52, .reveal 8, .check, .readToken,
    .readToken, .read 0 .hdr]

theorem read_complete_reached : ∃ ring, Reach (step sampleConfig) (BetweenWrites sampleConfig) freshRing ring ∧
    ring.observed.length = 3 :=
  reach_of_decided (step sampleConfig) (BetweenWrites sampleConfig) readComplete freshRing _ (by decide +kernel)

end OpenGda.Mlx5.Am
