import OpenGda.Bootstrap.Pmi2

set_option autoImplicit false

-- What the strings that go through PMI2 keep: keys name their tag and numbers, and
-- a published blob is fetched as it was when it is small enough for the buffers.
namespace OpenGda.Pmi2

open FencedStore

theorem hex_digit (nibble : Nat) (small : nibble < 16) : hexNibble (digits.getD nibble nul) = nibble := by
  interval_cases nibble <;> rfl

theorem digit_not_nul (nibble : Nat) (small : nibble < 16) : digits.getD nibble nul ≠ nul := by
  interval_cases nibble <;> decide

theorem high_nibble (byte : UInt8) : ((byte >>> 4) &&& 0xF).toNat = byte.toNat / 16 := by
  have bound := byte.toNat_lt
  rw [UInt8.toNat_and, UInt8.toNat_shiftRight, show (0xF : UInt8).toNat = 2 ^ 4 - 1 by rfl,
    Nat.and_two_pow_sub_one_eq_mod, Nat.shiftRight_eq_div_pow, show (4 : UInt8).toNat % 8 = 4 by rfl]
  omega

theorem low_nibble (byte : UInt8) : (byte &&& 0xF).toNat = byte.toNat % 16 := by
  rw [UInt8.toNat_and, show (0xF : UInt8).toNat = 2 ^ 4 - 1 by rfl, Nat.and_two_pow_sub_one_eq_mod]

theorem join_nibbles (byte : UInt8) :
    UInt8.ofNat (((byte.toNat / 16 : Nat) : Int).toNat <<< 4 ||| ((byte.toNat % 16 : Nat) : Int).toNat) = byte := by
  have low : byte.toNat % 16 < 2 ^ 4 := Nat.mod_lt _ (by decide)
  rw [Int.toNat_natCast, Int.toNat_natCast, ← Nat.shiftLeft_add_eq_or_of_lt low, Nat.shiftLeft_eq, Nat.div_add_mod']
  exact UInt8.ofNat_toNat

theorem hex_encode_cons (byte : UInt8) (data : Blob) :
    hexEncode (byte :: data) = digits.getD (byte.toNat / 16) nul :: digits.getD (byte.toNat % 16) nul :: hexEncode data := by
  rw [hexEncode, List.flatMap_cons, high_nibble, low_nibble]
  rfl

theorem hex_encode_length (data : Blob) : (hexEncode data).length = 2 * data.length := by
  induction data with
  | nil => rfl
  | cons byte rest ih =>
      rw [hex_encode_cons, List.length_cons, List.length_cons, ih, List.length_cons]
      omega

theorem hex_pairs_encode (data : Blob) : hexPairs (hexEncode data) = .ok data := by
  induction data with
  | nil => rfl
  | cons byte rest ih =>
      have high : byte.toNat / 16 < 16 := by
        have bound := byte.toNat_lt
        omega
      have low : byte.toNat % 16 < 16 := Nat.mod_lt _ (by decide)
      rw [hex_encode_cons]
      simp only [hexPairs, hex_digit _ high, hex_digit _ low, ih]
      rw [if_neg (by omega), Except.map, join_nibbles]

theorem hex_decode_encode (data : Blob) : hexDecode (hexEncode data) = .ok data := by
  rw [hexDecode, hex_encode_length, if_neg (by omega), hex_pairs_encode]

theorem hex_encode_no_nul (data : Blob) (c : Char) (member : c ∈ hexEncode data) : c ≠ nul := by
  induction data with
  | nil => cases member
  | cons byte rest ih =>
      rw [hex_encode_cons] at member
      rcases List.mem_cons.mp member with rfl | member
      · apply digit_not_nul
        have bound := byte.toNat_lt
        omega
      · rcases List.mem_cons.mp member with rfl | later
        · exact digit_not_nul _ (Nat.mod_lt _ (by decide))
        · exact ih later

theorem to_digits_injective (first second : Nat) (same : Nat.toDigits 10 first = Nat.toDigits 10 second) :
    first = second := by
  rw [← Nat.ofDigitChars_ten_toDigits (n := first), same, Nat.ofDigitChars_ten_toDigits]

theorem to_digits_char (n : Nat) (c : Char) (member : c ∈ Nat.toDigits 10 n) : c.isDigit = true :=
  Nat.isDigit_of_mem_toDigits (by decide) (by decide) member

theorem to_text_injective (first second : Int) (same : toText first = toText second) : first = second := by
  have apart : ∀ n m : Nat, Nat.toDigits 10 n ≠ '-' :: Nat.toDigits 10 m := by
    intro n m equal
    have digit := to_digits_char n '-' (by rw [equal]; exact List.mem_cons_self)
    exact absurd digit (by decide)
  cases first with
  | ofNat n =>
      cases second with
      | ofNat m => rw [to_digits_injective n m same]
      | negSucc m => exact absurd same (apart n (m + 1))
  | negSucc n =>
      cases second with
      | ofNat m => exact absurd same.symm (apart m (n + 1))
      | negSucc m => rw [Nat.succ.inj (to_digits_injective (n + 1) (m + 1) (List.cons.inj same).2)]

theorem to_text_no_dot (part : Int) : '.' ∉ toText part := by
  have plain : ∀ n, '.' ∉ Nat.toDigits 10 n := fun n member => absurd (to_digits_char n '.' member) (by decide)
  cases part with
  | ofNat n => exact plain n
  | negSucc n =>
      intro member
      rcases List.mem_cons.mp member with dash | later
      · exact absurd dash (by decide)
      · exact plain (n + 1) later

theorem split_at_dot (first second rest other : Text) (one : '.' ∉ first) (two : '.' ∉ second)
    (restDot : rest = [] ∨ ∃ tail, rest = '.' :: tail) (otherDot : other = [] ∨ ∃ tail, other = '.' :: tail)
    (same : first ++ rest = second ++ other) : first = second ∧ rest = other := by
  induction first generalizing second with
  | nil =>
      cases second with
      | nil => exact ⟨rfl, same⟩
      | cons c second =>
          rcases restDot with rfl | ⟨tail, rfl⟩
          · simp at same
          · have dot := (List.cons.inj same).1
            exact absurd (dot ▸ List.mem_cons_self) two
  | cons c first ih =>
      cases second with
      | nil =>
          rcases otherDot with rfl | ⟨tail, rfl⟩
          · simp at same
          · have dot := (List.cons.inj same).1
            exact absurd (dot ▸ List.mem_cons_self) one
      | cons d second =>
          obtain ⟨head, tail⟩ := List.cons.inj same
          obtain ⟨rfl, rest⟩ := ih second (fun member => one (List.mem_cons_of_mem _ member))
            (fun member => two (List.mem_cons_of_mem _ member)) tail
          exact ⟨by rw [head], rest⟩

theorem append_parts_dot (parts : List Int) : appendParts parts = [] ∨ ∃ tail, appendParts parts = '.' :: tail := by
  cases parts with
  | nil => exact .inl rfl
  | cons part rest => exact .inr ⟨_, rfl⟩

theorem append_parts_injective (first second : List Int) (same : appendParts first = appendParts second) :
    first = second := by
  induction first generalizing second with
  | nil =>
      cases second with
      | nil => rfl
      | cons part rest => cases same
  | cons part rest ih =>
      cases second with
      | nil => cases same
      | cons other later =>
          obtain ⟨text, tail⟩ := split_at_dot (toText part) (toText other) (appendParts rest) (appendParts later)
            (to_text_no_dot part) (to_text_no_dot other) (append_parts_dot rest) (append_parts_dot later)
            (List.cons.inj same).2
          rw [to_text_injective part other text, ih later tail]

theorem kvs_key_injective (tag other : Tag) (parts others : List Int) (same : kvsKey tag parts = kvsKey other others) :
    tag = other ∧ parts = others := by
  have noDot : ∀ tag : Tag, '.' ∉ tag.text := by
    intro tag
    cases tag <;> decide
  rw [kvsKey, kvsKey, List.append_assoc, List.append_assoc] at same
  obtain ⟨text, tail⟩ := split_at_dot tag.text other.text (appendParts parts) (appendParts others) (noDot tag)
    (noDot other) (append_parts_dot parts) (append_parts_dot others) (List.append_cancel_left same)
  refine ⟨?_, append_parts_injective parts others tail⟩
  cases tag <;> cases other <;> first | rfl | exact absurd text (by decide)

def maxBlob : Nat := 512 * 1024

theorem trim_value (value rest : Text) (plain : ∀ c ∈ value, c ≠ nul) :
    trimNuls (value ++ nul :: rest) value.length = value.length ∧
      trimNuls (value ++ nul :: rest) (value.length + 1) = value.length := by
  have whole : trimNuls (value ++ nul :: rest) value.length = value.length := by
    cases length : value.length with
    | zero => rfl
    | succ last =>
        have inside : last < value.length := by omega
        have kept : (value ++ nul :: rest).getD last nul ≠ nul := by
          simp only [List.getD_eq_getElem?_getD, List.getElem?_append_left inside, List.getElem?_eq_getElem inside]
          exact plain _ (List.getElem_mem inside)
        rw [trimNuls, if_neg kept]
  refine ⟨whole, ?_⟩
  rw [trimNuls, if_pos (by simp), whole]

theorem fill_buffer (buf value : Text) (room : value.length < buf.length) :
    fillBuffer buf value = value ++ nul :: buf.drop (value.length + 1) := by
  rw [fillBuffer, List.take_of_length_le (by simpa using room)]
  simp

def vallen (counted : NulCounted) (rank : Nat) (key value : Text) : Nat :=
  if counted rank key then value.length + 1 else value.length

theorem fill_buffer_length (buf value : Text) : (fillBuffer buf value).length = buf.length := by
  simp only [fillBuffer, List.length_append, List.length_take, List.length_drop, List.length_singleton]
  omega

theorem fetch_attempt (counted : NulCounted) (rank : Nat) (key : Text) (attempts : Nat) (buf : Text) :
    fetchAttempts counted rank key (attempts + 1) buf = .get key fun found =>
      match found with
      | none => .throw ("BootstrapPMI2::fetch_blob: KVS_Get(" ++ String.ofList key ++ ") failed")
      | some value =>
          if vallen counted rank key value < buf.length then
            match hexDecode ((fillBuffer buf value).take (trimNuls (fillBuffer buf value) (vallen counted rank key value))) with
            | .ok blob => .done blob
            | .error error => .throw error
          else fetchAttempts counted rank key attempts (fillBuffer buf value ++
            List.replicate (buf.length * 3) nul) := by
  rw [fetchAttempts, kvsGet, Prog.bind]
  congr 1
  funext found
  cases found with
  | none => rfl
  | some value =>
      have length : (if counted rank key then (value.length : Int) + 1 else value.length) =
          (vallen counted rank key value : Nat) := by
        unfold vallen
        split <;> simp
      simp only [Option.map_some, Prog.bind, length, fill_buffer_length, Int.toNat_natCast, Nat.cast_lt]
      exact if_neg (by omega)

theorem fetch_attempts_strict (counted : NulCounted) (rank : Nat) (key : Text) (attempts : Nat) (buf : Text) :
    Strict (fetchAttempts counted rank key attempts buf) := by
  induction attempts generalizing buf with
  | zero => trivial
  | succ attempts ih =>
      rw [fetch_attempt]
      refine ⟨⟨_, rfl⟩, ?_⟩
      intro value
      simp only
      split
      · split <;> trivial
      · exact ih _

theorem fetch_attempts_events (counted : NulCounted) (rank : Nat) (key : Text) (answers : Text → Option Text)
    (attempts : Nat) (buf : Text) : ∃ more,
    events answers (fetchAttempts counted rank key attempts buf) = List.replicate more (.get key) ∧
      (0 < attempts → 0 < more) := by
  induction attempts generalizing buf with
  | zero => exact ⟨0, rfl, id⟩
  | succ attempts ih =>
      rw [fetch_attempt, events]
      cases answer : answers key with
      | none => exact ⟨1, rfl, fun _ => Nat.one_pos⟩
      | some value =>
          simp only
          split
          · refine ⟨1, ?_, fun _ => Nat.one_pos⟩
            split <;> rfl
          · obtain ⟨more, again, _⟩ := ih (fillBuffer buf value ++ List.replicate (buf.length * 3) nul)
            exact ⟨more + 1, by rw [again]; rfl, fun _ => Nat.succ_pos more⟩

end OpenGda.Pmi2
