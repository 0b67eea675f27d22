import OpenGda.Lib.ByteMemory

set_option autoImplicit false

-- Big-endian integers, and the little-endian stores that produce them.
namespace ByteMemory

def beBytes (width value : Nat) : List UInt8 := (leBytes width value).reverse

def beValue (bytes : List UInt8) : Nat := leValue bytes.reverse

def beField (bytes : List UInt8) (offset width : Nat) : Nat := beValue ((bytes.drop offset).take width)

@[simp] theorem be_bytes_length (width value : Nat) : (beBytes width value).length = width := by
  simp [beBytes]

theorem be_value_bytes (width value : Nat) : beValue (beBytes width value) = value % 256 ^ width := by
  rw [beValue, beBytes, List.reverse_reverse, le_value_bytes]

theorem le_bytes_mod (width value : Nat) : leBytes width (value % 256 ^ width) = leBytes width value := by
  induction width generalizing value with
  | zero => rfl
  | succ width ih =>
      have low : UInt8.ofNat (value % 256 ^ (width + 1)) = UInt8.ofNat value := by
        apply UInt8.toNat_inj.mp
        rw [UInt8.toNat_ofNat', UInt8.toNat_ofNat']
        exact Nat.mod_mod_of_dvd value (Dvd.intro_left (256 ^ width) rfl)
      rw [leBytes, leBytes, low, ← ih (value / 256), Nat.pow_succ, Nat.mul_comm (256 ^ width) 256, Nat.mod_mul_right_div_self]

theorem le_bytes_value (bytes : List UInt8) : leBytes bytes.length (leValue bytes) = bytes := by
  induction bytes with
  | nil => rfl
  | cons byte rest ih =>
      have small := byte.toNat_lt
      have low : UInt8.ofNat (leValue (byte :: rest)) = byte := by
        apply UInt8.toNat_inj.mp
        rw [UInt8.toNat_ofNat', leValue]
        omega
      have high : leValue (byte :: rest) / 256 = leValue rest := by
        rw [leValue]
        omega
      rw [List.length_cons, leBytes, low, high, ih]

theorem le_bytes_append (first second value : Nat) :
    leBytes (first + second) value = leBytes first value ++ leBytes second (value / 256 ^ first) := by
  induction first generalizing value with
  | zero => simp [leBytes]
  | succ first ih =>
      rw [Nat.succ_add, leBytes, leBytes, ih, List.cons_append, Nat.div_div_eq_div_mul, Nat.pow_succ,
        Nat.mul_comm (256 ^ first) 256]

theorem be_bytes_append (first second value : Nat) :
    beBytes (first + second) value = beBytes first (value / 256 ^ second) ++ beBytes second value := by
  rw [beBytes, Nat.add_comm, le_bytes_append, List.reverse_append, beBytes, beBytes]

theorem be_field_front (front rest : List UInt8) (offset width : Nat) (inside : offset + width ≤ front.length) :
    beField (front ++ rest) offset width = beField front offset width := by
  rw [beField, beField, List.drop_append_of_le_length (by omega), List.take_append_of_le_length]
  rw [List.length_drop]
  omega

theorem be_field_behind (front rest : List UInt8) (offset width : Nat) (behind : front.length ≤ offset) :
    beField (front ++ rest) offset width = beField rest (offset - front.length) width := by
  rw [beField, beField, List.drop_append, List.drop_of_length_le behind, List.nil_append]

theorem be_field_part (before width after value : Nat) :
    beField (beBytes (before + (width + after)) value) before width = value / 256 ^ after % 256 ^ width := by
  have skipped : (beBytes (before + (width + after)) value).drop before = beBytes (width + after) value := by
    rw [be_bytes_append before (width + after) value, List.drop_left' (be_bytes_length before _)]
  rw [beField, skipped, be_bytes_append width after value, List.take_left' (be_bytes_length width _), be_value_bytes]

theorem be_field_whole (width value : Nat) : beField (beBytes width value) 0 width = value % 256 ^ width := by
  have part := be_field_part 0 width 0 value
  rwa [Nat.zero_add, Nat.add_zero, Nat.pow_zero, Nat.div_one] at part

theorem store_adjacent (memory : Memory) (base offset : Nat) (first second : List UInt8)
    (adjacent : offset = first.length) :
    store (store memory base first) (base + offset) second = store memory base (first ++ second) := by
  subst adjacent
  funext address
  rcases Nat.lt_or_ge address (base + first.length) with below | above
  · rw [store_below _ _ _ _ below]
    rcases Nat.lt_or_ge address base with before | inside
    · rw [store_below _ _ _ _ before, store_below _ _ _ _ before]
    · rw [store, store, if_pos inside, if_pos inside, List.getElem?_append_left (by omega)]
  · have last : store memory base (first ++ second) address =
        (second[address - base - first.length]?).getD (memory address) := by
      rw [store, if_pos (by omega), List.getElem?_append_right (by omega)]
    rw [store, if_pos above, store_above memory base address first above, last, Nat.sub_sub]

end ByteMemory
