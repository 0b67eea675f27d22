import Mathlib

set_option autoImplicit false

-- Byte-addressed memory with block stores and loads, and little-endian integers in it.
namespace ByteMemory

abbrev Memory := Nat → UInt8

def zeros : Memory := fun _ => 0

def store (memory : Memory) (offset : Nat) (bytes : List UInt8) : Memory := fun address =>
  if offset ≤ address then bytes[address - offset]?.getD (memory address) else memory address

def load (memory : Memory) (offset count : Nat) : List UInt8 :=
  (List.range count).map fun index => memory (offset + index)

theorem store_below (memory : Memory) (offset address : Nat) (bytes : List UInt8) (below : address < offset) :
    store memory offset bytes address = memory address := by
  rw [store, if_neg (by omega)]

theorem store_above (memory : Memory) (offset address : Nat) (bytes : List UInt8)
    (above : offset + bytes.length ≤ address) : store memory offset bytes address = memory address := by
  rw [store, if_pos (by omega), List.getElem?_eq_none (by omega)]
  rfl

theorem store_inside (memory : Memory) (offset index : Nat) (bytes : List UInt8) (inside : index < bytes.length) :
    store memory offset bytes (offset + index) = bytes[index] := by
  rw [store, if_pos (by omega), Nat.add_sub_cancel_left, List.getElem?_eq_getElem inside]
  rfl

@[simp] theorem load_length (memory : Memory) (offset count : Nat) : (load memory offset count).length = count := by
  simp [load]

theorem load_append (memory : Memory) (offset first second : Nat) :
    load memory offset (first + second) = load memory offset first ++ load memory (offset + first) second := by
  simp [load, List.range_add, Function.comp_def, Nat.add_assoc]

theorem load_congr (before after : Memory) (offset count : Nat)
    (same : ∀ index < count, after (offset + index) = before (offset + index)) :
    load after offset count = load before offset count := by
  apply List.map_congr_left
  intro index member
  exact same index (List.mem_range.mp member)

theorem load_zeros (offset count : Nat) : load zeros offset count = List.replicate count 0 := by
  simp [load, zeros]

theorem load_store_same (memory : Memory) (offset : Nat) (bytes : List UInt8) :
    load (store memory offset bytes) offset bytes.length = bytes := by
  apply List.ext_getElem
  · simp
  · intro index within bound
    simp only [load, List.getElem_map, List.getElem_range]
    exact store_inside memory offset index bytes bound

theorem load_store_apart (memory : Memory) (offset other count : Nat) (bytes : List UInt8)
    (apart : other + count ≤ offset ∨ offset + bytes.length ≤ other) :
    load (store memory offset bytes) other count = load memory other count := by
  apply load_congr
  intro index bound
  rcases apart with below | above
  · exact store_below memory offset (other + index) bytes (by omega)
  · exact store_above memory offset (other + index) bytes (by omega)

theorem load_agrees (memory : Memory) (bytes : List UInt8) (base offset count : Nat)
    (agrees : ∀ place, offset ≤ place → place < offset + count → bytes[place]? = some (memory (base + place))) :
    load memory (base + offset) count = (bytes.drop offset).take count := by
  apply List.ext_getElem?
  intro index
  by_cases inside : index < count
  · have same := agrees (offset + index) (by omega) (by omega)
    rw [List.getElem?_take_of_lt inside, List.getElem?_drop, same, load, List.getElem?_map,
      List.getElem?_range inside, Option.map_some, Nat.add_assoc]
  · rw [List.getElem?_eq_none, List.getElem?_eq_none]
    · rw [List.length_take]
      omega
    · rw [load_length]
      omega

theorem flatten_chunk (width : Nat) (chunks : List (List UInt8)) (sized : ∀ chunk ∈ chunks, chunk.length = width)
    (place : Nat) (chunk : List UInt8) (found : chunks[place]? = some chunk) :
    (chunks.flatten.drop (place * width)).take width = chunk := by
  induction chunks generalizing place with
  | nil => simp at found
  | cons first rest ih =>
      have length := sized first (by simp)
      cases place with
      | zero =>
          rw [List.getElem?_cons_zero] at found
          rw [Nat.zero_mul, List.drop_zero, List.flatten_cons, ← length, List.take_left, Option.some.inj found]
      | succ place =>
          rw [List.getElem?_cons_succ] at found
          rw [List.flatten_cons, Nat.succ_mul, Nat.add_comm, ← List.drop_drop, ← length, List.drop_left, length]
          exact ih (fun other member => sized other (List.mem_cons_of_mem _ member)) place found

def leBytes : Nat → Nat → List UInt8
  | 0, _ => []
  | width + 1, value => UInt8.ofNat value :: leBytes width (value / 256)

def leValue : List UInt8 → Nat
  | [] => 0
  | byte :: rest => byte.toNat + 256 * leValue rest

@[simp] theorem le_bytes_length (width value : Nat) : (leBytes width value).length = width := by
  induction width generalizing value with
  | zero => rfl
  | succ width ih => simp [leBytes, ih]

theorem le_value_bytes (width value : Nat) : leValue (leBytes width value) = value % 256 ^ width := by
  induction width generalizing value with
  | zero => simp [leBytes, leValue, Nat.mod_one]
  | succ width ih =>
      have low : (UInt8.ofNat value).toNat = value % 256 := by simp
      rw [leBytes, leValue, ih, low, Nat.pow_succ, Nat.mul_comm (256 ^ width) 256, Nat.mod_mul]

theorem le_value_zeros (count : Nat) : leValue (List.replicate count 0) = 0 := by
  induction count with
  | zero => rfl
  | succ count ih => simp [List.replicate_succ, leValue, ih]

theorem uint64_round_trip (value : UInt64) : UInt64.ofNat (leValue (leBytes 8 value.toNat)) = value := by
  rw [le_value_bytes, Nat.mod_eq_of_lt (by simpa using value.toNat_lt)]
  exact UInt64.ofNat_toNat

theorem uint16_round_trip (value : UInt16) : UInt16.ofNat (leValue (leBytes 2 value.toNat)) = value := by
  rw [le_value_bytes, Nat.mod_eq_of_lt (by simpa using value.toNat_lt)]
  exact UInt16.ofNat_toNat

end ByteMemory
