import OpenGda.Mlx5.WqeBytesAgree

set_option autoImplicit false

-- gda_build_rdma_write_inline_wqe() of device_nvshmem.cuh: the message is copied
-- into the WQE by whole words.
namespace OpenGda.Mlx5.InlineWqe

open ByteMemory WqeBytes

def inlineSeg : BitVec 32 := 0x80000000#32

-- `((const uint32_t*)data)[index]`
def srcWord (data : Memory) (index : Nat) : BitVec 32 := BitVec.ofNat 32 (leValue (load data (4 * index) 4))

def gdaBuildRdmaWriteInlineWqe (memory : Memory) (qp : QpState) (data : Memory) (size : BitVec 32)
    (remoteAddr : BitVec 64) (remoteRkey : BitVec 32) (wqeIdx : BitVec 16) (fmCeSe : BitVec 8) : Memory :=
  let wqe := getWqePtr qp wqeIdx
  let memory := storeHeaderWords memory qp remoteAddr remoteRkey wqeIdx (fmCeSe.setWidth 32 <<< 24)
  let memory := storeU32 memory (wqe + 32) (htobe32 (size ||| inlineSeg))
  let memory := if 4 ≤ size.toNat then storeU32 memory (wqe + 36) (srcWord data 0) else memory
  let memory := if 8 ≤ size.toNat then storeU32 memory (wqe + 40) (srcWord data 1) else memory
  if size.toNat = 12 then storeU32 memory (wqe + 44) (srcWord data 2) else memory

-- The inline data segment as the NIC reads it, with the unit count of the control segment.
structure InlineSegment where
  isInline : Bool
  length : Nat
  bytes : List UInt8
  ds : Nat
deriving DecidableEq, Repr

def decodeInline (memory : Memory) (ptr : Nat) : InlineSegment :=
  let byteCount := beField (load memory ptr 36) 32 4
  let length := byteCount % 2 ^ 31
  { isInline := byteCount.testBit 31
    length := length
    bytes := load memory (ptr + 36) length
    ds := beField (load memory ptr 36) 7 1 }

-- The segment is inline, holds the first `size` bytes of data and fits the announced three 16-byte units.
structure Carries (segment : InlineSegment) (data : Memory) (size : Nat) : Prop where
  isInline : segment.isInline = true
  length : segment.length = size
  bytes : segment.bytes = load data 0 size
  units : segment.ds = 3
  fits : 36 + segment.length ≤ 16 * segment.ds

def copied (size : Nat) : Nat := 4 * (size / 4)

theorem copied_rest (size : Nat) : copied size + (size - copied size) = size := by
  rw [copied]
  omega

theorem src_word_bytes (data : Memory) (index : Nat) : leBytes 4 (srcWord data index).toNat = load data (4 * index) 4 := by
  have whole := le_bytes_value (load data (4 * index) 4)
  rw [load_length] at whole
  rw [srcWord, BitVec.toNat_ofNat, show (2 : Nat) ^ 32 = 256 ^ 4 by rfl, le_bytes_mod, whole]

theorem inline_count_value (size : BitVec 32) (small : size.toNat ≤ 12) :
    (size ||| inlineSeg).toNat = 2 ^ 31 + size.toNat := by
  have bits : size.toNat ||| 2 ^ 31 = 2 ^ 31 + size.toNat := by
    rw [Nat.or_comm, ← Nat.one_shiftLeft, ← Nat.shiftLeft_add_eq_or_of_lt (by omega)]
  rw [BitVec.toNat_or]
  exact bits

def prefixBytes (qp : QpState) (size : BitVec 32) (remoteAddr : BitVec 64) (remoteRkey : BitVec 32)
    (wqeIdx : BitVec 16) (fmCeSe : BitVec 8) : List UInt8 :=
  headerBytes qp remoteAddr remoteRkey wqeIdx fmCeSe ++ beBytes 4 (size ||| inlineSeg).toNat

@[simp] theorem prefix_bytes_length (qp : QpState) (size : BitVec 32) (remoteAddr : BitVec 64) (remoteRkey : BitVec 32)
    (wqeIdx : BitVec 16) (fmCeSe : BitVec 8) :
    (prefixBytes qp size remoteAddr remoteRkey wqeIdx fmCeSe).length = 36 := by
  simp [prefixBytes]

theorem inline_wqe_bytes (memory : Memory) (qp : QpState) (data : Memory) (size : BitVec 32) (remoteAddr : BitVec 64)
    (remoteRkey : BitVec 32) (wqeIdx : BitVec 16) (fmCeSe : BitVec 8) (small : size.toNat ≤ 12) :
    gdaBuildRdmaWriteInlineWqe memory qp data size remoteAddr remoteRkey wqeIdx fmCeSe =
      store memory (getWqePtr qp wqeIdx)
        (prefixBytes qp size remoteAddr remoteRkey wqeIdx fmCeSe ++ load data 0 (copied size.toNat)) := by
  simp only [gdaBuildRdmaWriteInlineWqe, storeU32, htobe32_bytes, src_word_bytes, store_header_bytes]
  generalize getWqePtr qp wqeIdx = ptr
  rw [store_adjacent _ ptr 32 _ _ (by simp)]
  have count : size.toNat / 4 = 0 ∨ size.toNat / 4 = 1 ∨ size.toNat / 4 = 2 ∨ size.toNat / 4 = 3 := by omega
  have two : load data 0 (4 + 4) = load data 0 4 ++ load data 4 4 := load_append data 0 4 4
  have three : load data 0 (4 + 4 + 4) = load data 0 (4 + 4) ++ load data 8 4 := load_append data 0 (4 + 4) 4
  rcases count with none | one | both | all
  · rw [if_neg (show ¬ size.toNat = 12 by omega), if_neg (show ¬ 8 ≤ size.toNat by omega),
      if_neg (show ¬ 4 ≤ size.toNat by omega), copied, none]
    simp [prefixBytes, load]
  · rw [if_neg (show ¬ size.toNat = 12 by omega), if_neg (show ¬ 8 ≤ size.toNat by omega),
      if_pos (show 4 ≤ size.toNat by omega), copied, one, store_adjacent _ ptr 36 _ _ (by simp)]
    rfl
  · rw [if_neg (show ¬ size.toNat = 12 by omega), if_pos (show 8 ≤ size.toNat by omega),
      if_pos (show 4 ≤ size.toNat by omega), copied, both, store_adjacent _ ptr 36 _ _ (by simp),
      store_adjacent _ ptr 40 _ _ (by simp), show 4 * 2 = 4 + 4 by rfl, two, ← List.append_assoc]
    rfl
  · rw [if_pos (show size.toNat = 12 by omega), if_pos (show 8 ≤ size.toNat by omega),
      if_pos (show 4 ≤ size.toNat by omega), copied, all, store_adjacent _ ptr 36 _ _ (by simp),
      store_adjacent _ ptr 40 _ _ (by simp), store_adjacent _ ptr 44 _ _ (by simp), show 4 * 3 = 4 + 4 + 4 by rfl, three,
      two]
    simp only [prefixBytes, List.append_assoc]

theorem inline_data_bytes (memory data : Memory) (ptr size : Nat) (front : List UInt8) (length : front.length = 36) :
    load (store memory ptr (front ++ load data 0 (copied size))) (ptr + 36) size =
      load data 0 (copied size) ++ load memory (ptr + 36 + copied size) (size - copied size) := by
  have split := load_append (store memory ptr (front ++ load data 0 (copied size))) (ptr + 36) (copied size)
    (size - copied size)
  rw [copied_rest] at split
  rw [split]
  congr 1
  · rw [← store_adjacent memory ptr 36 front (load data 0 (copied size)) length.symm]
    have same := load_store_same (store memory ptr front) (ptr + 36) (load data 0 (copied size))
    rwa [load_length] at same
  · refine load_store_apart memory ptr _ _ _ (.inr ?_)
    rw [List.length_append, length, load_length]
    omega

def StaleTail (memory data : Memory) (ptr size : Nat) : Prop :=
  ∀ index, copied size ≤ index → index < size → memory (ptr + 36 + index) = data index

theorem tail_bytes_iff (memory data : Memory) (ptr size : Nat) :
    load data 0 (copied size) ++ load memory (ptr + 36 + copied size) (size - copied size) = load data 0 size ↔
      StaleTail memory data ptr size := by
  have split := load_append data 0 (copied size) (size - copied size)
  rw [copied_rest, Nat.zero_add] at split
  rw [split, List.append_cancel_left_eq, load, load, List.map_inj_left]
  constructor
  · intro same index after before
    have here := same (index - copied size) (List.mem_range.mpr (by omega))
    rwa [show ptr + 36 + copied size + (index - copied size) = ptr + 36 + index by omega,
      show copied size + (index - copied size) = index by omega] at here
  · intro tail offset member
    have inside := List.mem_range.mp member
    have here := tail (copied size + offset) (by omega) (by omega)
    rwa [← Nat.add_assoc] at here

def builtInline (memory : Memory) (qp : QpState) (data : Memory) (size : BitVec 32) (remoteAddr : BitVec 64)
    (remoteRkey : BitVec 32) (wqeIdx : BitVec 16) (fmCeSe : BitVec 8) : InlineSegment :=
  decodeInline (gdaBuildRdmaWriteInlineWqe memory qp data size remoteAddr remoteRkey wqeIdx fmCeSe)
    (getWqePtr qp wqeIdx)

theorem inline_carries_iff (memory : Memory) (qp : QpState) (data : Memory) (size : BitVec 32) (remoteAddr : BitVec 64)
    (remoteRkey : BitVec 32) (wqeIdx : BitVec 16) (fmCeSe : BitVec 8) (small : size.toNat ≤ 12) :
    Carries (builtInline memory qp data size remoteAddr remoteRkey wqeIdx fmCeSe) data size.toNat ↔
      StaleTail memory data (getWqePtr qp wqeIdx) size.toNat := by
  have front : load (store memory (getWqePtr qp wqeIdx)
      (prefixBytes qp size remoteAddr remoteRkey wqeIdx fmCeSe ++ load data 0 (copied size.toNat)))
      (getWqePtr qp wqeIdx) 36 = prefixBytes qp size remoteAddr remoteRkey wqeIdx fmCeSe := by
    rw [← store_adjacent _ _ 36 _ _ (by simp), load_store_apart _ _ _ _ _ (.inl (by omega))]
    have same := load_store_same memory (getWqePtr qp wqeIdx) (prefixBytes qp size remoteAddr remoteRkey wqeIdx fmCeSe)
    rwa [prefix_bytes_length] at same
  have count : beField (prefixBytes qp size remoteAddr remoteRkey wqeIdx fmCeSe) 32 4 = 2 ^ 31 + size.toNat := by
    rw [prefixBytes, be_field_behind _ _ _ _ (by simp), header_bytes_length, be_field_whole,
      inline_count_value size small]
    omega
  have units : beField (prefixBytes qp size remoteAddr remoteRkey wqeIdx fmCeSe) 7 1 = 3 := by
    have low : (qpnDs qp).toNat % 256 = 3 := by
      have bits : (qpnDs qp).toNat = ((qp.qpn <<< 8).toNat ||| 3) := BitVec.toNat_or ..
      have shifted : (qp.qpn <<< 8).toNat % 256 = 0 := by
        rw [BitVec.toNat_shiftLeft, Nat.shiftLeft_eq]
        omega
      rw [bits, show (256 : Nat) = 2 ^ 8 by rfl, Nat.or_mod_two_pow, show (2 : Nat) ^ 8 = 256 by rfl, shifted]
      decide
    simp only [prefixBytes, headerBytes, List.append_assoc]
    rw [be_field_behind _ _ _ _ (by simp), be_field_front _ _ _ _ (by simp), be_bytes_length, be_field_part 3 1 0]
    omega
  have length : (2 ^ 31 + size.toNat) % 2 ^ 31 = size.toNat := by omega
  have inlined : (2 ^ 31 + size.toNat).testBit 31 = true := by
    rw [Nat.testBit_two_pow_add_eq, Nat.testBit_lt_two_pow (by omega)]
    rfl
  have built : builtInline memory qp data size remoteAddr remoteRkey wqeIdx fmCeSe =
      ⟨true, size.toNat, load data 0 (copied size.toNat) ++
        load memory (getWqePtr qp wqeIdx + 36 + copied size.toNat) (size.toNat - copied size.toNat), 3⟩ := by
    rw [builtInline, inline_wqe_bytes memory qp data size remoteAddr remoteRkey wqeIdx fmCeSe small, decodeInline, front,
      count, units, length, inlined, inline_data_bytes _ _ _ _ _ (prefix_bytes_length ..)]
  rw [built, ← tail_bytes_iff]
  refine ⟨fun carries => carries.bytes, fun bytes => ⟨rfl, rfl, bytes, rfl, ?_⟩⟩
  change 36 + size.toNat ≤ 16 * 3
  omega

-- The message arrives whole whatever the slot held exactly when it is a number of whole words.
theorem inline_message_whole_iff (qp : QpState) (data : Memory) (size : BitVec 32) (remoteAddr : BitVec 64)
    (remoteRkey : BitVec 32) (wqeIdx : BitVec 16) (fmCeSe : BitVec 8) (small : size.toNat ≤ 12) :
    (∀ memory, Carries (builtInline memory qp data size remoteAddr remoteRkey wqeIdx fmCeSe) data size.toNat ↔
      StaleTail memory data (getWqePtr qp wqeIdx) size.toNat) ∧
    ((∀ memory, Carries (builtInline memory qp data size remoteAddr remoteRkey wqeIdx fmCeSe) data size.toNat) ↔
      size.toNat % 4 = 0) := by
  have exact := fun memory => inline_carries_iff memory qp data size remoteAddr remoteRkey wqeIdx fmCeSe small
  refine ⟨exact, fun whole => ?_, fun words memory => (exact memory).mpr fun index after before => ?_⟩
  · by_contra remainder
    have last : copied size.toNat < size.toNat := by
      rw [copied]
      omega
    have same := (exact fun _ => data (copied size.toNat) + 1).mp (whole _) (copied size.toNat) (Nat.le_refl _) last
    simp at same
  · rw [copied] at after
    omega

theorem inline_message_whole_eight :
    (∀ memory, Carries (builtInline memory ⟨291, 255, 4096⟩ zeros 8 0x8000 34 7 4) zeros 8 ↔
      StaleTail memory zeros (getWqePtr ⟨291, 255, 4096⟩ 7) 8) ∧
    ((∀ memory, Carries (builtInline memory ⟨291, 255, 4096⟩ zeros 8 0x8000 34 7 4) zeros 8) ↔ 8 % 4 = 0) :=
  inline_message_whole_iff ⟨291, 255, 4096⟩ zeros 8 0x8000 34 7 4 (by decide)

theorem short_message_lost : ¬ ∀ (memory : Memory) (qp : QpState) (data : Memory) (size : BitVec 32)
    (remoteAddr : BitVec 64) (remoteRkey : BitVec 32) (wqeIdx : BitVec 16) (fmCeSe : BitVec 8), size.toNat ≤ 12 →
    Carries (builtInline memory qp data size remoteAddr remoteRkey wqeIdx fmCeSe) data size.toNat := by
  intro claimed
  have carries := claimed zeros ⟨291, 255, 4096⟩ (fun _ => 7) 3 0x8000 34 7 0 (by decide)
  exact absurd carries.bytes (by decide +kernel)

end OpenGda.Mlx5.InlineWqe
