import OpenGda.Mlx5.WqeBytes

set_option autoImplicit false

namespace OpenGda.Mlx5.WqeBytes

open ByteMemory

theorem le_bytes_digits (first second third fourth : Nat) (small : first < 256 ∧ second < 256 ∧ third < 256) :
    leBytes 4 (first + 256 * (second + 256 * (third + 256 * fourth))) =
      [UInt8.ofNat first, UInt8.ofNat second, UInt8.ofNat third, UInt8.ofNat fourth] := by
  have step : ∀ digit rest : Nat, digit < 256 → UInt8.ofNat (digit + 256 * rest) = UInt8.ofNat digit ∧
      (digit + 256 * rest) / 256 = rest := by
    intro digit rest less
    refine ⟨UInt8.toNat_inj.mp ?_, by omega⟩
    rw [UInt8.toNat_ofNat', UInt8.toNat_ofNat']
    omega
  obtain ⟨firstByte, afterFirst⟩ := step first (second + 256 * (third + 256 * fourth)) small.1
  obtain ⟨secondByte, afterSecond⟩ := step second (third + 256 * fourth) small.2.1
  obtain ⟨thirdByte, afterThird⟩ := step third fourth small.2.2
  rw [leBytes, leBytes, leBytes, leBytes, leBytes, firstByte, afterFirst, secondByte, afterSecond, thirdByte, afterThird]

theorem word_digits (x : BitVec 32) :
    x.toNat = x.toNat % 256 + 256 * (x.toNat / 2 ^ 8 % 256 + 256 * (x.toNat / 2 ^ 16 % 256 + 256 *
      (x.toNat / 2 ^ 24 % 256))) := by
  have small := x.isLt
  omega

theorem htobe32_value (x : BitVec 32) :
    (htobe32 x).toNat = x.toNat / 2 ^ 24 % 256 + 256 * (x.toNat / 2 ^ 16 % 256 + 256 * (x.toNat / 2 ^ 8 % 256 + 256 *
      (x.toNat % 256))) := by
  have place : ∀ hi lo : Nat, lo < 2 ^ 8 → hi <<< 8 ||| lo = lo + 256 * hi := by
    intro hi lo less
    rw [← Nat.shiftLeft_add_eq_or_of_lt less, Nat.shiftLeft_eq]
    omega
  simp only [htobe32, BitVec.toNat_append, BitVec.extractLsb'_toNat, Nat.shiftRight_eq_div_pow, Nat.pow_zero, Nat.div_one]
  rw [place _ _ (Nat.mod_lt _ (by decide)), place _ _ (Nat.mod_lt _ (by decide)), place _ _ (Nat.mod_lt _ (by decide))]
  rfl

theorem htobe32_bytes (x : BitVec 32) : leBytes 4 (htobe32 x).toNat = beBytes 4 x.toNat := by
  have byte : ∀ value : Nat, value % 256 < 256 := fun value => Nat.mod_lt value (by decide)
  have straight : leBytes 4 x.toNat = _ :=
    (congrArg (leBytes 4) (word_digits x)).trans (le_bytes_digits _ _ _ _ ⟨byte _, byte _, byte _⟩)
  rw [htobe32_value, beBytes, straight, le_bytes_digits _ _ _ _ ⟨byte _, byte _, byte _⟩]
  rfl

theorem low_word_value (x : BitVec 64) : (lowWord x).toNat = x.toNat % 2 ^ 32 := by
  rw [lowWord, BitVec.toNat_setWidth]

theorem high_word_value (x : BitVec 64) : (highWord x).toNat = x.toNat / 2 ^ 32 := by
  have small := x.isLt
  rw [highWord, BitVec.toNat_setWidth, BitVec.toNat_ushiftRight, Nat.shiftRight_eq_div_pow]
  omega

theorem words_bytes (x : BitVec 64) :
    leBytes 4 (lowWord x).toNat ++ leBytes 4 (highWord x).toNat = leBytes 8 x.toNat := by
  rw [low_word_value, high_word_value, show (8 : Nat) = 4 + 4 from rfl, le_bytes_append]
  exact congrArg (· ++ leBytes 4 (x.toNat / 256 ^ 4)) (le_bytes_mod 4 x.toNat)

theorem htobe64_bytes (x : BitVec 64) : leBytes 8 (htobe64 x).toNat = beBytes 8 x.toNat := by
  rw [← words_bytes, htobe64, low_word_join, high_word_join, htobe32_bytes, htobe32_bytes, high_word_value,
    low_word_value, show (8 : Nat) = 4 + 4 from rfl, be_bytes_append]
  refine congrArg (beBytes 4 (x.toNat / 256 ^ 4) ++ ·) ?_
  rw [beBytes, beBytes]
  exact congrArg List.reverse (le_bytes_mod 4 x.toNat)

theorem flag_word_bytes (fmCeSe : BitVec 8) :
    leBytes 4 (fmCeSe.setWidth 32 <<< 24).toNat = beBytes 3 0 ++ beBytes 1 fmCeSe.toNat := by
  have value : (fmCeSe.setWidth 32 <<< 24).toNat = fmCeSe.toNat * 2 ^ 24 := by
    have small := fmCeSe.isLt
    rw [BitVec.toNat_shiftLeft, BitVec.toNat_setWidth, Nat.shiftLeft_eq]
    omega
  rw [value]
  have digits : fmCeSe.toNat * 2 ^ 24 = 0 + 256 * (0 + 256 * (0 + 256 * fmCeSe.toNat)) := by omega
  rw [digits, le_bytes_digits 0 0 0 fmCeSe.toNat (by decide)]
  rfl

def headerBytes (state : QpState) (remoteAddr : BitVec 64) (remoteRkey : BitVec 32) (wqeIdx : BitVec 16)
    (fmCeSe : BitVec 8) : List UInt8 :=
  beBytes 4 (opmodIdxOpcode wqeIdx).toNat ++ beBytes 4 (qpnDs state).toNat ++ beBytes 3 0 ++ beBytes 1 fmCeSe.toNat ++
    beBytes 4 0 ++ beBytes 8 remoteAddr.toNat ++ beBytes 4 remoteRkey.toNat ++ beBytes 4 0

@[simp] theorem header_bytes_length (state : QpState) (remoteAddr : BitVec 64) (remoteRkey : BitVec 32)
    (wqeIdx : BitVec 16) (fmCeSe : BitVec 8) :
    (headerBytes state remoteAddr remoteRkey wqeIdx fmCeSe).length = 32 := by
  simp [headerBytes]

def wqeBytes (state : QpState) (put : Put) (wqeIdx : BitVec 16) (fmCeSe : BitVec 8) : List UInt8 :=
  headerBytes state put.remoteAddr put.remoteRkey wqeIdx fmCeSe ++ beBytes 4 put.size.toNat ++
    beBytes 4 put.localLkey.toNat ++ beBytes 8 put.localAddr.toNat

@[simp] theorem wqe_bytes_length (state : QpState) (put : Put) (wqeIdx : BitVec 16) (fmCeSe : BitVec 8) :
    (wqeBytes state put wqeIdx fmCeSe).length = wqeSize := by
  simp [wqeBytes, wqeSize]

theorem store_segments_bytes (memory : Memory) (state : QpState) (put : Put) (wqeIdx : BitVec 16) (fmCeSe : BitVec 8) :
    storeSegments memory state put wqeIdx fmCeSe =
      store memory (getWqePtr state wqeIdx) (wqeBytes state put wqeIdx fmCeSe) := by
  simp only [storeSegments, storeU8, storeU32, storeU64, htobe32_bytes, htobe64_bytes]
  generalize getWqePtr state wqeIdx = ptr
  rw [store_adjacent _ ptr 4 _ _ (by simp), store_adjacent _ ptr 8 _ _ (by simp), store_adjacent _ ptr 9 _ _ (by simp),
    store_adjacent _ ptr 10 _ _ (by simp), store_adjacent _ ptr 11 _ _ (by simp), store_adjacent _ ptr 12 _ _ (by simp),
    store_adjacent _ ptr 16 _ _ (by simp), store_adjacent _ ptr 24 _ _ (by simp), store_adjacent _ ptr 28 _ _ (by simp),
    store_adjacent _ ptr 32 _ _ (by simp), store_adjacent _ ptr 36 _ _ (by simp), store_adjacent _ ptr 40 _ _ (by simp)]
  simp only [wqeBytes, headerBytes, List.append_assoc]
  rfl

theorem store_header_bytes (memory : Memory) (state : QpState) (remoteAddr : BitVec 64) (remoteRkey : BitVec 32)
    (wqeIdx : BitVec 16) (fmCeSe : BitVec 8) :
    storeHeaderWords memory state remoteAddr remoteRkey wqeIdx (fmCeSe.setWidth 32 <<< 24) =
      store memory (getWqePtr state wqeIdx) (headerBytes state remoteAddr remoteRkey wqeIdx fmCeSe) := by
  simp only [storeHeaderWords, storeU32, htobe32_bytes, flag_word_bytes]
  generalize getWqePtr state wqeIdx = ptr
  rw [store_adjacent _ ptr 4 _ _ (by simp), store_adjacent _ ptr 8 _ _ (by simp), store_adjacent _ ptr 12 _ _ (by simp),
    store_adjacent _ ptr 16 _ _ (by simp), store_adjacent _ ptr 20 _ _ (by simp), store_adjacent _ ptr 24 _ _ (by simp),
    store_adjacent _ ptr 28 _ _ (by simp)]
  simp only [headerBytes, ← htobe64_bytes, ← words_bytes, List.append_assoc]
  rfl

theorem store_words_bytes (memory : Memory) (state : QpState) (put : Put) (wqeIdx : BitVec 16) (fmCeSe : BitVec 8) :
    storeWords memory state put wqeIdx (fmCeSe.setWidth 32 <<< 24) =
      store memory (getWqePtr state wqeIdx) (wqeBytes state put wqeIdx fmCeSe) := by
  simp only [storeWords, storeU32, htobe32_bytes, store_header_bytes]
  generalize getWqePtr state wqeIdx = ptr
  rw [store_adjacent _ ptr 32 _ _ (by simp), store_adjacent _ ptr 36 _ _ (by simp), store_adjacent _ ptr 40 _ _ (by simp),
    store_adjacent _ ptr 44 _ _ (by simp)]
  simp only [wqeBytes, ← htobe64_bytes put.localAddr, ← words_bytes, List.append_assoc]

def Encoder.flag (encoder : Encoder) (signaled : Bool) : BitVec 8 :=
  if signaled then
    match encoder with
    | .device => deviceCqUpdate
    | .deviceOpt => deviceOptCqUpdate.setWidth 8
    | .persistent => persistentCqUpdate
    | .nvshmem => nvshmemCqUpdate
  else 0

theorem encoder_bytes (encoder : Encoder) (memory : Memory) (state : QpState) (put : Put) (wqeIdx : BitVec 16) :
    encoder.bytes memory state put wqeIdx = wqeBytes state put wqeIdx (encoder.flag put.signaled) := by
  have built : encoder.build memory state put wqeIdx =
      store memory (getWqePtr state wqeIdx) (wqeBytes state put wqeIdx (encoder.flag put.signaled)) := by
    cases encoder with
    | device => exact store_segments_bytes memory state put wqeIdx _
    | persistent => exact store_segments_bytes memory state put wqeIdx _
    | nvshmem => exact store_words_bytes memory state put wqeIdx _
    | deviceOpt =>
        have word : ∀ signaled : Bool, (if signaled then deviceOptCqUpdate else 0) <<< 24 =
            (Encoder.flag .deviceOpt signaled).setWidth 32 <<< 24 := by decide
        rw [Encoder.build, gdaBuildRdmaWriteWqeOpt, word]
        exact store_words_bytes memory state put wqeIdx _
  rw [Encoder.bytes, built, ← wqe_bytes_length state put wqeIdx (encoder.flag put.signaled), load_store_same]

structure FieldParts (state : QpState) (put : Put) (index : BitVec 16) (flag : BitVec 8) (segments : Segments) :
    Prop where
  wqeIdx : segments.wqeIdx = beField (beBytes 4 (opmodIdxOpcode index).toNat) 1 2
  opcode : segments.opcode = beField (beBytes 4 (opmodIdxOpcode index).toNat) 3 1
  qpn : segments.qpn = beField (beBytes 4 (qpnDs state).toNat) 0 3
  ds : segments.ds = beField (beBytes 4 (qpnDs state).toNat) 3 1
  fmCeSe : segments.fmCeSe = beField (beBytes 1 flag.toNat) 0 1
  raddr : segments.raddr = beField (beBytes 8 put.remoteAddr.toNat) 0 8
  rkey : segments.rkey = beField (beBytes 4 put.remoteRkey.toNat) 0 4
  byteCount : segments.byteCount = beField (beBytes 4 put.size.toNat) 0 4
  lkey : segments.lkey = beField (beBytes 4 put.localLkey.toNat) 0 4
  addr : segments.addr = beField (beBytes 8 put.localAddr.toNat) 0 8

theorem wqe_bytes_parts (state : QpState) (put : Put) (wqeIdx : BitVec 16) (fmCeSe : BitVec 8) :
    FieldParts state put wqeIdx fmCeSe (decodeSegments (wqeBytes state put wqeIdx fmCeSe)) := by
  constructor <;>
    simp [decodeSegments, wqeBytes, headerBytes, be_field_front, be_field_behind]

theorem shifted_byte (value : BitVec 32) (low : Nat) (fits : value.toNat < 2 ^ 24) (byte : low < 256) :
    ((value <<< 8) ||| BitVec.ofNat 32 low).toNat = value.toNat * 256 + low := by
  have shifted : (value <<< 8).toNat = value.toNat <<< 8 := by
    rw [BitVec.toNat_shiftLeft, Nat.shiftLeft_eq]
    exact Nat.mod_eq_of_lt (by omega)
  rw [BitVec.toNat_or, shifted, BitVec.toNat_ofNat, Nat.mod_eq_of_lt (by omega), ← Nat.shiftLeft_add_eq_or_of_lt byte,
    Nat.shiftLeft_eq]

theorem opmod_idx_opcode_value (wqeIdx : BitVec 16) :
    (opmodIdxOpcode wqeIdx).toNat = wqeIdx.toNat * 256 + opcodeRdmaWrite := by
  have small := wqeIdx.isLt
  have widened : (wqeIdx.setWidth 32).toNat = wqeIdx.toNat := by
    rw [BitVec.toNat_setWidth]
    exact Nat.mod_eq_of_lt (by omega)
  rw [opmodIdxOpcode, shifted_byte _ 8 (by omega) (by decide), widened]
  rfl

theorem qpn_ds_value (state : QpState) (qpn : state.qpn.toNat < 2 ^ 24) :
    (qpnDs state).toNat = state.qpn.toNat * 256 + 3 := shifted_byte state.qpn 3 qpn (by decide)

theorem wqe_bytes_decode (state : QpState) (put : Put) (wqeIdx : BitVec 16) (fmCeSe : BitVec 8)
    (qpn : state.qpn.toNat < 2 ^ 24) (flag : fmCeSe.toNat.testBit 3 = put.signaled) :
    Decodes (wqeBytes state put wqeIdx fmCeSe) state put wqeIdx := by
  have parts := wqe_bytes_parts state put wqeIdx fmCeSe
  have index := wqeIdx.isLt
  have byte := fmCeSe.isLt
  have addresses := And.intro put.remoteAddr.isLt put.localAddr.isLt
  have keys := And.intro put.remoteRkey.isLt put.localLkey.isLt
  have size := put.size.isLt
  refine ⟨?_, ?_, ?_, ?_, ?_, ?_, ?_, ?_, ?_, ?_⟩
  · rw [parts.wqeIdx, be_field_part 1 2 1, opmod_idx_opcode_value, opcodeRdmaWrite]
    omega
  · rw [parts.opcode, be_field_part 3 1 0, opmod_idx_opcode_value, opcodeRdmaWrite]
    omega
  · rw [parts.qpn, be_field_part 0 3 1, qpn_ds_value state qpn]
    omega
  · rw [parts.ds, be_field_part 3 1 0, qpn_ds_value state qpn]
    omega
  · rw [parts.raddr, be_field_whole]
    exact Nat.mod_eq_of_lt (by omega)
  · rw [parts.rkey, be_field_whole]
    exact Nat.mod_eq_of_lt (by omega)
  · rw [parts.byteCount, be_field_whole]
    exact Nat.mod_eq_of_lt (by omega)
  · rw [parts.lkey, be_field_whole]
    exact Nat.mod_eq_of_lt (by omega)
  · rw [parts.addr, be_field_whole]
    exact Nat.mod_eq_of_lt (by omega)
  · rw [Segments.signaled, parts.fmCeSe, be_field_whole, Nat.mod_eq_of_lt (by omega)]
    exact flag

-- All four encoders leave the same bytes, and these decode to the request.
def Agree (memory : Encoder → Memory) (state : Encoder → QpState) (put : Put) (wqeIdx : BitVec 16) : Prop :=
  ∀ encoder : Encoder,
    (∀ other : Encoder, encoder.bytes (memory encoder) (state encoder) put wqeIdx =
      other.bytes (memory other) (state other) put wqeIdx) ∧
    Decodes (encoder.bytes (memory encoder) (state encoder) put wqeIdx) (state encoder) put wqeIdx

theorem wqe_bytes_same (first second : QpState) (put : Put) (wqeIdx : BitVec 16) (fmCeSe : BitVec 8)
    (qpn : first.qpn = second.qpn) : wqeBytes first put wqeIdx fmCeSe = wqeBytes second put wqeIdx fmCeSe := by
  simp only [wqeBytes, headerBytes, qpnDs, qpn]

theorem device_signal_lost (memory : Memory) (state : QpState) (put : Put) (wqeIdx : BitVec 16)
    (signaled : put.signaled = true) :
    (decodeSegments (Encoder.device.bytes memory state put wqeIdx)).signaled = false := by
  rw [encoder_bytes, Segments.signaled, (wqe_bytes_parts state put wqeIdx _).fmCeSe, signaled, be_field_whole]
  decide

theorem encoders_agree_iff (memory : Encoder → Memory) (state : Encoder → QpState) (qpn : BitVec 32)
    (fits : qpn.toNat < 2 ^ 24) (same : ∀ encoder, (state encoder).qpn = qpn) (put : Put) (wqeIdx : BitVec 16) :
    Agree memory state put wqeIdx ↔ put.signaled = false := by
  constructor
  · intro agree
    by_contra set
    have signaled : put.signaled = true := by simpa using set
    have lost := device_signal_lost (memory .device) (state .device) put wqeIdx signaled
    rw [(agree .device).2.signaled, signaled] at lost
    exact absurd lost (by decide)
  · intro unsignaled encoder
    have flag : ∀ other : Encoder, other.flag put.signaled = 0 := by
      intro other
      rw [unsignaled]
      rfl
    refine ⟨fun other => ?_, ?_⟩
    · rw [encoder_bytes, encoder_bytes, flag, flag]
      exact wqe_bytes_same _ _ put wqeIdx 0 ((same encoder).trans (same other).symm)
    · rw [encoder_bytes, flag]
      exact wqe_bytes_decode (state encoder) put wqeIdx 0 (by rw [same]; exact fits) (by rw [unsignaled]; decide)

def samplePut (signaled : Bool) : Put := ⟨0x7000, 17, 0x8000, 34, 64, signaled⟩

theorem encoders_agree_sample :
    Agree (fun _ => zeros) (fun _ => ⟨291, 255, 4096⟩) (samplePut false) 7 ↔ (samplePut false).signaled = false :=
  encoders_agree_iff _ _ 291 (by decide) (fun _ => rfl) (samplePut false) 7

theorem signaled_encoders_differ : ¬ ∀ (memory : Encoder → Memory) (state : Encoder → QpState) (qpn : BitVec 32)
    (put : Put) (wqeIdx : BitVec 16), qpn.toNat < 2 ^ 24 → (∀ encoder, (state encoder).qpn = qpn) →
    Agree memory state put wqeIdx := by
  intro claimed
  have agree := claimed (fun _ => zeros) (fun _ => ⟨291, 255, 4096⟩) 291 (samplePut true) 7 (by decide) fun _ => rfl
  have same := congrArg (·[11]?) ((agree .device).1 .deviceOpt)
  exact absurd same (by decide +kernel)

end OpenGda.Mlx5.WqeBytes
