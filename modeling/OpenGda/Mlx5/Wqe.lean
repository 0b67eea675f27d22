import OpenGda.Lib.Machine

set_option autoImplicit false

-- The words of a send WQE and of a doorbell, as device_opt.cuh stores them and
-- as the NIC reads them back (big-endian fields in little-endian memory).
namespace OpenGda.Mlx5

def opcodeRdmaWrite : Nat := 0x08
def wqeCtrlCqUpdate : BitVec 32 := 2 <<< 2

-- __byte_perm(x, 0, 0x0123)
def htobe32 (x : BitVec 32) : BitVec 32 :=
  x.extractLsb' 0 8 ++ x.extractLsb' 8 8 ++ x.extractLsb' 16 8 ++ x.extractLsb' 24 8

def joinWords (hi lo : BitVec 32) : BitVec 64 := (hi.setWidth 64 <<< 32) ||| lo.setWidth 64

def lowWord (x : BitVec 64) : BitVec 32 := x.setWidth 32
def highWord (x : BitVec 64) : BitVec 32 := (x >>> 32).setWidth 32

def htobe64 (x : BitVec 64) : BitVec 64 :=
  let hi := highWord x
  let lo := lowWord x
  joinWords (htobe32 lo) (htobe32 hi)

structure Put where
  localAddr : BitVec 64
  localLkey : BitVec 32
  remoteAddr : BitVec 64
  remoteRkey : BitVec 32
  size : BitVec 32
  signaled : Bool
deriving DecidableEq, Repr

structure Wqe where
  opmodIdxOpcode : BitVec 32
  qpnDs : BitVec 32
  fmCeSe : BitVec 32
  imm : BitVec 32
  raddrLo : BitVec 32
  raddrHi : BitVec 32
  rkey : BitVec 32
  reserved : BitVec 32
  byteCount : BitVec 32
  lkey : BitVec 32
  addrLo : BitVec 32
  addrHi : BitVec 32
deriving DecidableEq, Repr

def blankWqe : Wqe := ⟨0, 0, 0, 0, 0, 0, 0, 0, 0, 0, 0, 0⟩

def buildRdmaWriteWqe (qpn : BitVec 32) (put : Put) (wqeIdx : Nat) : Wqe :=
  let flags := if put.signaled then wqeCtrlCqUpdate else 0
  let raddrBe := htobe64 put.remoteAddr
  let laddrBe := htobe64 put.localAddr
  { opmodIdxOpcode := htobe32 (BitVec.ofNat 32 ((wqeIdx <<< 8) ||| opcodeRdmaWrite))
    qpnDs := htobe32 ((qpn <<< 8) ||| 3)
    fmCeSe := flags <<< 24
    imm := 0
    raddrLo := lowWord raddrBe
    raddrHi := highWord raddrBe
    rkey := htobe32 put.remoteRkey
    reserved := 0
    byteCount := htobe32 put.size
    lkey := htobe32 put.localLkey
    addrLo := lowWord laddrBe
    addrHi := highWord laddrBe }

def dbrecWord (wqeIdx : Nat) : BitVec 32 := htobe32 (BitVec.ofNat 32 (wqeIdx &&& 0xFFFF))

def bfWord (qpn : BitVec 32) (wqeIdx : Nat) : BitVec 64 :=
  joinWords (htobe32 (qpn <<< 8)) (htobe32 (BitVec.ofNat 32 (wqeIdx <<< 8)))

-- What the NIC does for a WQE: the write, under the index in its control segment.
structure Executed where
  wqeIdx : Nat
  put : Put
deriving DecidableEq, Repr

def Wqe.wqeIdx (wqe : Wqe) : Nat := ((htobe32 wqe.opmodIdxOpcode).toNat >>> 8) &&& 0xFFFF
def Wqe.opcode (wqe : Wqe) : Nat := (htobe32 wqe.opmodIdxOpcode).toNat &&& 0xFF
def Wqe.ds (wqe : Wqe) : BitVec 8 := (htobe32 wqe.qpnDs).setWidth 8

def Wqe.decode (wqe : Wqe) : Option Executed :=
  if wqe.opcode = opcodeRdmaWrite ∧ wqe.ds = 3 then
    some
      { wqeIdx := wqe.wqeIdx
        put :=
          { localAddr := htobe64 (joinWords wqe.addrHi wqe.addrLo)
            localLkey := htobe32 wqe.lkey
            remoteAddr := htobe64 (joinWords wqe.raddrHi wqe.raddrLo)
            remoteRkey := htobe32 wqe.rkey
            size := htobe32 wqe.byteCount
            signaled := wqe.fmCeSe >>> 24 &&& wqeCtrlCqUpdate != 0 } }
  else none

def dbrecIndex (word : BitVec 32) : Nat := (htobe32 word).toNat &&& 0xFFFF
def bfIndex (word : BitVec 64) : Nat := ((htobe32 (lowWord word)).toNat >>> 8) &&& 0xFFFF

theorem htobe32_bit (x : BitVec 32) (i : Nat) (bound : i < 32) :
    (htobe32 x).getLsbD i = x.getLsbD (8 * (3 - i / 8) + i % 8) := by
  have place : ∀ j < 32, (htobe32 x).getLsbD j = x.getLsbD (8 * (3 - j / 8) + j % 8) := by
    intro j small
    simp only [htobe32, BitVec.getLsbD_append, BitVec.getLsbD_extractLsb']
    interval_cases j <;> rfl
  exact place i bound

@[simp] theorem htobe32_htobe32 (x : BitVec 32) : htobe32 (htobe32 x) = x := by
  refine BitVec.eq_of_getLsbD_eq fun i bound => ?_
  rw [htobe32_bit _ i bound, htobe32_bit _ _ (by omega)]
  congr 1
  omega

@[simp] theorem low_word_join (hi lo : BitVec 32) : lowWord (joinWords hi lo) = lo := by
  refine BitVec.eq_of_getLsbD_eq fun i bound => ?_
  simp [lowWord, joinWords, bound]

@[simp] theorem high_word_join (hi lo : BitVec 32) : highWord (joinWords hi lo) = hi := by
  refine BitVec.eq_of_getLsbD_eq fun i bound => ?_
  simp [highWord, joinWords, bound, show i < 64 by omega, show 32 + i < 64 by omega]

@[simp] theorem join_words_split (x : BitVec 64) : joinWords (highWord x) (lowWord x) = x := by
  refine BitVec.eq_of_getLsbD_eq fun i bound => ?_
  by_cases low : i < 32
  · simp [highWord, lowWord, joinWords, low, bound]
  · simp [highWord, lowWord, joinWords, low, bound, show 32 + (i - 32) = i by omega, show i - 32 < 32 by omega]

@[simp] theorem htobe64_htobe64 (x : BitVec 64) : htobe64 (htobe64 x) = x := by
  simp [htobe64]

theorem and_ffff (x : Nat) : x &&& 0xFFFF = x % 65536 := Nat.and_two_pow_sub_one_eq_mod x 16

theorem index_byte (wqeIdx low : Nat) (index : wqeIdx < 65536) (byte : low < 256) :
    (BitVec.ofNat 32 ((wqeIdx <<< 8) ||| low)).toNat = wqeIdx * 256 + low := by
  rw [← Nat.shiftLeft_add_eq_or_of_lt byte, Nat.shiftLeft_eq, BitVec.toNat_ofNat]
  omega

theorem index_byte_decodes (wqeIdx low : Nat) (index : wqeIdx < 65536) (byte : low < 256) :
    (wqeIdx * 256 + low) >>> 8 &&& 0xFFFF = wqeIdx ∧ (wqeIdx * 256 + low) &&& 0xFF = low := by
  rw [and_ffff, Nat.shiftRight_eq_div_pow, show (0xFF : Nat) = 2 ^ 8 - 1 by rfl, Nat.and_two_pow_sub_one_eq_mod]
  omega

theorem build_header (qpn : BitVec 32) (put : Put) (wqeIdx : Nat) (index : wqeIdx < 65536) :
    (buildRdmaWriteWqe qpn put wqeIdx).wqeIdx = wqeIdx ∧
      (buildRdmaWriteWqe qpn put wqeIdx).opcode = opcodeRdmaWrite ∧ (buildRdmaWriteWqe qpn put wqeIdx).ds = 3 := by
  obtain ⟨idx, opcode⟩ := index_byte_decodes wqeIdx opcodeRdmaWrite index (by decide)
  refine ⟨?_, ?_, ?_⟩
  · rw [Wqe.wqeIdx, buildRdmaWriteWqe, htobe32_htobe32, index_byte wqeIdx opcodeRdmaWrite index (by decide), idx]
  · rw [Wqe.opcode, buildRdmaWriteWqe, htobe32_htobe32, index_byte wqeIdx opcodeRdmaWrite index (by decide), opcode]
  · rw [Wqe.ds, buildRdmaWriteWqe, htobe32_htobe32]
    refine BitVec.eq_of_getLsbD_eq fun i bound => ?_
    interval_cases i <;> simp

theorem build_decodes (qpn : BitVec 32) (put : Put) (wqeIdx : Nat) (index : wqeIdx < 65536) :
    (buildRdmaWriteWqe qpn put wqeIdx).decode = some ⟨wqeIdx, put⟩ := by
  obtain ⟨idx, opcode, ds⟩ := build_header qpn put wqeIdx index
  have flag : ∀ signaled : Bool,
      ((if signaled then wqeCtrlCqUpdate else 0) <<< 24 >>> 24 &&& wqeCtrlCqUpdate != 0) = signaled := by
    decide
  rw [Wqe.decode, if_pos ⟨opcode, ds⟩, idx]
  simp only [buildRdmaWriteWqe, join_words_split, htobe64_htobe64, htobe32_htobe32, flag]

theorem dbrec_word_decodes (wqeIdx : Nat) : dbrecIndex (dbrecWord wqeIdx) = wqeIdx % 65536 := by
  rw [dbrecIndex, dbrecWord, htobe32_htobe32, BitVec.toNat_ofNat, and_ffff, and_ffff]
  omega

theorem bf_word_decodes (qpn : BitVec 32) (wqeIdx : Nat) (index : wqeIdx < 65536) :
    bfIndex (bfWord qpn wqeIdx) = wqeIdx := by
  have value := index_byte wqeIdx 0 index (by decide)
  rw [Nat.or_zero] at value
  rw [bfIndex, bfWord, low_word_join, htobe32_htobe32, value]
  exact (index_byte_decodes wqeIdx 0 index (by decide)).1

end OpenGda.Mlx5
