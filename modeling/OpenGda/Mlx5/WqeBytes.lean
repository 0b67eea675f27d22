import OpenGda.Lib.BigEndian
import OpenGda.Mlx5.Wqe

set_option autoImplicit false

-- The RDMA write WQE byte by byte, as the four headers store it: device.cuh and
-- persistent.cuh through packed structs, device_opt.cuh and device_nvshmem.cuh
-- through 32-bit words.
namespace OpenGda.Mlx5.WqeBytes

open ByteMemory

structure QpState where
  qpn : BitVec 32
  nwqesMask : BitVec 16
  wqeBuf : Nat
deriving DecidableEq, Repr

def sendWqeShift : Nat := 6

def getWqePtr (state : QpState) (wqeIdx : BitVec 16) : Nat :=
  state.wqeBuf + ((wqeIdx &&& state.nwqesMask).toNat <<< sendWqeShift)

def storeU8 (memory : Memory) (address : Nat) (value : BitVec 8) : Memory := store memory address (leBytes 1 value.toNat)

def storeU32 (memory : Memory) (address : Nat) (value : BitVec 32) : Memory := store memory address (leBytes 4 value.toNat)

def storeU64 (memory : Memory) (address : Nat) (value : BitVec 64) : Memory := store memory address (leBytes 8 value.toNat)

-- The integer promotion of `(wqe_idx << 8) | MLX5_OPCODE_RDMA_WRITE`.
def opmodIdxOpcode (wqeIdx : BitVec 16) : BitVec 32 := (wqeIdx.setWidth 32 <<< 8) ||| 8#32

def qpnDs (state : QpState) : BitVec 32 := (state.qpn <<< 8) ||| 3#32

def storeSegments (memory : Memory) (state : QpState) (put : Put) (wqeIdx : BitVec 16) (fmCeSe : BitVec 8) : Memory :=
  let ptr := getWqePtr state wqeIdx
  let memory := storeU32 memory ptr (htobe32 (opmodIdxOpcode wqeIdx))
  let memory := storeU32 memory (ptr + 4) (htobe32 (qpnDs state))
  let memory := storeU8 memory (ptr + 8) 0
  let memory := storeU8 memory (ptr + 9) 0
  let memory := storeU8 memory (ptr + 10) 0
  let memory := storeU8 memory (ptr + 11) fmCeSe
  let memory := storeU32 memory (ptr + 12) 0
  let memory := storeU64 memory (ptr + 16) (htobe64 put.remoteAddr)
  let memory := storeU32 memory (ptr + 24) (htobe32 put.remoteRkey)
  let memory := storeU32 memory (ptr + 28) 0
  let memory := storeU32 memory (ptr + 32) (htobe32 put.size)
  let memory := storeU32 memory (ptr + 36) (htobe32 put.localLkey)
  storeU64 memory (ptr + 40) (htobe64 put.localAddr)

def storeHeaderWords (memory : Memory) (state : QpState) (remoteAddr : BitVec 64) (remoteRkey : BitVec 32)
    (wqeIdx : BitVec 16) (fmCeSeWord : BitVec 32) : Memory :=
  let wqe := getWqePtr state wqeIdx
  let raddrBe := htobe64 remoteAddr
  let memory := storeU32 memory wqe (htobe32 (opmodIdxOpcode wqeIdx))
  let memory := storeU32 memory (wqe + 4) (htobe32 (qpnDs state))
  let memory := storeU32 memory (wqe + 8) fmCeSeWord
  let memory := storeU32 memory (wqe + 12) 0
  let memory := storeU32 memory (wqe + 16) (lowWord raddrBe)
  let memory := storeU32 memory (wqe + 20) (highWord raddrBe)
  let memory := storeU32 memory (wqe + 24) (htobe32 remoteRkey)
  storeU32 memory (wqe + 28) 0

def storeWords (memory : Memory) (state : QpState) (put : Put) (wqeIdx : BitVec 16) (fmCeSeWord : BitVec 32) : Memory :=
  let wqe := getWqePtr state wqeIdx
  let laddrBe := htobe64 put.localAddr
  let memory := storeHeaderWords memory state put.remoteAddr put.remoteRkey wqeIdx fmCeSeWord
  let memory := storeU32 memory (wqe + 32) (htobe32 put.size)
  let memory := storeU32 memory (wqe + 36) (htobe32 put.localLkey)
  let memory := storeU32 memory (wqe + 40) (lowWord laddrBe)
  storeU32 memory (wqe + 44) (highWord laddrBe)

-- MLX5_WQE_CTRL_CQ_UPDATE of each header.
def deviceCqUpdate : BitVec 8 := 1 <<< 2
def deviceOptCqUpdate : BitVec 32 := 2 <<< 2
def persistentCqUpdate : BitVec 8 := 1 <<< 2
def nvshmemCqUpdate : BitVec 8 := 1 <<< 2

-- device.cuh
def gdaBuildRdmaWriteWqe (memory : Memory) (state : QpState) (put : Put) (wqeIdx : BitVec 16) : Memory :=
  storeSegments memory state put wqeIdx (if put.signaled then deviceCqUpdate else 0)

-- device_opt.cuh
def gdaBuildRdmaWriteWqeOpt (memory : Memory) (state : QpState) (put : Put) (wqeIdx : BitVec 16) : Memory :=
  let flags := if put.signaled then deviceOptCqUpdate else 0
  storeWords memory state put wqeIdx (flags <<< 24)

-- persistent.cuh
def pBuildWriteWqe (memory : Memory) (state : QpState) (put : Put) (wqeIdx : BitVec 16) : Memory :=
  storeSegments memory state put wqeIdx (if put.signaled then persistentCqUpdate else 0)

-- device_nvshmem.cuh, with the flag byte its gda_rdma_write passes.
def gdaBuildRdmaWriteWqeNvshmem (memory : Memory) (qp : QpState) (put : Put) (wqeIdx : BitVec 16) (fmCeSe : BitVec 8) :
    Memory :=
  storeWords memory qp put wqeIdx (fmCeSe.setWidth 32 <<< 24)

def gdaRdmaWriteWqe (memory : Memory) (qp : QpState) (put : Put) (wqeIdx : BitVec 16) : Memory :=
  gdaBuildRdmaWriteWqeNvshmem memory qp put wqeIdx (if put.signaled then nvshmemCqUpdate else 0)

inductive Encoder where
  | device
  | deviceOpt
  | persistent
  | nvshmem
deriving DecidableEq, Repr

def Encoder.build : Encoder → Memory → QpState → Put → BitVec 16 → Memory
  | .device => gdaBuildRdmaWriteWqe
  | .deviceOpt => gdaBuildRdmaWriteWqeOpt
  | .persistent => pBuildWriteWqe
  | .nvshmem => gdaRdmaWriteWqe

def wqeSize : Nat := 48

def Encoder.bytes (encoder : Encoder) (memory : Memory) (state : QpState) (put : Put) (wqeIdx : BitVec 16) :
    List UInt8 :=
  load (encoder.build memory state put wqeIdx) (getWqePtr state wqeIdx) wqeSize

structure Segments where
  opmod : Nat
  wqeIdx : Nat
  opcode : Nat
  qpn : Nat
  ds : Nat
  fmCeSe : Nat
  imm : Nat
  raddr : Nat
  rkey : Nat
  byteCount : Nat
  lkey : Nat
  addr : Nat
deriving DecidableEq, Repr

def decodeSegments (bytes : List UInt8) : Segments where
  opmod := beField bytes 0 1
  wqeIdx := beField bytes 1 2
  opcode := beField bytes 3 1
  qpn := beField bytes 4 3
  ds := beField bytes 7 1
  fmCeSe := beField bytes 11 1
  imm := beField bytes 12 4
  raddr := beField bytes 16 8
  rkey := beField bytes 24 4
  byteCount := beField bytes 32 4
  lkey := beField bytes 36 4
  addr := beField bytes 40 8

-- The completion-request bit as device_opt.cuh documents it for mlx5dv.h.
def Segments.signaled (segments : Segments) : Bool := segments.fmCeSe.testBit 3

structure Decodes (bytes : List UInt8) (state : QpState) (put : Put) (wqeIdx : BitVec 16) : Prop where
  wqeIdx : (decodeSegments bytes).wqeIdx = wqeIdx.toNat
  opcode : (decodeSegments bytes).opcode = opcodeRdmaWrite
  qpn : (decodeSegments bytes).qpn = state.qpn.toNat
  ds : (decodeSegments bytes).ds = 3
  raddr : (decodeSegments bytes).raddr = put.remoteAddr.toNat
  rkey : (decodeSegments bytes).rkey = put.remoteRkey.toNat
  byteCount : (decodeSegments bytes).byteCount = put.size.toNat
  lkey : (decodeSegments bytes).lkey = put.localLkey.toNat
  addr : (decodeSegments bytes).addr = put.localAddr.toNat
  signaled : (decodeSegments bytes).signaled = put.signaled

end OpenGda.Mlx5.WqeBytes
