import OpenGda.Lib.ByteMemory
import OpenGda.Lib.SequenceRing
import OpenGda.Mlx5.SendQueue

set_option autoImplicit false

-- Short active messages of am_device.cuh: one 64-byte RDMA write a message,
-- polled by its first word, seq.
namespace OpenGda.Mlx5.Am

open ByteMemory Machine SequenceRing

def amMaxPayloadSize : Nat := 8192
def amShortSize : Nat := 64
def amSlotSize : Nat := amShortSize + amMaxPayloadSize
def wordSize : Nat := 8

structure AmHdr where
  handlerId : UInt16
  srcRank : UInt16
  payloadLen : UInt16
  flags : UInt8
  reserved : UInt8
deriving DecidableEq, Repr

def AmHdr.toBytes (hdr : AmHdr) : List UInt8 :=
  leBytes 2 hdr.handlerId.toNat ++ leBytes 2 hdr.srcRank.toNat ++ leBytes 2 hdr.payloadLen.toNat ++
    [hdr.flags, hdr.reserved]

-- The part of am_slot_t that a short message fills.
structure AmSlot where
  seq : UInt64
  hdr : AmHdr
  args : Fin 6 → UInt64

inductive Field where
  | hdr
  | args (index : Fin 6)
deriving DecidableEq, Repr

def Field.offset : Field → Nat
  | .hdr => 1 * wordSize
  | .args index => (2 + index.val) * wordSize

def AmSlot.field (slot : AmSlot) : Field → List UInt8
  | .hdr => slot.hdr.toBytes
  | .args index => leBytes wordSize (slot.args index).toNat

def AmSlot.words (slot : AmSlot) : List (List UInt8) :=
  leBytes wordSize slot.seq.toNat :: slot.field .hdr :: List.ofFn fun index => slot.field (.args index)

def AmSlot.toBytes (slot : AmSlot) : List UInt8 := slot.words.flatten

structure Config where
  ctx : DeviceCtx
  logSlots : Nat
  slotsFit : logSlots < 31
  remoteRingBase : BitVec 64
  remoteRkey : BitVec 32
  localLkey : BitVec 32
  replyBufBase : BitVec 64
  replyLkey : BitVec 32

def Config.nslots (config : Config) : Nat := 2 ^ config.logSlots

def dstOffset (slotIdx : Nat) : BitVec 64 := BitVec.ofNat 64 (slotIdx * amSlotSize)

-- The WQE of am_send_short; am_send_request leaves it unsignaled.
def shortPut (config : Config) (localSlot : BitVec 64) (slotIdx : Nat) (signaled : Bool) : Put where
  localAddr := localSlot
  localLkey := config.localLkey
  remoteAddr := config.remoteRingBase + dstOffset slotIdx
  remoteRkey := config.remoteRkey
  size := BitVec.ofNat 32 amShortSize
  signaled := signaled

def amSendShort (config : Config) (queue : Fifo) (localSlot : BitVec 64) (slotIdx : Nat) : Fifo :=
  queue.applyOp config.ctx (.put (shortPut config localSlot slotIdx true))

def amSendRequest (config : Config) (queue : Fifo) (localSlot : BitVec 64) (slotIdx : Nat) : Fifo :=
  queue.applyOp config.ctx (.put (shortPut config localSlot slotIdx false))

inductive Phase where
  | idle
  -- am_poll_peer at the head of its loop, and with a handler running.
  | polling (left processed : Nat)
  | dispatching (left processed : Nat)
  -- The spin of am_wait_one.
  | waiting
  -- The spin of am_recv_and_reply_fast, and its reads of the reply token.
  | requested (iterIdx : Nat)
  | token (iterIdx : Nat) (ackAddr : Option (List UInt8))
deriving DecidableEq, Repr

structure Observed where
  message : Nat
  field : Field
  bytes : List UInt8
deriving DecidableEq, Repr

-- `queue` is the send queue as its FIFO; `part` counts the bytes of the write it
-- is executing that are visible. `sent` (the local slots as they were at the
-- calls), `matched` (the slots whose seq matched) and `observed` are ghost.
structure Ring where
  queue : Fifo
  sent : List AmSlot
  part : Nat
  inbox : Memory
  expectedSeq : UInt64
  tailSeq : UInt64
  phase : Phase
  replies : List Put
  matched : List Nat
  observed : List Observed

def freshRing : Ring where
  queue := emptyFifo
  sent := []
  part := 0
  inbox := zeros
  expectedSeq := 1
  tailSeq := 0
  phase := .idle
  replies := []
  matched := []
  observed := []

-- The caller numbers its messages from 1 and picks the slot of the number.
def send (config : Config) (ring : Ring) (request : Bool) (localSlot : BitVec 64) (hdr : AmHdr)
    (args : Fin 6 → UInt64) : Ring :=
  let seq := seqAt ring.sent.length
  let slot := slotIdx seq config.nslots
  { ring with
    queue := if request then amSendRequest config ring.queue localSlot slot
      else amSendShort config ring.queue localSlot slot
    sent := ring.sent ++ [⟨seq, hdr, args⟩] }

def reveal (config : Config) (ring : Ring) (count : Nat) : Option Ring :=
  match ring.queue.posted[ring.queue.executed]?, ring.sent[ring.queue.executed]? with
  | some put, some slot =>
      if ring.queue.executed < ring.queue.announced ∧ 0 < count ∧ ring.part + count ≤ put.size.toNat then
        let offset := (put.remoteAddr - config.remoteRingBase).toNat + ring.part
        let inbox := store ring.inbox offset ((slot.toBytes.drop ring.part).take count)
        if ring.part + count = put.size.toNat then
          some { ring with
            inbox := inbox, part := 0, queue := { ring.queue with executed := ring.queue.executed + 1 } }
        else some { ring with inbox := inbox, part := ring.part + count }
      else none
  | _, _ => none

def slotSeq (memory : Memory) (offset : Nat) : UInt64 := UInt64.ofNat (leValue (load memory offset wordSize))

def polledSlot (config : Config) (ring : Ring) : Nat := slotIdx ring.expectedSeq config.nslots * amSlotSize

def check (config : Config) (ring : Ring) : Option Ring :=
  let slot := polledSlot config ring
  let same := slotSeq ring.inbox slot = ring.expectedSeq
  let expected := ring.expectedSeq
  match ring.phase with
  | .polling left processed =>
      if left = 0 ∨ ¬ same then some { ring with phase := .idle }
      else some { ring with phase := .dispatching left processed, matched := ring.matched ++ [slot] }
  | .waiting =>
      if same then
        some { ring with
          phase := .idle, matched := ring.matched ++ [slot], expectedSeq := expected + 1, tailSeq := expected }
      else some ring
  | .requested iterIdx =>
      if same then some { ring with phase := .token iterIdx none, matched := ring.matched ++ [slot] } else some ring
  | _ => none

def readField (ring : Ring) (slot : Nat) (field : Field) : List UInt8 := load ring.inbox (slot + field.offset) wordSize

def observe (ring : Ring) (message slot : Nat) (field : Field) : Ring :=
  { ring with observed := ring.observed ++ [⟨message, field, readField ring slot field⟩] }

def dispatched (ring : Ring) : Option Ring :=
  match ring.phase with
  | .dispatching left processed =>
      some { ring with
        phase := .polling (left - 1) (processed + 1)
        expectedSeq := ring.expectedSeq + 1
        tailSeq := ring.expectedSeq + 1 - 1 }
  | _ => none

def tokenField : Option (List UInt8) → Field
  | none => .args 0
  | some _ => .args 1

def amSendReplyFast (config : Config) (ackAddr ackRkey : List UInt8) (iterIdx : Nat) : Put where
  localAddr := config.replyBufBase + BitVec.ofNat 64 (iterIdx * wordSize)
  localLkey := config.replyLkey
  remoteAddr := BitVec.ofNat 64 (leValue ackAddr)
  remoteRkey := BitVec.ofNat 32 (leValue ackRkey)
  size := BitVec.ofNat 32 wordSize
  signaled := false

def readToken (config : Config) (ring : Ring) : Option Ring :=
  let slot := polledSlot config ring
  let message := ring.matched.length - 1
  match ring.phase with
  | .token iterIdx none =>
      some { observe ring message slot (tokenField none) with
        phase := .token iterIdx (some (readField ring slot (tokenField none))) }
  | .token iterIdx (some ackAddr) =>
      some { observe ring message slot (tokenField (some ackAddr)) with
        phase := .idle
        replies := ring.replies ++
          [amSendReplyFast config ackAddr (readField ring slot (tokenField (some ackAddr))) iterIdx]
        expectedSeq := ring.expectedSeq + 1
        tailSeq := ring.expectedSeq }
  | _ => none

inductive Action where
  | send (request : Bool) (localSlot : BitVec 64) (hdr : AmHdr) (args : Fin 6 → UInt64)
  | reveal (count : Nat)
  | amPollPeer (maxPoll : Nat)
  | amWaitOne
  | amRecvAndReplyFast (iterIdx : Nat)
  | check
  | read (message : Nat) (field : Field)
  | dispatched
  | readToken

def step (config : Config) (ring : Ring) : Action → Option Ring
  | .send request localSlot hdr args => some (send config ring request localSlot hdr args)
  | .reveal count => reveal config ring count
  | .amPollPeer maxPoll => if ring.phase = .idle then some { ring with phase := .polling maxPoll 0 } else none
  | .amWaitOne => if ring.phase = .idle then some { ring with phase := .waiting } else none
  | .amRecvAndReplyFast iterIdx => if ring.phase = .idle then some { ring with phase := .requested iterIdx } else none
  | .check => check config ring
  | .read message field => (ring.matched[message]?).map fun slot => observe ring message slot field
  | .dispatched => dispatched ring
  | .readToken => readToken config ring

def Begun (ring : Ring) (message : Nat) : Prop :=
  message < ring.queue.executed ∨ (message = ring.queue.executed ∧ 0 < ring.part)

def writtenSlot (config : Config) (ring : Ring) : Nat :=
  slotIdx (seqAt ring.queue.executed) config.nslots * amSlotSize

-- When the receiver looks: it loads seq only while no write into that slot is half
-- visible, and reads a message before the next write into its slot has begun.
def BetweenWrites (config : Config) (ring : Ring) : Action → Prop
  | .check => 0 < ring.part → writtenSlot config ring ≠ polledSlot config ring
  | .read message _ => ¬ Begun ring (message + config.nslots)
  | .readToken => ¬ Begun ring (ring.matched.length - 1 + config.nslots)
  | _ => True

def NotTorn (ring : Ring) : Prop :=
  ∀ seen ∈ ring.observed, ∃ slot, ring.sent[seen.message]? = some slot ∧ slot.seq = seqAt seen.message ∧
    seen.bytes = slot.field seen.field

end OpenGda.Mlx5.Am
