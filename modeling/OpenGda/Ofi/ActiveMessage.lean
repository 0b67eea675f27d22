import OpenGda.Lib.ByteMemory
import OpenGda.Lib.SequenceRing
import OpenGda.Ofi.Fabric

set_option autoImplicit false

-- Active messages over gicc::Fabric: am_types.hpp, am_context.hpp, am.hpp and am_device.hpp.
namespace OpenGda.Am

open ByteMemory DeferredWork Machine SequenceRing
open Ofi (Fabric RmaWrite CntrWork Handle)

variable {size : Nat}

def amMaxPayloadSize : Nat := 8192
def amShortSize : Nat := 64
def amSlotSize : Nat := amShortSize + amMaxPayloadSize

def amFlagHandleOnly : UInt8 := 1
def amFlagHasPayload : UInt8 := 2

-- The layout of am_slot_t: seq, hdr, args, payload.
def seqOffset : Nat := 0
def hdrOffset : Nat := 8
def argsOffset : Nat := 16
def payloadOffset : Nat := 64
def seqSize : Nat := 8
def hdrSize : Nat := 8
def argsSize : Nat := 48

structure Args where
  bytes : List UInt8
  sized : bytes.length = argsSize

structure Hdr where
  handlerId : UInt16
  srcRank : UInt16
  payloadLen : UInt16
  flags : UInt8
  reserved : UInt8
deriving DecidableEq, Repr

def Hdr.toBytes (hdr : Hdr) : List UInt8 :=
  leBytes 2 hdr.handlerId.toNat ++ leBytes 2 hdr.srcRank.toNat ++ leBytes 2 hdr.payloadLen.toNat ++
    [hdr.flags, hdr.reserved]

def Hdr.ofMemory (memory : Memory) (offset : Nat) : Hdr where
  handlerId := UInt16.ofNat (leValue (load memory offset 2))
  srcRank := UInt16.ofNat (leValue (load memory (offset + 2) 2))
  payloadLen := UInt16.ofNat (leValue (load memory (offset + 4) 2))
  flags := memory (offset + 6)
  reserved := memory (offset + 7)

-- What a caller hands over: send_handle has no payload, send_payload has one that fits.
structure Message where
  handlerId : UInt32
  args : Args
  payload : Option (List UInt8)
  fits : ∀ bytes, payload = some bytes → bytes.length ≤ amMaxPayloadSize

def Message.payloadBytes (message : Message) : List UInt8 := message.payload.getD []

def Message.header (message : Message) (src : Nat) : Hdr where
  handlerId := message.handlerId.toUInt16
  srcRank := UInt16.ofNat src
  payloadLen := UInt16.ofNat message.payloadBytes.length
  flags := if message.payload.isSome then amFlagHasPayload else amFlagHandleOnly
  reserved := 0

-- h_slot_temp after the memset and the field stores.
def fillSlot (src : Nat) (seq : UInt64) (message : Message) : Memory :=
  store (store (store (store zeros seqOffset (leBytes seqSize seq.toNat)) hdrOffset (message.header src).toBytes)
    argsOffset message.args.bytes) payloadOffset message.payloadBytes

def Message.bodySize (message : Message) : Nat := hdrSize + argsSize + message.payloadBytes.length

-- What the constructors fix: allocations, memory registrations and the address
-- vector. Keys and descriptors tell a rank's regions apart; nslots is an int.
structure Config (size : Nat) where
  virtAddrMode : Bool
  logSlots : Fin size → Nat
  slotsFit : ∀ rank, logSlots rank < 31
  stagingSize : Fin size → Nat
  stagingBase : Fin size → Nat → Nat
  stagingDesc : Fin size → Nat → Nat
  stagingDescs : ∀ rank, Function.Injective (stagingDesc rank)
  ringBase : Fin size → Fin size → UInt64
  ringKey : Fin size → Fin size → UInt64
  ringKeys : ∀ owner, Function.Injective (ringKey owner)
  avAddr : Nat → Nat
  avAddrs : Function.Injective avAddr

def Config.nslots (config : Config size) (rank : Fin size) : Nat := 2 ^ config.logSlots rank

structure ExchangeInfo where
  ringBase : UInt64
  ringKey : UInt64
  nslots : Nat

-- my_infos[p] of exchange_addresses.
def myInfos (config : Config size) (owner p : Fin size) : ExchangeInfo :=
  ⟨config.ringBase owner p, config.ringKey owner p, config.nslots owner⟩

structure PeerSendState where
  nslots : Nat
  remoteRingBase : UInt64
  remoteRingKey : UInt64

-- h_send_states[p]: from peer p's information the entry for this rank.
def sendState (config : Config size) (self p : Fin size) : PeerSendState :=
  let infoForMe := myInfos config p self
  ⟨infoForMe.nslots, infoForMe.ringBase, infoForMe.ringKey⟩

-- Ghost record of a message: the staging slot it took, that slot as it was
-- filled, and the threshold of its body put (the seq put has the next one).
structure Sent where
  message : Message
  slot : Nat
  image : Memory
  threshold : Nat

structure Delivery where
  hdr : Hdr
  args : List UInt8
  payload : Option (List UInt8)
deriving DecidableEq, Repr

-- A call of am_poll_peer in progress: `found` is between the test of seq and the dispatch.
structure Poller where
  left : Nat
  processed : Nat
  found : Bool
deriving DecidableEq, Repr

-- `sent`, `delivered` and `executed` are ghost: the messages sent to each peer,
-- the dispatches of messages from each peer, and the thresholds of the writes the NIC has run.
structure Rank (size : Nat) where
  fabric : Fabric
  staging : Nat → Memory
  stagingIdx : Nat
  maxThreshold : Nat
  waiting : Bool
  headSeq : Fin size → UInt64
  expectedSeq : Fin size → UInt64
  tailSeq : Fin size → UInt64
  inboxSlots : Fin size → Memory
  polling : Fin size → Option Poller
  polled : Fin size → Nat
  sent : Fin size → List Sent
  delivered : Fin size → List Delivery
  executed : List Nat

def initialRank (config : Config size) : Rank size where
  fabric := Ofi.openFabric config.avAddr config.virtAddrMode
  staging := fun _ => zeros
  stagingIdx := 0
  maxThreshold := 0
  waiting := false
  headSeq := fun _ => 1
  expectedSeq := fun _ => 1
  tailSeq := fun _ => 0
  inboxSlots := fun _ => zeros
  polling := fun _ => none
  polled := fun _ => 0
  sent := fun _ => []
  delivered := fun _ => []
  executed := []

def dstOffset (seq : UInt64) (nslots field : Nat) : UInt64 :=
  UInt64.ofNat (slotIdx seq nslots * amSlotSize + field)

def rmaAddr (virtAddrMode : Bool) (base offset : UInt64) : UInt64 := if virtAddrMode then base + offset else offset

def putField (config : Config size) (self dest : Fin size) (slot : Nat) (seq : UInt64) (fabric : Fabric)
    (field fieldSize : Nat) : Nat × Fabric :=
  let ss := sendState config self dest
  Ofi.putRaw fabric ⟨config.stagingBase self slot + field, 0, config.stagingDesc self slot⟩ dest
    (rmaAddr config.virtAddrMode ss.remoteRingBase (dstOffset seq ss.nslots field)) ss.remoteRingKey fieldSize

def queueMessage (config : Config size) (self : Fin size) (rank : Rank size) (dest : Fin size) (message : Message) :
    Rank size :=
  let slot := rank.stagingIdx
  let seq := rank.headSeq dest
  let image := fillSlot self.val seq message
  let body := putField config self dest slot seq rank.fabric hdrOffset message.bodySize
  let release := putField config self dest slot seq body.2 seqOffset seqSize
  { rank with
    staging := Function.update rank.staging slot image
    stagingIdx := slot + 1
    headSeq := Function.update rank.headSeq dest (seq + 1)
    fabric := release.2
    maxThreshold := if rank.maxThreshold < release.1 then release.1 else rank.maxThreshold
    sent := Function.update rank.sent dest (rank.sent dest ++ [⟨message, slot, image, body.1⟩]) }

def sendHandle (config : Config size) (self : Fin size) (rank : Rank size) (dest : Fin size) (handlerId : UInt32)
    (args : Args) : Int × Rank size :=
  if config.stagingSize self ≤ rank.stagingIdx then (-1, rank)
  else
    let ss := sendState config self dest
    let announced := Ofi.setRemoteInfoByIndex rank.fabric dest rank.stagingIdx ss.remoteRingBase ss.remoteRingKey 0
    (0, queueMessage config self { rank with fabric := announced } dest ⟨handlerId, args, none, by simp⟩)

def sendPayload (config : Config size) (self : Fin size) (rank : Rank size) (dest : Fin size) (handlerId : UInt32)
    (args : Args) (payload : List UInt8) : Int × Rank size :=
  if fits : payload.length ≤ amMaxPayloadSize then
    if config.stagingSize self ≤ rank.stagingIdx then (-1, rank)
    else (0, queueMessage config self rank dest ⟨handlerId, args, some payload, by simpa using fits⟩)
  else (-1, rank)

def triggerAndWait (rank : Rank size) : Rank size :=
  if rank.maxThreshold = 0 then rank
  else { rank with fabric := Ofi.trigger rank.fabric rank.maxThreshold, waiting := true }

-- wait() returns and trigger_and_wait resets for the next batch.
def waitReturn (rank : Rank size) : Option (Rank size) :=
  if rank.waiting = true ∧ Ofi.waitOver rank.fabric rank.maxThreshold then
    some { rank with stagingIdx := 0, maxThreshold := 0, waiting := false }
  else none

def slotSeq (memory : Memory) (offset : Nat) : UInt64 :=
  UInt64.ofNat (leValue (load memory (offset + seqOffset) seqSize))

def readDelivery (memory : Memory) (offset : Nat) : Delivery :=
  let hdr := Hdr.ofMemory memory (offset + hdrOffset)
  { hdr := hdr
    args := load memory (offset + argsOffset) argsSize
    payload := if hdr.flags &&& amFlagHasPayload ≠ 0 then
        some (load memory (offset + payloadOffset) hdr.payloadLen.toNat)
      else none }

def polledSlot (config : Config size) (self : Fin size) (rank : Rank size) (peer : Fin size) : Nat :=
  slotIdx (rank.expectedSeq peer) (config.nslots self) * amSlotSize

def pollReturn (rank : Rank size) (peer : Fin size) (poller : Poller) : Rank size :=
  { rank with
    polling := Function.update rank.polling peer none
    polled := Function.update rank.polled peer poller.processed }

-- The head of the for loop of am_poll_peer and its test of seq.
def pollCheck (config : Config size) (self : Fin size) (rank : Rank size) (peer : Fin size) : Option (Rank size) :=
  match rank.polling peer with
  | some ⟨left, processed, false⟩ =>
      if left = 0 ∨ slotSeq (rank.inboxSlots peer) (polledSlot config self rank peer) ≠ rank.expectedSeq peer then
        some (pollReturn rank peer ⟨left, processed, false⟩)
      else some { rank with polling := Function.update rank.polling peer (some ⟨left, processed, true⟩) }
  | _ => none

def pollDispatch (config : Config size) (self : Fin size) (rank : Rank size) (peer : Fin size) : Option (Rank size) :=
  match rank.polling peer with
  | some ⟨left, processed, true⟩ =>
      let delivery := readDelivery (rank.inboxSlots peer) (polledSlot config self rank peer)
      some { rank with
        delivered := Function.update rank.delivered peer (rank.delivered peer ++ [delivery])
        expectedSeq := Function.update rank.expectedSeq peer (rank.expectedSeq peer + 1)
        tailSeq := Function.update rank.tailSeq peer (rank.expectedSeq peer + 1 - 1)
        polling := Function.update rank.polling peer (some ⟨left - 1, processed + 1, false⟩) }
  | _ => none

def lookup {Key : Type} [DecidableEq Key] {n : Nat} (keys : Fin n → Key) (key : Key) : Option (Fin n) :=
  (List.finRange n).find? fun place => keys place = key

def sourceBytes (config : Config size) (self : Fin size) (rank : Rank size) (write : RmaWrite) : List UInt8 :=
  match lookup (fun slot : Fin (config.stagingSize self) => config.stagingDesc self slot) write.desc with
  | some slot => load (rank.staging slot) (write.buf - config.stagingBase self slot) write.size
  | none => []

def receive (config : Config size) (self : Fin size) (rank : Rank size) (write : RmaWrite) (bytes : List UInt8) :
    Rank size :=
  match lookup (config.ringKey self) write.remoteKey with
  | some peer =>
      let offset :=
        (if config.virtAddrMode then write.remoteAddr - config.ringBase self peer else write.remoteAddr).toNat
      if offset + bytes.length ≤ config.nslots self * amSlotSize then
        { rank with
          inboxSlots := Function.update rank.inboxSlots peer (store (rank.inboxSlots peer) offset bytes) }
      else rank
  | none => rank

abbrev State (size : Nat) := Fin size → Rank size

def initial (config : Config size) : State size := fun _ => initialRank config

def deliver (config : Config size) (state : State size) (write : RmaWrite) (bytes : List UInt8) : State size :=
  match lookup (fun rank : Fin size => config.avAddr rank) write.destAddr with
  | some dest => Function.update state dest (receive config dest (state dest) write bytes)
  | none => state

def land (config : Config size) (state : State size) (source : Fin size) (index : Nat) : Option (State size) :=
  (fire (state source).fabric.nic index).map fun (work, nic) =>
    let fabric := { (state source).fabric with nic := nic }
    match work.op with
    | .write write =>
        deliver config
          (Function.update state source { state source with
            fabric := fabric
            executed := work.threshold :: (state source).executed })
          write (sourceBytes config source (state source) write)
    | .cntrAdd _ _ => Function.update state source { state source with fabric := fabric }

inductive Action (size : Nat) where
  | sendHandle (self dest : Fin size) (handlerId : UInt32) (args : Args)
  | sendPayload (self dest : Fin size) (handlerId : UInt32) (args : Args) (payload : List UInt8)
  | triggerAndWait (self : Fin size)
  | waitReturn (self : Fin size)
  | triggerKernel (self : Fin size)
  | land (source : Fin size) (index : Nat)
  | poll (self peer : Fin size) (maxPoll : Nat)
  | check (self peer : Fin size)
  | dispatch (self peer : Fin size)

def rankStep (config : Config size) (state : State size) : Action size → Option (Fin size × Rank size)
  | .sendHandle self dest handlerId args =>
      if (state self).waiting then none else some (self, (sendHandle config self (state self) dest handlerId args).2)
  | .sendPayload self dest handlerId args payload =>
      if (state self).waiting then none
      else some (self, (sendPayload config self (state self) dest handlerId args payload).2)
  | .triggerAndWait self => if (state self).waiting then none else some (self, triggerAndWait (state self))
  | .waitReturn self => (waitReturn (state self)).map (self, ·)
  | .triggerKernel self =>
      (Ofi.triggerKernel (state self).fabric).map fun fabric => (self, { state self with fabric := fabric })
  | .poll self peer maxPoll =>
      match (state self).polling peer with
      | some _ => none
      | none => some (self, { state self with
          polling := Function.update (state self).polling peer (some ⟨maxPoll, 0, false⟩) })
  | .check self peer => (pollCheck config self (state self) peer).map (self, ·)
  | .dispatch self peer => (pollDispatch config self (state self) peer).map (self, ·)
  | .land _ _ => none

def step (config : Config size) (state : State size) (action : Action size) : Option (State size) :=
  match action with
  | .land source index => land config state source index
  | other => (rankStep config state other).map fun (self, rank) => Function.update state self rank

def queuedAt (rank : Rank size) (index : Nat) : Option CntrWork := rank.fabric.nic.pending[index]?

def SameDest (work other : CntrWork) : Prop :=
  match work.op, other.op with
  | .write write, .write another => write.destAddr = another.destAddr
  | _, _ => False

-- Of the puts to one peer, the one with the least threshold lands.
def InOrder (rank : Rank size) (index : Nat) : Prop :=
  ∀ work ∈ queuedAt rank index, ∀ other ∈ rank.fabric.nic.pending, SameDest work other →
    work.threshold ≤ other.threshold

def BodyOf (work : CntrWork) (record : Sent) : Prop :=
  match work.op with
  | .write _ => work.threshold = record.threshold
  | .cntrAdd _ _ => False

def SeqOf (work : CntrWork) (record : Sent) : Prop :=
  match work.op with
  | .write _ => work.threshold = record.threshold + 1
  | .cntrAdd _ _ => False

def ReadsImage (config : Config size) (source : Fin size) (rank : Rank size) (work : CntrWork) (record : Sent) : Prop :=
  match work.op with
  | .write write => sourceBytes config source rank write =
      load record.image (write.buf - config.stagingBase source record.slot) write.size
  | .cntrAdd _ _ => True

-- The NIC reads the staging slot as the send has filled it.
def Fresh (config : Config size) (source : Fin size) (rank : Rank size) (index : Nat) : Prop :=
  ∀ work ∈ queuedAt rank index, ∀ dest, ∀ record ∈ rank.sent dest, BodyOf work record ∨ SeqOf work record →
    ReadsImage config source rank work record

-- A seq put lands after the body put of its message.
def AfterBody (rank : Rank size) (index : Nat) : Prop :=
  ∀ work ∈ queuedAt rank index, ∀ dest, ∀ record ∈ rank.sent dest, SeqOf work record →
    record.threshold ∈ rank.executed

-- A body put lands when the message before it in its slot has been dispatched.
def NoOverrun (config : Config size) (state : State size) (source : Fin size) (index : Nat) : Prop :=
  ∀ work ∈ queuedAt (state source) index, ∀ dest, ∀ m < ((state source).sent dest).length,
    ∀ record ∈ ((state source).sent dest)[m]?, BodyOf work record →
      m < ((state dest).delivered source).length + config.nslots dest

-- For each ordered pair at most nslots messages are sent and not yet consumed.
def Within (config : Config size) (state : State size) : Prop :=
  ∀ source dest, ((state source).sent dest).length ≤ ((state dest).delivered source).length + config.nslots dest

def Untorn (config : Config size) (state : State size) : Action size → Prop
  | .land source index =>
      Fresh config source (state source) index ∧ AfterBody (state source) index ∧ NoOverrun config state source index
  | _ => True

def Ordered (config : Config size) (state : State size) (action : Action size) : Prop :=
  (match action with
    | .land source index => InOrder (state source) index ∧ Fresh config source (state source) index
    | _ => True) ∧
  ∀ after ∈ step config state action, Within config after

end OpenGda.Am
