import OpenGda.Ofi.ActiveMessage

set_option autoImplicit false

-- What travels: the image of a slot, its two parts, and what a receiver reads back.
namespace OpenGda.Am

open ByteMemory DeferredWork Machine SequenceRing
open Ofi (Fabric RmaWrite CntrWork Handle)

variable {size : Nat}

theorem lookup_key {Key : Type} [DecidableEq Key] {n : Nat} (keys : Fin n → Key)
    (distinct : Function.Injective keys) (place : Fin n) : lookup keys (keys place) = some place := by
  unfold lookup
  cases found : (List.finRange n).find? fun other => decide (keys other = keys place) with
  | none =>
      have absent := List.find?_eq_none.mp found place (List.mem_finRange place)
      simp at absent
  | some other =>
      have same := List.find?_some found
      rw [distinct (of_decide_eq_true same)]

def Message.body (message : Message) (src : Nat) : List UInt8 :=
  (message.header src).toBytes ++ (message.args.bytes ++ message.payloadBytes)

def Message.delivery (message : Message) (src : Nat) : Delivery :=
  ⟨message.header src, message.args.bytes, message.payload⟩

@[simp] theorem hdr_bytes_length (hdr : Hdr) : hdr.toBytes.length = hdrSize := by
  simp [Hdr.toBytes, hdrSize]

theorem body_length (message : Message) (src : Nat) : (message.body src).length = message.bodySize := by
  simp only [Message.body, Message.bodySize, List.length_append, hdr_bytes_length, message.args.sized]
  omega

theorem payload_fits (message : Message) : message.payloadBytes.length ≤ amMaxPayloadSize := by
  cases payload : message.payload with
  | none => simp [Message.payloadBytes, payload]
  | some bytes => simpa [Message.payloadBytes, payload] using message.fits bytes payload

theorem image_seq (src : Nat) (seq : UInt64) (message : Message) :
    load (fillSlot src seq message) seqOffset seqSize = leBytes seqSize seq.toNat := by
  unfold fillSlot
  rw [load_store_apart _ payloadOffset _ _ _ (Or.inl (by decide)),
    load_store_apart _ argsOffset _ _ _ (Or.inl (by decide)), load_store_apart _ hdrOffset _ _ _ (Or.inl (by decide))]
  simpa only [le_bytes_length] using load_store_same zeros seqOffset (leBytes seqSize seq.toNat)

theorem image_body (src : Nat) (seq : UInt64) (message : Message) :
    load (fillSlot src seq message) hdrOffset message.bodySize = message.body src := by
  have header := hdr_bytes_length (message.header src)
  have args := message.args.sized
  have hdrPart : load (fillSlot src seq message) hdrOffset hdrSize = (message.header src).toBytes := by
    unfold fillSlot
    rw [load_store_apart _ payloadOffset _ _ _ (Or.inl (by decide)),
      load_store_apart _ argsOffset _ _ _ (Or.inl (by decide)), ← header, load_store_same]
  have argsPart : load (fillSlot src seq message) (hdrOffset + hdrSize) argsSize = message.args.bytes := by
    unfold fillSlot
    rw [load_store_apart _ payloadOffset _ _ _ (Or.inl (by decide)), ← args]
    exact load_store_same _ argsOffset message.args.bytes
  have payloadPart : load (fillSlot src seq message) (hdrOffset + (hdrSize + argsSize)) message.payloadBytes.length =
      message.payloadBytes := load_store_same _ payloadOffset message.payloadBytes
  rw [Message.bodySize, load_append, load_append, hdrPart, argsPart, payloadPart, Message.body, List.append_assoc]

theorem hdr_of_memory (memory : Memory) (offset : Nat) (hdr : Hdr)
    (bytes : load memory offset hdrSize = hdr.toBytes) : Hdr.ofMemory memory offset = hdr := by
  rw [show hdrSize = 2 + (2 + (2 + 2)) from rfl, load_append, load_append, load_append, Hdr.toBytes,
    List.append_assoc, List.append_assoc] at bytes
  obtain ⟨handlerId, bytes⟩ := List.append_inj bytes (by simp)
  obtain ⟨srcRank, bytes⟩ := List.append_inj bytes (by simp)
  obtain ⟨payloadLen, tail⟩ := List.append_inj bytes (by simp)
  have last : [memory (offset + 2 + 2 + 2), memory (offset + 2 + 2 + 2 + 1)] = [hdr.flags, hdr.reserved] := tail
  obtain ⟨flags, reserved⟩ : memory (offset + 6) = hdr.flags ∧ memory (offset + 7) = hdr.reserved := by
    simpa using last
  simp only [Hdr.ofMemory, handlerId, srcRank, payloadLen, flags, reserved, uint16_round_trip]

theorem has_payload_flag (message : Message) (src : Nat) :
    (message.header src).flags &&& amFlagHasPayload ≠ 0 ↔ message.payload.isSome = true := by
  have flags : amFlagHasPayload &&& amFlagHasPayload = amFlagHasPayload ∧ amFlagHasPayload ≠ 0 ∧ amFlagHandleOnly &&& amFlagHasPayload = 0 := by decide
  cases payload : message.payload with
  | none => simp [Message.header, payload, flags.2.2]
  | some bytes => simp [Message.header, payload, flags.1, flags.2.1]

theorem payload_len (message : Message) (src : Nat) :
    (message.header src).payloadLen.toNat = message.payloadBytes.length := by
  have fits := payload_fits message
  simp only [Message.header, UInt16.toNat_ofNat']
  exact Nat.mod_eq_of_lt (by simp only [amMaxPayloadSize] at fits; omega)

theorem read_delivery_body (memory : Memory) (offset src : Nat) (message : Message)
    (bytes : load memory (offset + hdrOffset) message.bodySize = message.body src) :
    readDelivery memory offset = message.delivery src := by
  rw [Message.bodySize, load_append, load_append, Message.body, List.append_assoc] at bytes
  obtain ⟨header, bytes⟩ := List.append_inj bytes (by simp)
  obtain ⟨args, payload⟩ := List.append_inj bytes (by simp [message.args.sized])
  have hdr := hdr_of_memory memory (offset + hdrOffset) (message.header src) header
  have found := has_payload_flag message src
  simp only [readDelivery, hdr, payload_len]
  cases sent : message.payload with
  | none =>
      have off : ¬ (message.header src).flags &&& amFlagHasPayload ≠ 0 := by simp [found, sent]
      rw [if_neg off]
      rw [Message.delivery, sent]
      exact congrArg (Delivery.mk _ · none) args
  | some content =>
      have on : (message.header src).flags &&& amFlagHasPayload ≠ 0 := by simp [found, sent]
      have whole : message.payloadBytes = content := by simp [Message.payloadBytes, sent]
      rw [if_pos on]
      rw [Message.delivery, sent]
      rw [whole] at payload ⊢
      exact congrArg₂ (Delivery.mk _ · <| some ·) args payload

end OpenGda.Am
