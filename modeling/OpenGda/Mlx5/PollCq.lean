import OpenGda.Mlx5.GpuComm
import OpenGda.Lib.Machine

set_option autoImplicit false

-- gda_poll_cq (device.cuh) on the device states that the GpuComm constructor leaves
-- behind, and the NIC that writes CQEs of 64 bytes.
namespace OpenGda.GpuComm.PollCq

open Machine

inductive Pointer where
  | null
  | mapped
deriving DecidableEq, Repr

structure DeviceState where
  cqe : Pointer
  ncqes : Nat
  ncqesMask : Nat
  numCompletions : Pointer
deriving DecidableEq, Repr

structure SharedCq where
  dCqe : Pointer
  cqDepth : Nat

structure Comm (size : Nat) where
  dNumCompletions : Pointer
  hStatePerPeer : Fin size → Option DeviceState

variable {size : Nat}

def setupDeviceStateForPeer (cq : SharedCq) (mlx5 : DevxContext size) (comm : Comm size) (peer : Fin size) : Comm size :=
  match mlx5.peerQps peer with
  | none => comm
  | some _ =>
      let state : DeviceState :=
        { cqe := cq.dCqe
          ncqes := cq.cqDepth
          ncqesMask := (cq.cqDepth + (2 ^ 32 - 1)) % 2 ^ 32
          numCompletions := comm.dNumCompletions }
      { comm with hStatePerPeer := Function.update comm.hStatePerPeer peer (some state) }

def setupDeviceStates (cq : SharedCq) (mlx5 : DevxContext size) (comm : Comm size) : Comm size :=
  (List.finRange size).foldl (setupDeviceStateForPeer cq mlx5) comm

def allocateCompletionCounter (comm : Comm size) : Comm size := { comm with dNumCompletions := .mapped }

-- The end of the constructor, after exchange_and_connect; d_num_completions starts null.
def gpuComm (cq : SharedCq) (mlx5 : DevxContext size) : Comm size :=
  allocateCompletionCounter (setupDeviceStates cq mlx5 ⟨.null, fun _ => none⟩)

-- The packed Cqe64: rsvd0[46], wqe_counter, signature, op_own.
def offsetOpOwn : Nat := 46 + 2 + 1
def sizeofCqe64 : Nat := offsetOpOwn + 1

def owner (opOwn : BitVec 8) : BitVec 8 := opOwn &&& 1
def opcode (opOwn : BitVec 8) : BitVec 8 := (opOwn >>> 4) &&& 0x0F

def codeOf (opOwn : BitVec 8) : Int :=
  if opcode opOwn = 0x00 then 0
  else if opcode opOwn = 0x0D then -2
  else 0

structure Poll where
  cqeIdx : Nat
  expectedOwner : BitVec 8
  timeout : Nat
deriving DecidableEq, Repr

-- `counter` is what num_completions points to; `returns` and `written` are ghost.
structure State where
  buffer : Nat → BitVec 8
  counter : Nat
  poll : Option Poll
  returns : List Int
  written : Nat

def start : State := ⟨fun _ => 0xFF, 0, none, [], 0⟩

def State.leave (state : State) (code : Int) : State := { state with poll := none, returns := state.returns ++ [code] }

def enter (device : DeviceState) (state : State) : State :=
  if device.cqe = .null then state.leave 0
  else
    let startCompletions := if device.numCompletions = .null then 0 else state.counter
    let poll : Poll :=
      { cqeIdx := startCompletions &&& device.ncqesMask
        expectedOwner := BitVec.ofNat 8 (startCompletions / device.ncqes) &&& 1
        timeout := 10000000 }
    { state with poll := some poll }

def turn (device : DeviceState) (state : State) (poll : Poll) : State :=
  if poll.timeout = 0 then state.leave (-1)
  else
    let opOwn := state.buffer (poll.cqeIdx * sizeofCqe64 + offsetOpOwn)
    if owner opOwn = poll.expectedOwner then
      let counter := if device.numCompletions = .null then state.counter else (state.counter + 1) % 2 ^ 64
      { state with counter := counter }.leave (codeOf opOwn)
    else { state with poll := some { poll with timeout := poll.timeout - 1 } }

def zeros (state : State) : Nat := state.returns.count 0

def polled (state : State) : Nat := state.returns.countP (· ≠ -1)

-- Only the last byte of a record is prescribed, and of that the owner bit.
def cqeByte (records : Nat → Nat → BitVec 8) (ncqes item offset : Nat) : BitVec 8 :=
  if offset = 63 then (records item 63 &&& 0xFE) ||| BitVec.ofNat 8 (item / ncqes % 2) else records item offset

def writeCqe (records : Nat → Nat → BitVec 8) (ncqes : Nat) (state : State) : State :=
  let slot := 64 * (state.written % ncqes)
  { state with
    buffer := fun place =>
      if slot ≤ place ∧ place < slot + 64 then cqeByte records ncqes state.written (place - slot) else state.buffer place
    written := state.written + 1 }

inductive Action where
  | call
  | turn
  | write
deriving DecidableEq, Repr

def step (device : DeviceState) (records : Nat → Nat → BitVec 8) (state : State) : Action → Option State
  | .call => if state.poll = none then some (enter device state) else none
  | .turn => state.poll.map fun poll => turn device state poll
  | .write =>
      if state.written < polled state + device.ncqes then some (writeCqe records device.ncqes state) else none

def Succeeds (opOwn : BitVec 8) : Prop := owner opOwn = 0 ∧ codeOf opOwn = 0
def Fails (opOwn : BitVec 8) : Prop := owner opOwn = 0 ∧ codeOf opOwn ≠ 0

instance (opOwn : BitVec 8) : Decidable (Succeeds opOwn) := inferInstanceAs (Decidable (_ ∧ _))
instance (opOwn : BitVec 8) : Decidable (Fails opOwn) := inferInstanceAs (Decidable (_ ∧ _))

def firstSlotByte (records : Nat → Nat → BitVec 8) (ncqes lap : Nat) : BitVec 8 := records (lap * ncqes) offsetOpOwn

-- The condition: that byte never reads as a success, so that no call ever returns 0.
def NeverSucceeds (records : Nat → Nat → BitVec 8) (ncqes : Nat) : Prop :=
  ¬ Succeeds (firstSlotByte records ncqes 0) ∧
    (Fails (firstSlotByte records ncqes 0) → ∀ lap, ¬ Succeeds (firstSlotByte records ncqes lap))

theorem code_cases (opOwn : BitVec 8) : codeOf opOwn = 0 ∨ codeOf opOwn = -2 := by
  rw [codeOf]
  split
  · exact .inl rfl
  · split
    · exact .inr rfl
    · exact .inl rfl

theorem states_counterless (cq : SharedCq) (mlx5 : DevxContext size) (peers : List (Fin size)) (comm : Comm size)
    (null : comm.dNumCompletions = .null)
    (earlier : ∀ peer device, comm.hStatePerPeer peer = some device →
      device.cqe = cq.dCqe ∧ device.ncqes = cq.cqDepth ∧ device.numCompletions = .null)
    (peer : Fin size) (device : DeviceState)
    (found : (peers.foldl (setupDeviceStateForPeer cq mlx5) comm).hStatePerPeer peer = some device) :
    device.cqe = cq.dCqe ∧ device.ncqes = cq.cqDepth ∧ device.numCompletions = .null := by
  induction peers generalizing comm with
  | nil => exact earlier peer device found
  | cons first rest ih =>
      refine ih (setupDeviceStateForPeer cq mlx5 comm first) ?_ ?_ found
      · cases qp : mlx5.peerQps first <;> simp [setupDeviceStateForPeer, qp, null]
      · intro other state present
        cases qp : mlx5.peerQps first with
        | none =>
            simp only [setupDeviceStateForPeer, qp] at present
            exact earlier other state present
        | some _ =>
            simp only [setupDeviceStateForPeer, qp] at present
            by_cases same : other = first
            · subst same
              rw [Function.update_self, Option.some.injEq] at present
              subst present
              exact ⟨rfl, rfl, null⟩
            · rw [Function.update_of_ne same] at present
              exact earlier other state present

theorem constructed_state (cq : SharedCq) (mlx5 : DevxContext size) (peer : Fin size) (device : DeviceState)
    (found : (gpuComm cq mlx5).hStatePerPeer peer = some device) :
    device.cqe = cq.dCqe ∧ device.ncqes = cq.cqDepth ∧ device.numCompletions = .null :=
  states_counterless cq mlx5 (List.finRange size) ⟨.null, fun _ => none⟩ rfl
    (fun _ _ absent => absurd absent (by simp)) peer device found

end OpenGda.GpuComm.PollCq
