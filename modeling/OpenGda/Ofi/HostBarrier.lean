import OpenGda.Lib.Machine
import OpenGda.Lib.Dissemination

set_option autoImplicit false

-- The FI_MSG dissemination barrier of ofi_barrier.hpp, run by every rank at
-- once over a network that delays and reorders but neither drops nor copies.
namespace OpenGda.HostBarrier

open Dissemination Machine

def maxSteps : Nat := 20
def recvPoolSize : Nat := 64

-- for (int n = 1; n < size; n <<= 1) steps++;
def steps (size : Nat) : Nat := doublings size size 1

variable {size : Nat}

def peerFwd (rank : Fin size) (k : Nat) : Fin size :=
  ⟨(rank.val + 2 ^ k) % size, Nat.mod_lt _ rank.pos⟩

theorem peer_bwd_inside (rank : Fin size) (k : Nat) : (rank.val + size - 2 ^ k) % size < size := Nat.mod_lt _ rank.pos

def peerBwd (rank : Fin size) (k : Nat) : Fin size := ⟨(rank.val + size - 2 ^ k) % size, peer_bwd_inside rank k⟩

def immData (phase k : Nat) : Nat := (phase <<< 8) ||| k

-- A receiver reads `data` only. `call` and `step` are ghost: which of its
-- sender's barrier() calls the message belongs to, and which step of it.
structure Message (size : Nat) where
  source : Fin size
  call : Nat
  step : Nat
  data : Nat
deriving DecidableEq, Repr

structure CqEntry (size : Nat) where
  message : Message size
  opContext : Nat
deriving DecidableEq, Repr

inductive Pc where
  | outside
  | sending (k : Nat)
  | waiting (k : Nat)
deriving DecidableEq, Repr

-- `calls` is ghost: how many times the rank has entered barrier().
structure Endpoint (size : Nat) where
  calls : Nat
  phase : Nat
  arrived : Nat → Nat → Bool
  pendingRepost : List Nat
  posted : List Nat
  cq : List (CqEntry size)
  pc : Pc

structure State (size : Nat) where
  ranks : Fin size → Endpoint size
  -- What has been injected towards each rank and has not reached its CQ, oldest first.
  net : Fin size → List (Message size)

def initialEndpoint (size : Nat) : Endpoint size where
  calls := 0
  phase := 0
  arrived := fun _ _ => false
  pendingRepost := []
  posted := List.range recvPoolSize
  cq := []
  pc := .outside

def initial (size : Nat) : State size := ⟨fun _ => initialEndpoint size, fun _ => []⟩

-- The head of the for loop over k, and the batch repost once it is left.
def loopHead (endpoint : Endpoint size) (k : Nat) : Endpoint size :=
  if k < steps size then { endpoint with pc := .sending k }
  else { endpoint with posted := endpoint.posted ++ endpoint.pendingRepost, pc := .outside }

def clearPhase (arrived : Nat → Nat → Bool) (phase count : Nat) : Nat → Nat → Bool :=
  fun p k => if p = phase ∧ k < count then false else arrived p k

def enterBarrier (endpoint : Endpoint size) : Endpoint size :=
  if size = 1 then { endpoint with calls := endpoint.calls + 1 }
  else
    let phase := endpoint.phase ^^^ 1
    loopHead { endpoint with
      calls := endpoint.calls + 1
      phase := phase
      arrived := clearPhase endpoint.arrived phase (steps size)
      pendingRepost := [] } 0

def recordArrival (arrived : Nat → Nat → Bool) (imm : Nat) : Nat → Nat → Bool :=
  let msgPhase := (imm >>> 8) &&& 0xFF
  let msgStep := imm &&& 0xFF
  if msgStep < maxSteps then fun p k => if p = msgPhase ∧ k = msgStep then true else arrived p k
  else arrived

def pollCqDefer (endpoint : Endpoint size) : Endpoint size :=
  match endpoint.cq with
  | [] => endpoint
  | entry :: rest => { endpoint with
      arrived := recordArrival endpoint.arrived entry.message.data
      pendingRepost := endpoint.pendingRepost ++ [entry.opContext]
      cq := rest }

def pollCqNodefer (endpoint : Endpoint size) : Endpoint size :=
  match endpoint.cq with
  | [] => endpoint
  | entry :: rest => { endpoint with
      arrived := recordArrival endpoint.arrived entry.message.data
      posted := endpoint.posted ++ [entry.opContext]
      cq := rest }

-- One turn of `while (!arrived[phase][k]) poll_cq_defer();`.
def waitStep (endpoint : Endpoint size) (k : Nat) : Endpoint size :=
  if endpoint.arrived endpoint.phase k then loopHead endpoint (k + 1) else pollCqDefer endpoint

def stepMessage (rank : Fin size) (endpoint : Endpoint size) (k : Nat) : Message size :=
  ⟨rank, endpoint.calls, k, immData endpoint.phase k⟩

-- `retry` is the turn of the send loop in which fi_injectdata gave -FI_EAGAIN.
inductive Action (size : Nat) where
  | enter (rank : Fin size)
  | inject (rank : Fin size)
  | retry (rank : Fin size)
  | wait (rank : Fin size)
  | deliver (rank : Fin size) (index : Nat)
deriving DecidableEq, Repr

def setRank (state : State size) (rank : Fin size) (endpoint : Endpoint size) : State size :=
  { state with ranks := Function.update state.ranks rank endpoint }

def step (state : State size) : Action size → Option (State size)
  | .enter rank =>
      match (state.ranks rank).pc with
      | .outside => some (setRank state rank (enterBarrier (state.ranks rank)))
      | _ => none
  | .inject rank =>
      match (state.ranks rank).pc with
      | .sending k => some
          { ranks := Function.update state.ranks rank { state.ranks rank with pc := .waiting k }
            net := Function.update state.net (peerFwd rank k)
              (state.net (peerFwd rank k) ++ [stepMessage rank (state.ranks rank) k]) }
      | _ => none
  | .retry rank =>
      match (state.ranks rank).pc with
      | .sending _ => some (setRank state rank (pollCqNodefer (state.ranks rank)))
      | _ => none
  | .wait rank =>
      match (state.ranks rank).pc with
      | .waiting k => some (setRank state rank (waitStep (state.ranks rank) k))
      | _ => none
  | .deliver rank index =>
      match (state.net rank)[index]?, (state.ranks rank).posted with
      | some message, buffer :: posted => some
          { ranks := Function.update state.ranks rank { state.ranks rank with
              posted := posted
              cq := (state.ranks rank).cq ++ [⟨message, buffer⟩] }
            net := Function.update state.net rank ((state.net rank).eraseIdx index) }
      | _, _ => none

-- FIFO per sender pair: a message is delivered only once every older one of its sender has been.
def Fifo (state : State size) : Action size → Prop
  | .deliver rank index =>
      ∀ message, (state.net rank)[index]? = some message →
        ∀ older ∈ (state.net rank).take index, older.source ≠ message.source
  | _ => True

instance (state : State size) (action : Action size) : Decidable (Fifo state action) := by
  cases action with
  | deliver rank index =>
      simp only [Fifo]
      cases found : (state.net rank)[index]? with
      | none => exact isTrue (by simp)
      | some message =>
          exact decidable_of_iff (∀ older ∈ (state.net rank).take index, older.source ≠ message.source)
            (by simp)
  | _ => exact isTrue trivial

def Endpoint.position (endpoint : Endpoint size) : Nat :=
  match endpoint.pc with
  | .outside => steps size
  | .sending k => k
  | .waiting k => k

def Endpoint.sentSteps (endpoint : Endpoint size) : Nat :=
  match endpoint.pc with
  | .outside => steps size
  | .sending k => k
  | .waiting k => k + 1

def Passed (endpoint : Endpoint size) (call k : Nat) : Prop :=
  call < endpoint.calls ∨ (call = endpoint.calls ∧ k < endpoint.position)

def Sent (endpoint : Endpoint size) (call k : Nat) : Prop :=
  call < endpoint.calls ∨ (call = endpoint.calls ∧ k < endpoint.sentSteps)

def Endpoint.returned (endpoint : Endpoint size) : Nat :=
  match endpoint.pc with
  | .outside => endpoint.calls
  | _ => endpoint.calls - 1

def unread (state : State size) (rank : Fin size) : List (Message size) :=
  (state.ranks rank).cq.map CqEntry.message ++ state.net rank

end OpenGda.HostBarrier
