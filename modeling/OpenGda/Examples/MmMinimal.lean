import OpenGda.Examples.MatmulProduct
import OpenGda.Examples.OfiBuffers

set_option autoImplicit false

-- mm_minimal.cpp: the stripes of B move to the left, by a deferred write of gicc::Runtime
-- or, from a neighbour on the same node, by a copy.
namespace OpenGda.Examples.MmMinimal

open Matmul OfiBuffers

def totalRuns : Nat := 10

-- The matrices, the node of each process and whether GICC_DISABLE_IPC is unset there; it takes no Ns_arg.
structure Program (Scalar : Type) extends Memory where
  sizes : Sizes
  plain : sizes.nsArg = 0
  hAs : Nat → Nat → Scalar
  hBs : Nat → Nat → Scalar
  node : Fin sizes.npes → Nat
  useIpc : Fin sizes.npes → Bool

section Program

variable {Scalar : Type} (program : Program Scalar)

def leftIsLocal (mype : Fin program.sizes.npes) : Bool :=
  program.useIpc mype && program.node (left program.sizes mype) == program.node mype

def rightIsLocal (mype : Fin program.sizes.npes) : Bool :=
  program.useIpc mype && program.node (right program.sizes mype) == program.node mype

def needDwq (mype : Fin program.sizes.npes) : Bool := ! leftIsLocal program mype

def ring : Ring program.sizes where
  source := right program.sizes
  serves
    | .push, receiver => needDwq program (right program.sizes receiver)
    | .pull, receiver => rightIsLocal program receiver

def stripeSize : Nat := stripe program.sizes * 4

abbrev gB (mype : Fin program.sizes.npes) (which : Nat) : Rt.Buffer :=
  gbuf program.toMemory (stripeSize program) mype which

-- The warm-up's put to the left neighbour, which the trigger kernel releases and the NIC completes
-- before rt.reset(); `none` where a call exits or does not return.
def warmUp (mype : Fin program.sizes.npes) (rt : Rt.Runtime) : Option Rt.Runtime :=
  (Rt.putNoDb rt (gB program mype 0) (left program.sizes mype) 0 (stripeSize program) 0 0).bind fun wtok =>
    (Rt.completeWrite (Rt.flush (Rt.prepareTrigger wtok.2)) 0).bind fun written =>
      (Rt.completeAtomic written 0).bind Rt.reset

def totalRounds : Nat := totalRuns * (program.sizes.npes + 1)

end Program

section System

variable {Scalar : Type} [CommSemiring Scalar]

-- `landed` is by slot.
structure Rank (Scalar : Type) extends Process Scalar where
  rt : Rt.Runtime
  enqueued : Bool
  tok : Option Rt.Token
  triggered : Bool
  landed : Nat → Nat → Bool
  pulled : Nat → Bool
  waited : Bool

def freshRank (process : Process Scalar) (rt : Rt.Runtime) : Rank Scalar :=
  ⟨process, rt, false, none, false, fun _ _ => false, fun _ => false, false⟩

variable (program : Program Scalar)

abbrev State (program : Program Scalar) := Fin program.sizes.npes → Rank Scalar

-- After the warm-up, which leaves a Runtime without a batch and anything in the buffers.
def start (rt : Fin program.sizes.npes → Rt.Runtime) (garbage : Place program.sizes → Scalar)
    (cs : Fin program.sizes.npes → Nat → Scalar) : State program := fun mype =>
  freshRank (freshProcess 0 (fun which index => garbage ⟨mype, which, index⟩) (cs mype)) (rt mype)

inductive Action (program : Program Scalar) where
  | clear (mype : Fin program.sizes.npes)
  | refill (mype : Fin program.sizes.npes) (which index : Nat)
  | refilled (mype : Fin program.sizes.npes)
  | enqueue (mype : Fin program.sizes.npes)
  | trigger (mype : Fin program.sizes.npes)
  | land (mype target : Fin program.sizes.npes) (index word : Nat)
  | completeWrite (mype : Fin program.sizes.npes) (index : Nat)
  | completeAtomic (mype : Fin program.sizes.npes) (index : Nat)
  | pull (mype : Fin program.sizes.npes) (index : Nat)
  | thread (mype : Fin program.sizes.npes) (thread : Nat × Nat)
  | sync (mype : Fin program.sizes.npes)
  | wait (mype : Fin program.sizes.npes)
  | finish (mype : Fin program.sizes.npes)
  | leave (mype : Fin program.sizes.npes)

def AllPulled (now : Rank Scalar) : Prop := ∀ index < stripe program.sizes, now.pulled index = true

-- The default stream: the trigger kernel, then the copy, then the product.
def Triggered (mype : Fin program.sizes.npes) (now : Rank Scalar) : Prop :=
  needDwq program mype = true → now.triggered = true

def Pulled (mype : Fin program.sizes.npes) (now : Rank Scalar) : Prop :=
  rightIsLocal program mype = true → AllPulled program now

def Waited (now : Rank Scalar) : Prop := ∃ tok ∈ now.tok, Rt.waitOver now.rt tok

instance (now : Rank Scalar) : Decidable (Waited now) := inferInstanceAs (Decidable (∃ _ ∈ _, _))
instance (now : Rank Scalar) : Decidable (AllPulled program now) := inferInstanceAs (Decidable (∀ _ < _, _))
instance (mype : Fin program.sizes.npes) (now : Rank Scalar) : Decidable (Triggered program mype now) :=
  inferInstanceAs (Decidable (_ → _))
instance (mype : Fin program.sizes.npes) (now : Rank Scalar) : Decidable (Pulled program mype now) :=
  inferInstanceAs (Decidable (_ → ∀ _ < _, _))

def Passed (state : State program) (mype other : Fin program.sizes.npes) : Prop :=
  ((state other).round = (state mype).round ∧ (state other).waiting = true) ∨ (state mype).round < (state other).round

instance (state : State program) (mype other : Fin program.sizes.npes) : Decidable (Passed program state mype other) :=
  inferInstanceAs (Decidable (_ ∨ _))

-- put_no_db and prepare_trigger, where the left neighbour is on another node; `none` is the exit.
def enqueue (mype : Fin program.sizes.npes) (now : Rank Scalar) : Option (Rank Scalar) :=
  let s := stepOf program.sizes now.round
  if needDwq program mype then
    (Rt.putNoDb now.rt (gB program mype (curBuf s)) (left program.sizes mype) (nextBuf s) (stripeSize program) 0 0).map
      fun result => { now with rt := Rt.prepareTrigger result.2, tok := some result.1, enqueued := true }
  else some { now with enqueued := true }

-- rt.reset(), where a token was waited for, and the step's barrier.
def finish (now : Rank Scalar) : Option (Rank Scalar) :=
  match now.tok with
  | some _ => (Rt.reset now.rt).map fun rt => { now with rt := rt, tok := none, waiting := true }
  | none => some { now with waiting := true }

def step (state : State program) : Action program → Option (State program)
  | .clear mype =>
      let now := state mype
      if now.round < totalRounds program ∧ stage program.sizes now.round = 0 ∧ now.cleared = false then
        some (Function.update state mype { now with toProcess := clearCs program.sizes now.toProcess })
      else none
  | .refill mype which index =>
      let now := state mype
      if now.cleared = true ∧ now.waiting = false ∧ Refills program.sizes now.round which index ∧
          now.refilled which index = false then
        some (Function.update state mype { now with
          toProcess := refillWord now.toProcess which index (program.hBs mype index) })
      else none
  | .refilled mype =>
      let now := state mype
      if stage program.sizes now.round = 0 ∧ now.cleared = true ∧ now.waiting = false ∧ AllRefilled program.sizes now.toProcess then
        some (Function.update state mype { now with waiting := true })
      else none
  | .enqueue mype =>
      let now := state mype
      if stage program.sizes now.round ≠ 0 ∧ now.enqueued = false then
        (enqueue program mype now).map fun next => Function.update state mype next
      else none
  | .trigger mype =>
      let now := state mype
      if now.tok.isSome = true ∧ now.triggered = false then
        some (Function.update state mype { now with rt := Rt.flush now.rt, triggered := true })
      else none
  | .land mype target index word =>
      let now := state mype
      match landing program.toMemory (stripeSize program) now.rt now.landed mype target index word with
      | some (slot, source, cell) =>
          let sent : State program := Function.update state mype { now with
            landed := Function.update now.landed slot (Function.update (now.landed slot) word true) }
          let receiver := sent target
          some (Function.update sent target { receiver with
            toProcess := storeWord receiver.toProcess cell.1 cell.2 (now.dB source.1 source.2) })
      | none => none
  | .completeWrite mype index =>
      let now := state mype
      if ∀ work ∈ now.rt.writes[index]?, WholeLanded now.landed work then
        (Rt.completeWrite now.rt index).map fun rt => Function.update state mype { now with rt := rt }
      else none
  | .completeAtomic mype index =>
      let now := state mype
      (Rt.completeAtomic now.rt index).map fun rt => Function.update state mype { now with rt := rt }
  | .pull mype index =>
      let now := state mype
      let s := stepOf program.sizes now.round
      if now.enqueued = true ∧ rightIsLocal program mype = true ∧ Triggered program mype now ∧
          index < stripe program.sizes ∧ now.pulled index = false then
        some (Function.update state mype { now with
          toProcess := storeWord now.toProcess (nextBuf s) index ((state (right program.sizes mype)).dB (curBuf s) index)
          pulled := Function.update now.pulled index true })
      else none
  | .thread mype thread =>
      let now := state mype
      let s := stepOf program.sizes now.round
      if now.enqueued = true ∧ Triggered program mype now ∧ Pulled program mype now ∧ InGrid program.sizes thread ∧
          now.kernel.progress thread < operations program.sizes thread then
        some (Function.update state mype { now with
          toProcess := runThread program.sizes (program.hAs mype) mype s now.toProcess thread })
      else none
  | .sync mype =>
      let now := state mype
      if now.enqueued = true ∧ now.synced = false ∧ Triggered program mype now ∧ Pulled program mype now ∧
          KernelDone program.sizes now.kernel then
        some (Function.update state mype { now with synced := true })
      else none
  | .wait mype =>
      let now := state mype
      if now.synced = true ∧ now.waited = false ∧ Waited now then
        some (Function.update state mype { now with waited := true })
      else none
  | .finish mype =>
      let now := state mype
      if now.synced = true ∧ now.waiting = false ∧ (now.tok.isSome = true → now.waited = true) then
        (finish now).map fun next => Function.update state mype next
      else none
  | .leave mype =>
      let now := state mype
      if now.waiting = true ∧ ∀ other, Passed program state mype other then
        some (Function.update state mype (freshRank (freshProcess (now.round + 1) now.dB now.kernel.cs) now.rt))
      else none

end System

end OpenGda.Examples.MmMinimal
