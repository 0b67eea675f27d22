import OpenGda.Examples.MatmulProduct

set_option autoImplicit false

-- mm.cu: the stripes of B move to the right, by a gicc::put that nobody waits for.
namespace OpenGda.Examples.Mm

open Matmul

def totalRuns : Nat := 10

structure Program (Scalar : Type) where
  sizes : Sizes
  hAs : Nat → Nat → Scalar
  hBs : Nat → Nat → Scalar

-- What a put moves: it takes (uint32_t)stripe_size.
def putSize (sizes : Sizes) : Nat := stripe sizes * 4 % 2 ^ 32

section Program

variable {Scalar : Type} (program : Program Scalar)

def ring : Ring program.sizes where
  source := left program.sizes
  serves
    | .push, _ => true
    | .pull, _ => false

def putWords : Nat := putSize program.sizes / 4

def totalRounds : Nat := totalRuns * (program.sizes.npes + 1)

end Program

section System

variable {Scalar : Type} [CommSemiring Scalar]

-- The puts are named by the rounds they are posted in; one posted may land in a later round.
structure Rank (Scalar : Type) extends Process Scalar where
  posted : Nat → Bool
  landed : Nat → Nat → Bool

def start (program : Program Scalar) (garbage : Place program.sizes → Scalar)
    (cs : Fin program.sizes.npes → Nat → Scalar) : Fin program.sizes.npes → Rank Scalar := fun mype =>
  ⟨freshProcess 0 (fun which index => garbage ⟨mype, which, index⟩) (cs mype), fun _ => false, fun _ _ => false⟩

variable (program : Program Scalar)

abbrev State (program : Program Scalar) := Fin program.sizes.npes → Rank Scalar

inductive Action (program : Program Scalar) where
  | clear (mype : Fin program.sizes.npes)
  | refill (mype : Fin program.sizes.npes) (which index : Nat)
  | refilled (mype : Fin program.sizes.npes)
  | put (mype : Fin program.sizes.npes)
  | land (mype : Fin program.sizes.npes) (round index : Nat)
  | thread (mype : Fin program.sizes.npes) (thread : Nat × Nat)
  | sync (mype : Fin program.sizes.npes)
  | leave (mype : Fin program.sizes.npes)

def AllLanded (now : Rank Scalar) (round : Nat) : Prop := ∀ index < putWords program, now.landed round index = true

-- The send queue delivers its puts one after the other.
def Next (now : Rank Scalar) (round : Nat) : Prop :=
  now.posted round = true ∧ ∀ earlier < round, now.posted earlier = true → AllLanded program now earlier

def Passed (state : State program) (mype other : Fin program.sizes.npes) : Prop :=
  ((state other).round = (state mype).round ∧ (state other).waiting = true) ∨ (state mype).round < (state other).round

instance (now : Rank Scalar) (round : Nat) : Decidable (AllLanded program now round) :=
  inferInstanceAs (Decidable (∀ _ < _, _))
instance (now : Rank Scalar) (round : Nat) : Decidable (Next program now round) :=
  inferInstanceAs (Decidable (_ ∧ ∀ _ < _, _ → ∀ _ < _, _))
instance (state : State program) (mype other : Fin program.sizes.npes) : Decidable (Passed program state mype other) :=
  inferInstanceAs (Decidable (_ ∨ _))

-- The refill up to its barrier, the two kernels of a step one after the other, the host's barrier once
-- cudaDeviceSynchronize has returned, and the NICs.
def step (state : State program) : Action program → Option (State program)
  | .clear mype =>
      let now := state mype
      if now.round < totalRounds program ∧ stage program.sizes now.round = 0 ∧ now.cleared = false then
        some (Function.update state mype { now with toProcess := clearCs program.sizes now.toProcess })
      else none
  | .refill mype which index =>
      let now := state mype
      if now.cleared = true ∧ now.waiting = false ∧ Refills program.sizes now.round which index ∧
          now.refilled which index = false then
        some (Function.update state mype { now with
          toProcess := refillWord now.toProcess which index (program.hBs mype index) })
      else none
  | .refilled mype =>
      let now := state mype
      if stage program.sizes now.round = 0 ∧ now.cleared = true ∧ now.waiting = false ∧
          AllRefilled program.sizes now.toProcess then
        some (Function.update state mype { now with waiting := true })
      else none
  | .put mype =>
      let now := state mype
      if stage program.sizes now.round ≠ 0 ∧ now.posted now.round = false then
        some (Function.update state mype { now with posted := Function.update now.posted now.round true })
      else none
  | .land mype round index =>
      let now := state mype
      let s := stepOf program.sizes round
      if Next program now round ∧ index < putWords program ∧ now.landed round index = false then
        let sent : State program := Function.update state mype { now with
          landed := Function.update now.landed round (Function.update (now.landed round) index true) }
        let receiver := sent (right program.sizes mype)
        some (Function.update sent (right program.sizes mype) { receiver with
          toProcess := storeWord receiver.toProcess (nextBuf s) index (now.dB (curBuf s) index) })
      else none
  | .thread mype thread =>
      let now := state mype
      if now.posted now.round = true ∧ InGrid program.sizes thread ∧
          now.kernel.progress thread < operations program.sizes thread then
        some (Function.update state mype { now with
          toProcess := runThread program.sizes (program.hAs mype) mype (stepOf program.sizes now.round) now.toProcess thread })
      else none
  | .sync mype =>
      let now := state mype
      if now.posted now.round = true ∧ now.waiting = false ∧ KernelDone program.sizes now.kernel then
        some (Function.update state mype { now with synced := true, waiting := true })
      else none
  | .leave mype =>
      let now := state mype
      if now.waiting = true ∧ ∀ other, Passed program state mype other then
        some (Function.update state mype { now with
          toProcess := freshProcess (now.round + 1) now.dB now.kernel.cs })
      else none

-- The put of a step has landed by its barrier; the program does not see to it.
def Timely (state : State program) : Action program → Prop
  | .sync mype => AllLanded program (state mype) (state mype).round
  | _ => True

instance (state : State program) : (action : Action program) → Decidable (Timely program state action)
  | .sync _ => inferInstanceAs (Decidable (AllLanded _ _ _))
  | .clear _ | .refill _ _ _ | .refilled _ | .put _ | .land _ _ _ | .thread _ _ | .leave _ => isTrue trivial

end System

end OpenGda.Examples.Mm
