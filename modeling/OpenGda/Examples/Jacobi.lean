import OpenGda.Examples.Halo

set_option autoImplicit false

-- examples/gicc/jacobi.cu: a Jacobi solver whose ranks exchange halo rows from inside the kernel.
namespace OpenGda.Examples.Jacobi

open Halo

structure Mesh where
  nx : Nat
  ny : Nat
  size : Nat

section Decomposition

variable (mesh : Mesh)

def chunkSizeLow : Nat := (mesh.ny - 2) / mesh.size

def chunkSizeHigh : Nat := chunkSizeLow mesh + 1

def numRanksLow : Nat := mesh.size * chunkSizeLow mesh + mesh.size - (mesh.ny - 2)

def chunkSize (rank : Nat) : Nat := if rank < numRanksLow mesh then chunkSizeLow mesh else chunkSizeHigh mesh

def iyStartGlobal (rank : Nat) : Nat :=
  if rank < numRanksLow mesh then rank * chunkSizeLow mesh + 1
  else numRanksLow mesh * chunkSizeLow mesh + (rank - numRanksLow mesh) * chunkSizeHigh mesh + 1

def iyEndGlobal (rank : Nat) : Nat := min (iyStartGlobal mesh rank + chunkSize mesh rank - 1) (mesh.ny - 4)

def iyEnd (rank : Nat) : Nat := iyEndGlobal mesh rank + 1 - iyStartGlobal mesh rank + iyStart

end Decomposition

section System

def warmups : Nat := 10

def nextBuf (launch : Nat) : Nat := Halo.nextBuf warmups launch

def curBuf (launch : Nat) : Nat := Halo.curBuf warmups launch

-- With two ranks both contexts post to the queue of the one peer.
def putsPerLaunch {size : Nat} (rank : Fin size) : Nat := if top rank = bottom rank then 2 else 1

variable {Real : Type}

structure Rank (Real : Type) extends Solver Real where
  posted : Bool
  landed : Side → Nat → Bool
  quiets : Nat

-- How the loop ends, and whether a rank's queue for a peer has its completion queue mapped.
structure Settings where
  loop : Loop
  cqe : Nat → Nat → Bool

variable (mesh : Mesh) (numbers : Numbers Real) (settings : Settings)

abbrev State (Real : Type) (mesh : Mesh) := Fin mesh.size → Rank Real

def startBuf (rank : Nat) : Nat → Real :=
  initializeBoundaries numbers (iyStartGlobal mesh rank - 1) mesh.nx (chunkSize mesh rank) fun _ => numbers.zero

def freshRank (buf : Nat → Nat → Real) (launches : Nat) : Rank Real :=
  ⟨freshSolver buf launches, false, fun _ _ => false, 0⟩

def start : State Real mesh := fun rank => freshRank (fun _ => startBuf mesh numbers rank) 0

-- atomicInc(block_done_counter, num_blocks) by thread 0 of a block that is past __syncthreads.
def blockDone (rank : Nat) (now : Rank Real) (block : Nat × Nat) : Rank Real :=
  let numBlocks := gridX mesh.nx * gridY (iyEnd mesh rank)
  let old := now.blockDoneCounter
  { now with
    toSolver := arrive now.toSolver block (if numBlocks ≤ old then 0 else old + 1)
    posted := now.posted || old == numBlocks - 1 }

inductive Action (mesh : Mesh) where
  | thread (rank : Fin mesh.size) (thread : Thread)
  | block (rank : Fin mesh.size) (block : Nat × Nat)
  | land (rank : Fin mesh.size) (side : Side) (word : Nat)
  | quiet (rank : Fin mesh.size)
  | sync (rank : Fin mesh.size)
  | leave (rank : Fin mesh.size)

def Drained (rank : Fin mesh.size) (now : Rank Real) (side : Side) : Prop :=
  ∀ other ∈ [Side.top, .bottom], peer rank other = peer rank side → ∀ word < mesh.nx, now.landed other word = true

-- gda_quiet returns at once when prod_idx, a 16 bit count of the puts on the queue, is 0,
-- and so does its poll when no completion queue is mapped.
def quietReturns (rank : Fin mesh.size) (now : Rank Real) (side : Side) : Prop :=
  (now.launches + 1) * putsPerLaunch rank % 2 ^ 16 = 0 ∨ settings.cqe rank (peer rank side) = false ∨
    Drained mesh rank now side

def quietSide (now : Rank Real) : Side := if now.quiets = 0 then .top else .bottom

instance (rank : Fin mesh.size) (now : Rank Real) (side : Side) : Decidable (quietReturns mesh settings rank now side) :=
  inferInstanceAs (Decidable (_ ∨ _ ∨ ∀ _ ∈ _, _ → ∀ _ < _, _))

-- Threads and blocks of the kernel, the NIC's words in any order, the two quiets, the
-- synchronised host at rt.barrier() and its return from there.
def step (state : State Real mesh) : Action mesh → Option (State Real mesh)
  | .thread rank thread =>
      let now := state rank
      if settings.loop.Launches warmups now.launches ∧ InGrid mesh.nx (iyEnd mesh rank) thread ∧
          now.ran thread = false then
        some (Function.update state rank { now with
          toSolver := runThread numbers warmups mesh.nx (iyEnd mesh rank) now.toSolver thread })
      else none
  | .block rank block =>
      let now := state rank
      if block.1 < gridX mesh.nx ∧ block.2 < gridY (iyEnd mesh rank) ∧ Synced now.toSolver block ∧
          now.arrived block = false then
        some (Function.update state rank (blockDone mesh rank now block))
      else none
  | .land rank side word =>
      let now := state rank
      let which := nextBuf now.launches
      if 1 < mesh.size ∧ now.posted = true ∧ word < mesh.nx ∧ now.landed side word = false then
        let sent : State Real mesh := Function.update state rank
          { now with landed := Function.update now.landed side (Function.update (now.landed side) word true) }
        let value := now.buf which (localRow rank (iyEnd mesh) side * mesh.nx + word)
        let receiver := sent (peer rank side)
        some (Function.update sent (peer rank side) { receiver with
          toSolver := write receiver.toSolver which (remoteRow rank (iyEnd mesh) side * mesh.nx + word) value })
      else none
  | .quiet rank =>
      let now := state rank
      if 1 < mesh.size ∧ now.posted = true ∧ now.quiets < 2 ∧
          quietReturns mesh settings rank now (quietSide now) then
        some (Function.update state rank { now with quiets := now.quiets + 1 })
      else none
  | .sync rank =>
      let now := state rank
      if settings.loop.Launches warmups now.launches ∧ now.waiting = false ∧
          AllArrived mesh.nx (iyEnd mesh rank) now.toSolver ∧ (1 < mesh.size → now.quiets = 2) then
        some (Function.update state rank { now with waiting := true })
      else none
  | .leave rank =>
      let now := state rank
      if now.waiting = true ∧ ∀ other, Passed now.toSolver (state other).toSolver then
        some (Function.update state rank (freshRank now.buf (now.launches + 1)))
      else none

end System

end OpenGda.Examples.Jacobi
