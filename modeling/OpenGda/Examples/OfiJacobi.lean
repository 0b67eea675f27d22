import OpenGda.Examples.Halo
import OpenGda.Examples.OfiBuffers

set_option autoImplicit false

-- examples/ofi/jacobi.cpp: the Jacobi solver over gicc::Runtime, whose halo rows are deferred
-- writes that the last block of the kernel triggers.
namespace OpenGda.Examples.OfiJacobi

open Halo OfiBuffers

structure Program extends Memory where
  nx : Nat
  nyCli : Nat
  size : Nat
  loop : Loop

section SetUp

variable (program : Program)

def chunkSize : Nat :=
  let chunk := (program.nyCli - 2) / program.size
  if chunk < 2 then 2 else chunk

def rowBytes : Nat := program.nx * 4

def bufSize : Nat := program.nx * (chunkSize program + 2) * 4

def iyStartGlobal (rank : Nat) : Nat := rank * chunkSize program + 1

def iyEnd (_ : Nat) : Nat := chunkSize program + 1

abbrev gbuf (rank which : Nat) : Rt.Buffer := OfiBuffers.gbuf program.toMemory (bufSize program) rank which

end SetUp

section System

def warmups : Nat := 3

variable {Real : Type}

-- `landed` is by slot; the tokens are those of the current launch, where it has any.
structure Rank (Real : Type) extends Solver Real where
  rt : Rt.Runtime
  queued : Bool
  toks : Option (Rt.Token × Rt.Token)
  landed : Nat → Nat → Bool
  synced : Bool
  waits : Nat

def freshRank (buf : Nat → Nat → Real) (launches : Nat) (rt : Rt.Runtime) : Rank Real :=
  ⟨freshSolver buf launches, rt, false, none, fun _ _ => false, false, 0⟩

variable (program : Program) (numbers : Numbers Real)

abbrev State (Real : Type) (program : Program) := Fin program.size → Rank Real

def startBuf (rank : Nat) : Nat → Real :=
  initializeBoundaries numbers (iyStartGlobal program rank - 1) program.nx (chunkSize program) fun _ => numbers.zero

def start (rt : Fin program.size → Rt.Runtime) : State Real program := fun rank =>
  freshRank (fun _ => startBuf program numbers rank) 0 (rt rank)

-- The host's part of do_halo_and_kernel before the launch; `none` is an exit.
def queuePuts (rank : Fin program.size) (now : Rank Real) : Option (Rank Real) :=
  let next := nextBuf warmups now.launches
  let bytes := rowBytes program
  let iyEnd := iyEnd program rank
  if 1 < program.size then
    (Rt.putNoDb now.rt (gbuf program rank next) (top rank) next bytes (iyStart * bytes) (UInt64.ofNat (iyEnd * bytes))).bind
      fun first => (Rt.putNoDb first.2 (gbuf program rank next) (bottom rank) next bytes ((iyEnd - 1) * bytes) 0).map
        fun second => { now with rt := Rt.prepareTrigger second.2, toks := some (first.1, second.1), queued := true }
  else some { now with rt := Rt.prepareTrigger now.rt, queued := true }

-- atomicAdd(block_done_counter, 1) by thread 0 of a block; the last one writes the trigger.
def blockDone (rank : Fin program.size) (now : Rank Real) (block : Nat × Nat) : Rank Real :=
  let totalBlocks := gridX program.nx * gridY (iyEnd program rank)
  let done := now.blockDoneCounter
  { now with
    toSolver := arrive now.toSolver block (done + 1)
    rt := if 1 < program.size ∧ done = totalBlocks - 1 then Rt.flush now.rt else now.rt }

inductive Action (program : Program) where
  | queuePuts (rank : Fin program.size)
  | thread (rank : Fin program.size) (thread : Thread)
  | block (rank : Fin program.size) (block : Nat × Nat)
  | land (rank target : Fin program.size) (index word : Nat)
  | completeWrite (rank : Fin program.size) (index : Nat)
  | completeAtomic (rank : Fin program.size) (index : Nat)
  | sync (rank : Fin program.size)
  | wait (rank : Fin program.size)
  | finish (rank : Fin program.size)
  | leave (rank : Fin program.size)

def Waited (now : Rank Real) : Prop :=
  ∃ toks ∈ now.toks, Rt.waitOver now.rt (if now.waits = 0 then toks.1 else toks.2)

instance (now : Rank Real) : Decidable (Waited now) := inferInstanceAs (Decidable (∃ _ ∈ _, _))

-- Hosts, kernels and NICs: a triggered write moves word by word, and is complete when all its words have landed.
def step (state : State Real program) : Action program → Option (State Real program)
  | .queuePuts rank =>
      let now := state rank
      if program.loop.Launches warmups now.launches ∧ now.queued = false ∧ now.waiting = false then
        (queuePuts program rank now).map (Function.update state rank)
      else none
  | .thread rank thread =>
      let now := state rank
      if now.queued = true ∧ InGrid program.nx (iyEnd program rank) thread ∧ now.ran thread = false then
        some (Function.update state rank { now with
          toSolver := runThread numbers warmups program.nx (iyEnd program rank) now.toSolver thread })
      else none
  | .block rank block =>
      let now := state rank
      if block.1 < gridX program.nx ∧ block.2 < gridY (iyEnd program rank) ∧ Synced now.toSolver block ∧
          now.arrived block = false then
        some (Function.update state rank (blockDone program rank now block))
      else none
  | .land rank target index word =>
      let now := state rank
      match landing program.toMemory (bufSize program) now.rt now.landed rank target index word with
      | some (slot, source, cell) =>
          let sent : State Real program := Function.update state rank { now with
            landed := Function.update now.landed slot (Function.update (now.landed slot) word true) }
          let receiver := sent target
          some (Function.update sent target { receiver with
            toSolver := write receiver.toSolver cell.1 cell.2 (now.buf source.1 source.2) })
      | none => none
  | .completeWrite rank index =>
      let now := state rank
      if ∀ work ∈ now.rt.writes[index]?, WholeLanded now.landed work then
        (Rt.completeWrite now.rt index).map fun rt => Function.update state rank { now with rt := rt }
      else none
  | .completeAtomic rank index =>
      let now := state rank
      (Rt.completeAtomic now.rt index).map fun rt => Function.update state rank { now with rt := rt }
  | .sync rank =>
      let now := state rank
      if now.queued = true ∧ now.synced = false ∧ AllArrived program.nx (iyEnd program rank) now.toSolver then
        some (Function.update state rank { now with synced := true })
      else none
  | .wait rank =>
      let now := state rank
      if now.synced = true ∧ now.waits < 2 ∧ Waited now then
        some (Function.update state rank { now with waits := now.waits + 1 })
      else none
  | .finish rank =>
      let now := state rank
      if now.synced = true ∧ now.waiting = false ∧ (now.toks.isSome = true → now.waits = 2) then
        (Rt.reset now.rt).map fun rt => Function.update state rank { now with rt := rt, toks := none, waiting := true }
      else none
  | .leave rank =>
      let now := state rank
      if now.waiting = true ∧ ∀ other, Passed now.toSolver (state other).toSolver then
        some (Function.update state rank (freshRank now.buf (now.launches + 1) now.rt))
      else none

end System

end OpenGda.Examples.OfiJacobi
