import OpenGda.Lib.DeferredWork
import OpenGda.Lib.Dissemination

set_option autoImplicit false

-- The GPU-triggered barrier of gicc_barrier.hpp and ofi_barrier_device.cuh. Each
-- rank runs an application thread, a monitor thread, a kernel and a NIC.
namespace OpenGda.GpuBarrier

open Dissemination Machine DeferredWork

def barrierSignalSlots : Nat := 2
def nSignalBuffers : Nat := 2

-- while ((1 << n_rounds_) < sz) n_rounds_++;
def nRounds (size : Nat) : Nat := doublings size size 1

variable {size : Nat}

-- What the allgather of exchange_addresses has spread: the base address and
-- the key of every rank's signal region.
structure Config (size : Nat) where
  isVirtAddrMode : Bool
  signalBase : Fin size → Nat
  signalKey : Fin size → Nat

inductive Cntr where
  | trigger (k : Nat)
  | completion (k : Nat)
deriving DecidableEq, Repr

-- `buffer` is the index of the signal source buffer that the put reads when it runs.
structure RmaWrite (size : Nat) where
  buffer : Nat
  peer : Fin size
  remoteAddr : Nat
  remoteKey : Nat
deriving DecidableEq, Repr

-- The program counter of one thread calling barrier() in a loop: `loop` is
-- before a call and `advance` after one.
inductive Pc where
  | loop
  | ready
  | trigger (k : Nat)
  | poll (k : Nat)
  | notify
  | advance
deriving DecidableEq, Repr

structure Kernel where
  continuous : Bool
  todo : Nat
  expected : Nat
  pc : Pc
deriving DecidableEq, Repr

inductive App where
  | idle
  | queued
  | running
  | synced
  | draining (expected : Nat)
  | starting (numBarriers : Nat)
  | armed (numBarriers : Nat)
  | launching (numBarriers : Nat)
  | waiting
  | stopping
deriving DecidableEq, Repr

inductive Monitor where
  | top
  | checked
  | counting
  | draining (expected : Nat)
  | deciding
  | queueing
  | closing
deriving DecidableEq, Repr

-- `entered`, `departed` and `executed` are ghost: the expected_signal of every
-- barrier() call entered and left, and the puts the NIC has run.
structure Rank (size : Nat) where
  barrierCount : Nat
  targetBarrierCount : Nat
  continuousMode : Bool
  expectedSignal : Nat
  readyCounter : Nat
  doneCounter : Nat
  signals : Nat → Nat
  signalValues : Nat → Nat
  nic : Nic Cntr (RmaWrite size)
  app : App
  monitor : Monitor
  gpu : Option Kernel
  entered : List Nat
  departed : List Nat
  executed : List (Cntr × Nat)

def initialRank (size : Nat) : Rank size where
  barrierCount := 0
  targetBarrierCount := 0
  continuousMode := false
  expectedSignal := 0
  readyCounter := 0
  doneCounter := 0
  signals := fun _ => 0
  signalValues := fun _ => 0
  nic := ⟨fun _ => 0, []⟩
  app := .idle
  monitor := .top
  gpu := none
  entered := []
  departed := []
  executed := []

def peer (self : Fin size) (k : Nat) : Fin size := ahead self (2 ^ k)

def sigIdx (k threshold : Nat) : Nat := k * barrierSignalSlots + threshold % barrierSignalSlots

def remoteAddr (config : Config size) (target : Fin size) (remoteOffset : Nat) : Nat :=
  if config.isVirtAddrMode then config.signalBase target + remoteOffset else remoteOffset

def rmaWork (config : Config size) (self : Fin size) (buffer threshold k : Nat) : Work Cntr (RmaWrite size) where
  triggering := .trigger k
  threshold := threshold
  op := .write ⟨buffer, peer self k, remoteAddr config (peer self k) (sigIdx k threshold * 8),
    config.signalKey (peer self k)⟩
  completion := some (.completion k)

def queueRounds (config : Config size) (self : Fin size) (nic : Nic Cntr (RmaWrite size)) (buffer threshold : Nat) :
    Nic Cntr (RmaWrite size) :=
  (List.range (nRounds size)).foldl (fun queue k => queueWork queue (rmaWork config self buffer threshold k)) nic

-- Outside continuous mode setup() writes expected_signal by a hipMemcpy, which
-- waits for the kernel. What it queues becomes visible with ready_counter.
def setup (config : Config size) (self : Fin size) (rank : Rank size) : Option (Rank size) :=
  if rank.continuousMode = false ∧ rank.gpu.isSome then none
  else
    let threshold := rank.barrierCount + 1
    let seeded := { rank with expectedSignal := if rank.continuousMode then rank.expectedSignal else threshold }
    if nRounds size = 0 then some { seeded with readyCounter := rank.readyCounter + 1 }
    else
      let bufIdx := rank.barrierCount % nSignalBuffers
      some { seeded with
        signalValues := Function.update rank.signalValues bufIdx threshold
        nic := queueRounds config self rank.nic bufIdx threshold
        readyCounter := rank.readyCounter + 1 }

def Drained (rank : Rank size) (expected : Nat) : Prop :=
  ∀ k < nRounds size, expected ≤ rank.nic.counters (.completion k)

instance (rank : Rank size) (expected : Nat) : Decidable (Drained rank expected) :=
  inferInstanceAs (Decidable (∀ k < nRounds size, expected ≤ rank.nic.counters (.completion k)))

def launch (rank : Rank size) (continuous : Bool) (todo : Nat) (next : App) : Option (Rank size) :=
  if rank.gpu.isSome then none
  else some { rank with gpu := some ⟨continuous, todo, 0, .loop⟩, app := next }

def appStep (config : Config size) (self : Fin size) (rank : Rank size) : Option (Rank size) :=
  match rank.app with
  | .idle => none
  | .queued => launch rank false 1 .running
  | .running => if rank.gpu.isSome then none else some { rank with app := .synced }
  | .synced => some { rank with
      barrierCount := rank.barrierCount + 1
      app := .draining (rank.barrierCount + 1) }
  | .draining expected => if Drained rank expected then some { rank with app := .idle } else none
  | .starting numBarriers =>
      if rank.gpu.isSome then none
      else some { rank with
        expectedSignal := rank.barrierCount + 1
        continuousMode := true
        app := .armed numBarriers }
  | .armed numBarriers => (setup config self rank).map fun next => { next with app := .launching numBarriers }
  | .launching numBarriers => launch rank true numBarriers .waiting
  | .waiting => if rank.barrierCount < rank.targetBarrierCount then none else some { rank with app := .stopping }
  | .stopping => some { rank with continuousMode := false, app := .idle }

-- The body of monitor_loop, cut where it reads or writes what other threads share.
def monitorStep (config : Config size) (self : Fin size) (rank : Rank size) : Option (Rank size) :=
  match rank.monitor with
  | .top => if rank.continuousMode then some { rank with monitor := .checked } else some rank
  | .checked =>
      if rank.barrierCount < rank.doneCounter then some { rank with monitor := .counting }
      else some { rank with monitor := .top }
  | .counting => some { rank with
      barrierCount := rank.barrierCount + 1
      monitor := .draining (rank.barrierCount + 1) }
  | .draining expected => if Drained rank expected then some { rank with monitor := .deciding } else none
  | .deciding =>
      if rank.barrierCount < rank.targetBarrierCount then some { rank with monitor := .queueing }
      else some { rank with monitor := .closing }
  | .queueing => (setup config self rank).map fun next => { next with monitor := .top }
  | .closing => some { rank with continuousMode := false, monitor := .top }

def roundHead (size k : Nat) : Pc := if k < nRounds size then .trigger k else .notify

-- barrier(ctx), in the loop of the kernel that calls it. A spin that fails is no step.
def kernelStep (rank : Rank size) (kernel : Kernel) : Option (Rank size) :=
  match kernel.pc with
  | .loop =>
      if kernel.todo = 0 then some { rank with gpu := none }
      else some { rank with
        gpu := some { kernel with expected := rank.expectedSignal, pc := .ready }
        entered := rank.entered ++ [rank.expectedSignal] }
  | .ready =>
      if rank.readyCounter < kernel.expected then none
      else some { rank with gpu := some { kernel with pc := roundHead size 0 } }
  | .trigger k => some { rank with
      nic := setCounter rank.nic (.trigger k) kernel.expected
      gpu := some { kernel with pc := .poll k } }
  | .poll k =>
      if rank.signals (sigIdx k kernel.expected) ≠ kernel.expected then none
      else some { rank with gpu := some { kernel with pc := roundHead size (k + 1) } }
  | .notify => some { rank with
      doneCounter := rank.doneCounter + 1
      gpu := some { kernel with pc := .advance }
      departed := rank.departed ++ [kernel.expected] }
  | .advance => some { rank with
      expectedSignal := if kernel.continuous then rank.expectedSignal + 1 else rank.expectedSignal
      gpu := some { kernel with todo := kernel.todo - 1, pc := .loop } }

inductive Move where
  | single
  | startContinuous (numBarriers : Nat)
  | app
  | monitor
  | gpu
deriving DecidableEq, Repr

def rankStep (config : Config size) (self : Fin size) (rank : Rank size) (move : Move) : Option (Rank size) :=
  match move with
  | .single =>
      if rank.app = .idle then (setup config self rank).map fun next => { next with app := .queued } else none
  | .startContinuous numBarriers =>
      if rank.app = .idle then some { rank with
        targetBarrierCount := rank.barrierCount + numBarriers
        app := .starting numBarriers }
      else none
  | .app => appStep config self rank
  | .monitor => monitorStep config self rank
  | .gpu => rank.gpu.bind (kernelStep rank)

abbrev State (size : Nat) := Fin size → Rank size

def initial (size : Nat) : State size := fun _ => initialRank size

def slotAt (config : Config size) (self : Fin size) (addr : Nat) : Nat :=
  (if config.isVirtAddrMode then addr - config.signalBase self else addr) / 8

def receive (config : Config size) (self : Fin size) (rank : Rank size) (write : RmaWrite size) (value : Nat) :
    Rank size :=
  if write.remoteKey = config.signalKey self ∧
      slotAt config self write.remoteAddr < nRounds size * barrierSignalSlots then
    { rank with signals := Function.update rank.signals (slotAt config self write.remoteAddr) value }
  else rank

def land (config : Config size) (state : State size) (op : Op Cntr (RmaWrite size)) (values : Nat → Nat) : State size :=
  match op with
  | .write write => Function.update state write.peer
      (receive config write.peer (state write.peer) write (values write.buffer))
  | .cntrAdd _ _ => state

inductive Action (size : Nat) where
  | move (self : Fin size) (move : Move)
  | execute (self : Fin size) (index : Nat)
deriving DecidableEq, Repr

def step (config : Config size) (state : State size) : Action size → Option (State size)
  | .move self move => (rankStep config self (state self) move).map (Function.update state self)
  | .execute self index => (fire (state self).nic index).map fun (work, nic) =>
      land config
        (Function.update state self { state self with
          nic := nic
          executed := (work.triggering, work.threshold) :: (state self).executed })
        work.op (state self).signalValues

-- A continuous run is of at least one barrier, and the monitor thread is
-- through with the run before it.
def Orderly (state : State size) : Action size → Prop
  | .move self (.startContinuous numBarriers) => 1 ≤ numBarriers ∧ (state self).monitor = .top
  | _ => True

instance (state : State size) (action : Action size) : Decidable (Orderly state action) := by
  unfold Orderly
  split <;> infer_instance

end OpenGda.GpuBarrier
