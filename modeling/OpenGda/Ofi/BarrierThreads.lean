import OpenGda.Lib.Machine

set_option autoImplicit false

-- gicc::Barrier (gicc_barrier.hpp) in continuous mode, one access to what its threads
-- share at a time: the application, the monitor thread and the kernel of one rank.
namespace OpenGda.BarrierThreads

open Machine

inductive Setup where
  | threshold
  | source (threshold : Nat)
  | mode (threshold : Nat)
  | copy (threshold : Nat)
  | queue (threshold : Nat)
  | ready (threshold : Nat)
deriving DecidableEq, Repr

inductive App where
  | idle
  | activating (numBarriers : Nat)
  | counting (numBarriers : Nat)
  | aiming (numBarriers count : Nat)
  | expecting (numBarriers : Nat)
  | seeding (numBarriers expected : Nat)
  | arming (numBarriers : Nat)
  | setup (numBarriers : Nat) (setup : Setup)
  | launching (numBarriers : Nat)
  | watching
  | comparing (count : Nat)
  | stopping
deriving DecidableEq, Repr

-- monitor_loop() with reset(). Nobody calls finalize(), so thread_running_ stays true.
inductive Monitor where
  | top
  | resting
  | polling
  | comparing (gpuDone : Nat)
  | loading
  | storing (count : Nat)
  | expecting
  | draining (expected : Nat)
  | deciding
  | aiming (count : Nat)
  | setup (setup : Setup)
  | closing
deriving DecidableEq, Repr

inductive Pc where
  | loop
  | ready
  | notify
  | advance
deriving DecidableEq, Repr

structure Kernel where
  todo : Nat
  expected : Nat
  pc : Pc
deriving DecidableEq, Repr

-- `triggered` and `completed` count the barriers whose puts have been triggered and have
-- completed in every round. `setups` and `queued` are ghost: the thresholds that setup()
-- has been through with, and those its puts have been queued for.
structure Host where
  barrierCount : Nat
  targetBarrierCount : Nat
  continuousMode : Bool
  everActive : Bool
  expectedSignal : Nat
  signalValues : Nat → Nat
  readyCounter : Nat
  doneCounter : Nat
  triggered : Nat
  completed : Nat
  setups : List Nat
  queued : List Nat
  app : App
  monitor : Monitor
  gpu : Option Kernel

-- What init() leaves: the monitor thread is at the head of its loop.
def init : Host where
  barrierCount := 0
  targetBarrierCount := 0
  continuousMode := false
  everActive := false
  expectedSignal := 0
  signalValues := fun _ => 0
  readyCounter := 0
  doneCounter := 0
  triggered := 0
  completed := 0
  setups := []
  queued := []
  app := .idle
  monitor := .top
  gpu := none

-- The next access of a thread in setup(); `none` as the setup that is left means it returns.
-- The hipMemcpy waits for the kernel.
def setupStep (nRounds : Nat) (host : Host) : Setup → Option (Host × Option Setup)
  | .threshold =>
      let threshold := host.barrierCount + 1
      if nRounds = 0 then some (host, some (.mode threshold)) else some (host, some (.source threshold))
  | .source threshold =>
      let bufIdx := host.barrierCount % 2
      some ({ host with signalValues := Function.update host.signalValues bufIdx threshold }, some (.mode threshold))
  | .mode threshold =>
      if host.continuousMode then some (host, some (.queue threshold)) else some (host, some (.copy threshold))
  | .copy threshold =>
      if host.gpu.isSome then none else some ({ host with expectedSignal := threshold }, some (.queue threshold))
  | .queue threshold =>
      if nRounds = 0 then some (host, some (.ready threshold))
      else some ({ host with queued := host.queued ++ [threshold] }, some (.ready threshold))
  | .ready threshold =>
      some ({ host with readyCounter := host.readyCounter + 1, setups := host.setups ++ [threshold] }, none)

def appStep (nRounds : Nat) (host : Host) : Option Host :=
  match host.app with
  | .idle => none
  | .activating numBarriers => some { host with everActive := true, app := .counting numBarriers }
  | .counting numBarriers => some { host with app := .aiming numBarriers host.barrierCount }
  | .aiming numBarriers count => some { host with
      targetBarrierCount := count + numBarriers
      app := .expecting numBarriers }
  | .expecting numBarriers => some { host with app := .seeding numBarriers (host.barrierCount + 1) }
  | .seeding numBarriers expected =>
      if host.gpu.isSome then none
      else some { host with expectedSignal := expected, app := .arming numBarriers }
  | .arming numBarriers => some { host with continuousMode := true, app := .setup numBarriers .threshold }
  | .setup numBarriers setup =>
      (setupStep nRounds host setup).map fun (next, left) => { next with
        app := match left with
          | some more => .setup numBarriers more
          | none => .launching numBarriers }
  | .launching numBarriers =>
      if host.gpu.isSome then none
      else some { host with gpu := some ⟨numBarriers, 0, .loop⟩, app := .watching }
  | .watching => some { host with app := .comparing host.barrierCount }
  | .comparing count =>
      if count < host.targetBarrierCount then some { host with app := .watching }
      else some { host with app := .stopping }
  | .stopping => some { host with continuousMode := false, app := .idle }

def monitorStep (nRounds : Nat) (host : Host) : Option Host :=
  match host.monitor with
  | .top =>
      if host.continuousMode then some { host with monitor := .polling } else some { host with monitor := .resting }
  | .resting => some { host with monitor := .top }
  | .polling => some { host with monitor := .comparing host.doneCounter }
  | .comparing gpuDone =>
      if host.barrierCount < gpuDone then some { host with monitor := .loading } else some { host with monitor := .top }
  | .loading => some { host with monitor := .storing host.barrierCount }
  | .storing count => some { host with barrierCount := count + 1, monitor := .expecting }
  | .expecting => some { host with monitor := .draining host.barrierCount }
  | .draining expected =>
      if nRounds = 0 ∨ expected ≤ host.completed then some { host with monitor := .deciding } else none
  | .deciding => some { host with monitor := .aiming host.barrierCount }
  | .aiming count =>
      if count < host.targetBarrierCount then some { host with monitor := .setup .threshold }
      else some { host with monitor := .closing }
  | .setup setup =>
      (setupStep nRounds host setup).map fun (next, left) => { next with
        monitor := match left with
          | some more => .setup more
          | none => .top }
  | .closing => some { host with continuousMode := false, monitor := .top }

def kernelStep (host : Host) (kernel : Kernel) : Option Host :=
  match kernel.pc with
  | .loop =>
      if kernel.todo = 0 then some { host with gpu := none }
      else some { host with gpu := some { kernel with expected := host.expectedSignal, pc := .ready } }
  | .ready =>
      if host.readyCounter < kernel.expected then none
      else some { host with triggered := host.triggered + 1, gpu := some { kernel with pc := .notify } }
  | .notify => some { host with doneCounter := host.doneCounter + 1, gpu := some { kernel with pc := .advance } }
  | .advance => some { host with
      expectedSignal := host.expectedSignal + 1
      gpu := some { kernel with todo := kernel.todo - 1, pc := .loop } }

inductive Action where
  | start (numBarriers : Nat)
  | app
  | monitor
  | gpu
  | complete
deriving DecidableEq, Repr

def step (nRounds : Nat) (host : Host) : Action → Option Host
  | .start numBarriers => if host.app = .idle then some { host with app := .activating numBarriers } else none
  | .app => appStep nRounds host
  | .monitor => monitorStep nRounds host
  | .gpu => host.gpu.bind (kernelStep host)
  | .complete => if host.completed < host.triggered then some { host with completed := host.completed + 1 } else none

def App.starting : App → Bool
  | .activating _ | .counting _ | .aiming _ _ | .expecting _ | .seeding _ _ | .arming _ | .setup _ _ => true
  | .idle | .launching _ | .watching | .comparing _ | .stopping => false

structure SetUpOnce (nRounds : Nat) (host : Host) : Prop where
  setups : host.setups = List.range' 1 host.readyCounter
  ahead : host.readyCounter ≤ host.barrierCount + 1
  queued : host.queued = List.range' 1 host.queued.length
  kept : 0 < nRounds → host.readyCounter ≤ host.queued.length

-- Barriers are asked for, and the monitor thread is told to rest.
def Abandoned (host : Host) : Prop :=
  host.app.starting = false ∧ host.barrierCount < host.targetBarrierCount ∧ host.continuousMode = false

-- Every run is of at least one barrier.
def SomeBarriers : Action → Prop
  | .start numBarriers => 1 ≤ numBarriers
  | _ => True

-- The monitor thread finds barriers left only where none is set up and none is being set
-- up by start_continuous(), and it clears continuous_mode_ only where the application has
-- not set it for a run with barriers left.
def Untangled (host : Host) : Action → Prop
  | .monitor =>
      match host.monitor with
      | .aiming count => count < host.targetBarrierCount →
          host.app.starting = false ∧ host.readyCounter = host.barrierCount
      | .closing => host.barrierCount < host.targetBarrierCount → host.continuousMode = false
      | _ => True
  | _ => True

def Careful (host : Host) (action : Action) : Prop := SomeBarriers action ∧ Untangled host action

end OpenGda.BarrierThreads
