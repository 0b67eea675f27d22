import OpenGda.Mlx5.Wqe
import OpenGda.Lib.PhaseRing

set_option autoImplicit false

-- gda_persistent_kernel (persistent.cuh) with the host that fills its command ring and
-- the NIC that serves its queue pair.
namespace OpenGda.Persistent

open Machine OpenGda.Mlx5

def cmdRdmaWrite : BitVec 32 := 1
def cmdExit : BitVec 32 := 0xFF

-- A null `completion` is `none`.
structure Command where
  type : BitVec 32
  flags : BitVec 32
  localAddr : BitVec 64
  localLkey : BitVec 32
  size : BitVec 32
  remoteAddr : BitVec 64
  remoteRkey : BitVec 32
  completion : Option Nat
  userData : BitVec 64
deriving DecidableEq, Repr

def noCommand : Command := ⟨0, 0, 0, 0, 0, 0, 0, none, 0⟩

-- nwqes, ncqes and the ring's size are powers of two, their masks one less.
structure Config where
  qpn : BitVec 32
  hasBf : Bool
  logNwqes : Nat
  logNcqes : Nat
  logRing : Nat
  fewWqes : logNwqes < 16
  fewCqes : logNcqes < 32
  fewCommands : logRing < 32

def Config.nwqes (config : Config) : Nat := 2 ^ config.logNwqes
def Config.ncqes (config : Config) : Nat := 2 ^ config.logNcqes
def Config.ringSize (config : Config) : Nat := 2 ^ config.logRing

inductive Pc where
  | look
  | process
  | post
  | poll
  | signal
  | advance
  | exited
deriving DecidableEq, Repr

structure Posted where
  number : Nat
  wqe : Wqe
deriving DecidableEq, Repr

-- `posted` and `completed` are the NIC's, `cqes` is how many CQEs it has written;
-- `signalled` is ghost, the numbers of the commands whose completion has been written.
structure State where
  todo : List Command
  commands : Nat → Command
  head : Nat
  tail : Nat
  pc : Pc
  localTail : Nat
  wqeBuf : Nat → Wqe
  dbrec : BitVec 32
  bfReg : BitVec 64
  prodIdx : Nat
  opsPosted : Option Nat
  opsCompleted : Option Nat
  cqe : Nat → Nat
  cqConsIdx : Nat
  memory : Nat → BitVec 64
  posted : List Posted
  completed : Nat
  cqes : Nat
  signalled : List Nat

def start (prodIdx : Nat) (opsPosted opsCompleted : Option Nat) (commands : List Command) : State where
  todo := commands
  commands := fun _ => noCommand
  head := 0
  tail := 0
  pc := .look
  localTail := 0
  wqeBuf := fun _ => blankWqe
  dbrec := 0
  bfReg := 0
  prodIdx := prodIdx
  opsPosted := opsPosted
  opsCompleted := opsCompleted
  cqe := fun _ => 0xFF
  cqConsIdx := 0
  memory := fun _ => 0
  posted := []
  completed := 0
  cqes := 0
  signalled := []

-- MLX5_WQE_CTRL_CQ_UPDATE as persistent.cuh defines it.
def ctrlCqUpdate : BitVec 32 := 1 <<< 2

def pGetWqe (config : Config) (idx : Nat) : Nat := idx &&& (config.nwqes - 1)

def pBuildWriteWqe (config : Config) (put : Put) (wqeIdx : Nat) : Wqe :=
  { opmodIdxOpcode := htobe32 (BitVec.ofNat 32 ((wqeIdx <<< 8) ||| opcodeRdmaWrite))
    qpnDs := htobe32 ((config.qpn <<< 8) ||| 3)
    fmCeSe := (if put.signaled then ctrlCqUpdate else 0) <<< 24
    imm := 0
    raddrLo := lowWord (htobe64 put.remoteAddr)
    raddrHi := highWord (htobe64 put.remoteAddr)
    rkey := htobe32 put.remoteRkey
    reserved := 0
    byteCount := htobe32 put.size
    lkey := htobe32 put.localLkey
    addrLo := lowWord (htobe64 put.localAddr)
    addrHi := highWord (htobe64 put.localAddr) }

def pRingDoorbell (config : Config) (state : State) (newProdIdx : Nat) : State :=
  { state with
    prodIdx := newProdIdx
    dbrec := htobe32 (BitVec.ofNat 32 (newProdIdx &&& 0xFFFF))
    bfReg :=
      if config.hasBf then
        joinWords (htobe32 (config.qpn <<< 8)) (htobe32 (BitVec.ofNat 32 ((newProdIdx &&& 0xFFFF) <<< 8)))
      else state.bfReg }

def pPollCqOnce (config : Config) (state : State) : Option State :=
  let cons := state.cqConsIdx
  let cqeIdx := cons &&& (config.ncqes - 1)
  let expectedOwner := cons / config.ncqes &&& 1
  let owner := state.cqe cqeIdx &&& 1
  if owner = expectedOwner then
    some { state with cqConsIdx := cons + 1, opsCompleted := state.opsCompleted.map (· + 1) }
  else none

def currentCommand (config : Config) (state : State) : Command :=
  state.commands (state.localTail &&& (config.ringSize - 1))

def Command.signaled (cmd : Command) : Bool := cmd.flags &&& 1 != 0

def Command.put (cmd : Command) : Put :=
  ⟨cmd.localAddr, cmd.localLkey, cmd.remoteAddr, cmd.remoteRkey, cmd.size, cmd.signaled⟩

def postWrite (config : Config) (state : State) (cmd : Command) : State :=
  let prod := state.prodIdx
  let wqeSlot := prod &&& 0xFFFF
  let newProdIdx := (prod + 1) &&& 0xFFFF
  let wqe := pBuildWriteWqe config cmd.put wqeSlot
  let built := { state with wqeBuf := Function.update state.wqeBuf (pGetWqe config wqeSlot) wqe }
  let rung := pRingDoorbell config built newProdIdx
  { rung with
    opsPosted := rung.opsPosted.map (· + 1)
    posted := rung.posted ++ [⟨state.localTail, wqe⟩]
    pc := if cmd.signaled = true ∧ cmd.completion.isSome = true then .poll else .advance }

def kernel (config : Config) (state : State) : Option State :=
  let cmd := currentCommand config state
  match state.pc with
  | .look => if state.localTail = state.head then none else some { state with pc := .process }
  | .process =>
      if cmd.type = cmdExit then some { state with pc := .exited }
      else if cmd.type = cmdRdmaWrite then some { state with pc := .post }
      else some { state with pc := .advance }
  | .post => some (postWrite config state cmd)
  | .poll => (pPollCqOnce config state).map fun polled => { polled with pc := .signal }
  | .signal =>
      some { state with
        memory := Function.update state.memory (cmd.completion.getD 0) cmd.userData
        signalled := state.signalled ++ [state.localTail]
        pc := .advance }
  | .advance => some { state with localTail := state.localTail + 1, tail := state.localTail + 1, pc := .look }
  | .exited => none

def submit (config : Config) (state : State) : Option State :=
  match state.todo with
  | [] => none
  | cmd :: rest =>
      if state.head - state.tail < config.ringSize then
        some { state with
          todo := rest
          commands := Function.update state.commands (state.head &&& (config.ringSize - 1)) cmd
          head := state.head + 1 }
      else none

def Posted.signaled (posted : Posted) : Bool := posted.wqe.fmCeSe >>> 24 &&& ctrlCqUpdate != 0

-- The NIC completes what it was handed in order, with a CQE for a signaled WQE.
def complete (config : Config) (state : State) : Option State :=
  match state.posted[state.completed]? with
  | none => none
  | some posted =>
      if posted.signaled then
        some { state with
          completed := state.completed + 1
          cqe := PhaseRing.push state.cqe config.ncqes state.cqes (state.cqes / config.ncqes % 2)
          cqes := state.cqes + 1 }
      else some { state with completed := state.completed + 1 }

inductive Action where
  | submit
  | kernel
  | complete
deriving DecidableEq, Repr

def step (config : Config) (state : State) : Action → Option State
  | .submit => submit config state
  | .kernel => kernel config state
  | .complete => complete config state

-- At most ncqes CQEs are ever there and not consumed.
def Roomy (config : Config) (state : State) : Action → Prop
  | .complete => ∀ posted ∈ state.posted[state.completed]?, posted.signaled = true →
      state.cqes < state.cqConsIdx + config.ncqes
  | _ => True

instance (config : Config) (state : State) (action : Action) : Decidable (Roomy config state action) :=
  match action with
  | .submit => isTrue trivial
  | .kernel => isTrue trivial
  | .complete => inferInstanceAs (Decidable (∀ posted ∈ state.posted[state.completed]?, _))

def Honest (state : State) : Prop :=
  ∀ number ∈ state.signalled, ∃ posted ∈ state.posted.take state.completed, posted.number = number

instance (state : State) : Decidable (Honest state) := inferInstanceAs (Decidable (∀ number ∈ state.signalled, _))

def Command.awaited (cmd : Command) : Bool :=
  cmd.type == cmdRdmaWrite && cmd.signaled && cmd.completion.isSome

def Command.stray (cmd : Command) : Bool :=
  cmd.type == cmdRdmaWrite && cmd.signaled && cmd.completion.isNone

def processed (commands : List Command) : List Command := commands.takeWhile fun cmd => cmd.type != cmdExit

-- No awaited write comes after a stray one.
def Unmixed (commands : List Command) : Prop :=
  (processed commands).Pairwise fun earlier later => ¬ (earlier.stray = true ∧ later.awaited = true)

end OpenGda.Persistent
