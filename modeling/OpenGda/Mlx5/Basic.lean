import OpenGda.Mlx5.SendQueueFifo

set_option autoImplicit false

-- The posting path of device.cuh, on the send queue of the optimised one, and the NIC
-- that fetches what either of them announces.
namespace OpenGda.Mlx5.Basic

open Machine PhaseRing

-- MLX5_WQE_CTRL_CQ_UPDATE as device.cuh defines it.
def ctrlCqUpdate : BitVec 32 := 1 <<< 2

def gdaBuildRdmaWriteWqe (qpn : BitVec 32) (put : Put) (wqeIdx : Nat) : Wqe :=
  { opmodIdxOpcode := htobe32 (BitVec.ofNat 32 ((wqeIdx <<< 8) ||| opcodeRdmaWrite))
    qpnDs := htobe32 ((qpn <<< 8) ||| 3)
    fmCeSe := (if put.signaled then ctrlCqUpdate else 0) <<< 24
    imm := 0
    raddrLo := lowWord (htobe64 put.remoteAddr)
    raddrHi := highWord (htobe64 put.remoteAddr)
    rkey := htobe32 put.remoteRkey
    reserved := 0
    byteCount := htobe32 put.size
    lkey := htobe32 put.localLkey
    addrLo := lowWord (htobe64 put.localAddr)
    addrHi := highWord (htobe64 put.localAddr) }

def gdaRingDoorbell (queue : Queue) (wqeIdx : Nat) : Queue :=
  { queue with dbrec := dbrecWord wqeIdx, prodIdx := wqeIdx }

def post (ctx : DeviceCtx) (queue : Queue) (put : Put) : Queue :=
  let prod := queue.prodIdx
  let wqeIdx := (prod + 1) &&& 0xFFFF
  let slot := getWqeSlot ctx wqeIdx
  let built := { queue with
    wqeBuf := Function.update queue.wqeBuf slot (gdaBuildRdmaWriteWqe ctx.qpn put wqeIdx)
    built := queue.built + 1 }
  gdaRingDoorbell built wqeIdx

-- `opOwn` is what the CQE shows with so many turns left; null pointers are `none`.
def pollTurns (expectedOwner : Nat) (opOwn : Nat → Nat) (numCompletions : Option Nat) : Nat → Int × Option Nat
  | 0 => (-1, numCompletions)
  | timeout + 1 =>
      let owner := opOwn timeout &&& 1
      let opcode := opOwn timeout >>> 4 &&& 0x0F
      if owner = expectedOwner then (if opcode = 0x0D then -2 else 0, numCompletions.map (· + 1))
      else pollTurns expectedOwner opOwn numCompletions timeout

def gdaPollCq (ctx : DeviceCtx) (cqe : Option (Nat → Nat → Nat)) (numCompletions : Option Nat) : Int × Option Nat :=
  match cqe with
  | none => (0, numCompletions)
  | some opOwn =>
      let startCompletions := numCompletions.getD 0
      let cqeIdx := startCompletions &&& ctx.ncqesMask
      let expectedOwner := startCompletions / ctx.ncqes &&& 1
      pollTurns expectedOwner (opOwn cqeIdx) numCompletions 10000000

structure KernelState where
  queue : Queue
  numCompletions : Option Nat
  result : Int

def gdaRdmaWriteKernel (ctx : DeviceCtx) (cqe : Option (Nat → Nat → Nat)) (state : KernelState) (put : Put) : KernelState :=
  let queue := post ctx state.queue put
  if put.signaled then
    let (result, numCompletions) := gdaPollCq ctx cqe state.numCompletions
    ⟨queue, numCompletions, result⟩
  else ⟨queue, state.numCompletions, 0⟩

-- `iterations` is an int: none for a negative one. The CQ differs from turn to turn.
def gdaPingpongKernel (ctx : DeviceCtx) (cqes : Nat → Option (Nat → Nat → Nat)) (put : Put) : Nat → KernelState → KernelState
  | 0, state => state
  | left + 1, state =>
      let queue := post ctx state.queue { put with signaled := true }
      let (_, numCompletions) := gdaPollCq ctx (cqes left) state.numCompletions
      gdaPingpongKernel ctx cqes put left ⟨queue, numCompletions, state.result⟩

inductive Call where
  | rdmaWrite (put : Put) (cqe : Option (Nat → Nat → Nat))
  | pingpong (put : Put) (iterations : Int) (cqes : Nat → Option (Nat → Nat → Nat))

def Call.launch (ctx : DeviceCtx) (state : KernelState) : Call → KernelState
  | .rdmaWrite put cqe => gdaRdmaWriteKernel ctx cqe state put
  | .pingpong put iterations cqes => gdaPingpongKernel ctx cqes put iterations.toNat state

def Call.requests : Call → List Put
  | .rdmaWrite put _ => [put]
  | .pingpong put iterations _ => List.replicate iterations.toNat { put with signaled := true }

theorem pingpong_posts (ctx : DeviceCtx) (cqes : Nat → Option (Nat → Nat → Nat)) (put : Put) (left : Nat)
    (state : KernelState) : (gdaPingpongKernel ctx cqes put left state).queue =
      (List.replicate left { put with signaled := true }).foldl (post ctx) state.queue := by
  induction left generalizing state with
  | zero => rfl
  | succ left ih =>
      rw [gdaPingpongKernel, ih]
      rfl

theorem launch_posts (ctx : DeviceCtx) (state : KernelState) (call : Call) :
    (call.launch ctx state).queue = call.requests.foldl (post ctx) state.queue := by
  cases call with
  | rdmaWrite put cqe => cases signaled : put.signaled <;> simp [Call.launch, gdaRdmaWriteKernel, signaled, Call.requests]
  | pingpong put iterations cqes => exact pingpong_posts ctx cqes put iterations.toNat state

structure Transfer where
  localAddr : BitVec 64
  localLkey : BitVec 32
  remoteAddr : BitVec 64
  remoteRkey : BitVec 32
  size : BitVec 32
deriving DecidableEq, Repr

def transferOf (put : Put) : Transfer := ⟨put.localAddr, put.localLkey, put.remoteAddr, put.remoteRkey, put.size⟩

def wqeTransfer (wqe : Wqe) : Option Transfer := wqe.decode.map fun executed => transferOf executed.put

theorem basic_transfer (qpn : BitVec 32) (put : Put) (wqeIdx : Nat) (index : wqeIdx < 65536) :
    wqeTransfer (gdaBuildRdmaWriteWqe qpn put wqeIdx) = some (transferOf put) := by
  obtain ⟨_, opcode, ds⟩ := build_header qpn put wqeIdx index
  simp only [Wqe.opcode, Wqe.ds, buildRdmaWriteWqe] at opcode ds
  have header : (gdaBuildRdmaWriteWqe qpn put wqeIdx).opcode = opcodeRdmaWrite ∧
      (gdaBuildRdmaWriteWqe qpn put wqeIdx).ds = 3 := by
    simp only [Wqe.opcode, Wqe.ds, gdaBuildRdmaWriteWqe]
    exact ⟨opcode, ds⟩
  rw [wqeTransfer, Wqe.decode, if_pos header]
  simp only [gdaBuildRdmaWriteWqe, join_words_split, htobe64_htobe64, htobe32_htobe32, Option.map_some, transferOf]

theorem opt_transfer (qpn : BitVec 32) (put : Put) (wqeIdx : Nat) (index : wqeIdx < 65536) :
    wqeTransfer (buildRdmaWriteWqe qpn put wqeIdx) = some (transferOf put) := by
  rw [wqeTransfer, build_decodes qpn put wqeIdx index, Option.map_some]

-- The NIC starts where the producer does. `posted` is ghost.
structure Feed where
  queue : Queue
  posted : List Put
  fetched : List Wqe

inductive Action where
  | post (put : Put)
  | fetch

def step (poster : DeviceCtx → Queue → Put → Queue) (ctx : DeviceCtx) (base : Nat) (feed : Feed) : Action → Option Feed
  | .post put => some { feed with queue := poster ctx feed.queue put, posted := feed.posted ++ [put] }
  | .fetch =>
      let consumer := base + feed.fetched.length
      if consumer % 2 ^ 16 = dbrecIndex feed.queue.dbrec then none
      else some { feed with fetched := feed.fetched ++ [feed.queue.wqeBuf (consumer % ctx.nwqes)] }

def Room (ctx : DeviceCtx) (feed : Feed) : Action → Prop
  | .post _ => feed.posted.length < feed.fetched.length + ctx.nwqes
  | .fetch => True

instance (ctx : DeviceCtx) (feed : Feed) : (action : Action) → Decidable (Room ctx feed action)
  | .post _ => inferInstanceAs (Decidable (_ < _))
  | .fetch => isTrue trivial

def posts (actions : List Action) : List Put :=
  actions.filterMap fun action =>
    match action with
    | .post put => some put
    | .fetch => none

def Feed.transfers (feed : Feed) : List (Option Transfer) := feed.fetched.map wqeTransfer

def fetches (poster : DeviceCtx → Queue → Put → Queue) (ctx : DeviceCtx) (queue : Queue) (actions : List Action) :
    Option (List (Option Transfer)) :=
  (run (guarded (step poster ctx queue.prodIdx) (Room ctx)) ⟨queue, [], []⟩ actions).map Feed.transfers

def Drained (queue : Queue) : Prop := dbrecIndex queue.dbrec = queue.prodIdx % 2 ^ 16

end OpenGda.Mlx5.Basic
