import OpenGda.Mlx5.BasicPath

set_option autoImplicit false

-- One launch of gda_concurrent_write_kernel (device_nvshmem.cuh) with the NIC that
-- serves the queue: the threads of a block build, thread 0 reserves and submits.
namespace OpenGda.Mlx5.ConcurrentWrite

open Machine PhaseRing OpenGda.Mlx5.Basic

structure DeviceQpState where
  ctx : DeviceCtx
  batchSize : Nat
  batchMask : Nat

structure Launch where
  blockDim : Nat
  numWrites : Nat
  localAddrs : Nat → BitVec 64
  localLkeys : Nat → BitVec 32
  remoteAddrs : Nat → BitVec 64
  remoteRkey : BitVec 32
  size : BitVec 32
  threads : 1 ≤ blockDim
  positive : 1 ≤ numWrites

def Launch.put (launch : Launch) (tid : Nat) : Put :=
  ⟨launch.localAddrs tid, launch.localLkeys tid, launch.remoteAddrs tid, launch.remoteRkey, launch.size,
    tid == launch.numWrites - 1⟩

inductive Stage where
  | entered
  | firstSync
  | building
  | secondSync
  | past
deriving DecidableEq, Repr

-- Thread 0 after the second __syncthreads(), in gda_submit_requests and gda_post_send.
inductive Submit where
  | waiting
  | deciding
  | acquiring
  | locked
  | updatingDbr
  | ringingDb
  | releasing
  | returned
deriving DecidableEq, Repr

-- `written` is ghost: the entry whose WQE this launch has built in a slot.
structure State where
  queue : Queue
  resvHead : Nat
  readyHead : Nat
  postSendLock : Bool
  baseWqeIdx : Nat
  stages : Nat → Stage
  submit : Submit
  written : Nat → Option Nat
  fetched : List Wqe

-- __shared__ base_wqe_idx holds anything at first.
def start (queue : Queue) (shared : Nat) : State where
  queue := queue
  resvHead := queue.prodIdx
  readyHead := queue.prodIdx
  postSendLock := false
  baseWqeIdx := shared
  stages := fun _ => .entered
  submit := .waiting
  written := fun _ => none
  fetched := []

def State.moveTo (state : State) (tid : Nat) (stage : Stage) : State :=
  { state with stages := Function.update state.stages tid stage }

-- gda_reserve_wqe_slots takes num_writes as a uint32_t.
def enter (launch : Launch) (state : State) (tid : Nat) : State :=
  if tid = 0 then
    { state with
      baseWqeIdx := state.resvHead
      resvHead := (state.resvHead + launch.numWrites % 2 ^ 32) % 2 ^ 64 }.moveTo tid .firstSync
  else state.moveTo tid .firstSync

def build (qp : DeviceQpState) (launch : Launch) (state : State) (tid : Nat) : State :=
  if tid < launch.numWrites then
    let wqeIdx := wqeSlot state.baseWqeIdx tid
    let slot := getWqeSlot qp.ctx wqeIdx
    { state with
      queue := { state.queue with
        wqeBuf := Function.update state.queue.wqeBuf slot (gdaBuildRdmaWriteWqe qp.ctx.qpn (launch.put tid) wqeIdx) }
      written := Function.update state.written slot (some tid) }.moveTo tid .secondSync
  else state.moveTo tid .secondSync

def Arrived (launch : Launch) (state : State) (waitingFor : List Stage) : Prop :=
  ∀ tid < launch.blockDim, state.stages tid ∉ waitingFor

instance (launch : Launch) (state : State) (waitingFor : List Stage) : Decidable (Arrived launch state waitingFor) :=
  inferInstanceAs (Decidable (∀ tid < launch.blockDim, _))

def threadStep (qp : DeviceQpState) (launch : Launch) (state : State) (tid : Nat) : Option State :=
  match state.stages tid with
  | .entered => some (enter launch state tid)
  | .firstSync => if Arrived launch state [.entered] then some (state.moveTo tid .building) else none
  | .building => some (build qp launch state tid)
  | .secondSync =>
      if Arrived launch state [.entered, .firstSync, .building] then some (state.moveTo tid .past) else none
  | .past => none

-- gda_submit_requests takes num_writes as a uint16_t; `none` is a failed compare-and-swap.
def submitStep (qp : DeviceQpState) (launch : Launch) (state : State) : Option State :=
  let numWqes := launch.numWrites % 2 ^ 16
  let newWqeIdx := (state.baseWqeIdx + numWqes) % 2 ^ 64
  match state.submit with
  | .waiting =>
      if state.readyHead = state.baseWqeIdx then some { state with readyHead := newWqeIdx, submit := .deciding } else none
  | .deciding =>
      if newWqeIdx = state.resvHead ∨ state.baseWqeIdx &&& qp.batchMask ≠ newWqeIdx &&& qp.batchMask ∨
          qp.batchSize ≤ numWqes then
        some { state with submit := .acquiring }
      else some { state with submit := .returned }
  | .acquiring =>
      if state.postSendLock then none else some { state with postSendLock := true, submit := .locked }
  | .locked =>
      let oldProdIdx := state.queue.prodIdx
      some { state with
        queue := { state.queue with prodIdx := max oldProdIdx newWqeIdx }
        submit := if oldProdIdx < newWqeIdx then .updatingDbr else .releasing }
  | .updatingDbr =>
      some { state with queue := { state.queue with dbrec := dbrecWord newWqeIdx }, submit := .ringingDb }
  | .ringingDb =>
      some { state with
        queue := { state.queue with bfReg := bfWord qp.ctx.qpn (newWqeIdx % 2 ^ 16) }
        submit := .releasing }
  | .releasing => some { state with postSendLock := false, submit := .returned }
  | .returned => none

-- All earlier WQEs are processed, so the NIC starts at `base`.
def fetch (qp : DeviceQpState) (base : Nat) (state : State) : Option State :=
  let consumer := base + state.fetched.length
  if consumer % 2 ^ 16 = dbrecIndex state.queue.dbrec then none
  else some { state with fetched := state.fetched ++ [state.queue.wqeBuf (consumer % qp.ctx.nwqes)] }

inductive Action where
  | thread (tid : Nat)
  | submit
  | fetch
deriving DecidableEq, Repr

def step (qp : DeviceQpState) (launch : Launch) (base : Nat) (state : State) : Action → Option State
  | .thread tid => if tid < launch.blockDim then threadStep qp launch state tid else none
  | .submit => if state.stages 0 = .past then submitStep qp launch state else none
  | .fetch => fetch qp base state

def Returned (launch : Launch) (state : State) : Prop :=
  (∀ tid < launch.blockDim, state.stages tid = .past) ∧ state.submit = .returned

def announcedCount (base : Nat) (state : State) : Nat :=
  (dbrecIndex state.queue.dbrec + 2 ^ 16 - base % 2 ^ 16) % 2 ^ 16

structure Sound (qp : DeviceQpState) (launch : Launch) (base : Nat) (state : State) : Prop where
  built : ∀ entry < announcedCount base state, state.written ((base + entry) % qp.ctx.nwqes) = some entry ∧
    wqeTransfer (state.queue.wqeBuf ((base + entry) % qp.ctx.nwqes)) = some (transferOf (launch.put entry))
  fetched : ∀ entry wqe, state.fetched[entry]? = some wqe → wqeTransfer wqe = some (transferOf (launch.put entry))
  all : announcedCount base state = launch.numWrites
  bell : bfIndex state.queue.bfReg = dbrecIndex state.queue.dbrec
  resv : state.resvHead = (base + launch.numWrites) % 2 ^ 64
  ready : state.readyHead = state.resvHead
  prod : state.queue.prodIdx = state.resvHead

-- The condition: a thread for every write, and a 64-bit index that does not wrap.
def Covered (launch : Launch) (base : Nat) : Prop :=
  launch.numWrites ≤ launch.blockDim ∧ base + launch.numWrites < 2 ^ 64

instance (launch : Launch) (base : Nat) : Decidable (Covered launch base) := inferInstanceAs (Decidable (_ ∧ _))

def Stage.rank : Stage → Nat
  | .entered => 0
  | .firstSync => 1
  | .building => 2
  | .secondSync => 3
  | .past => 4

def Submit.rank : Submit → Nat
  | .waiting => 0
  | .deciding => 1
  | .acquiring => 2
  | .locked => 3
  | .updatingDbr => 4
  | .ringingDb => 5
  | .releasing => 6
  | .returned => 7

def Phased (launch : Launch) (state : State) (sync : Nat) : Prop :=
  ∀ tid < launch.blockDim, sync < (state.stages tid).rank →
    ∀ other < launch.blockDim, sync ≤ (state.stages other).rank

def nextIdx (launch : Launch) (base : Nat) : Nat := (base + launch.numWrites) % 2 ^ 64

structure Heads (launch : Launch) (base : Nat) (state : State) : Prop where
  begun : state.submit ≠ .waiting → state.stages 0 = .past
  shared : 1 ≤ (state.stages 0).rank → state.baseWqeIdx = base
  resv : state.resvHead = if (state.stages 0).rank = 0 then base else nextIdx launch base
  ready : state.readyHead = if state.submit.rank = 0 then base else nextIdx launch base
  lock : state.postSendLock = decide (3 ≤ state.submit.rank ∧ state.submit.rank ≤ 6)
  prod : state.queue.prodIdx = if 4 ≤ state.submit.rank then max base (nextIdx launch base) else base
  rings : state.submit.rank = 4 ∨ state.submit.rank = 5 → base < nextIdx launch base
  dbrec : dbrecIndex state.queue.dbrec =
    (if 5 ≤ state.submit.rank then max base (nextIdx launch base) else base) % 2 ^ 16
  bf : 6 ≤ state.submit.rank → base < nextIdx launch base →
    bfIndex state.queue.bfReg = nextIdx launch base % 2 ^ 16

structure Slots (qp : DeviceQpState) (launch : Launch) (base : Nat) (state : State) : Prop where
  owner : ∀ slot tid, state.written slot = some tid → tid < launch.blockDim
  built : ∀ tid < launch.blockDim, tid < launch.numWrites → 3 ≤ (state.stages tid).rank →
    state.written ((base + tid) % qp.ctx.nwqes) = some tid ∧
      wqeTransfer (state.queue.wqeBuf ((base + tid) % qp.ctx.nwqes)) = some (transferOf (launch.put tid))

structure Seen (qp : DeviceQpState) (launch : Launch) (base : Nat) (state : State) : Prop where
  wqes : ∀ entry wqe, state.fetched[entry]? = some wqe →
    wqe = state.queue.wqeBuf ((base + entry) % qp.ctx.nwqes)
  rung : state.fetched ≠ [] → 5 ≤ state.submit.rank ∧ base < nextIdx launch base
  few : state.fetched.length ≤ launch.numWrites

structure Inv (qp : DeviceQpState) (launch : Launch) (base : Nat) (state : State) : Prop where
  first : Phased launch state 1
  second : Phased launch state 3
  heads : Heads launch base state
  slots : Slots qp launch base state
  seen : Seen qp launch base state

end OpenGda.Mlx5.ConcurrentWrite
