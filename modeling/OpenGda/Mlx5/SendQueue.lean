import OpenGda.Mlx5.Wqe
import OpenGda.Lib.PhaseRing

set_option autoImplicit false

-- One DeviceCtx of the MLX5 backend with the NIC that serves its send queue.
namespace OpenGda.Mlx5

open Machine PhaseRing

structure RemoteBufferInfo where
  addr : BitVec 64
  rkey : BitVec 32
deriving DecidableEq, Repr

-- `cqe` says whether the pointer to the completion queue is there: it stays null when
-- DevxQp::allocate_cq cannot register the buffer with CUDA, which only prints a message.
structure DeviceCtx where
  qpn : BitVec 32
  nwqes : Nat
  nwqesMask : Nat
  ncqes : Nat
  ncqesMask : Nat
  cqe : Bool
  remoteAddr : BitVec 64
  remoteRkey : BitVec 32
deriving DecidableEq, Repr

-- nwqes and nwqes_mask are uint16_t, ncqes and ncqes_mask uint32_t.
def prepare (qpn : BitVec 32) (logWqSize numCqe : Nat) (remote : RemoteBufferInfo) (cqe : Bool) : DeviceCtx where
  qpn := qpn
  nwqes := (1 <<< logWqSize) % 2 ^ 16
  nwqesMask := ((1 <<< logWqSize) % 2 ^ 16 + (2 ^ 16 - 1)) % 2 ^ 16
  ncqes := numCqe
  ncqesMask := (numCqe + (2 ^ 32 - 1)) % 2 ^ 32
  cqe := cqe
  remoteAddr := remote.addr
  remoteRkey := remote.rkey

-- `built` is ghost: prod_idx without its wrap.
structure Queue where
  wqeBuf : Nat → Wqe
  dbrec : BitVec 32
  bfReg : BitVec 64
  prodIdx : Nat
  built : Nat
  executed : List Executed
  completed : Nat
  cqe : Nat → Nat
  cqes : Nat

def freshQueue : Queue where
  wqeBuf := fun _ => blankWqe
  dbrec := 0
  bfReg := 0
  prodIdx := 0
  built := 0
  executed := []
  completed := 0
  cqe := fun _ => 0xFF
  cqes := 0

def getWqeSlot (ctx : DeviceCtx) (wqeIdx : Nat) : Nat := wqeIdx &&& ctx.nwqesMask

def buildAt (ctx : DeviceCtx) (queue : Queue) (put : Put) (wqeIdx : Nat) : Queue :=
  { queue with
    wqeBuf := Function.update queue.wqeBuf (getWqeSlot ctx wqeIdx) (buildRdmaWriteWqe ctx.qpn put wqeIdx)
    built := queue.built + 1 }

def ringDoorbellBf (ctx : DeviceCtx) (queue : Queue) (wqeIdx : Nat) : Queue :=
  { queue with
    dbrec := dbrecWord wqeIdx
    bfReg := bfWord ctx.qpn wqeIdx
    prodIdx := wqeIdx }

def rdmaWriteNoDb (ctx : DeviceCtx) (queue : Queue) (put : Put) : Queue :=
  let prod := queue.prodIdx
  let wqeIdx := prod &&& 0xFFFF
  let newProd := (prod + 1) &&& 0xFFFF
  { buildAt ctx queue put wqeIdx with prodIdx := newProd }

def flushDoorbell (ctx : DeviceCtx) (queue : Queue) : Queue :=
  let wqeIdx := queue.prodIdx &&& 0xFFFF
  ringDoorbellBf ctx queue wqeIdx

def rdmaWriteOpt (ctx : DeviceCtx) (queue : Queue) (put : Put) : Queue :=
  let prod := queue.prodIdx
  let wqeIdx := prod &&& 0xFFFF
  let newProd := (prod + 1) &&& 0xFFFF
  ringDoorbellBf ctx (buildAt ctx queue put wqeIdx) newProd

-- The calls of mlx5_device.cuh; `putDefault` is put() without a remote address.
inductive Op where
  | put (put : Put)
  | putDefault (localAddr : BitVec 64) (localLkey size : BitVec 32) (signaled : Bool)
  | putNoDb (put : Put)
  | flush
deriving DecidableEq, Repr

def defaultPut (ctx : DeviceCtx) (localAddr : BitVec 64) (localLkey size : BitVec 32) (signaled : Bool) : Put :=
  ⟨localAddr, localLkey, ctx.remoteAddr, ctx.remoteRkey, size, signaled⟩

def applyOp (ctx : DeviceCtx) (queue : Queue) : Op → Queue
  | .put put => rdmaWriteOpt ctx queue put
  | .putDefault localAddr localLkey size signaled =>
      rdmaWriteOpt ctx queue (defaultPut ctx localAddr localLkey size signaled)
  | .putNoDb put => rdmaWriteNoDb ctx queue put
  | .flush => flushDoorbell ctx queue

-- The NIC's consumer index is the number of WQEs it has executed.
def nicFetch (ctx : DeviceCtx) (queue : Queue) : Option Queue :=
  let consumer := queue.executed.length
  if consumer % 2 ^ 16 = dbrecIndex queue.dbrec then none
  else
    match (queue.wqeBuf (consumer % ctx.nwqes)).decode with
    | some executed => some { queue with executed := queue.executed ++ [executed] }
    | none => none

-- Completions come in order; a signaled one writes op_own of the next CQE, opcode 0.
def nicComplete (ctx : DeviceCtx) (queue : Queue) : Option Queue :=
  match queue.executed[queue.completed]? with
  | some executed =>
      if executed.put.signaled then
        some
          { queue with
            completed := queue.completed + 1
            cqe := push queue.cqe ctx.ncqes queue.cqes (queue.cqes / ctx.ncqes % 2)
            cqes := queue.cqes + 1 }
      else some { queue with completed := queue.completed + 1 }
  | none => none

inductive Action where
  | op (op : Op)
  | fetch
  | complete
deriving DecidableEq, Repr

def step (ctx : DeviceCtx) (queue : Queue) : Action → Option Queue
  | .op op => some (applyOp ctx queue op)
  | .fetch => nicFetch ctx queue
  | .complete => nicComplete ctx queue

def Op.write (ctx : DeviceCtx) : Op → Option Put
  | .put write => some write
  | .putDefault localAddr localLkey size signaled => some (defaultPut ctx localAddr localLkey size signaled)
  | .putNoDb write => some write
  | .flush => none

def Op.rings : Op → Bool
  | .putNoDb _ => false
  | _ => true

-- A WQE is built only while fewer than nwqes are built and not executed.
def Fits (ctx : DeviceCtx) (queue : Queue) : Action → Prop
  | .op op => (op.write ctx).isSome → queue.built < queue.executed.length + ctx.nwqes
  | _ => True

instance (ctx : DeviceCtx) (queue : Queue) (action : Action) : Decidable (Fits ctx queue action) := by
  cases action with
  | op op => exact inferInstanceAs (Decidable (_ → _))
  | _ => exact isTrue trivial

def programWrites (ctx : DeviceCtx) (actions : List Action) : List Put :=
  actions.filterMap fun action =>
    match action with
    | .op op => op.write ctx
    | _ => none

structure Fifo where
  posted : List Put
  announced : Nat
  executed : Nat
  completed : Nat
deriving DecidableEq, Repr

def emptyFifo : Fifo := ⟨[], 0, 0, 0⟩

def Fifo.applyOp (ctx : DeviceCtx) (fifo : Fifo) (op : Op) : Fifo :=
  let posted := fifo.posted ++ (op.write ctx).toList
  { fifo with posted := posted, announced := if op.rings then posted.length else fifo.announced }

def Fifo.step (ctx : DeviceCtx) (fifo : Fifo) : Action → Option Fifo
  | .op op => some (fifo.applyOp ctx op)
  | .fetch => if fifo.executed < fifo.announced then some { fifo with executed := fifo.executed + 1 } else none
  | .complete => if fifo.completed < fifo.executed then some { fifo with completed := fifo.completed + 1 } else none

def stamped (posted : List Put) : List Executed := posted.mapIdx fun index put => ⟨index % 2 ^ 16, put⟩

structure Refines (ctx : DeviceCtx) (queue : Queue) (fifo : Fifo) : Prop where
  built : queue.built = fifo.posted.length
  prod : queue.prodIdx = fifo.posted.length % 2 ^ 16
  announced : fifo.announced ≤ fifo.posted.length
  dbrec : dbrecIndex queue.dbrec = fifo.announced % 2 ^ 16
  bf : bfIndex queue.bfReg = fifo.announced % 2 ^ 16
  order : fifo.executed ≤ fifo.announced
  executed : queue.executed = stamped (fifo.posted.take fifo.executed)
  slots : ∀ index put, fifo.executed ≤ index → fifo.posted[index]? = some put →
    queue.wqeBuf (index % ctx.nwqes) = buildRdmaWriteWqe ctx.qpn put (index % 2 ^ 16)
  room : fifo.posted.length ≤ fifo.executed + ctx.nwqes
  completed : queue.completed = fifo.completed
  retired : fifo.completed ≤ fifo.executed

end OpenGda.Mlx5
