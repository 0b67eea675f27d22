import OpenGda.Lib.Reservation
import OpenGda.Mlx5.Wqe

set_option autoImplicit false

-- Submission of device_nvshmem.cuh: threads that share one DeviceQpState reserve
-- slots, build their WQEs and announce them through three indices and a lock.
namespace OpenGda.Mlx5.Nvshmem

open Machine Reservation

variable {Thread : Type} [DecidableEq Thread]

structure QpConfig where
  qpn : BitVec 32
  batchSize : Nat
  batchMask : Nat
deriving DecidableEq, Repr

-- Where a thread is between gda_reserve_wqe_slots and the return of
-- gda_submit_requests. The count is a uint32_t of the first and a uint16_t of the
-- second; `reserved` is ghost: the count before that conversion.
inductive Stage where
  | idle
  | building (baseWqeIdx : Nat) (numWqes : UInt32) (done : Nat)
  | waiting (baseWqeIdx : Nat) (numWqes : UInt16) (reserved : UInt32)
  | deciding (baseWqeIdx : Nat) (numWqes : UInt16)
  | acquiring (newProdIdx : Nat)
  | locked (newProdIdx : Nat)
  | updatingDbr (newProdIdx : Nat)
  | ringingDb (newProdIdx : Nat)
  | releasing
deriving DecidableEq, Repr

-- `built`, `reservations`, `dbrecValues` and `bfValues` are ghost: the WQEs that
-- are complete, the ranges handed out, and the values written so far.
structure Qp (Thread : Type) where
  resvHead : Nat
  readyHead : Nat
  prodIdx : Nat
  postSendLock : Bool
  dbrec : BitVec 32
  bfReg : BitVec 64
  threads : Thread → Stage
  built : Nat → Bool
  reservations : List Range
  dbrecValues : List Nat
  bfValues : List Nat

def initial : Qp Thread where
  resvHead := 0
  readyHead := 0
  prodIdx := 0
  postSendLock := false
  dbrec := 0
  bfReg := 0
  threads := fun _ => .idle
  built := fun _ => false
  reservations := []
  dbrecValues := []
  bfValues := []

def Qp.moveTo (qp : Qp Thread) (thread : Thread) (stage : Stage) : Qp Thread :=
  { qp with threads := Function.update qp.threads thread stage }

def gdaReserveWqeSlots (qp : Qp Thread) (thread : Thread) (numWqes : UInt32) : Qp Thread :=
  { qp with
    resvHead := qp.resvHead + numWqes.toNat
    reservations := qp.reservations ++ [Range.mk qp.resvHead numWqes.toNat] }.moveTo thread
      (.building qp.resvHead numWqes 0)

-- The last store of the next WQE of the range, or the call of gda_submit_requests.
def buildNext (qp : Qp Thread) (thread : Thread) (baseWqeIdx : Nat) (numWqes : UInt32) (done : Nat) : Qp Thread :=
  if done < numWqes.toNat then
    { qp with built := Function.update qp.built (baseWqeIdx + done) true }.moveTo thread
      (.building baseWqeIdx numWqes (done + 1))
  else qp.moveTo thread (.waiting baseWqeIdx numWqes.toUInt16 numWqes)

def doPostSend (config : QpConfig) (qp : Qp Thread) (baseWqeIdx : Nat) (numWqes : UInt16) : Prop :=
  let newWqeIdx := baseWqeIdx + numWqes.toNat
  newWqeIdx = qp.resvHead ∨ baseWqeIdx &&& config.batchMask ≠ newWqeIdx &&& config.batchMask ∨
    config.batchSize ≤ numWqes.toNat

instance (config : QpConfig) (qp : Qp Thread) (baseWqeIdx : Nat) (numWqes : UInt16) :
    Decidable (doPostSend config qp baseWqeIdx numWqes) := inferInstanceAs (Decidable (_ ∨ _ ∨ _))

-- gda_submit_requests and gda_post_send, one atomic operation or store at a time;
-- `none` is a failed compare-and-swap, which is tried again.
def submitStep (config : QpConfig) (qp : Qp Thread) (thread : Thread) : Stage → Option (Qp Thread)
  | .waiting baseWqeIdx numWqes _ =>
      if qp.readyHead = baseWqeIdx then
        some ({ qp with readyHead := baseWqeIdx + numWqes.toNat }.moveTo thread (.deciding baseWqeIdx numWqes))
      else none
  | .deciding baseWqeIdx numWqes =>
      if doPostSend config qp baseWqeIdx numWqes then
        some (qp.moveTo thread (.acquiring (baseWqeIdx + numWqes.toNat)))
      else some (qp.moveTo thread .idle)
  | .acquiring newProdIdx =>
      if qp.postSendLock then none
      else some ({ qp with postSendLock := true }.moveTo thread (.locked newProdIdx))
  | .locked newProdIdx =>
      let oldProdIdx := qp.prodIdx
      some ({ qp with prodIdx := max oldProdIdx newProdIdx }.moveTo thread
        (if oldProdIdx < newProdIdx then .updatingDbr newProdIdx else .releasing))
  | .updatingDbr newProdIdx =>
      some ({ qp with
        dbrec := dbrecWord newProdIdx
        dbrecValues := qp.dbrecValues ++ [newProdIdx] }.moveTo thread (.ringingDb newProdIdx))
  | .ringingDb newProdIdx =>
      some ({ qp with
        bfReg := bfWord config.qpn (newProdIdx % 2 ^ 16)
        bfValues := qp.bfValues ++ [newProdIdx] }.moveTo thread .releasing)
  | .releasing => some ({ qp with postSendLock := false }.moveTo thread .idle)
  | .idle | .building _ _ _ => none

inductive Action (Thread : Type) where
  | reserve (thread : Thread) (numWqes : UInt32)
  | build (thread : Thread)
  | submit (thread : Thread)

def step (config : QpConfig) (qp : Qp Thread) : Action Thread → Option (Qp Thread)
  | .reserve thread numWqes =>
      if qp.threads thread = .idle ∧ 0 < numWqes.toNat then some (gdaReserveWqeSlots qp thread numWqes) else none
  | .build thread =>
      match qp.threads thread with
      | .building baseWqeIdx numWqes done => some (buildNext qp thread baseWqeIdx numWqes done)
      | _ => none
  | .submit thread => submitStep config qp thread (qp.threads thread)

def Stage.held : Stage → Option Range
  | .building baseWqeIdx numWqes _ => some ⟨baseWqeIdx, numWqes.toNat⟩
  | .waiting baseWqeIdx _ reserved => some ⟨baseWqeIdx, reserved.toNat⟩
  | _ => none

def Stage.critical : Stage → Bool
  | .locked _ | .updatingDbr _ | .ringingDb _ | .releasing => true
  | _ => false

def Stage.owesDbrec : Stage → Option Nat
  | .updatingDbr newProdIdx => some newProdIdx
  | _ => none

def Stage.owesBf : Stage → Option Nat
  | .updatingDbr newProdIdx | .ringingDb newProdIdx => some newProdIdx
  | _ => none

def Stage.responsible : Stage → Option Nat
  | .deciding baseWqeIdx numWqes => some (baseWqeIdx + numWqes.toNat)
  | .acquiring newProdIdx | .locked newProdIdx => some newProdIdx
  | _ => none

end OpenGda.Mlx5.Nvshmem
