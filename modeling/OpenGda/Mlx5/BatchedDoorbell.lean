import OpenGda.Mlx5.Basic

set_option autoImplicit false

-- One doorbell for many WQEs: gda_rdma_write_batched beside the calls of
-- device_opt.cuh that ring for themselves.
namespace OpenGda.Mlx5.BatchedDoorbell

open Basic

-- batch_size is a uint32_t; bf_reg may be null.
structure DeviceStateOpt where
  ctx : DeviceCtx
  batchSize : Nat
  bfMapped : Bool

structure Doorbell where
  built : Nat
  dbrec : BitVec 32
  bfReg : BitVec 64

-- `nicProd` and `doorbells` are ghost: the NIC's producer without its wrap, every ring so far.
structure Poster where
  queue : Queue
  nicProd : Nat
  doorbells : List Doorbell

def started (queue : Queue) : Poster := ⟨{ queue with built := 0 }, queue.prodIdx, []⟩

-- The NIC goes forward to the next index with these sixteen bits.
def nicLearn (nicProd value : Nat) : Nat := nicProd + (value + 2 ^ 16 - nicProd % 2 ^ 16) % 2 ^ 16

def Poster.rung (poster : Poster) (queue : Queue) : Poster where
  queue := queue
  nicProd := nicLearn poster.nicProd (dbrecIndex queue.dbrec)
  doorbells := poster.doorbells ++ [⟨queue.built, queue.dbrec, queue.bfReg⟩]

def gdaRingDoorbellBf (state : DeviceStateOpt) (poster : Poster) (wqeIdx : Nat) : Poster :=
  poster.rung
    { poster.queue with
      dbrec := dbrecWord wqeIdx
      bfReg := if state.bfMapped then bfWord state.ctx.qpn wqeIdx else poster.queue.bfReg
      prodIdx := wqeIdx }

def gdaShouldPostDoorbell (state : DeviceStateOpt) (baseIdx newIdx : Nat) : Bool :=
  let mask := 2 ^ 64 - 1 - (state.batchSize + (2 ^ 32 - 1)) % 2 ^ 32
  (baseIdx &&& mask) != (newIdx &&& mask)

def gdaPostWqesBatched (state : DeviceStateOpt) (poster : Poster) (newProdIdx : Nat) : Poster :=
  if state.bfMapped then
    let wqeIdx := newProdIdx &&& 0xFFFF
    poster.rung
      { poster.queue with
        dbrec := dbrecWord wqeIdx
        bfReg := bfWord state.ctx.qpn wqeIdx
        prodIdx := newProdIdx }
  else poster.rung { poster.queue with dbrec := dbrecWord newProdIdx, prodIdx := newProdIdx }

def gdaFlushDoorbell (state : DeviceStateOpt) (poster : Poster) : Poster :=
  let wqeIdx := poster.queue.prodIdx &&& 0xFFFF
  gdaRingDoorbellBf state poster wqeIdx

def gdaRdmaWriteOpt (state : DeviceStateOpt) (poster : Poster) (put : Put) : Poster :=
  let prod := poster.queue.prodIdx
  let wqeIdx := prod &&& 0xFFFF
  let newProd := (prod + 1) % 2 ^ 64 &&& 0xFFFF
  gdaRingDoorbellBf state { poster with queue := buildAt state.ctx poster.queue put wqeIdx } newProd

def gdaRdmaWriteBatched (state : DeviceStateOpt) (poster : Poster) (put : Put) (forcePost : Bool) : Poster × Bool :=
  let wqeSlot := poster.queue.prodIdx
  let newProd := (wqeSlot + 1) % 2 ^ 64
  let built := buildAt state.ctx poster.queue put (wqeSlot &&& 0xFFFF)
  let doPost := forcePost || put.signaled || gdaShouldPostDoorbell state wqeSlot newProd
  if doPost then (gdaPostWqesBatched state { poster with queue := built } newProd, true)
  else ({ poster with queue := { built with prodIdx := newProd } }, false)

inductive Call where
  | batched (put : Put) (forcePost : Bool)
  | opt (put : Put)
  | flush
deriving DecidableEq, Repr

def invoke (state : DeviceStateOpt) (poster : Poster) : Call → Poster
  | .batched put forcePost => (gdaRdmaWriteBatched state poster put forcePost).1
  | .opt put => gdaRdmaWriteOpt state poster put
  | .flush => gdaFlushDoorbell state poster

def afterCalls (state : DeviceStateOpt) (queue : Queue) (calls : List Call) : Poster :=
  calls.foldl (invoke state) (started queue)

def total (start : Nat) (poster : Poster) : Nat := start + poster.queue.built

def AllAnnounced (start : Nat) (poster : Poster) : Prop := poster.nicProd = total start poster

def Call.asksDoorbell : Call → Bool
  | .batched put forcePost => put.signaled || forcePost
  | .opt _ => true
  | .flush => true

def Doorbell.Tells (state : DeviceStateOpt) (start : Nat) (doorbell : Doorbell) : Prop :=
  dbrecIndex doorbell.dbrec = (start + doorbell.built) % 2 ^ 16 ∧
    (state.bfMapped = true → bfIndex doorbell.bfReg = (start + doorbell.built) % 2 ^ 16)

-- `within`: the WQEs not announced all lie in the batch that prod_idx is in.
structure Lagging (state : DeviceStateOpt) (start : Nat) (poster : Poster) : Prop where
  word : poster.queue.prodIdx < 2 ^ 64
  prod : poster.queue.prodIdx % 2 ^ 16 = total start poster % 2 ^ 16
  heard : dbrecIndex poster.queue.dbrec = poster.nicProd % 2 ^ 16
  behind : poster.nicProd ≤ total start poster
  within : total start poster - poster.nicProd ≤ poster.queue.prodIdx % state.batchSize
  tells : ∀ doorbell ∈ poster.doorbells, doorbell.Tells state start

theorem write_opt_queue (state : DeviceStateOpt) (poster : Poster) (put : Put) (mapped : state.bfMapped = true) :
    (gdaRdmaWriteOpt state poster put).queue = rdmaWriteOpt state.ctx poster.queue put := by
  have next : (poster.queue.prodIdx + 1) % 2 ^ 64 &&& 0xFFFF = (poster.queue.prodIdx + 1) &&& 0xFFFF := by
    rw [and_ffff, and_ffff]
    exact Nat.mod_mod_of_dvd _ (show 2 ^ 16 ∣ 2 ^ 64 by decide)
  simp only [gdaRdmaWriteOpt, gdaRingDoorbellBf, Poster.rung, next, mapped, if_true, rdmaWriteOpt, ringDoorbellBf]

theorem and_batch_mask (index log : Nat) (small : log ≤ 15) (bound : index < 2 ^ 64) :
    index &&& (2 ^ 64 - 1 - (2 ^ log + (2 ^ 32 - 1)) % 2 ^ 32) = index / 2 ^ log * 2 ^ log := by
  have top : 2 ^ log ≤ 2 ^ 15 := Nat.pow_le_pow_right (by decide) small
  have positive := Nat.two_pow_pos log
  have mask : 2 ^ 64 - 1 - (2 ^ log + (2 ^ 32 - 1)) % 2 ^ 32 = 2 ^ 64 - ((2 ^ log - 1) + 1) := by omega
  rw [mask, ← Nat.shiftRight_eq_div_pow, ← Nat.shiftLeft_eq]
  refine Nat.eq_of_testBit_eq fun place => ?_
  rw [Nat.testBit_and, Nat.testBit_two_pow_sub_succ (by omega), Nat.testBit_two_pow_sub_one, Nat.testBit_shiftLeft,
    Nat.testBit_shiftRight]
  by_cases low : place < log
  · simp [low, Nat.not_le.mpr low]
  · have high : log ≤ place := Nat.le_of_not_lt low
    rw [Nat.add_sub_cancel' high]
    by_cases inside : place < 64
    · simp [low, high, inside]
    · have clear : index.testBit place = false :=
        Nat.testBit_eq_false_of_lt (Nat.lt_of_lt_of_le bound (Nat.pow_le_pow_right (by decide) (Nat.le_of_not_lt inside)))
      simp [clear]

theorem quiet_within (state : DeviceStateOpt) (log : Nat) (power : state.batchSize = 2 ^ log) (small : log ≤ 15)
    (prod : Nat) (word : prod < 2 ^ 64)
    (quiet : gdaShouldPostDoorbell state prod ((prod + 1) % 2 ^ 64) = false) :
    (prod + 1) % 2 ^ 64 % state.batchSize = prod % state.batchSize + 1 := by
  have top : 2 ^ log ≤ 2 ^ 15 := Nat.pow_le_pow_right (by decide) small
  have positive := Nat.two_pow_pos log
  rw [gdaShouldPostDoorbell, power, and_batch_mask prod log small word,
    and_batch_mask _ log small (Nat.mod_lt _ (by decide)), bne_eq_false_iff_eq] at quiet
  rw [power]
  have before := Nat.div_add_mod' prod (2 ^ log)
  have after := Nat.div_add_mod' ((prod + 1) % 2 ^ 64) (2 ^ log)
  have short := Nat.mod_lt prod positive
  omega

theorem nic_learn_reaches (nicProd target : Nat) (behind : nicProd ≤ target) (near : target < nicProd + 2 ^ 16) :
    nicLearn nicProd (target % 2 ^ 16) = target := by
  rw [nicLearn]
  omega

theorem started_lagging (state : DeviceStateOpt) (queue : Queue) (word : queue.prodIdx < 2 ^ 64)
    (drained : Drained queue) : Lagging state queue.prodIdx (started queue) where
  word := word
  prod := rfl
  heard := drained
  behind := Nat.le_refl _
  within := by simp [total, started]
  tells := fun doorbell member => absurd member List.not_mem_nil

theorem lagging_short (state : DeviceStateOpt) (log : Nat) (power : state.batchSize = 2 ^ log) (start : Nat)
    (poster : Poster) (lagging : Lagging state start poster) :
    total start poster - poster.nicProd < state.batchSize := by
  have positive : 0 < state.batchSize := power ▸ Nat.two_pow_pos log
  exact Nat.lt_of_le_of_lt lagging.within (Nat.mod_lt _ positive)

theorem rung_lagging (state : DeviceStateOpt) (start : Nat) (poster : Poster) (queue : Queue)
    (behind : poster.nicProd ≤ start + queue.built) (near : start + queue.built < poster.nicProd + 2 ^ 16)
    (tells : ∀ doorbell ∈ poster.doorbells, doorbell.Tells state start) (word : queue.prodIdx < 2 ^ 64)
    (prod : queue.prodIdx % 2 ^ 16 = (start + queue.built) % 2 ^ 16)
    (bell : Doorbell.Tells state start ⟨queue.built, queue.dbrec, queue.bfReg⟩) :
    Lagging state start (poster.rung queue) ∧ AllAnnounced start (poster.rung queue) := by
  have reached : (poster.rung queue).nicProd = start + queue.built := by
    rw [Poster.rung, bell.1]
    exact nic_learn_reaches _ _ behind near
  refine ⟨⟨word, prod, ?_, ?_, ?_, ?_⟩, reached⟩
  · rw [reached]
    exact bell.1
  · exact Nat.le_of_eq reached
  · rw [reached, total, Poster.rung, Nat.sub_self]
    exact Nat.zero_le _
  · intro doorbell member
    rcases List.mem_append.mp member with earlier | last
    · exact tells doorbell earlier
    · rw [List.mem_singleton.mp last]
      exact bell

theorem ring_bf_lagging (state : DeviceStateOpt) (start : Nat) (poster : Poster) (wqeIdx : Nat)
    (behind : poster.nicProd ≤ total start poster) (near : total start poster < poster.nicProd + 2 ^ 16)
    (tells : ∀ doorbell ∈ poster.doorbells, doorbell.Tells state start)
    (here : wqeIdx = total start poster % 2 ^ 16) :
    Lagging state start (gdaRingDoorbellBf state poster wqeIdx) ∧
      AllAnnounced start (gdaRingDoorbellBf state poster wqeIdx) := by
  have low : total start poster % 2 ^ 16 < 65536 := Nat.mod_lt _ (by decide)
  subst here
  refine rung_lagging state start poster _ behind near tells ?_ (Nat.mod_mod _ _) ⟨?_, ?_⟩
  · exact Nat.lt_trans low (by decide)
  · rw [dbrec_word_decodes]
    exact Nat.mod_eq_of_lt low
  · intro mapped
    simp only [mapped, if_true]
    exact bf_word_decodes state.ctx.qpn _ low

theorem post_batched_lagging (state : DeviceStateOpt) (start : Nat) (poster : Poster) (index : Nat)
    (behind : poster.nicProd ≤ total start poster) (near : total start poster < poster.nicProd + 2 ^ 16)
    (tells : ∀ doorbell ∈ poster.doorbells, doorbell.Tells state start) (word : index < 2 ^ 64)
    (here : index % 2 ^ 16 = total start poster % 2 ^ 16) :
    Lagging state start (gdaPostWqesBatched state poster index) ∧
      AllAnnounced start (gdaPostWqesBatched state poster index) := by
  have low : index % 65536 < 65536 := Nat.mod_lt _ (by decide)
  cases mapped : state.bfMapped with
  | true =>
      simp only [gdaPostWqesBatched, mapped, if_true]
      refine rung_lagging state start poster _ behind near tells word here ⟨?_, fun _ => ?_⟩
      · rw [dbrec_word_decodes, and_ffff, Nat.mod_mod]
        exact here
      · rw [and_ffff, bf_word_decodes state.ctx.qpn _ low]
        exact here
  | false =>
      simp only [gdaPostWqesBatched, mapped, Bool.false_eq_true, if_false]
      refine rung_lagging state start poster _ behind near tells word here ⟨?_, fun absent => ?_⟩
      · rw [dbrec_word_decodes]
        exact here
      · rw [mapped] at absent
        cases absent

theorem flush_lagging (state : DeviceStateOpt) (log : Nat) (power : state.batchSize = 2 ^ log) (small : log ≤ 15)
    (start : Nat) (poster : Poster) (lagging : Lagging state start poster) :
    Lagging state start (gdaFlushDoorbell state poster) ∧ AllAnnounced start (gdaFlushDoorbell state poster) := by
  have top : 2 ^ log ≤ 2 ^ 15 := Nat.pow_le_pow_right (by decide) small
  have short := lagging_short state log power start poster lagging
  refine ring_bf_lagging state start poster _ lagging.behind (by omega) lagging.tells ?_
  rw [and_ffff]
  exact lagging.prod

theorem write_opt_lagging (state : DeviceStateOpt) (log : Nat) (power : state.batchSize = 2 ^ log) (small : log ≤ 15)
    (start : Nat) (poster : Poster) (lagging : Lagging state start poster) (put : Put) :
    Lagging state start (gdaRdmaWriteOpt state poster put) ∧ AllAnnounced start (gdaRdmaWriteOpt state poster put) := by
  have top : 2 ^ log ≤ 2 ^ 15 := Nat.pow_le_pow_right (by decide) small
  have short := lagging_short state log power start poster lagging
  have behind := lagging.behind
  have prod := lagging.prod
  simp only [total] at short behind prod
  refine ring_bf_lagging state start { poster with queue := buildAt state.ctx poster.queue put _ } _ ?_ ?_
    lagging.tells ?_
  · simp only [total, buildAt]
    omega
  · simp only [total, buildAt]
    omega
  · simp only [total, buildAt, and_ffff]
    omega

theorem write_batched_lagging (state : DeviceStateOpt) (log : Nat) (power : state.batchSize = 2 ^ log)
    (small : log ≤ 15) (start : Nat) (poster : Poster) (lagging : Lagging state start poster) (put : Put)
    (forcePost : Bool) :
    Lagging state start (gdaRdmaWriteBatched state poster put forcePost).1 ∧
      ((gdaRdmaWriteBatched state poster put forcePost).2 = true ↔
        AllAnnounced start (gdaRdmaWriteBatched state poster put forcePost).1) := by
  have top : 2 ^ log ≤ 2 ^ 15 := Nat.pow_le_pow_right (by decide) small
  have short := lagging_short state log power start poster lagging
  have behind := lagging.behind
  have prod := lagging.prod
  have within := lagging.within
  have word : (poster.queue.prodIdx + 1) % 2 ^ 64 < 2 ^ 64 := Nat.mod_lt _ (by decide)
  simp only [total] at short behind prod within
  cases post : forcePost || put.signaled ||
      gdaShouldPostDoorbell state poster.queue.prodIdx ((poster.queue.prodIdx + 1) % 2 ^ 64) with
  | true =>
      simp only [gdaRdmaWriteBatched, post, if_true, true_iff]
      refine post_batched_lagging state start { poster with queue := buildAt state.ctx poster.queue put _ } _ ?_ ?_
        lagging.tells word ?_
      · simp only [total, buildAt]
        omega
      · simp only [total, buildAt]
        omega
      · simp only [total, buildAt]
        omega
  | false =>
      have next := quiet_within state log power small poster.queue.prodIdx lagging.word (Bool.or_eq_false_iff.mp post).2
      simp only [gdaRdmaWriteBatched, post, Bool.false_eq_true, if_false, false_iff]
      refine ⟨⟨word, ?_, lagging.heard, ?_, ?_, lagging.tells⟩, ?_⟩
      · simp only [total, buildAt]
        omega
      · simp only [total, buildAt]
        omega
      · simp only [total, buildAt, next]
        omega
      · simp only [AllAnnounced, total, buildAt]
        omega

theorem invoke_lagging (state : DeviceStateOpt) (log : Nat) (power : state.batchSize = 2 ^ log) (small : log ≤ 15)
    (start : Nat) (poster : Poster) (lagging : Lagging state start poster) (call : Call) :
    Lagging state start (invoke state poster call) := by
  cases call with
  | batched put forcePost => exact (write_batched_lagging state log power small start poster lagging put forcePost).1
  | opt put => exact (write_opt_lagging state log power small start poster lagging put).1
  | flush => exact (flush_lagging state log power small start poster lagging).1

theorem calls_lagging (state : DeviceStateOpt) (log : Nat) (power : state.batchSize = 2 ^ log) (small : log ≤ 15)
    (start : Nat) (calls : List Call) (poster : Poster) (lagging : Lagging state start poster) :
    Lagging state start (calls.foldl (invoke state) poster) := by
  induction calls generalizing poster with
  | nil => exact lagging
  | cons call rest ih => exact ih _ (invoke_lagging state log power small start poster lagging call)

theorem asked_announced (state : DeviceStateOpt) (log : Nat) (power : state.batchSize = 2 ^ log) (small : log ≤ 15)
    (start : Nat) (poster : Poster) (lagging : Lagging state start poster) (call : Call)
    (asks : call.asksDoorbell = true) : AllAnnounced start (invoke state poster call) := by
  cases call with
  | batched put forcePost =>
      refine (write_batched_lagging state log power small start poster lagging put forcePost).2.mp ?_
      rw [Call.asksDoorbell, Bool.or_comm] at asks
      simp only [gdaRdmaWriteBatched, asks, Bool.true_or, if_true]
  | opt put => exact (write_opt_lagging state log power small start poster lagging put).2
  | flush => exact (flush_lagging state log power small start poster lagging).2

def wrappingCalls : List Call :=
  [.batched ⟨1, 2, 3, 4, 5, false⟩ false, .batched ⟨1, 2, 3, 4, 5, false⟩ false, .opt ⟨1, 2, 3, 4, 5, true⟩,
    .batched ⟨1, 2, 3, 4, 5, false⟩ false, .batched ⟨1, 2, 3, 4, 5, false⟩ true]

def wrappingQueue : Queue := { freshQueue with prodIdx := 65534, dbrec := dbrecWord 65534 }

end OpenGda.Mlx5.BatchedDoorbell
