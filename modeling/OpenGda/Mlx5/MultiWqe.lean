import OpenGda.Mlx5.BasicPath

set_option autoImplicit false

-- One launch of gda_multi_wqe_kernel (device_opt.cuh) with the NIC that serves the queue.
namespace OpenGda.Mlx5.MultiWqe

open Machine PhaseRing OpenGda.Mlx5.Basic

structure Launch where
  gridDim : Nat
  blockDim : Nat
  numOps : Nat
  localAddrs : Nat → BitVec 64
  localLkey : BitVec 32
  remoteAddrs : Nat → BitVec 64
  remoteRkey : BitVec 32
  sizes : Nat → BitVec 32
  positive : 0 < numOps
  enough : 32 * (numOps - 1) < gridDim * blockDim

def Launch.put (launch : Launch) (warpId : Nat) : Put :=
  ⟨launch.localAddrs warpId, launch.localLkey, launch.remoteAddrs warpId, launch.remoteRkey, launch.sizes warpId,
    warpId == launch.numOps - 1⟩

def Launch.last (launch : Launch) : Nat := launch.numOps - 1

-- The block of lane 0 of the warp, the only lane that has not returned.
def Launch.block (launch : Launch) (warpId : Nat) : Nat := 32 * warpId / launch.blockDim

inductive Stage where
  | entered
  | reserved (wqeIdx : Nat)
  | built (wqeIdx : Nat)
  | returned (wqeIdx : Nat)
deriving DecidableEq, Repr

def Stage.index : Stage → Option Nat
  | .entered => none
  | .reserved wqeIdx | .built wqeIdx | .returned wqeIdx => some wqeIdx

def Stage.finished : Stage → Option Nat
  | .entered | .reserved _ => none
  | .built wqeIdx | .returned wqeIdx => some wqeIdx

-- `order` (the warps by reservation) and `written` (who has finished building a slot) are
-- ghost, and so is the second half of what is fetched: whose slot it was.
structure State where
  queue : Queue
  resvHead : Nat
  stages : Nat → Stage
  order : List Nat
  written : Nat → Option Nat
  fetched : List (Wqe × Option Nat)

def start (queue : Queue) : State := ⟨queue, queue.prodIdx, fun _ => .entered, [], fun _ => none, []⟩

inductive Action where
  | reserve (warpId : Nat)
  | build (warpId : Nat)
  | sync (warpId : Nat)
  | fetch
deriving DecidableEq, Repr

def slotOf (wqeIdx : Nat) : Nat := (wqeIdx + 1) &&& 0xFFFF

def build (ctx : DeviceCtx) (launch : Launch) (state : State) (warpId wqeIdx : Nat) : State :=
  let slot := slotOf wqeIdx
  { state with
    queue := buildAt ctx state.queue (launch.put warpId) slot
    stages := Function.update state.stages warpId (.built wqeIdx)
    written := Function.update state.written (getWqeSlot ctx slot) (some warpId) }

-- __syncthreads() holds a warp until those of its block have built.
def Arrived (launch : Launch) (state : State) (warpId : Nat) : Prop :=
  ∀ other < launch.numOps, launch.block other = launch.block warpId → (state.stages other).finished.isSome = true

instance (launch : Launch) (state : State) (warpId : Nat) : Decidable (Arrived launch state warpId) :=
  inferInstanceAs (Decidable (∀ other < launch.numOps, _ → _))

def afterSync (ctx : DeviceCtx) (launch : Launch) (state : State) (warpId wqeIdx : Nat) : State :=
  { state with
    queue := if warpId = launch.numOps - 1 then ringDoorbellBf ctx state.queue (slotOf wqeIdx) else state.queue
    stages := Function.update state.stages warpId (.returned wqeIdx) }

-- `base` is the index from which the NIC processes.
def step (ctx : DeviceCtx) (launch : Launch) (base : Nat) (state : State) : Action → Option State
  | .reserve warpId =>
      if warpId < launch.numOps ∧ state.stages warpId = .entered then
        some { state with
          resvHead := state.resvHead + 1
          stages := Function.update state.stages warpId (.reserved state.resvHead)
          order := state.order ++ [warpId] }
      else none
  | .build warpId =>
      match state.stages warpId with
      | .reserved wqeIdx => some (build ctx launch state warpId wqeIdx)
      | _ => none
  | .sync warpId =>
      match state.stages warpId with
      | .built wqeIdx => if Arrived launch state warpId then some (afterSync ctx launch state warpId wqeIdx) else none
      | _ => none
  | .fetch =>
      let consumer := base + state.fetched.length
      if consumer % 2 ^ 16 = dbrecIndex state.queue.dbrec then none
      else some { state with
        fetched := state.fetched ++ [(state.queue.wqeBuf (consumer % ctx.nwqes), state.written (consumer % ctx.nwqes))] }

def Over (launch : Launch) (base : Nat) (state : State) : Prop :=
  (∀ warpId < launch.numOps, ∃ wqeIdx, state.stages warpId = .returned wqeIdx) ∧
    (base + state.fetched.length) % 2 ^ 16 = dbrecIndex state.queue.dbrec

def Launch.transfer (launch : Launch) (warpId : Nat) : Transfer := transferOf (launch.put warpId)

structure Exact (launch : Launch) (base : Nat) (state : State) : Prop where
  finished : ∀ entry ∈ state.fetched, entry.2.isSome = true
  each : Over launch base state → (state.fetched.map fun entry => wqeTransfer entry.1).Perm
    ((List.range launch.numOps).map fun warpId => some (launch.transfer warpId))

-- When the last warp comes to ring: the launch fills the ring, every WQE is built, and no
-- warp has reserved after this one.
def InLine (ctx : DeviceCtx) (launch : Launch) (base : Nat) (state : State) : Action → Prop
  | .sync warpId => warpId = launch.last → launch.numOps = ctx.nwqes ∧
      (∀ other < launch.numOps, (state.stages other).finished.isSome = true) ∧
      state.stages warpId = .built (base + launch.numOps - 1)
  | _ => True

structure Inv (ctx : DeviceCtx) (launch : Launch) (base : Nat) (state : State) : Prop where
  head : state.resvHead = base + state.order.length
  distinct : state.order.Nodup
  few : ∀ warpId ∈ state.order, warpId < launch.numOps
  index : ∀ warpId wqeIdx, (state.stages warpId).index = some wqeIdx ↔
    base ≤ wqeIdx ∧ state.order[wqeIdx - base]? = some warpId
  written : ∀ slot warpId, state.written slot = some warpId ↔
    ∃ wqeIdx, (state.stages warpId).finished = some wqeIdx ∧ slot = (wqeIdx + 1) % ctx.nwqes
  contents : ∀ slot warpId, state.written slot = some warpId →
    wqeTransfer (state.queue.wqeBuf slot) = some (launch.transfer warpId)
  quiet : (∀ wqeIdx, state.stages launch.last ≠ .returned wqeIdx) →
    dbrecIndex state.queue.dbrec = base % 2 ^ 16 ∧ state.fetched = []
  rung : ∀ wqeIdx, state.stages launch.last = .returned wqeIdx →
    dbrecIndex state.queue.dbrec = (wqeIdx + 1) % 2 ^ 16 ∧ base + state.fetched.length ≤ wqeIdx + 1
  seen : ∀ place wqe warpId, state.fetched[place]? = some (wqe, some warpId) →
    wqeTransfer wqe = some (launch.transfer warpId) ∧ state.written ((base + place) % ctx.nwqes) = some warpId

theorem start_inv (ctx : DeviceCtx) (launch : Launch) (queue : Queue) (drained : Drained queue) :
    Inv ctx launch queue.prodIdx (start queue) where
  head := rfl
  distinct := List.nodup_nil
  few := fun warpId member => absurd member List.not_mem_nil
  index := fun warpId wqeIdx => by simp [start, Stage.index]
  written := fun slot warpId => by simp [start, Stage.finished]
  contents := fun slot warpId found => by simp [start] at found
  quiet := fun _ => ⟨drained, rfl⟩
  rung := fun wqeIdx stage => by simp [start] at stage
  seen := fun place wqe warpId found => by simp [start] at found

theorem finished_index (stage : Stage) (wqeIdx : Nat) (finished : stage.finished = some wqeIdx) :
    stage.index = some wqeIdx := by
  cases stage with
  | entered | reserved => cases finished
  | built | returned => exact finished

theorem order_few (ctx : DeviceCtx) (launch : Launch) (base : Nat) (state : State) (inv : Inv ctx launch base state) :
    state.order.length ≤ launch.numOps := by
  have inside : state.order ⊆ List.range launch.numOps := fun warpId member => List.mem_range.mpr (inv.few warpId member)
  simpa using (inv.distinct.subperm inside).length_le

theorem index_range (ctx : DeviceCtx) (launch : Launch) (base : Nat) (state : State) (inv : Inv ctx launch base state)
    (warpId wqeIdx : Nat) (reserved : (state.stages warpId).index = some wqeIdx) :
    base ≤ wqeIdx ∧ wqeIdx < base + state.order.length := by
  obtain ⟨above, found⟩ := (inv.index warpId wqeIdx).mp reserved
  have bound := (List.getElem?_eq_some_iff.mp found).1
  omega

theorem index_owner (ctx : DeviceCtx) (launch : Launch) (base : Nat) (state : State) (inv : Inv ctx launch base state)
    (first second wqeIdx : Nat) (one : (state.stages first).index = some wqeIdx)
    (other : (state.stages second).index = some wqeIdx) : first = second := by
  have found := ((inv.index first wqeIdx).mp one).2
  rw [((inv.index second wqeIdx).mp other).2] at found
  exact (Option.some.inj found).symm

theorem slot_owner (ctx : DeviceCtx) (launch : Launch) (base : Nat) (state : State) (inv : Inv ctx launch base state)
    (fits : launch.numOps ≤ ctx.nwqes) (first second one other : Nat) (reserved : (state.stages first).index = some one)
    (also : (state.stages second).index = some other) (same : (one + 1) % ctx.nwqes = (other + 1) % ctx.nwqes) :
    first = second := by
  have few := order_few ctx launch base state inv
  have range := index_range ctx launch base state inv first one reserved
  have rangeAlso := index_range ctx launch base state inv second other also
  rcases Nat.lt_trichotomy one other with less | equal | more
  · exact absurd same (slots_distinct ctx.nwqes _ _ (by omega) (by omega))
  · exact index_owner ctx launch base state inv first second one reserved (equal ▸ also)
  · exact absurd same.symm (slots_distinct ctx.nwqes _ _ (by omega) (by omega))

theorem slot_of_mod (ctx : DeviceCtx) (sized : Sized ctx) (wqeIdx : Nat) :
    getWqeSlot ctx (slotOf wqeIdx) = (wqeIdx + 1) % ctx.nwqes := by
  rw [slotOf, and_ffff]
  exact wrapped_slot ctx sized (wqeIdx + 1)

theorem snoc_found (order : List Nat) (last other place : Nat) :
    (order ++ [last])[place]? = some other ↔ order[place]? = some other ∨ (place = order.length ∧ other = last) := by
  rcases Nat.lt_trichotomy place order.length with inside | equal | beyond
  · rw [List.getElem?_append_left inside]
    simp [Nat.ne_of_lt inside]
  · subst equal
    simp [eq_comm]
  · rw [List.getElem?_eq_none (by simp; omega), List.getElem?_eq_none (by omega)]
    simp [Nat.ne_of_gt beyond]

theorem reserve_inv (ctx : DeviceCtx) (launch : Launch) (base : Nat) (state : State) (inv : Inv ctx launch base state)
    (warpId : Nat) (among : warpId < launch.numOps) (stage : state.stages warpId = .entered) :
    Inv ctx launch base { state with
      resvHead := state.resvHead + 1
      stages := Function.update state.stages warpId (.reserved state.resvHead)
      order := state.order ++ [warpId] } := by
  have head := inv.head
  have absent : warpId ∉ state.order := by
    intro member
    obtain ⟨place, bound, found⟩ := List.getElem_of_mem member
    have reserved := (inv.index warpId (base + place)).mpr
      ⟨Nat.le_add_right _ _, by rw [Nat.add_sub_cancel_left, List.getElem?_eq_getElem bound, found]⟩
    rw [stage] at reserved
    cases reserved
  refine ⟨?_, ?_, ?_, ?_, ?_, inv.contents, ?_, ?_, inv.seen⟩
  · simp only [List.length_append, List.length_singleton]
    omega
  · exact List.nodup_append.mpr ⟨inv.distinct, List.nodup_singleton _, fun one member other last same =>
      absent (List.mem_singleton.mp last ▸ same ▸ member)⟩
  · intro other member
    rcases List.mem_append.mp member with earlier | last
    · exact inv.few other earlier
    · rwa [List.mem_singleton.mp last]
  · intro other wqeIdx
    by_cases own : other = warpId
    · subst own
      simp only [Function.update_self, Stage.index, Option.some.injEq]
      constructor
      · rintro rfl
        refine ⟨by omega, ?_⟩
        rw [head, Nat.add_sub_cancel_left, List.getElem?_concat_length]
      · rintro ⟨above, found⟩
        rcases (snoc_found _ _ _ _).mp found with earlier | ⟨place, _⟩
        · exact absurd (List.mem_of_getElem? earlier) absent
        · omega
    · simp only [Function.update_of_ne own]
      rw [inv.index other wqeIdx, snoc_found]
      simp [own]
  · intro slot other
    rw [inv.written slot other]
    by_cases own : other = warpId
    · subst own
      simp [stage, Stage.finished]
    · simp only [Function.update_of_ne own]
  · intro waiting
    apply inv.quiet
    intro wqeIdx returned
    have other : launch.last ≠ warpId := fun same => by simp [same, stage] at returned
    exact waiting wqeIdx (by simpa only [Function.update_of_ne other] using returned)
  · intro wqeIdx returned
    apply inv.rung
    have other : launch.last ≠ warpId := fun same => by simp [same] at returned
    simpa only [Function.update_of_ne other] using returned

theorem build_inv (ctx : DeviceCtx) (sized : Sized ctx) (launch : Launch) (base : Nat) (state : State)
    (inv : Inv ctx launch base state) (fits : launch.numOps ≤ ctx.nwqes) (warpId wqeIdx : Nat)
    (stage : state.stages warpId = .reserved wqeIdx) : Inv ctx launch base (build ctx launch state warpId wqeIdx) := by
  have mine : (state.stages warpId).index = some wqeIdx := by rw [stage, Stage.index]
  have slot := slot_of_mod ctx sized wqeIdx
  have unwritten : ∀ other, state.written ((wqeIdx + 1) % ctx.nwqes) ≠ some other := by
    intro other found
    obtain ⟨otherIdx, finished, same⟩ := (inv.written _ other).mp found
    have owner := slot_owner ctx launch base state inv fits warpId other wqeIdx otherIdx mine
      (finished_index _ _ finished) same
    rw [← owner, stage, Stage.finished] at finished
    cases finished
  refine ⟨inv.head, inv.distinct, inv.few, ?_, ?_, ?_, ?_, ?_, ?_⟩
  · intro other otherIdx
    by_cases own : other = warpId
    · subst own
      have known := inv.index other otherIdx
      rw [stage] at known
      simpa only [build, Function.update_self, Stage.index] using known
    · simpa only [build, Function.update_of_ne own] using inv.index other otherIdx
  · intro place other
    simp only [build, slot]
    by_cases here : place = (wqeIdx + 1) % ctx.nwqes
    · subst here
      rw [Function.update_self, Option.some.injEq]
      constructor
      · rintro rfl
        exact ⟨wqeIdx, by rw [Function.update_self, Stage.finished], rfl⟩
      · rintro ⟨otherIdx, finished, same⟩
        by_cases own : other = warpId
        · exact own.symm
        · rw [Function.update_of_ne own] at finished
          exact slot_owner ctx launch base state inv fits warpId other wqeIdx otherIdx mine
            (finished_index _ _ finished) same
    · rw [Function.update_of_ne here, inv.written]
      by_cases own : other = warpId
      · subst own
        simp only [stage, Stage.finished, Function.update_self, Option.some.injEq, reduceCtorEq, false_and, exists_false,
          false_iff, not_exists]
        rintro _ ⟨rfl, same⟩
        exact here same
      · rw [Function.update_of_ne own]
  · intro place other found
    simp only [build, slot, buildAt] at found ⊢
    by_cases here : place = (wqeIdx + 1) % ctx.nwqes
    · subst here
      rw [Function.update_self, Option.some.injEq] at found
      rw [Function.update_self, ← found]
      exact opt_transfer ctx.qpn _ _ (by rw [slotOf, and_ffff]; exact Nat.mod_lt _ (by decide))
    · rw [Function.update_of_ne here] at found ⊢
      exact inv.contents place other found
  · intro waiting
    apply inv.quiet
    intro index returned
    have other : launch.last ≠ warpId := fun same => by simp [same, stage] at returned
    exact waiting index (by simpa only [build, Function.update_of_ne other] using returned)
  · intro index returned
    apply inv.rung
    have other : launch.last ≠ warpId := fun same => by simp [build, same] at returned
    simpa only [build, Function.update_of_ne other] using returned
  · intro place wqe other found
    obtain ⟨transfer, written⟩ := inv.seen place wqe other found
    refine ⟨transfer, ?_⟩
    have elsewhere : (base + place) % ctx.nwqes ≠ (wqeIdx + 1) % ctx.nwqes := fun same =>
      unwritten other (same ▸ written)
    simpa only [build, slot, Function.update_of_ne elsewhere] using written

theorem sync_inv (ctx : DeviceCtx) (launch : Launch) (base : Nat) (state : State) (inv : Inv ctx launch base state)
    (warpId wqeIdx : Nat) (stage : state.stages warpId = .built wqeIdx) :
    Inv ctx launch base (afterSync ctx launch state warpId wqeIdx) := by
  have index : ∀ other, (Function.update state.stages warpId (.returned wqeIdx) other).index = (state.stages other).index := by
    intro other
    by_cases own : other = warpId
    · rw [own, Function.update_self, stage, Stage.index, Stage.index]
    · rw [Function.update_of_ne own]
  have finished : ∀ other,
      (Function.update state.stages warpId (.returned wqeIdx) other).finished = (state.stages other).finished := by
    intro other
    by_cases own : other = warpId
    · rw [own, Function.update_self, stage, Stage.finished, Stage.finished]
    · rw [Function.update_of_ne own]
  have buffer : (afterSync ctx launch state warpId wqeIdx).queue.wqeBuf = state.queue.wqeBuf := by
    simp only [afterSync]
    split <;> rfl
  refine ⟨inv.head, inv.distinct, inv.few, ?_, ?_, ?_, ?_, ?_, inv.seen⟩
  · exact fun other otherIdx => by simpa only [afterSync, index] using inv.index other otherIdx
  · exact fun slot other => by simpa only [afterSync, finished] using inv.written slot other
  · exact fun slot other found => by simpa only [buffer] using inv.contents slot other found
  · intro waiting
    have other : warpId ≠ launch.last := fun same => waiting wqeIdx (by simp [afterSync, same])
    have quiet := inv.quiet fun index returned =>
      waiting index (by simpa only [afterSync, Function.update_of_ne (Ne.symm other)] using returned)
    simpa only [afterSync, if_neg (show ¬ warpId = launch.numOps - 1 from other)] using quiet
  · intro index' returned
    by_cases rings : warpId = launch.last
    · have quiet := inv.quiet fun index returned => by simp [← rings, stage] at returned
      rw [← rings] at returned
      simp only [afterSync, Function.update_self, Stage.returned.injEq] at returned
      subst returned
      have above := (index_range ctx launch base state inv warpId wqeIdx (by rw [stage, Stage.index])).1
      simp only [afterSync, if_pos (show warpId = launch.numOps - 1 from rings), ringDoorbellBf, quiet.2]
      exact ⟨masked_dbrec (wqeIdx + 1), Nat.le_succ_of_le above⟩
    · have rung := inv.rung index' (by simpa only [afterSync, Function.update_of_ne (Ne.symm rings)] using returned)
      simpa only [afterSync, if_neg (show ¬ warpId = launch.numOps - 1 from rings)] using rung

theorem index_below (ctx : DeviceCtx) (launch : Launch) (base : Nat) (state : State) (inv : Inv ctx launch base state)
    (warpId wqeIdx : Nat) (reserved : (state.stages warpId).index = some wqeIdx) :
    base ≤ wqeIdx ∧ wqeIdx < base + launch.numOps := by
  have range := index_range ctx launch base state inv warpId wqeIdx reserved
  have few := order_few ctx launch base state inv
  omega

theorem fetch_left (ctx : DeviceCtx) (sized : Sized ctx) (launch : Launch) (base : Nat) (state : State)
    (inv : Inv ctx launch base state) (fits : launch.numOps ≤ ctx.nwqes) :
    (base + state.fetched.length) % 2 ^ 16 ≠ dbrecIndex state.queue.dbrec ↔
      ∃ wqeIdx, state.stages launch.last = .returned wqeIdx ∧ base + state.fetched.length < wqeIdx + 1 := by
  have few := sized.few
  by_cases rings : ∃ wqeIdx, state.stages launch.last = .returned wqeIdx
  · obtain ⟨wqeIdx, returned⟩ := rings
    obtain ⟨dbrec, bound⟩ := inv.rung wqeIdx returned
    have range := index_below ctx launch base state inv launch.last wqeIdx (by rw [returned, Stage.index])
    rw [dbrec]
    constructor
    · intro differ
      exact ⟨wqeIdx, returned, by omega⟩
    · rintro ⟨otherIdx, also, less⟩
      rw [returned, Stage.returned.injEq] at also
      omega
  · obtain ⟨dbrec, empty⟩ := inv.quiet fun wqeIdx returned => rings ⟨wqeIdx, returned⟩
    rw [dbrec, empty]
    constructor
    · exact fun differ => absurd rfl differ
    · rintro ⟨wqeIdx, returned, _⟩
      exact absurd ⟨wqeIdx, returned⟩ rings

theorem fetch_inv (ctx : DeviceCtx) (sized : Sized ctx) (launch : Launch) (base : Nat) (state : State)
    (inv : Inv ctx launch base state) (fits : launch.numOps ≤ ctx.nwqes)
    (left : (base + state.fetched.length) % 2 ^ 16 ≠ dbrecIndex state.queue.dbrec) :
    Inv ctx launch base { state with fetched := state.fetched ++
      [(state.queue.wqeBuf ((base + state.fetched.length) % ctx.nwqes),
        state.written ((base + state.fetched.length) % ctx.nwqes))] } := by
  obtain ⟨wqeIdx, returned, less⟩ := (fetch_left ctx sized launch base state inv fits).mp left
  refine ⟨inv.head, inv.distinct, inv.few, inv.index, inv.written, inv.contents, ?_, ?_, ?_⟩
  · exact fun waiting => absurd returned (waiting wqeIdx)
  · intro otherIdx also
    rw [returned, Stage.returned.injEq] at also
    refine ⟨(inv.rung otherIdx (also ▸ returned)).1, ?_⟩
    simp only [List.length_append, List.length_singleton]
    omega
  · intro place wqe warpId found
    by_cases earlier : place < state.fetched.length
    · rw [List.getElem?_append_left earlier] at found
      exact inv.seen place wqe warpId found
    · have last : place = state.fetched.length := by
        have bound := (List.getElem?_eq_some_iff.mp found).1
        simp only [List.length_append, List.length_singleton] at bound
        omega
      subst last
      rw [List.getElem?_concat_length, Option.some.injEq, Prod.mk.injEq] at found
      exact ⟨found.1 ▸ inv.contents _ warpId found.2, found.2⟩

inductive Moves (ctx : DeviceCtx) (launch : Launch) (base : Nat) (before : State) : Action → State → Prop where
  | reserve (warpId : Nat) (among : warpId < launch.numOps) (stage : before.stages warpId = .entered) :
      Moves ctx launch base before (.reserve warpId) { before with
        resvHead := before.resvHead + 1
        stages := Function.update before.stages warpId (.reserved before.resvHead)
        order := before.order ++ [warpId] }
  | build (warpId wqeIdx : Nat) (stage : before.stages warpId = .reserved wqeIdx) :
      Moves ctx launch base before (.build warpId) (build ctx launch before warpId wqeIdx)
  | sync (warpId wqeIdx : Nat) (stage : before.stages warpId = .built wqeIdx) (arrived : Arrived launch before warpId) :
      Moves ctx launch base before (.sync warpId) (afterSync ctx launch before warpId wqeIdx)
  | fetch (left : (base + before.fetched.length) % 2 ^ 16 ≠ dbrecIndex before.queue.dbrec) :
      Moves ctx launch base before .fetch { before with fetched := before.fetched ++
        [(before.queue.wqeBuf ((base + before.fetched.length) % ctx.nwqes),
          before.written ((base + before.fetched.length) % ctx.nwqes))] }

theorem step_moves (ctx : DeviceCtx) (launch : Launch) (base : Nat) (before after : State) (action : Action)
    (taken : step ctx launch base before action = some after) : Moves ctx launch base before action after := by
  cases action with
  | reserve warpId =>
      simp only [step, Option.ite_none_right_eq_some, Option.some.injEq] at taken
      rw [← taken.2]
      exact .reserve warpId taken.1.1 taken.1.2
  | build warpId =>
      cases stage : before.stages warpId with
      | reserved wqeIdx =>
          simp only [step, stage, Option.some.injEq] at taken
          rw [← taken]
          exact .build warpId wqeIdx stage
      | entered | built | returned => simp [step, stage] at taken
  | sync warpId =>
      cases stage : before.stages warpId with
      | built wqeIdx =>
          simp only [step, stage, Option.ite_none_right_eq_some, Option.some.injEq] at taken
          rw [← taken.2]
          exact .sync warpId wqeIdx stage taken.1
      | entered | reserved | returned => simp [step, stage] at taken
  | fetch =>
      simp only [step, Option.ite_none_left_eq_some, Option.some.injEq] at taken
      rw [← taken.2]
      exact .fetch taken.1

theorem step_inv (ctx : DeviceCtx) (sized : Sized ctx) (launch : Launch) (base : Nat) (fits : launch.numOps ≤ ctx.nwqes)
    (before after : State) (action : Action) (inv : Inv ctx launch base before)
    (moves : Moves ctx launch base before action after) : Inv ctx launch base after := by
  cases moves with
  | reserve warpId among stage => exact reserve_inv ctx launch base before inv warpId among stage
  | build warpId wqeIdx stage => exact build_inv ctx sized launch base before inv fits warpId wqeIdx stage
  | sync warpId wqeIdx stage _ => exact sync_inv ctx launch base before inv warpId wqeIdx stage
  | fetch left => exact fetch_inv ctx sized launch base before inv fits left

end OpenGda.Mlx5.MultiWqe
