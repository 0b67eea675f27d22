import OpenGda.Mlx5.MultiWqe

set_option autoImplicit false

namespace OpenGda.Mlx5.MultiWqe

open Machine PhaseRing OpenGda.Mlx5.Basic

def Finished (launch : Launch) (state : State) : Prop :=
  ∀ warpId < launch.numOps, (state.stages warpId).finished.isSome = true

structure Settled (ctx : DeviceCtx) (launch : Launch) (base : Nat) (state : State) : Prop where
  inv : Inv ctx launch base state
  rung : ∀ wqeIdx, state.stages launch.last = .returned wqeIdx →
    launch.numOps = ctx.nwqes ∧ wqeIdx = base + launch.numOps - 1 ∧ Finished launch state
  seen : ∀ entry ∈ state.fetched, entry.2.isSome = true

theorem last_among (launch : Launch) : launch.last < launch.numOps := Nat.sub_lt launch.positive (by decide)

theorem order_index (ctx : DeviceCtx) (launch : Launch) (base : Nat) (state : State) (inv : Inv ctx launch base state)
    (place : Nat) (inside : place < state.order.length) :
    ∃ warpId < launch.numOps, (state.stages warpId).index = some (base + place) := by
  refine ⟨state.order[place], inv.few _ (List.getElem_mem inside), (inv.index _ _).mpr ⟨Nat.le_add_right _ _, ?_⟩⟩
  rw [Nat.add_sub_cancel_left, List.getElem?_eq_getElem inside]

theorem finished_written (ctx : DeviceCtx) (launch : Launch) (base : Nat) (state : State) (inv : Inv ctx launch base state)
    (warpId wqeIdx : Nat) (finished : (state.stages warpId).finished.isSome = true)
    (index : (state.stages warpId).index = some wqeIdx) : state.written ((wqeIdx + 1) % ctx.nwqes) = some warpId := by
  obtain ⟨otherIdx, value⟩ := Option.isSome_iff_exists.mp finished
  have same := finished_index _ _ value
  rw [index, Option.some.injEq] at same
  exact (inv.written _ _).mpr ⟨otherIdx, value, by rw [same]⟩

theorem all_written (ctx : DeviceCtx) (launch : Launch) (base : Nat) (state : State) (inv : Inv ctx launch base state)
    (full : launch.numOps = ctx.nwqes) (finished : Finished launch state)
    (last : (state.stages launch.last).index = some (base + launch.numOps - 1)) (place : Nat)
    (inside : place < launch.numOps) : (state.written ((base + place) % ctx.nwqes)).isSome = true := by
  have positive := launch.positive
  cases place with
  | zero =>
      have written := finished_written ctx launch base state inv launch.last _ (finished _ (last_among launch)) last
      rw [show base + launch.numOps - 1 + 1 = base + ctx.nwqes by omega, Nat.add_mod_right] at written
      rw [Nat.add_zero, written]
      rfl
  | succ place =>
      have range := index_range ctx launch base state inv launch.last _ last
      obtain ⟨warpId, among, index⟩ := order_index ctx launch base state inv place (by omega)
      rw [← Nat.add_assoc, finished_written ctx launch base state inv warpId _ (finished warpId among) index]
      rfl

theorem finished_kept (ctx : DeviceCtx) (launch : Launch) (base : Nat) (before after : State) (action : Action)
    (moves : Moves ctx launch base before action after) (warpId : Nat)
    (finished : (before.stages warpId).finished.isSome = true) : (after.stages warpId).finished.isSome = true := by
  cases moves with
  | reserve other among stage =>
      have different : warpId ≠ other := fun same => by simp [same, stage, Stage.finished] at finished
      simpa only [Function.update_of_ne different] using finished
  | build other wqeIdx stage =>
      have different : warpId ≠ other := fun same => by simp [same, stage, Stage.finished] at finished
      simpa only [build, Function.update_of_ne different] using finished
  | sync other wqeIdx stage _ =>
      by_cases same : warpId = other
      · subst same
        simp [afterSync, Stage.finished]
      · simpa only [afterSync, Function.update_of_ne same] using finished
  | fetch _ => exact finished

theorem returned_kept (ctx : DeviceCtx) (launch : Launch) (base : Nat) (before after : State) (action : Action)
    (moves : Moves ctx launch base before action after) (warpId wqeIdx : Nat)
    (returned : after.stages warpId = .returned wqeIdx) :
    before.stages warpId = .returned wqeIdx ∨ (action = .sync warpId ∧ before.stages warpId = .built wqeIdx) := by
  cases moves with
  | reserve other among stage =>
      have different : warpId ≠ other := fun same => by simp [same] at returned
      exact .inl (by simpa only [Function.update_of_ne different] using returned)
  | build other otherIdx stage =>
      have different : warpId ≠ other := fun same => by simp [build, same] at returned
      exact .inl (by simpa only [build, Function.update_of_ne different] using returned)
  | sync other otherIdx stage _ =>
      by_cases same : warpId = other
      · subst same
        simp only [afterSync, Function.update_self, Stage.returned.injEq] at returned
        exact .inr ⟨rfl, returned ▸ stage⟩
      · exact .inl (by simpa only [afterSync, Function.update_of_ne same] using returned)
  | fetch _ => exact .inl returned

theorem step_settled (ctx : DeviceCtx) (sized : Sized ctx) (launch : Launch) (base : Nat)
    (fits : launch.numOps ≤ ctx.nwqes) (before after : State) (action : Action)
    (settled : Settled ctx launch base before) (inLine : InLine ctx launch base before action)
    (taken : step ctx launch base before action = some after) : Settled ctx launch base after := by
  have moves := step_moves ctx launch base before after action taken
  refine ⟨step_inv ctx sized launch base fits before after action settled.inv moves, ?_, ?_⟩
  · intro wqeIdx returned
    have kept : Finished launch before → Finished launch after := fun finished warpId among =>
      finished_kept ctx launch base before after action moves warpId (finished warpId among)
    rcases returned_kept ctx launch base before after action moves launch.last wqeIdx returned with already | ⟨rings, stage⟩
    · obtain ⟨full, index, finished⟩ := settled.rung wqeIdx already
      exact ⟨full, index, kept finished⟩
    · subst rings
      obtain ⟨full, finished, built⟩ := inLine rfl
      rw [stage, Stage.built.injEq] at built
      exact ⟨full, built, kept finished⟩
  · cases moves with
    | fetch left =>
        obtain ⟨wqeIdx, returned, less⟩ := (fetch_left ctx sized launch base before settled.inv fits).mp left
        obtain ⟨full, index, finished⟩ := settled.rung wqeIdx returned
        intro entry member
        rcases List.mem_append.mp member with earlier | last
        · exact settled.seen entry earlier
        · rw [List.mem_singleton.mp last]
          have positive := launch.positive
          apply all_written ctx launch base before settled.inv full finished (by rw [returned, index, Stage.index])
          omega
    | reserve | build | sync => exact settled.seen

theorem start_settled (ctx : DeviceCtx) (launch : Launch) (queue : Queue) (drained : Drained queue) :
    Settled ctx launch queue.prodIdx (start queue) :=
  ⟨start_inv ctx launch queue drained, fun wqeIdx returned => by simp [start] at returned,
    fun entry member => absurd member List.not_mem_nil⟩

def fetchedWarps (state : State) : List Nat := state.fetched.map fun entry => entry.2.getD 0

theorem fetched_place (ctx : DeviceCtx) (launch : Launch) (base : Nat) (state : State)
    (settled : Settled ctx launch base state) (place : Nat) (inside : place < state.fetched.length) :
    ∃ wqe warpId, state.fetched[place] = (wqe, some warpId) ∧ wqeTransfer wqe = some (launch.transfer warpId) ∧
      state.written ((base + place) % ctx.nwqes) = some warpId := by
  obtain ⟨warpId, value⟩ := Option.isSome_iff_exists.mp (settled.seen _ (List.getElem_mem inside))
  have shape : state.fetched[place] = (state.fetched[place].1, some warpId) := Prod.ext rfl value
  have found : state.fetched[place]? = some (state.fetched[place].1, some warpId) := by
    rw [List.getElem?_eq_getElem inside, ← shape]
  obtain ⟨transfer, written⟩ := settled.inv.seen place _ warpId found
  exact ⟨_, warpId, shape, transfer, written⟩

theorem fetched_distinct (ctx : DeviceCtx) (launch : Launch) (base : Nat) (state : State)
    (settled : Settled ctx launch base state) (few : state.fetched.length ≤ ctx.nwqes) : (fetchedWarps state).Nodup := by
  rw [List.Nodup, List.pairwise_iff_getElem]
  intro first second insideFirst insideSecond less same
  simp only [fetchedWarps, List.length_map] at insideFirst insideSecond
  obtain ⟨_, one, shapeOne, _, writtenOne⟩ := fetched_place ctx launch base state settled first insideFirst
  obtain ⟨_, other, shapeOther, _, writtenOther⟩ := fetched_place ctx launch base state settled second insideSecond
  simp only [fetchedWarps, List.getElem_map, shapeOne, shapeOther, Option.getD_some] at same
  subst same
  obtain ⟨oneIdx, finishedOne, slotOne⟩ := (settled.inv.written _ _).mp writtenOne
  obtain ⟨otherIdx, finishedOther, slotOther⟩ := (settled.inv.written _ _).mp writtenOther
  rw [finishedOne, Option.some.injEq] at finishedOther
  rw [← finishedOther, ← slotOne] at slotOther
  exact slots_distinct ctx.nwqes _ _ (by omega) (by omega) slotOther.symm

theorem settled_exact (ctx : DeviceCtx) (sized : Sized ctx) (launch : Launch) (base : Nat)
    (fits : launch.numOps ≤ ctx.nwqes) (state : State) (settled : Settled ctx launch base state) :
    Exact launch base state := by
  refine ⟨settled.seen, fun ended => ?_⟩
  obtain ⟨wqeIdx, returned⟩ := ended.1 launch.last (last_among launch)
  obtain ⟨full, index, _⟩ := settled.rung wqeIdx returned
  have positive := launch.positive
  have bound := (settled.inv.rung wqeIdx returned).2
  have count : state.fetched.length = launch.numOps := by
    by_contra short
    exact (fetch_left ctx sized launch base state settled.inv fits).mpr ⟨wqeIdx, returned, by omega⟩ ended.2
  have among : fetchedWarps state ⊆ List.range launch.numOps := by
    intro warpId member
    obtain ⟨entry, found, rfl⟩ := List.mem_map.mp member
    obtain ⟨place, inside, rfl⟩ := List.getElem_of_mem found
    obtain ⟨_, warp, shape, _, written⟩ := fetched_place ctx launch base state settled place inside
    obtain ⟨warpIdx, finished, _⟩ := (settled.inv.written _ _).mp written
    have reserved := ((settled.inv.index warp warpIdx).mp (finished_index _ _ finished)).2
    rw [shape, Option.getD_some]
    exact List.mem_range.mpr (settled.inv.few warp (List.mem_of_getElem? reserved))
  have distinct := fetched_distinct ctx launch base state settled (by omega)
  have perm : (fetchedWarps state).Perm (List.range launch.numOps) :=
    (distinct.subperm among).perm_of_length_le (by simp [fetchedWarps, count])
  have transfers : (state.fetched.map fun entry => wqeTransfer entry.1) =
      (fetchedWarps state).map fun warpId => some (launch.transfer warpId) := by
    rw [fetchedWarps, List.map_map]
    apply List.map_congr_left
    intro entry member
    obtain ⟨place, inside, rfl⟩ := List.getElem_of_mem member
    obtain ⟨wqe, warp, shape, transfer, _⟩ := fetched_place ctx launch base state settled place inside
    simp only [shape, Function.comp_apply, Option.getD_some, transfer]
  rw [transfers]
  exact perm.map _

theorem nic_drains (ctx : DeviceCtx) (sized : Sized ctx) (launch : Launch) (base : Nat) (fits : launch.numOps ≤ ctx.nwqes)
    (left : Nat) (state : State) (inv : Inv ctx launch base state) (wqeIdx : Nat)
    (returned : state.stages launch.last = .returned wqeIdx)
    (count : base + state.fetched.length + left = wqeIdx + 1)
    (kept : ∀ place < state.fetched.length, (state.fetched.map Prod.snd)[place]? =
      some (state.written ((base + place) % ctx.nwqes))) :
    ∃ later, Reach (step ctx launch base) always state later ∧ base + later.fetched.length = wqeIdx + 1 ∧
      ∀ place < later.fetched.length, (later.fetched.map Prod.snd)[place]? =
        some (state.written ((base + place) % ctx.nwqes)) := by
  induction left generalizing state with
  | zero => exact ⟨state, .start, count, kept⟩
  | succ left ih =>
      have more := (fetch_left ctx sized launch base state inv fits).mpr ⟨wqeIdx, returned, by omega⟩
      obtain ⟨later, reached, total, all⟩ := ih _ (fetch_inv ctx sized launch base state inv fits more) returned
        (by simp only [List.length_append, List.length_singleton]; omega) (by
          intro place inside
          simp only [List.length_append, List.length_singleton] at inside
          by_cases earlier : place < state.fetched.length
          · rw [List.map_append, List.getElem?_append_left (by simpa using earlier)]
            exact kept place earlier
          · have last : place = (state.fetched.map Prod.snd).length := by
              rw [List.length_map]
              omega
            subst last
            rw [List.map_append, List.map_singleton, List.getElem?_concat_length, List.length_map])
      exact ⟨later, reach_head _ always state _ later .fetch trivial (by simp only [step, if_neg more]) reached, total, all⟩

def Stage.left : Stage → Nat
  | .entered => 3
  | .reserved _ => 2
  | .built _ => 1
  | .returned _ => 0

def remaining (launch : Launch) (state : State) : Nat :=
  (∑ warpId ∈ Finset.range launch.numOps, (state.stages warpId).left) + (launch.numOps - state.fetched.length)

theorem index_among (ctx : DeviceCtx) (launch : Launch) (base : Nat) (state : State) (inv : Inv ctx launch base state)
    (warpId wqeIdx : Nat) (index : (state.stages warpId).index = some wqeIdx) : warpId < launch.numOps :=
  inv.few warpId (List.mem_of_getElem? ((inv.index warpId wqeIdx).mp index).2)

theorem step_remaining (ctx : DeviceCtx) (sized : Sized ctx) (launch : Launch) (base : Nat)
    (fits : launch.numOps ≤ ctx.nwqes) (before after : State) (action : Action) (inv : Inv ctx launch base before)
    (moves : Moves ctx launch base before action after) : remaining launch after < remaining launch before := by
  cases moves with
  | reserve warpId among stage =>
      exact Nat.add_lt_add_right (sum_update_lt Stage.left launch.numOps warpId before.stages _ among (by simp [stage, Stage.left])) _
  | build warpId wqeIdx stage =>
      have among := index_among ctx launch base before inv warpId wqeIdx (by rw [stage, Stage.index])
      exact Nat.add_lt_add_right (sum_update_lt Stage.left launch.numOps warpId before.stages _ among (by simp [stage, Stage.left])) _
  | sync warpId wqeIdx stage _ =>
      have among := index_among ctx launch base before inv warpId wqeIdx (by rw [stage, Stage.index])
      exact Nat.add_lt_add_right (sum_update_lt Stage.left launch.numOps warpId before.stages _ among (by simp [stage, Stage.left])) _
  | fetch left =>
      obtain ⟨wqeIdx, returned, less⟩ := (fetch_left ctx sized launch base before inv fits).mp left
      have range := index_below ctx launch base before inv launch.last wqeIdx (by rw [returned, Stage.index])
      simp only [remaining, List.length_append, List.length_singleton]
      omega

-- A launch that cannot go on is over: a warp held by __syncthreads() waits for another to build.
theorem stuck_over (ctx : DeviceCtx) (launch : Launch) (base : Nat) (state : State)
    (stuck : Stuck (step ctx launch base) state) : Over launch base state := by
  have finished : ∀ warpId < launch.numOps, (state.stages warpId).finished.isSome = true := by
    intro warpId among
    cases stage : state.stages warpId with
    | entered =>
        have reserves := stuck (.reserve warpId)
        simp [step, among, stage] at reserves
    | reserved wqeIdx =>
        have builds := stuck (.build warpId)
        simp [step, stage] at builds
    | built | returned => rfl
  refine ⟨fun warpId among => ?_, ?_⟩
  · cases stage : state.stages warpId with
    | entered | reserved =>
        have done := finished warpId among
        simp [stage, Stage.finished] at done
    | built wqeIdx =>
        have syncs := stuck (.sync warpId)
        have arrived : Arrived launch state warpId := fun other inside _ => finished other inside
        simp [step, stage, arrived] at syncs
    | returned wqeIdx => exact ⟨wqeIdx, rfl⟩
  · by_contra left
    have fetches := stuck .fetch
    simp only [step, if_neg left, reduceCtorEq] at fetches

theorem over_reachable (ctx : DeviceCtx) (sized : Sized ctx) (launch : Launch) (base : Nat)
    (fits : launch.numOps ≤ ctx.nwqes) (state : State) (inv : Inv ctx launch base state) :
    ∃ later, Reach (step ctx launch base) always state later ∧ Over launch base later := by
  obtain ⟨later, reached, stuck⟩ := stuck_reachable (step ctx launch base) (Inv ctx launch base) (remaining launch)
    (fun before after action inv taken =>
      step_inv ctx sized launch base fits before after action inv (step_moves ctx launch base before after action taken))
    (fun before after action inv taken => step_remaining ctx sized launch base fits before after action inv
      (step_moves ctx launch base before after action taken)) state inv
  exact ⟨later, reached, stuck_over ctx launch base later stuck⟩

theorem returned_stays (ctx : DeviceCtx) (launch : Launch) (base : Nat) (before after : State) (action : Action)
    (moves : Moves ctx launch base before action after) (warpId wqeIdx : Nat)
    (returned : before.stages warpId = .returned wqeIdx) : after.stages warpId = .returned wqeIdx := by
  cases moves with
  | reserve other among stage =>
      have different : warpId ≠ other := fun same => by simp [← same, returned] at stage
      simpa only [Function.update_of_ne different] using returned
  | build other otherIdx stage =>
      have different : warpId ≠ other := fun same => by simp [← same, returned] at stage
      simpa only [build, Function.update_of_ne different] using returned
  | sync other otherIdx stage _ =>
      have different : warpId ≠ other := fun same => by simp [← same, returned] at stage
      simpa only [afterSync, Function.update_of_ne different] using returned
  | fetch _ => exact returned

theorem reach_facts (ctx : DeviceCtx) (sized : Sized ctx) (launch : Launch) (base : Nat) (fits : launch.numOps ≤ ctx.nwqes)
    (state later : State) (inv : Inv ctx launch base state) (wqeIdx : Nat)
    (returned : state.stages launch.last = .returned wqeIdx)
    (reached : Reach (step ctx launch base) always state later) :
    Inv ctx launch base later ∧ later.stages launch.last = .returned wqeIdx := by
  refine reach_invariant _ always (fun state => Inv ctx launch base state ∧ state.stages launch.last = .returned wqeIdx)
    state later ⟨inv, returned⟩ ?_ reached
  intro before after action facts _ taken
  have moves := step_moves ctx launch base before after action taken
  exact ⟨step_inv ctx sized launch base fits before after action facts.1 moves,
    returned_stays ctx launch base before after action moves launch.last wqeIdx facts.2⟩

theorem written_index (ctx : DeviceCtx) (launch : Launch) (base : Nat) (state : State) (inv : Inv ctx launch base state)
    (fits : launch.numOps ≤ ctx.nwqes) (warpId wqeIdx : Nat) (index : (state.stages warpId).index = some wqeIdx)
    (written : (state.written ((wqeIdx + 1) % ctx.nwqes)).isSome = true) :
    (state.stages warpId).finished.isSome = true := by
  obtain ⟨owner, value⟩ := Option.isSome_iff_exists.mp written
  obtain ⟨ownerIdx, finished, same⟩ := (inv.written _ _).mp value
  have own := slot_owner ctx launch base state inv fits warpId owner wqeIdx ownerIdx index (finished_index _ _ finished) same
  rw [own, finished]
  rfl

theorem exact_in_line (ctx : DeviceCtx) (sized : Sized ctx) (launch : Launch) (base : Nat)
    (fits : launch.numOps ≤ ctx.nwqes) (before after : State) (inv : Inv ctx launch base before)
    (taken : step ctx launch base before (.sync launch.last) = some after)
    (holds : ∀ later, Reach (step ctx launch base) always after later → Exact launch base later) :
    InLine ctx launch base before (.sync launch.last) := by
  have moves := step_moves ctx launch base before after _ taken
  have invAfter := step_inv ctx sized launch base fits before after _ inv moves
  obtain ⟨wqeIdx, stage, rfl⟩ : ∃ wqeIdx, before.stages launch.last = .built wqeIdx ∧
      after = afterSync ctx launch before launch.last wqeIdx := by
    cases moves with
    | sync _ wqeIdx stage _ => exact ⟨wqeIdx, stage, rfl⟩
  have empty : before.fetched = [] := (inv.quiet fun index returned => by simp [stage] at returned).2
  have index : (before.stages launch.last).index = some wqeIdx := by rw [stage, Stage.index]
  have above := (index_range ctx launch base before inv launch.last wqeIdx index).1
  have returned : (afterSync ctx launch before launch.last wqeIdx).stages launch.last = .returned wqeIdx :=
    Function.update_self _ _ _
  have positive := launch.positive
  have written : ∀ place < wqeIdx + 1 - base, (before.written ((base + place) % ctx.nwqes)).isSome = true := by
    intro place inside
    obtain ⟨later, reached, count, owners⟩ := nic_drains ctx sized launch base fits (wqeIdx + 1 - base) _ invAfter wqeIdx
      returned (by simp only [afterSync, empty, List.length_nil]; omega)
      (fun place within => by simp [afterSync, empty] at within)
    have owner := owners place (by omega)
    obtain ⟨entry, member, value⟩ := List.mem_map.mp (List.mem_of_getElem? owner)
    have done := (holds later reached).finished entry member
    rwa [value] at done
  have last : wqeIdx = base + launch.numOps - 1 := by
    obtain ⟨later, reached, ended⟩ := over_reachable ctx sized launch base fits _ invAfter
    obtain ⟨invLater, still⟩ := reach_facts ctx sized launch base fits _ later invAfter wqeIdx returned reached
    have count := ((holds later reached).each ended).length_eq
    rw [List.length_map, List.length_map, List.length_range] at count
    have bound := (invLater.rung wqeIdx still).2
    by_contra differ
    exact (fetch_left ctx sized launch base later invLater fits).mpr ⟨wqeIdx, still, by omega⟩ ended.2
  have range := index_range ctx launch base before inv launch.last wqeIdx index
  have few := order_few ctx launch base before inv
  have full : launch.numOps = ctx.nwqes := by
    obtain ⟨owner, value⟩ := Option.isSome_iff_exists.mp (written 0 (by omega))
    obtain ⟨ownerIdx, finished, same⟩ := (inv.written _ _).mp value
    have ownerRange := index_below ctx launch base before inv owner ownerIdx (finished_index _ _ finished)
    by_contra short
    exact slots_distinct ctx.nwqes base (ownerIdx + 1) (by omega) (by omega) same
  refine fun _ => ⟨full, fun warpId among => ?_, last ▸ stage⟩
  have inside : before.order ⊆ List.range launch.numOps := fun other member => List.mem_range.mpr (inv.few other member)
  have everyone : before.order.Perm (List.range launch.numOps) :=
    (inv.distinct.subperm inside).perm_of_length_le (by rw [List.length_range]; omega)
  obtain ⟨place, bound, found⟩ := List.getElem_of_mem (everyone.mem_iff.mpr (List.mem_range.mpr among))
  have own : (before.stages warpId).index = some (base + place) := (inv.index _ _).mpr
    ⟨Nat.le_add_right _ _, by rw [Nat.add_sub_cancel_left, List.getElem?_eq_getElem bound, found]⟩
  by_cases ultimate : base + place = wqeIdx
  · rw [index_owner ctx launch base before inv warpId launch.last wqeIdx (ultimate ▸ own) index, stage]
    rfl
  · apply written_index ctx launch base before inv fits warpId (base + place) own
    rw [Nat.add_assoc]
    exact written (place + 1) (by omega)

theorem rung_settled (ctx : DeviceCtx) (sized : Sized ctx) (launch : Launch) (base : Nat)
    (fits : launch.numOps ≤ ctx.nwqes) (before after : State) (inv : Inv ctx launch base before)
    (taken : step ctx launch base before (.sync launch.last) = some after)
    (inLine : InLine ctx launch base before (.sync launch.last)) (later : State)
    (reached : Reach (step ctx launch base) always after later) : Settled ctx launch base later := by
  obtain ⟨_, _, stage⟩ := inLine rfl
  have waiting : ∀ wqeIdx, before.stages launch.last ≠ .returned wqeIdx := fun wqeIdx returned => by
    simp [stage] at returned
  have settled : Settled ctx launch base before := by
    refine ⟨inv, fun wqeIdx returned => absurd returned (waiting wqeIdx), fun entry member => ?_⟩
    rw [(inv.quiet waiting).2] at member
    exact absurd member List.not_mem_nil
  have first := step_settled ctx sized launch base fits before after _ settled inLine taken
  have returned : after.stages launch.last = .returned (base + launch.numOps - 1) := by
    cases step_moves ctx launch base before after _ taken with
    | sync _ wqeIdx built _ =>
        rw [stage, Stage.built.injEq] at built
        rw [built]
        exact Function.update_self _ _ _
  have both : Settled ctx launch base later ∧ later.stages launch.last = .returned (base + launch.numOps - 1) := by
    refine reach_invariant _ always (fun state => Settled ctx launch base state ∧
      state.stages launch.last = .returned (base + launch.numOps - 1)) after later ⟨first, returned⟩ ?_ reached
    intro state next action facts _ moved
    have once : InLine ctx launch base state action := by
      cases action with
      | sync warpId =>
          rintro rfl
          simp [step, facts.2] at moved
      | reserve | build | fetch => trivial
    exact ⟨step_settled ctx sized launch base fits state next action facts.1 once moved,
      returned_stays ctx launch base state next action (step_moves ctx launch base state next action moved) _ _ facts.2⟩
  exact both.1

theorem multi_wqe_exact_iff (ctx : DeviceCtx) (sized : Sized ctx) (launch : Launch) (fits : launch.numOps ≤ ctx.nwqes)
    (queue : Queue) (drained : Drained queue) :
    (∀ state, Reach (step ctx launch queue.prodIdx) (InLine ctx launch queue.prodIdx) (start queue) state →
      Exact launch queue.prodIdx state) ∧
    ∀ before after, Reach (step ctx launch queue.prodIdx) always (start queue) before →
      step ctx launch queue.prodIdx before (.sync launch.last) = some after →
      ((∀ later, Reach (step ctx launch queue.prodIdx) always after later → Exact launch queue.prodIdx later) ↔
        InLine ctx launch queue.prodIdx before (.sync launch.last)) := by
  constructor
  · intro state reached
    apply settled_exact ctx sized launch queue.prodIdx fits state
    exact reach_invariant _ _ (Settled ctx launch queue.prodIdx) _ state (start_settled ctx launch queue drained)
      (fun before after action => step_settled ctx sized launch queue.prodIdx fits before after action) reached
  · intro before after reached taken
    have inv : Inv ctx launch queue.prodIdx before :=
      reach_invariant _ always (Inv ctx launch queue.prodIdx) _ before (start_inv ctx launch queue drained)
        (fun state next action inv _ moved => step_inv ctx sized launch queue.prodIdx fits state next action inv
          (step_moves ctx launch queue.prodIdx state next action moved)) reached
    constructor
    · exact exact_in_line ctx sized launch queue.prodIdx fits before after inv taken
    · intro inLine later onward
      exact settled_exact ctx sized launch queue.prodIdx fits later
        (rung_settled ctx sized launch queue.prodIdx fits before after inv taken inLine later onward)

def smallLaunch (numOps : Nat) (positive : 0 < numOps) : Launch where
  gridDim := 1
  blockDim := 32 * numOps
  numOps := numOps
  localAddrs := fun warpId => BitVec.ofNat 64 (100 + warpId)
  localLkey := 7
  remoteAddrs := fun warpId => BitVec.ofNat 64 (200 + warpId)
  remoteRkey := 8
  sizes := fun _ => 64
  positive := positive
  enough := by omega

theorem small_launch_exact_iff :
    (∀ state, Reach (step twoEntries (smallLaunch 2 (by decide)) 0) (InLine twoEntries (smallLaunch 2 (by decide)) 0)
      (start freshQueue) state → Exact (smallLaunch 2 (by decide)) 0 state) ∧
    ∀ before after, Reach (step twoEntries (smallLaunch 2 (by decide)) 0) always (start freshQueue) before →
      step twoEntries (smallLaunch 2 (by decide)) 0 before (.sync (smallLaunch 2 (by decide)).last) = some after →
      ((∀ later, Reach (step twoEntries (smallLaunch 2 (by decide)) 0) always after later →
          Exact (smallLaunch 2 (by decide)) 0 later) ↔
        InLine twoEntries (smallLaunch 2 (by decide)) 0 before (.sync (smallLaunch 2 (by decide)).last)) :=
  multi_wqe_exact_iff twoEntries two_entries_sized (smallLaunch 2 (by decide)) (by decide) freshQueue fresh_drained

theorem multi_wqe_unbuilt_slot :
    ¬ ∀ (ctx : DeviceCtx), Sized ctx → ∀ (launch : Launch), launch.numOps ≤ ctx.nwqes → ∀ (queue : Queue), Drained queue →
      ∀ state, Reach (step ctx launch queue.prodIdx) always (start queue) state → Exact launch queue.prodIdx state := by
  intro holds
  obtain ⟨state, reached, stray⟩ := reach_of_decided (step twoEntries (smallLaunch 1 (by decide)) 0) always
    [.reserve 0, .build 0, .sync 0, .fetch] (start freshQueue)
    (fun state => ∃ entry ∈ state.fetched, entry.2.isSome = false) (by decide +kernel)
  obtain ⟨entry, member, unbuilt⟩ := stray
  have exact := holds twoEntries two_entries_sized (smallLaunch 1 (by decide)) (by decide) freshQueue fresh_drained
    state reached
  exact Bool.false_ne_true (unbuilt.symm.trans (exact.finished entry member))

end OpenGda.Mlx5.MultiWqe
