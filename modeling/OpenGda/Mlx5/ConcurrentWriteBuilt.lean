import OpenGda.Mlx5.ConcurrentWrite

set_option autoImplicit false

namespace OpenGda.Mlx5.ConcurrentWrite

open Machine PhaseRing OpenGda.Mlx5.Basic

inductive Moves (qp : DeviceQpState) (launch : Launch) (base : Nat) (before : State) : State → Prop where
  | enter (tid : Nat) (inside : tid < launch.blockDim) (here : before.stages tid = .entered) :
      Moves qp launch base before (enter launch before tid)
  | first (tid : Nat) (inside : tid < launch.blockDim) (here : before.stages tid = .firstSync)
      (arrived : Arrived launch before [.entered]) : Moves qp launch base before (before.moveTo tid .building)
  | build (tid : Nat) (inside : tid < launch.blockDim) (here : before.stages tid = .building) :
      Moves qp launch base before (build qp launch before tid)
  | second (tid : Nat) (inside : tid < launch.blockDim) (here : before.stages tid = .secondSync)
      (arrived : Arrived launch before [.entered, .firstSync, .building]) :
      Moves qp launch base before (before.moveTo tid .past)
  | submit (after : State) (past : before.stages 0 = .past) (taken : submitStep qp launch before = some after) :
      Moves qp launch base before after
  | fetch (left : (base + before.fetched.length) % 2 ^ 16 ≠ dbrecIndex before.queue.dbrec) :
      Moves qp launch base before { before with
        fetched := before.fetched ++ [before.queue.wqeBuf ((base + before.fetched.length) % qp.ctx.nwqes)] }

theorem step_moves (qp : DeviceQpState) (launch : Launch) (base : Nat) (before after : State) (action : Action)
    (taken : step qp launch base before action = some after) : Moves qp launch base before after := by
  cases action with
  | thread tid =>
      simp only [step] at taken
      split at taken
      · rename_i inside
        simp only [threadStep] at taken
        cases here : before.stages tid with
        | entered =>
            simp only [here] at taken
            cases taken
            exact .enter tid inside here
        | firstSync =>
            simp only [here] at taken
            split at taken
            · rename_i arrived
              cases taken
              exact .first tid inside here arrived
            · cases taken
        | building =>
            simp only [here] at taken
            cases taken
            exact .build tid inside here
        | secondSync =>
            simp only [here] at taken
            split at taken
            · rename_i arrived
              cases taken
              exact .second tid inside here arrived
            · cases taken
        | past =>
            simp only [here] at taken
            cases taken
      · cases taken
  | submit =>
      simp only [step] at taken
      split at taken
      · rename_i past
        exact .submit after past taken
      · cases taken
  | fetch =>
      simp only [step, fetch] at taken
      split at taken
      · cases taken
      · rename_i left
        cases taken
        exact .fetch left

theorem stage_other (stages : Nat → Stage) (tid other : Nat) (stage : Stage) (different : other ≠ tid) :
    Function.update stages tid stage other = stages other := Function.update_of_ne different stage stages

theorem move_to_other (state : State) (tid other : Nat) (stage : Stage) (different : other ≠ tid) :
    (state.moveTo tid stage).stages other = state.stages other :=
  stage_other state.stages tid other stage different

theorem phased_moved (launch : Launch) (before after : State) (sync tid : Nat) (stage : Stage)
    (phased : Phased launch before sync) (moved : after.stages = Function.update before.stages tid stage)
    (forward : (before.stages tid).rank ≤ stage.rank)
    (passes : stage.rank ≤ sync ∨ sync < (before.stages tid).rank ∨
      ∀ other < launch.blockDim, sync ≤ (before.stages other).rank) (inside : tid < launch.blockDim) :
    Phased launch after sync := by
  have grown : ∀ other, (before.stages other).rank ≤ (after.stages other).rank := by
    intro other
    rw [moved]
    by_cases own : other = tid
    · rw [own, Function.update_self]
      exact forward
    · rw [stage_other before.stages tid other stage own]
  intro who among beyond other bound
  have reached : sync ≤ (before.stages other).rank ∨ stage.rank ≤ sync ∧ who = tid := by
    rw [moved] at beyond
    by_cases own : who = tid
    · rw [own, Function.update_self] at beyond
      rcases passes with early | already | all
      · omega
      · exact .inl (phased tid inside already other bound)
      · exact .inl (all other bound)
    · rw [stage_other before.stages tid who stage own] at beyond
      exact .inl (phased who among beyond other bound)
  rcases reached with arrived | ⟨early, own⟩
  · exact Nat.le_trans arrived (grown other)
  · rw [moved, own, Function.update_self] at beyond
    omega

theorem arrived_first (launch : Launch) (state : State) (arrived : Arrived launch state [.entered]) (tid : Nat)
    (inside : tid < launch.blockDim) : 1 ≤ (state.stages tid).rank := by
  have here := arrived tid inside
  cases stage : state.stages tid with
  | entered => simp [stage] at here
  | firstSync | building | secondSync | past => simp [Stage.rank]

theorem arrived_second (launch : Launch) (state : State)
    (arrived : Arrived launch state [.entered, .firstSync, .building]) (tid : Nat) (inside : tid < launch.blockDim) :
    3 ≤ (state.stages tid).rank := by
  have here := arrived tid inside
  cases stage : state.stages tid with
  | entered | firstSync | building => simp [stage] at here
  | secondSync | past => simp [Stage.rank]

theorem enter_stages (launch : Launch) (state : State) (tid : Nat) :
    (enter launch state tid).stages = Function.update state.stages tid .firstSync := by
  by_cases zero : tid = 0
  · rw [enter, if_pos zero]
    rfl
  · rw [enter, if_neg zero]
    rfl

theorem build_stages (qp : DeviceQpState) (launch : Launch) (state : State) (tid : Nat) :
    (build qp launch state tid).stages = Function.update state.stages tid .secondSync := by
  by_cases more : tid < launch.numWrites
  · rw [build, if_pos more]
    rfl
  · rw [build, if_neg more]
    rfl

theorem submit_frame (qp : DeviceQpState) (launch : Launch) (before after : State)
    (taken : submitStep qp launch before = some after) :
    after.stages = before.stages ∧ after.written = before.written ∧ after.queue.wqeBuf = before.queue.wqeBuf ∧
      after.fetched = before.fetched ∧ before.submit.rank < after.submit.rank := by
  cases here : before.submit with
  | waiting | deciding | acquiring =>
      simp only [submitStep, here] at taken
      split at taken <;> cases taken <;> simp [Submit.rank]
  | locked =>
      simp only [submitStep, here] at taken
      cases taken
      split <;> simp [Submit.rank]
  | updatingDbr | ringingDb | releasing =>
      simp only [submitStep, here] at taken
      cases taken
      simp [Submit.rank]
  | returned =>
      simp only [submitStep, here] at taken
      cases taken

theorem step_phased (qp : DeviceQpState) (launch : Launch) (base : Nat) (before after : State)
    (first : Phased launch before 1) (second : Phased launch before 3) (moves : Moves qp launch base before after) :
    Phased launch after 1 ∧ Phased launch after 3 := by
  cases moves with
  | enter tid inside here =>
      refine ⟨phased_moved launch before _ 1 tid .firstSync first (enter_stages launch before tid) ?_ (.inl ?_) inside,
        phased_moved launch before _ 3 tid .firstSync second (enter_stages launch before tid) ?_ (.inl ?_) inside⟩ <;>
        simp [here, Stage.rank]
  | first tid inside here arrived =>
      refine ⟨phased_moved launch before _ 1 tid .building first rfl ?_
          (.inr (.inr (arrived_first launch before arrived))) inside,
        phased_moved launch before _ 3 tid .building second rfl ?_ (.inl ?_) inside⟩ <;> simp [here, Stage.rank]
  | build tid inside here =>
      refine ⟨phased_moved launch before _ 1 tid .secondSync first (build_stages qp launch before tid) ?_
          (.inr (.inl ?_)) inside,
        phased_moved launch before _ 3 tid .secondSync second (build_stages qp launch before tid) ?_ (.inl ?_)
          inside⟩ <;> simp [here, Stage.rank]
  | second tid inside here arrived =>
      refine ⟨phased_moved launch before _ 1 tid .past first rfl ?_ (.inr (.inl ?_)) inside,
        phased_moved launch before _ 3 tid .past second rfl ?_
          (.inr (.inr (arrived_second launch before arrived))) inside⟩ <;> simp [here, Stage.rank]
  | submit _ _ taken =>
      obtain ⟨stages, _⟩ := submit_frame qp launch before after taken
      simp only [Phased, stages]
      exact ⟨first, second⟩
  | fetch => exact ⟨first, second⟩

theorem start_inv (qp : DeviceQpState) (launch : Launch) (queue : Queue) (shared : Nat) (drained : Drained queue) :
    Inv qp launch queue.prodIdx (start queue shared) where
  first := fun tid _ beyond => absurd beyond (by simp [start, Stage.rank])
  second := fun tid _ beyond => absurd beyond (by simp [start, Stage.rank])
  heads :=
    { begun := fun moved => absurd rfl moved
      shared := fun later => absurd later (by simp [start, Stage.rank])
      resv := rfl
      ready := rfl
      lock := rfl
      prod := rfl
      rings := fun later => absurd later (by simp [start, Submit.rank])
      dbrec := drained
      bf := fun later => absurd later (by simp [start, Submit.rank]) }
  slots :=
    { owner := fun slot tid found => absurd found (by simp [start])
      built := fun tid _ _ later => absurd later (by simp [start, Stage.rank]) }
  seen :=
    { wqes := fun entry wqe found => by simp [start] at found
      rung := fun some => absurd rfl some
      few := Nat.zero_le _ }

theorem heads_frame (launch : Launch) (base : Nat) (before after : State) (heads : Heads launch base before)
    (zero : (after.stages 0).rank = 0 ↔ (before.stages 0).rank = 0)
    (past : before.stages 0 = .past → after.stages 0 = .past)
    (same : after.resvHead = before.resvHead ∧ after.readyHead = before.readyHead ∧
      after.postSendLock = before.postSendLock ∧ after.baseWqeIdx = before.baseWqeIdx ∧ after.submit = before.submit ∧
      after.queue.prodIdx = before.queue.prodIdx ∧ after.queue.dbrec = before.queue.dbrec ∧
      after.queue.bfReg = before.queue.bfReg) : Heads launch base after := by
  obtain ⟨resv, ready, lock, shared, submit, prod, dbrec, bf⟩ := same
  refine ⟨?_, ?_, ?_, ?_, ?_, ?_, ?_, ?_, ?_⟩
  · rw [submit]
    exact fun moved => past (heads.begun moved)
  · rw [shared]
    exact fun later => heads.shared (by omega)
  · rw [resv, heads.resv]
    simp only [zero]
  · rw [ready, submit]
    exact heads.ready
  · rw [lock, submit]
    exact heads.lock
  · rw [prod, submit]
    exact heads.prod
  · rw [submit]
    exact heads.rings
  · rw [dbrec, submit]
    exact heads.dbrec
  · rw [bf, submit]
    exact heads.bf

theorem zero_moved (before : State) (stages : Nat → Stage) (tid : Nat) (stage : Stage)
    (moved : stages = Function.update before.stages tid stage) (later : 1 ≤ (before.stages tid).rank)
    (forward : (before.stages tid).rank ≤ stage.rank) :
    ((stages 0).rank = 0 ↔ (before.stages 0).rank = 0) := by
  rw [moved]
  by_cases own : 0 = tid
  · rw [← own] at later forward ⊢
    rw [Function.update_self]
    omega
  · rw [stage_other before.stages tid 0 stage own]

theorem past_moved (before : State) (stages : Nat → Stage) (tid : Nat) (stage : Stage)
    (moved : stages = Function.update before.stages tid stage) (here : before.stages tid ≠ .past)
    (past : before.stages 0 = .past) : stages 0 = .past := by
  rw [moved, stage_other before.stages tid 0 stage (fun own => here (own ▸ past))]
  exact past

theorem enter_heads (launch : Launch) (small : launch.numWrites ≤ 2 ^ 15) (base : Nat) (before : State) (tid : Nat)
    (heads : Heads launch base before) (here : before.stages tid = .entered) :
    Heads launch base (enter launch before tid) := by
  by_cases zero : tid = 0
  · subst zero
    have quiet : before.submit = .waiting := by
      by_contra moved
      exact absurd (heads.begun moved) (by simp [here])
    have fresh : (before.stages 0).rank = 0 := by rw [here, Stage.rank]
    have resv := heads.resv
    have ready := heads.ready
    have prod := heads.prod
    have dbrec := heads.dbrec
    rw [if_pos fresh] at resv
    have count : launch.numWrites % 2 ^ 32 = launch.numWrites := Nat.mod_eq_of_lt (by omega)
    simp only [enter, if_true, State.moveTo]
    refine ⟨fun moved => absurd quiet moved, fun _ => resv, ?_, ready, heads.lock, prod, heads.rings, dbrec, heads.bf⟩
    simp only [Function.update_self, Stage.rank, Nat.one_ne_zero, if_false, resv, count, nextIdx]
  · have moved := enter_stages launch before tid
    have other : (enter launch before tid).stages 0 = before.stages 0 := by
      rw [moved, stage_other before.stages tid 0 .firstSync (Ne.symm zero)]
    refine heads_frame launch base before _ heads (by rw [other]) (fun past => by rw [other, past]) ?_
    rw [enter, if_neg zero]
    exact ⟨rfl, rfl, rfl, rfl, rfl, rfl, rfl, rfl⟩

theorem heads_past (launch : Launch) (base : Nat) (state : State) (past : state.stages 0 = .past)
    (shared : state.baseWqeIdx = base) (resv : state.resvHead = nextIdx launch base)
    (ready : state.readyHead = if state.submit.rank = 0 then base else nextIdx launch base)
    (lock : state.postSendLock = decide (3 ≤ state.submit.rank ∧ state.submit.rank ≤ 6))
    (prod : state.queue.prodIdx = if 4 ≤ state.submit.rank then max base (nextIdx launch base) else base)
    (rings : state.submit.rank = 4 ∨ state.submit.rank = 5 → base < nextIdx launch base)
    (dbrec : dbrecIndex state.queue.dbrec =
      (if 5 ≤ state.submit.rank then max base (nextIdx launch base) else base) % 2 ^ 16)
    (bf : 6 ≤ state.submit.rank → base < nextIdx launch base →
      bfIndex state.queue.bfReg = nextIdx launch base % 2 ^ 16) : Heads launch base state where
  begun := fun _ => past
  shared := fun _ => shared
  resv := by
    rw [past, Stage.rank, if_neg (by decide)]
    exact resv
  ready := ready
  lock := lock
  prod := prod
  rings := rings
  dbrec := dbrec
  bf := bf

theorem submit_heads (qp : DeviceQpState) (launch : Launch) (small : launch.numWrites ≤ 2 ^ 15) (base : Nat)
    (before after : State) (heads : Heads launch base before) (past : before.stages 0 = .past)
    (taken : submitStep qp launch before = some after) : Heads launch base after := by
  have shared := heads.shared (by simp [past, Stage.rank])
  have resv := heads.resv
  have ready := heads.ready
  have lock := heads.lock
  have prod := heads.prod
  have rings := heads.rings
  have dbrec := heads.dbrec
  have bf := heads.bf
  have count : launch.numWrites % 2 ^ 16 = launch.numWrites := Nat.mod_eq_of_lt (by omega)
  have next : (base + launch.numWrites) % 2 ^ 64 = nextIdx launch base := rfl
  rw [past, Stage.rank, if_neg (by decide)] at resv
  cases here : before.submit with
  | waiting =>
      simp only [submitStep, here, shared, count, next] at taken
      simp only [here, Submit.rank] at lock prod dbrec
      split at taken <;> cases taken
      exact heads_past launch base _ past rfl resv rfl lock prod (by simp [Submit.rank]) dbrec (by simp [Submit.rank])
  | deciding =>
      simp only [submitStep, here, shared, count, next, resv, true_or, if_true] at taken
      simp only [here, Submit.rank] at ready lock prod dbrec
      cases taken
      exact heads_past launch base _ past rfl rfl ready lock prod (by simp [Submit.rank]) dbrec (by simp [Submit.rank])
  | acquiring =>
      simp only [submitStep, here] at taken
      simp only [here, Submit.rank] at ready prod dbrec
      split at taken <;> cases taken
      exact heads_past launch base _ past shared resv ready rfl prod (by simp [Submit.rank]) dbrec (by simp [Submit.rank])
  | locked =>
      simp only [submitStep, here, shared, count, next] at taken
      simp only [here, Submit.rank, Nat.reduceLeDiff, if_false] at ready lock prod dbrec
      cases taken
      rw [prod]
      by_cases less : base < nextIdx launch base
      · simp only [if_pos less]
        exact heads_past launch base _ past rfl resv ready lock rfl (fun _ => less) dbrec (by simp [Submit.rank])
      · simp only [if_neg less]
        refine heads_past launch base _ past rfl resv ready lock rfl (by simp [Submit.rank]) ?_
          fun _ more => absurd more less
        simpa [Submit.rank, Nat.max_eq_left (Nat.le_of_not_lt less)] using dbrec
  | updatingDbr =>
      simp only [submitStep, here, shared, count, next] at taken
      simp only [here, Submit.rank] at ready lock prod rings
      have less := rings (by simp)
      cases taken
      refine heads_past launch base _ past rfl resv ready lock prod (fun _ => less) ?_ (by simp [Submit.rank])
      simpa [Submit.rank, Nat.max_eq_right (Nat.le_of_lt less)] using dbrec_word_decodes (nextIdx launch base)
  | ringingDb =>
      simp only [submitStep, here, shared, count, next] at taken
      simp only [here, Submit.rank] at ready lock prod dbrec
      cases taken
      exact heads_past launch base _ past rfl resv ready lock prod (by simp [Submit.rank]) dbrec
        fun _ _ => bf_word_decodes qp.ctx.qpn _ (Nat.mod_lt _ (by decide))
  | releasing =>
      simp only [submitStep, here] at taken
      simp only [here, Submit.rank] at ready prod dbrec bf
      cases taken
      exact heads_past launch base _ past shared resv ready rfl prod (by simp [Submit.rank]) dbrec
        fun _ => bf (by decide)
  | returned =>
      simp only [submitStep, here] at taken
      cases taken

theorem step_heads (qp : DeviceQpState) (launch : Launch) (small : launch.numWrites ≤ 2 ^ 15) (base : Nat)
    (before after : State) (heads : Heads launch base before) (moves : Moves qp launch base before after) :
    Heads launch base after := by
  cases moves with
  | enter tid _ here => exact enter_heads launch small base before tid heads here
  | first tid _ here _ =>
      exact heads_frame launch base before _ heads
        (zero_moved before _ tid .building rfl (by simp [here, Stage.rank]) (by simp [here, Stage.rank]))
        (past_moved before _ tid .building rfl (by simp [here])) ⟨rfl, rfl, rfl, rfl, rfl, rfl, rfl, rfl⟩
  | build tid _ here =>
      have moved := build_stages qp launch before tid
      refine heads_frame launch base before _ heads
        (zero_moved before _ tid .secondSync moved (by simp [here, Stage.rank]) (by simp [here, Stage.rank]))
        (past_moved before _ tid .secondSync moved (by simp [here])) ?_
      by_cases more : tid < launch.numWrites
      · rw [build, if_pos more]
        exact ⟨rfl, rfl, rfl, rfl, rfl, rfl, rfl, rfl⟩
      · rw [build, if_neg more]
        exact ⟨rfl, rfl, rfl, rfl, rfl, rfl, rfl, rfl⟩
  | second tid _ here _ =>
      exact heads_frame launch base before _ heads
        (zero_moved before _ tid .past rfl (by simp [here, Stage.rank]) (by simp [here, Stage.rank]))
        (past_moved before _ tid .past rfl (by simp [here])) ⟨rfl, rfl, rfl, rfl, rfl, rfl, rfl, rfl⟩
  | submit _ past taken => exact submit_heads qp launch small base before after heads past taken
  | fetch => exact heads_frame launch base before _ heads Iff.rfl id ⟨rfl, rfl, rfl, rfl, rfl, rfl, rfl, rfl⟩

theorem slots_frame (qp : DeviceQpState) (launch : Launch) (base : Nat) (before after : State)
    (slots : Slots qp launch base before) (written : after.written = before.written)
    (ring : after.queue.wqeBuf = before.queue.wqeBuf)
    (later : ∀ tid, 3 ≤ (after.stages tid).rank → 3 ≤ (before.stages tid).rank) : Slots qp launch base after where
  owner := fun slot tid found => slots.owner slot tid (written ▸ found)
  built := fun tid inside more reached => by
    rw [written, ring]
    exact slots.built tid inside more (later tid reached)

theorem moved_later (before : State) (stages : Nat → Stage) (tid : Nat) (stage : Stage)
    (moved : stages = Function.update before.stages tid stage)
    (own : 3 ≤ stage.rank → 3 ≤ (before.stages tid).rank) (other : Nat) (reached : 3 ≤ (stages other).rank) :
    3 ≤ (before.stages other).rank := by
  rw [moved] at reached
  by_cases same : other = tid
  · rw [same, Function.update_self] at reached
    exact same ▸ own reached
  · rwa [stage_other before.stages tid other stage same] at reached

theorem build_slots_kept (qp : DeviceQpState) (sized : Sized qp.ctx) (launch : Launch)
    (fits : launch.numWrites ≤ qp.ctx.nwqes) (base : Nat) (before : State) (tid : Nat) (inside : tid < launch.blockDim)
    (slots : Slots qp launch base before) (shared : before.baseWqeIdx = base) :
    Slots qp launch base (build qp launch before tid) := by
  by_cases more : tid < launch.numWrites
  · rw [build, if_pos more]
    simp only [shared, wqe_slot_place qp.ctx sized]
    refine ⟨?_, ?_⟩
    · intro slot other found
      by_cases here : slot = (base + tid) % qp.ctx.nwqes
      · subst here
        simp only [State.moveTo, Function.update_self, Option.some.injEq] at found
        exact found ▸ inside
      · simp only [State.moveTo, Function.update_of_ne here] at found
        exact slots.owner slot other found
    · intro other among fewer reached
      by_cases same : other = tid
      · subst same
        simp only [State.moveTo, Function.update_self, true_and, wqe_slot_index]
        exact basic_transfer qp.ctx.qpn _ _ (Nat.mod_lt _ (by decide))
      · have apart : (base + other) % qp.ctx.nwqes ≠ (base + tid) % qp.ctx.nwqes := by
          rcases Nat.lt_or_gt_of_ne same with less | less
          · exact slots_distinct qp.ctx.nwqes _ _ (by omega) (by omega)
          · exact (slots_distinct qp.ctx.nwqes _ _ (by omega) (by omega)).symm
        simp only [State.moveTo, Function.update_of_ne apart]
        exact slots.built other among fewer (by rwa [move_to_other _ tid other _ same] at reached)
  · rw [build, if_neg more]
    refine ⟨slots.owner, ?_⟩
    intro other among fewer reached
    have same : other ≠ tid := fun own => more (own ▸ fewer)
    exact slots.built other among fewer (by rwa [move_to_other _ tid other _ same] at reached)

theorem step_slots (qp : DeviceQpState) (sized : Sized qp.ctx) (launch : Launch)
    (fits : launch.numWrites ≤ qp.ctx.nwqes) (base : Nat) (before after : State) (inv : Inv qp launch base before)
    (moves : Moves qp launch base before after) : Slots qp launch base after := by
  cases moves with
  | enter tid _ here =>
      refine slots_frame qp launch base before _ inv.slots ?_ ?_
        (moved_later before _ tid .firstSync (enter_stages launch before tid) (by simp [Stage.rank])) <;>
        by_cases zero : tid = 0 <;> simp [enter, zero, State.moveTo]
  | first tid _ here _ =>
      exact slots_frame qp launch base before _ inv.slots rfl rfl
        (moved_later before _ tid .building rfl (by simp [Stage.rank]))
  | build tid inside here =>
      have reserved := inv.first tid inside (by simp [here, Stage.rank]) 0 launch.threads
      exact build_slots_kept qp sized launch fits base before tid inside inv.slots (inv.heads.shared reserved)
  | second tid _ here _ =>
      exact slots_frame qp launch base before _ inv.slots rfl rfl
        (moved_later before _ tid .past rfl (by simp [here, Stage.rank]))
  | submit _ _ taken =>
      obtain ⟨stages, written, ring, _⟩ := submit_frame qp launch before after taken
      exact slots_frame qp launch base before after inv.slots written ring (by simp [stages])
  | fetch => exact slots_frame qp launch base before _ inv.slots rfl rfl fun _ => id

theorem announced_all (qp : DeviceQpState) (sized : Sized qp.ctx) (launch : Launch)
    (fits : launch.numWrites ≤ qp.ctx.nwqes) (base : Nat) (state : State) (heads : Heads launch base state)
    (rung : 5 ≤ state.submit.rank) (less : base < nextIdx launch base) :
    announcedCount base state = launch.numWrites := by
  have few := sized.few
  have next : nextIdx launch base = (base + launch.numWrites) % 2 ^ 64 := rfl
  rw [announcedCount, heads.dbrec, if_pos rung, Nat.max_eq_right (Nat.le_of_lt less)]
  omega

theorem seen_frame (qp : DeviceQpState) (launch : Launch) (base : Nat) (before after : State)
    (seen : Seen qp launch base before) (ring : after.queue.wqeBuf = before.queue.wqeBuf)
    (fetched : after.fetched = before.fetched) (later : before.submit.rank ≤ after.submit.rank) :
    Seen qp launch base after where
  wqes := by
    rw [fetched, ring]
    exact seen.wqes
  rung := by
    rw [fetched]
    exact fun some => ⟨Nat.le_trans (seen.rung some).1 later, (seen.rung some).2⟩
  few := fetched ▸ seen.few

theorem building_unseen (qp : DeviceQpState) (launch : Launch) (base : Nat) (state : State)
    (inv : Inv qp launch base state) (tid : Nat) (inside : tid < launch.blockDim) (here : state.stages tid = .building) :
    state.fetched = [] := by
  by_contra some
  have rung := (inv.seen.rung some).1
  have past := inv.heads.begun fun waiting => by simp [waiting, Submit.rank] at rung
  have reached := inv.second 0 launch.threads (by simp [past, Stage.rank]) tid inside
  simp [here, Stage.rank] at reached

theorem fetch_seen (qp : DeviceQpState) (launch : Launch) (base : Nat) (before : State)
    (inv : Inv qp launch base before)
    (left : (base + before.fetched.length) % 2 ^ 16 ≠ dbrecIndex before.queue.dbrec) :
    Seen qp launch base { before with
      fetched := before.fetched ++ [before.queue.wqeBuf ((base + before.fetched.length) % qp.ctx.nwqes)] } := by
  have inside := inv.seen.few
  have dbrec := inv.heads.dbrec
  have next : nextIdx launch base = (base + launch.numWrites) % 2 ^ 64 := rfl
  have rung : 5 ≤ before.submit.rank ∧ base < nextIdx launch base := by
    by_cases some : before.fetched = []
    · rw [some, List.length_nil, Nat.add_zero, dbrec] at left
      by_cases late : 5 ≤ before.submit.rank
      · rw [if_pos late] at left
        exact ⟨late, by omega⟩
      · rw [if_neg late] at left
        exact absurd rfl left
    · exact inv.seen.rung some
  rw [if_pos rung.1] at dbrec
  refine ⟨?_, fun _ => rung, ?_⟩
  · intro entry wqe found
    by_cases earlier : entry < before.fetched.length
    · rw [List.getElem?_append_left earlier] at found
      exact inv.seen.wqes entry wqe found
    · have bound := (List.getElem?_eq_some_iff.mp found).1
      rw [List.length_append, List.length_singleton] at bound
      have last : entry = before.fetched.length := by omega
      subst last
      rw [List.getElem?_concat_length, Option.some.injEq] at found
      exact found.symm
  · simp only [List.length_append, List.length_singleton]
    omega

theorem step_seen (qp : DeviceQpState) (launch : Launch) (base : Nat) (before after : State)
    (inv : Inv qp launch base before)
    (moves : Moves qp launch base before after) : Seen qp launch base after := by
  cases moves with
  | enter tid _ here =>
      refine seen_frame qp launch base before _ inv.seen ?_ ?_ ?_ <;>
        by_cases zero : tid = 0 <;> simp [enter, zero, State.moveTo]
  | first tid _ here _ => exact seen_frame qp launch base before _ inv.seen rfl rfl (Nat.le_refl _)
  | build tid inside here =>
      have none := building_unseen qp launch base before inv tid inside here
      have still : (build qp launch before tid).fetched = [] := by
        rw [← none]
        by_cases more : tid < launch.numWrites <;> simp [build, more, State.moveTo]
      refine ⟨?_, fun some => absurd still some, ?_⟩
      · rw [still]
        intro entry wqe found
        simp at found
      · rw [still]
        exact Nat.zero_le _
  | second tid _ here _ => exact seen_frame qp launch base before _ inv.seen rfl rfl (Nat.le_refl _)
  | submit _ _ taken =>
      obtain ⟨_, _, ring, fetched, later⟩ := submit_frame qp launch before after taken
      exact seen_frame qp launch base before after inv.seen ring fetched (Nat.le_of_lt later)
  | fetch left => exact fetch_seen qp launch base before inv left

theorem step_inv (qp : DeviceQpState) (sized : Sized qp.ctx) (launch : Launch) (fits : launch.numWrites ≤ qp.ctx.nwqes)
    (base : Nat) (before after : State) (inv : Inv qp launch base before) (moves : Moves qp launch base before after) :
    Inv qp launch base after := by
  have few := sized.few
  obtain ⟨first, second⟩ := step_phased qp launch base before after inv.first inv.second moves
  exact ⟨first, second, step_heads qp launch (by omega) base before after inv.heads moves,
    step_slots qp sized launch fits base before after inv moves,
    step_seen qp launch base before after inv moves⟩

theorem reach_inv (qp : DeviceQpState) (sized : Sized qp.ctx) (launch : Launch) (fits : launch.numWrites ≤ qp.ctx.nwqes)
    (queue : Queue) (shared : Nat) (drained : Drained queue) (state : State)
    (reached : Reach (step qp launch queue.prodIdx) always (start queue shared) state) :
    Inv qp launch queue.prodIdx state := by
  refine reach_invariant (step qp launch queue.prodIdx) always (Inv qp launch queue.prodIdx) (start queue shared) state
    (start_inv qp launch queue shared drained) ?_ reached
  intro before after action inv _ taken
  exact step_inv qp sized launch fits queue.prodIdx before after inv (step_moves qp launch _ before after action taken)

def remaining (launch : Launch) (state : State) : Nat :=
  (∑ tid ∈ Finset.range launch.blockDim, (4 - (state.stages tid).rank)) + (7 - state.submit.rank) +
    (launch.numWrites - state.fetched.length)

theorem thread_remaining (launch : Launch) (before after : State) (tid : Nat) (stage : Stage)
    (inside : tid < launch.blockDim) (moved : after.stages = Function.update before.stages tid stage)
    (less : (before.stages tid).rank < stage.rank) (submit : after.submit = before.submit)
    (fetched : after.fetched = before.fetched) : remaining launch after < remaining launch before := by
  have top : stage.rank ≤ 4 := by cases stage <;> simp [Stage.rank]
  have sums := sum_update_lt (fun stage : Stage => 4 - stage.rank) launch.blockDim tid before.stages stage inside
    (by omega)
  rw [remaining, remaining, moved, submit, fetched]
  omega

theorem step_remaining (qp : DeviceQpState) (launch : Launch) (base : Nat) (before after : State)
    (inv : Inv qp launch base before)
    (moves : Moves qp launch base before after) : remaining launch after < remaining launch before := by
  have later := step_seen qp launch base before after inv moves
  cases moves with
  | enter tid inside here =>
      refine thread_remaining launch before _ tid .firstSync inside (enter_stages launch before tid)
        (by simp [here, Stage.rank]) ?_ ?_ <;> by_cases zero : tid = 0 <;> simp [enter, zero, State.moveTo]
  | first tid inside here _ =>
      exact thread_remaining launch before _ tid .building inside rfl (by simp [here, Stage.rank]) rfl rfl
  | build tid inside here =>
      refine thread_remaining launch before _ tid .secondSync inside (build_stages qp launch before tid)
        (by simp [here, Stage.rank]) ?_ ?_ <;>
        by_cases more : tid < launch.numWrites <;> simp [build, more, State.moveTo]
  | second tid inside here _ =>
      exact thread_remaining launch before _ tid .past inside rfl (by simp [here, Stage.rank]) rfl rfl
  | submit _ _ taken =>
      obtain ⟨stages, _, _, fetched, less⟩ := submit_frame qp launch before after taken
      have top : after.submit.rank ≤ 7 := by cases after.submit <;> simp [Submit.rank]
      rw [remaining, remaining, stages, fetched]
      omega
  | fetch left =>
      have few := later.few
      simp only [List.length_append, List.length_singleton] at few
      simp only [remaining, List.length_append, List.length_singleton]
      omega

theorem stuck_past (qp : DeviceQpState) (launch : Launch) (base : Nat) (state : State)
    (stuck : Stuck (step qp launch base) state) (tid : Nat) (inside : tid < launch.blockDim) :
    state.stages tid = .past := by
  have moves : ∀ other < launch.blockDim, threadStep qp launch state other = none := by
    intro other among
    have still := stuck (.thread other)
    simpa only [step, if_pos among] using still
  have begun : ∀ other < launch.blockDim, state.stages other ≠ .entered := by
    intro other among here
    have still := moves other among
    simp [threadStep, here] at still
  have first : Arrived launch state [.entered] := fun other among => by simpa using begun other among
  have reserved : ∀ other < launch.blockDim, state.stages other ≠ .firstSync := by
    intro other among here
    have still := moves other among
    simp [threadStep, here, first] at still
  have built : ∀ other < launch.blockDim, state.stages other ≠ .building := by
    intro other among here
    have still := moves other among
    simp [threadStep, here] at still
  have second : Arrived launch state [.entered, .firstSync, .building] := fun other among => by
    simpa using ⟨begun other among, reserved other among, built other among⟩
  have still := moves tid inside
  cases here : state.stages tid with
  | entered => exact absurd here (begun tid inside)
  | firstSync => exact absurd here (reserved tid inside)
  | building => exact absurd here (built tid inside)
  | secondSync => simp [threadStep, here, second] at still
  | past => rfl

theorem stuck_returned (qp : DeviceQpState) (launch : Launch) (base : Nat) (state : State)
    (heads : Heads launch base state) (stuck : Stuck (step qp launch base) state) : Returned launch state := by
  have past := stuck_past qp launch base state stuck
  have zero := past 0 launch.threads
  have still := stuck .submit
  simp only [step, if_pos zero] at still
  refine ⟨past, ?_⟩
  cases here : state.submit with
  | waiting =>
      have shared := heads.shared (by simp [zero, Stage.rank])
      have ready := heads.ready
      simp only [here, Submit.rank, if_true] at ready
      simp [submitStep, here, shared, ready] at still
  | deciding =>
      simp only [submitStep, here] at still
      split at still <;> cases still
  | acquiring =>
      have lock := heads.lock
      simp [here, Submit.rank] at lock
      simp [submitStep, here, lock] at still
  | locked | updatingDbr | ringingDb | releasing => simp [submitStep, here] at still
  | returned => rfl

theorem returned_sound (qp : DeviceQpState) (sized : Sized qp.ctx) (launch : Launch)
    (fits : launch.numWrites ≤ qp.ctx.nwqes) (base : Nat) (covered : Covered launch base) (state : State)
    (inv : Inv qp launch base state) (returned : Returned launch state) : Sound qp launch base state := by
  obtain ⟨past, submit⟩ := returned
  obtain ⟨threads, room⟩ := covered
  have positive := launch.positive
  have rank : state.submit.rank = 7 := by rw [submit, Submit.rank]
  have next : nextIdx launch base = base + launch.numWrites := Nat.mod_eq_of_lt room
  have less : base < nextIdx launch base := by omega
  have all := announced_all qp sized launch fits base state inv.heads (by omega) less
  have reached : ∀ entry < launch.numWrites, 3 ≤ (state.stages entry).rank := by
    intro entry among
    rw [past entry (by omega), Stage.rank]
    decide
  have resv := inv.heads.resv
  have ready := inv.heads.ready
  have prod := inv.heads.prod
  have dbrec := inv.heads.dbrec
  rw [past 0 launch.threads] at resv
  simp only [Stage.rank, Nat.reduceEqDiff, if_false] at resv
  rw [rank, if_neg (by decide)] at ready
  rw [rank, if_pos (by decide), Nat.max_eq_right (Nat.le_of_lt less)] at prod dbrec
  refine ⟨?_, ?_, all, ?_, resv, ready.trans resv.symm, prod.trans resv.symm⟩
  · intro entry announced
    rw [all] at announced
    exact inv.slots.built entry (by omega) announced (reached entry announced)
  · intro entry wqe found
    have bound := (List.getElem?_eq_some_iff.mp found).1
    have few := inv.seen.few
    rw [inv.seen.wqes entry wqe found]
    exact (inv.slots.built entry (by omega) (by omega) (reached entry (by omega))).2
  · rw [dbrec, inv.heads.bf (by omega) less]

theorem sound_covered (qp : DeviceQpState) (launch : Launch) (few : launch.numWrites ≤ 2 ^ 15) (base : Nat)
    (word : base < 2 ^ 64) (state : State) (inv : Inv qp launch base state) (returned : Returned launch state)
    (sound : Sound qp launch base state) : Covered launch base := by
  refine ⟨?_, ?_⟩
  · by_contra short
    obtain ⟨written, _⟩ := sound.built launch.blockDim (by rw [sound.all]; omega)
    exact absurd (inv.slots.owner _ _ written) (Nat.lt_irrefl _)
  · by_contra wraps
    have prod := inv.heads.prod
    rw [returned.2, Submit.rank, if_pos (by decide), sound.prod, sound.resv] at prod
    have next : nextIdx launch base = (base + launch.numWrites) % 2 ^ 64 := rfl
    omega

theorem concurrent_write_sound_iff (qp : DeviceQpState) (sized : Sized qp.ctx) (launch : Launch)
    (fits : launch.numWrites ≤ qp.ctx.nwqes) (queue : Queue) (word : queue.prodIdx < 2 ^ 64) (drained : Drained queue)
    (shared : Nat) :
    ((∀ state, Reach (step qp launch queue.prodIdx) always (start queue shared) state → Returned launch state →
        Sound qp launch queue.prodIdx state) ↔ Covered launch queue.prodIdx) ∧
      (∀ actions state, run (step qp launch queue.prodIdx) (start queue shared) actions = some state →
        actions.length ≤ 4 * launch.blockDim + 7 + launch.numWrites) ∧
      ∀ state, Reach (step qp launch queue.prodIdx) always (start queue shared) state →
        Stuck (step qp launch queue.prodIdx) state → Returned launch state := by
  have few := sized.few
  have preserved : ∀ before after action, Inv qp launch queue.prodIdx before →
      step qp launch queue.prodIdx before action = some after → Inv qp launch queue.prodIdx after := by
    intro before after action inv taken
    exact step_inv qp sized launch fits queue.prodIdx before after inv (step_moves qp launch _ before after action taken)
  have decreases : ∀ before after action, Inv qp launch queue.prodIdx before →
      step qp launch queue.prodIdx before action = some after → remaining launch after < remaining launch before := by
    intro before after action inv taken
    exact step_remaining qp launch queue.prodIdx before after inv (step_moves qp launch _ before after action taken)
  have initially := start_inv qp launch queue shared drained
  have reach := reach_inv qp sized launch fits queue shared drained
  refine ⟨⟨?_, ?_⟩, ?_, ?_⟩
  · intro every
    obtain ⟨state, reached, stuck⟩ := stuck_reachable (step qp launch queue.prodIdx) (Inv qp launch queue.prodIdx)
      (remaining launch) preserved decreases (start queue shared) initially
    have inv := reach state reached
    have returned := stuck_returned qp launch queue.prodIdx state inv.heads stuck
    exact sound_covered qp launch (by omega) queue.prodIdx word state inv returned (every state reached returned)
  · intro covered state reached returned
    exact returned_sound qp sized launch fits queue.prodIdx covered state (reach state reached) returned
  · intro actions state ran
    have bound := run_length (step qp launch queue.prodIdx) (Inv qp launch queue.prodIdx) (remaining launch) preserved
      decreases actions (start queue shared) state initially ran
    simp only [remaining, start, Stage.rank, Submit.rank, Finset.sum_const, Finset.card_range, smul_eq_mul,
      List.length_nil] at bound
    omega
  · intro state reached stuck
    exact stuck_returned qp launch queue.prodIdx state (reach state reached).heads stuck

def twoWrites (blockDim : Nat) (threads : 1 ≤ blockDim) : Launch where
  blockDim := blockDim
  numWrites := 2
  localAddrs := fun tid => BitVec.ofNat 64 (0x1000 + tid)
  localLkeys := fun _ => 7
  remoteAddrs := fun tid => BitVec.ofNat 64 (0x2000 + tid)
  remoteRkey := 9
  size := 8
  threads := threads
  positive := Nat.le_succ 1

def sampleQp : DeviceQpState := ⟨prepare 5 2 512 ⟨0, 0⟩ true, 32, 0xFFFFFFE0⟩

def stalePut : Put := ⟨0xAAA, 1, 0xBBB, 2, 64, false⟩

def usedQueue : Queue :=
  { freshQueue with
    wqeBuf := fun slot => gdaBuildRdmaWriteWqe 5 stalePut slot
    prodIdx := 4
    dbrec := dbrecWord 4 }

theorem used_drained : Drained usedQueue := by
  rw [Drained]
  decide

theorem concurrent_write_sound_two : Covered (twoWrites 2 (by decide)) 4 ∧ ∀ state,
    Reach (step sampleQp (twoWrites 2 (by decide)) 4) always (start usedQueue 0) state →
      Returned (twoWrites 2 (by decide)) state → Sound sampleQp (twoWrites 2 (by decide)) 4 state := by
  have covered : Covered (twoWrites 2 (by decide)) 4 := by decide
  exact ⟨covered, (concurrent_write_sound_iff sampleQp (prepare_sized 5 2 512 ⟨0, 0⟩ true (by decide))
    (twoWrites 2 (by decide)) (by decide) usedQueue (by decide) used_drained 0).1.mpr covered⟩

def oneThread : List Action :=
  [.thread 0, .thread 0, .thread 0, .thread 0, .submit, .submit, .submit, .submit, .submit, .submit, .submit,
    .fetch, .fetch]

theorem unbuilt_entry_submitted : Drained usedQueue ∧ Sized sampleQp.ctx ∧ ∃ state,
    Reach (step sampleQp (twoWrites 1 (by decide)) 4) always (start usedQueue 0) state ∧
      Returned (twoWrites 1 (by decide)) state ∧ ¬ Sound sampleQp (twoWrites 1 (by decide)) 4 state ∧
      (state.fetched[1]?.bind wqeTransfer) = some (transferOf stalePut) := by
  refine ⟨used_drained, prepare_sized 5 2 512 ⟨0, 0⟩ true (by decide), ?_⟩
  obtain ⟨state, reached, past, submit, announced, unbuilt, stale⟩ := reach_of_decided
    (step sampleQp (twoWrites 1 (by decide)) 4) always oneThread (start usedQueue 0)
    (fun state => state.stages 0 = .past ∧ state.submit = .returned ∧ announcedCount 4 state = 2 ∧
      state.written 1 = none ∧ (state.fetched[1]?.bind wqeTransfer) = some (transferOf stalePut)) (by decide +kernel)
  refine ⟨state, reached, ⟨?_, submit⟩, ?_, stale⟩
  · intro tid inside
    rw [Nat.lt_one_iff.mp inside]
    exact past
  · intro sound
    have built := (sound.built 1 (by rw [announced]; decide)).1
    rw [show (4 + 1) % sampleQp.ctx.nwqes = 1 by decide, unbuilt] at built
    cases built

end OpenGda.Mlx5.ConcurrentWrite
