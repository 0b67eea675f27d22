import OpenGda.Mlx5.SendQueue

set_option autoImplicit false

namespace OpenGda.Mlx5

open Machine PhaseRing

structure Sized (ctx : DeviceCtx) : Prop where
  few : ctx.nwqes ≤ 2 ^ 15
  positive : 0 < ctx.nwqes
  divides : ctx.nwqes ∣ 2 ^ 16
  slot : ∀ wqeIdx, getWqeSlot ctx wqeIdx = wqeIdx % ctx.nwqes

theorem prepare_sized (qpn : BitVec 32) (logWqSize numCqe : Nat) (remote : RemoteBufferInfo) (cqe : Bool)
    (small : logWqSize ≤ 15) : Sized (prepare qpn logWqSize numCqe remote cqe) := by
  have bound : 2 ^ logWqSize ≤ 2 ^ 15 := Nat.pow_le_pow_right (by decide) small
  have positive : 0 < 2 ^ logWqSize := Nat.two_pow_pos logWqSize
  have nwqes : (prepare qpn logWqSize numCqe remote cqe).nwqes = 2 ^ logWqSize := by
    simp only [prepare, Nat.one_shiftLeft]
    omega
  have mask : (prepare qpn logWqSize numCqe remote cqe).nwqesMask = 2 ^ logWqSize - 1 := by
    simp only [prepare, Nat.one_shiftLeft]
    omega
  refine ⟨nwqes ▸ bound, nwqes ▸ positive, nwqes ▸ Nat.pow_dvd_pow 2 (by omega), fun wqeIdx => ?_⟩
  rw [getWqeSlot, mask, nwqes, Nat.and_two_pow_sub_one_eq_mod]

theorem wrapped_slot (ctx : DeviceCtx) (sized : Sized ctx) (index : Nat) :
    getWqeSlot ctx (index % 2 ^ 16) = index % ctx.nwqes := by
  rw [sized.slot, Nat.mod_mod_of_dvd index sized.divides]

theorem stamped_snoc (posted : List Put) (put : Put) :
    stamped (posted ++ [put]) = stamped posted ++ [⟨posted.length % 2 ^ 16, put⟩] := by
  simp [stamped, List.mapIdx_append]

theorem stamped_length (posted : List Put) : (stamped posted).length = posted.length := by
  simp [stamped]

theorem executed_length (ctx : DeviceCtx) (queue : Queue) (fifo : Fifo) (refines : Refines ctx queue fifo) :
    queue.executed.length = fifo.executed := by
  have order := refines.order
  have announced := refines.announced
  rw [refines.executed, stamped_length, List.length_take]
  omega

theorem fresh_refines (ctx : DeviceCtx) : Refines ctx freshQueue emptyFifo where
  built := rfl
  prod := rfl
  announced := Nat.le_refl 0
  dbrec := by decide
  bf := by decide
  order := Nat.le_refl 0
  executed := rfl
  slots := fun index put _ found => by simp [emptyFifo] at found
  room := Nat.zero_le _
  completed := rfl
  retired := Nat.le_refl 0

theorem build_slots (ctx : DeviceCtx) (sized : Sized ctx) (queue : Queue) (fifo : Fifo)
    (refines : Refines ctx queue fifo) (put : Put) (room : fifo.posted.length < fifo.executed + ctx.nwqes)
    (index : Nat) (other : Put) (late : fifo.executed ≤ index)
    (found : (fifo.posted ++ [put])[index]? = some other) :
    (buildAt ctx queue put (fifo.posted.length % 2 ^ 16)).wqeBuf (index % ctx.nwqes) =
      buildRdmaWriteWqe ctx.qpn other (index % 2 ^ 16) := by
  simp only [buildAt, wrapped_slot ctx sized]
  by_cases last : index = fifo.posted.length
  · subst last
    rw [List.getElem?_concat_length, Option.some.injEq] at found
    rw [Function.update_self, found]
  · have inside : index < fifo.posted.length := by
      have bound := (List.getElem?_eq_some_iff.mp found).1
      rw [List.length_append, List.length_singleton] at bound
      omega
    rw [List.getElem?_append_left inside] at found
    rw [Function.update_of_ne (slots_distinct ctx.nwqes index _ inside (by omega))]
    exact refines.slots index other late found

theorem write_no_db_refines (ctx : DeviceCtx) (sized : Sized ctx) (queue : Queue) (fifo : Fifo)
    (refines : Refines ctx queue fifo) (put : Put) (room : fifo.posted.length < fifo.executed + ctx.nwqes) :
    Refines ctx (rdmaWriteNoDb ctx queue put) { fifo with posted := fifo.posted ++ [put] } := by
  have prod : queue.prodIdx &&& 0xFFFF = fifo.posted.length % 2 ^ 16 := by
    rw [and_ffff, refines.prod]
    omega
  have order := refines.order
  have announced := refines.announced
  refine ⟨?_, ?_, ?_, refines.dbrec, refines.bf, order, ?_, ?_, ?_, refines.completed, refines.retired⟩
  · simp [rdmaWriteNoDb, buildAt, refines.built]
  · simp only [rdmaWriteNoDb, and_ffff, refines.prod, List.length_append, List.length_singleton]
    omega
  · exact Nat.le_trans announced (by simp)
  · simp only [rdmaWriteNoDb, buildAt]
    rw [List.take_append_of_le_length (by omega)]
    exact refines.executed
  · intro index other late found
    simp only [rdmaWriteNoDb, prod]
    exact build_slots ctx sized queue fifo refines put room index other late found
  · rw [List.length_append, List.length_singleton]
    exact room

theorem ring_refines (ctx : DeviceCtx) (queue : Queue) (fifo : Fifo) (refines : Refines ctx queue fifo) :
    Refines ctx (ringDoorbellBf ctx queue (fifo.posted.length % 2 ^ 16))
      { fifo with announced := fifo.posted.length } := by
  have announced := refines.announced
  have order := refines.order
  have index : fifo.posted.length % 2 ^ 16 < 65536 := Nat.mod_lt _ (by decide)
  refine ⟨refines.built, rfl, Nat.le_refl _, ?_, ?_, ?_, refines.executed, refines.slots, refines.room,
    refines.completed, refines.retired⟩
  · simp only [ringDoorbellBf, dbrec_word_decodes]
    exact Nat.mod_eq_of_lt index
  · exact bf_word_decodes ctx.qpn _ index
  · simp only
    omega

theorem write_opt_eq (ctx : DeviceCtx) (queue : Queue) (put : Put) :
    rdmaWriteOpt ctx queue put =
      ringDoorbellBf ctx (rdmaWriteNoDb ctx queue put) ((queue.prodIdx + 1) &&& 0xFFFF) := rfl

theorem write_opt_refines (ctx : DeviceCtx) (sized : Sized ctx) (queue : Queue) (fifo : Fifo)
    (refines : Refines ctx queue fifo) (put : Put) (room : fifo.posted.length < fifo.executed + ctx.nwqes) :
    Refines ctx (rdmaWriteOpt ctx queue put)
      { fifo with posted := fifo.posted ++ [put], announced := (fifo.posted ++ [put]).length } := by
  have next : (queue.prodIdx + 1) &&& 0xFFFF = (fifo.posted ++ [put]).length % 2 ^ 16 := by
    rw [and_ffff, refines.prod, List.length_append, List.length_singleton]
    omega
  rw [write_opt_eq, next]
  exact ring_refines ctx (rdmaWriteNoDb ctx queue put) { fifo with posted := fifo.posted ++ [put] }
    (write_no_db_refines ctx sized queue fifo refines put room)

theorem op_refines (ctx : DeviceCtx) (sized : Sized ctx) (queue : Queue) (fifo : Fifo)
    (refines : Refines ctx queue fifo) (op : Op) (fits : Fits ctx queue (.op op)) :
    Refines ctx (applyOp ctx queue op) (fifo.applyOp ctx op) := by
  rw [Fits, refines.built, executed_length ctx queue fifo refines] at fits
  cases op with
  | put put =>
      have after := write_opt_refines ctx sized queue fifo refines put (fits (by simp [Op.write]))
      simpa only [applyOp, Fifo.applyOp, Op.write, Op.rings, Option.toList_some, if_true] using after
  | putDefault localAddr localLkey size signaled =>
      have after := write_opt_refines ctx sized queue fifo refines (defaultPut ctx localAddr localLkey size signaled)
        (fits (by simp [Op.write]))
      simpa only [applyOp, Fifo.applyOp, Op.write, Op.rings, Option.toList_some, if_true] using after
  | putNoDb put =>
      have after := write_no_db_refines ctx sized queue fifo refines put (fits (by simp [Op.write]))
      simpa only [applyOp, Fifo.applyOp, Op.write, Op.rings, Option.toList_some, Bool.false_eq_true, if_false] using after
  | flush =>
      have prod : queue.prodIdx &&& 0xFFFF = fifo.posted.length % 2 ^ 16 := by
        rw [and_ffff, refines.prod]
        omega
      have after := ring_refines ctx queue fifo refines
      simpa only [applyOp, flushDoorbell, prod, Fifo.applyOp, Op.write, Op.rings, Option.toList_none, List.append_nil,
        if_true] using after

theorem fetch_enabled_iff (ctx : DeviceCtx) (sized : Sized ctx) (queue : Queue) (fifo : Fifo)
    (refines : Refines ctx queue fifo) :
    queue.executed.length % 2 ^ 16 ≠ dbrecIndex queue.dbrec ↔ fifo.executed < fifo.announced := by
  have order := refines.order
  have announced := refines.announced
  have room := refines.room
  have few := sized.few
  rw [executed_length ctx queue fifo refines, refines.dbrec]
  omega

theorem fetch_refines (ctx : DeviceCtx) (sized : Sized ctx) (queue : Queue) (fifo : Fifo)
    (refines : Refines ctx queue fifo) (more : fifo.executed < fifo.announced) :
    ∃ after, nicFetch ctx queue = some after ∧ Refines ctx after { fifo with executed := fifo.executed + 1 } := by
  have announced := refines.announced
  have enabled := (fetch_enabled_iff ctx sized queue fifo refines).mpr more
  have length := executed_length ctx queue fifo refines
  have inside : fifo.executed < fifo.posted.length := by omega
  have found : fifo.posted[fifo.executed]? = some fifo.posted[fifo.executed] := List.getElem?_eq_getElem inside
  have decoded : (queue.wqeBuf (queue.executed.length % ctx.nwqes)).decode =
      some ⟨fifo.executed % 2 ^ 16, fifo.posted[fifo.executed]⟩ := by
    rw [length, refines.slots fifo.executed _ (Nat.le_refl _) found]
    exact build_decodes ctx.qpn _ _ (Nat.mod_lt _ (by decide))
  refine ⟨{ queue with executed := queue.executed ++ [⟨fifo.executed % 2 ^ 16, fifo.posted[fifo.executed]⟩] },
    by simp only [nicFetch, if_neg enabled, decoded], ?_⟩
  refine ⟨refines.built, refines.prod, announced, refines.dbrec, refines.bf, more, ?_, ?_, ?_, refines.completed,
    Nat.le_succ_of_le refines.retired⟩
  · have prefixLength : (fifo.posted.take fifo.executed).length = fifo.executed := by
      rw [List.length_take]
      omega
    rw [List.take_add_one, found, Option.toList_some, stamped_snoc, prefixLength, refines.executed]
  · exact fun index put late => refines.slots index put (by simp only at late; omega)
  · have room := refines.room
    simp only
    omega

theorem complete_refines (ctx : DeviceCtx) (queue after : Queue) (fifo : Fifo) (refines : Refines ctx queue fifo)
    (taken : nicComplete ctx queue = some after) :
    fifo.completed < fifo.executed ∧ Refines ctx after { fifo with completed := fifo.completed + 1 } := by
  have length := executed_length ctx queue fifo refines
  cases found : queue.executed[queue.completed]? with
  | none => simp [nicComplete, found] at taken
  | some executed =>
      have bound := (List.getElem?_eq_some_iff.mp found).1
      rw [length, refines.completed] at bound
      have completed : queue.completed + 1 = fifo.completed + 1 := by rw [refines.completed]
      refine ⟨bound, ?_⟩
      simp only [nicComplete, found] at taken
      split at taken <;> cases taken <;>
        exact ⟨refines.built, refines.prod, refines.announced, refines.dbrec, refines.bf, refines.order,
          refines.executed, refines.slots, refines.room, completed, bound⟩

theorem step_refines (ctx : DeviceCtx) (sized : Sized ctx) (before after : Queue) (fifo : Fifo) (action : Action)
    (refines : Refines ctx before fifo) (fits : Fits ctx before action) (taken : step ctx before action = some after) :
    ∃ next, fifo.step ctx action = some next ∧ Refines ctx after next := by
  cases action with
  | op op =>
      cases taken
      exact ⟨_, rfl, op_refines ctx sized before fifo refines op fits⟩
  | fetch =>
      have more : fifo.executed < fifo.announced := by
        refine (fetch_enabled_iff ctx sized before fifo refines).mp fun idle => ?_
        rw [step, nicFetch, if_pos idle] at taken
        exact absurd taken (Option.some_ne_none after).symm
      obtain ⟨result, fetched, still⟩ := fetch_refines ctx sized before fifo refines more
      rw [step, fetched, Option.some.injEq] at taken
      exact ⟨_, if_pos more, taken ▸ still⟩
  | complete =>
      obtain ⟨more, still⟩ := complete_refines ctx before after fifo refines taken
      exact ⟨_, if_pos more, still⟩

theorem fifo_posts_program (ctx : DeviceCtx) (actions : List Action) (start last : Fifo)
    (ran : run (Fifo.step ctx) start actions = some last) :
    last.posted = start.posted ++ programWrites ctx actions := by
  induction actions generalizing start with
  | nil =>
      cases ran
      simp [programWrites]
  | cons action rest ih =>
      simp only [run, Option.bind_eq_some_iff] at ran
      obtain ⟨next, taken, ran⟩ := ran
      rw [ih next ran]
      cases action with
      | op op =>
          cases taken
          cases write : op.write ctx <;> simp [Fifo.applyOp, programWrites, write]
      | fetch =>
          simp only [Fifo.step] at taken
          split at taken <;> cases taken
          simp [programWrites]
      | complete =>
          simp only [Fifo.step] at taken
          split at taken <;> cases taken
          simp [programWrites]

theorem run_refines (ctx : DeviceCtx) (sized : Sized ctx) (actions : List Action) (queue : Queue)
    (ran : run (guarded (step ctx) (Fits ctx)) freshQueue actions = some queue) :
    ∃ fifo, run (Fifo.step ctx) emptyFifo actions = some fifo ∧ Refines ctx queue fifo := by
  refine run_simulates _ _ (Refines ctx) ?_ actions freshQueue queue emptyFifo (fresh_refines ctx) ran
  intro before after fifo action refines taken
  by_cases fits : Fits ctx before action
  · rw [guarded, if_pos fits] at taken
    exact step_refines ctx sized before after fifo action refines fits taken
  · rw [guarded, if_neg fits] at taken
    exact absurd taken (Option.some_ne_none after).symm

theorem send_queue_executes_fifo (qpn : BitVec 32) (logWqSize numCqe : Nat) (remote : RemoteBufferInfo) (cqe : Bool)
    (small : logWqSize ≤ 15) (actions : List Action) (queue : Queue)
    (ran : run (guarded (step (prepare qpn logWqSize numCqe remote cqe)) (Fits (prepare qpn logWqSize numCqe remote cqe)))
      freshQueue actions = some queue) :
    ∃ fifo, run (Fifo.step (prepare qpn logWqSize numCqe remote cqe)) emptyFifo actions = some fifo ∧
      fifo.posted = programWrites (prepare qpn logWqSize numCqe remote cqe) actions ∧
      queue.executed = stamped (fifo.posted.take fifo.executed) ∧ fifo.executed ≤ fifo.announced ∧
      ((nicFetch (prepare qpn logWqSize numCqe remote cqe) queue).isSome ↔ fifo.executed < fifo.announced) ∧
      dbrecIndex queue.dbrec = fifo.announced % 2 ^ 16 ∧ bfIndex queue.bfReg = dbrecIndex queue.dbrec := by
  have sized := prepare_sized qpn logWqSize numCqe remote cqe small
  generalize prepare qpn logWqSize numCqe remote cqe = ctx at *
  obtain ⟨fifo, followed, refines⟩ := run_refines ctx sized actions queue ran
  have posted : fifo.posted = programWrites ctx actions := by
    simpa [emptyFifo] using fifo_posts_program ctx actions emptyFifo fifo followed
  refine ⟨fifo, followed, posted, refines.executed, refines.order, ?_, refines.dbrec, ?_⟩
  · constructor
    · intro some
      refine (fetch_enabled_iff ctx sized queue fifo refines).mp fun idle => ?_
      rw [nicFetch, if_pos idle] at some
      exact absurd some (by simp)
    · intro more
      obtain ⟨after, fetched, _⟩ := fetch_refines ctx sized queue fifo refines more
      simp [fetched]
  · rw [refines.bf, refines.dbrec]

def threePuts : List Action :=
  [.op (.putNoDb ⟨1, 2, 3, 4, 5, false⟩), .op (.put ⟨6, 7, 8, 9, 10, true⟩), .fetch, .complete,
    .op (.put ⟨11, 12, 13, 14, 15, true⟩), .fetch, .fetch]

theorem three_puts_executed : ∃ queue,
    run (guarded (step (prepare 5 1 512 ⟨0, 0⟩ true)) (Fits (prepare 5 1 512 ⟨0, 0⟩ true))) freshQueue threePuts =
      some queue ∧
    ∃ fifo, run (Fifo.step (prepare 5 1 512 ⟨0, 0⟩ true)) emptyFifo threePuts = some fifo ∧
      queue.executed = stamped (fifo.posted.take fifo.executed) := by
  have ran : (run (guarded (step (prepare 5 1 512 ⟨0, 0⟩ true)) (Fits (prepare 5 1 512 ⟨0, 0⟩ true))) freshQueue
      threePuts).isSome := by decide +kernel
  obtain ⟨queue, ran⟩ := Option.isSome_iff_exists.mp ran
  obtain ⟨fifo, followed, _, executed, _⟩ :=
    send_queue_executes_fifo 5 1 512 ⟨0, 0⟩ true (by decide) threePuts queue ran
  exact ⟨queue, ran, fifo, followed, executed⟩

end OpenGda.Mlx5
