import OpenGda.Mlx5.SendQueueFifo

set_option autoImplicit false

namespace OpenGda.Mlx5

open Machine PhaseRing

-- gda_poll_cq_wqe_counter returns: at once without a completion queue, else on this test.
def pollReady (ctx : DeviceCtx) (queue : Queue) (expectedWqeIdx : Nat) : Prop :=
  let cqeIdx := (expectedWqeIdx - 1) &&& ctx.ncqesMask
  let expectedOwner := if (expectedWqeIdx - 1) / ctx.ncqes &&& 1 ≠ 0 then 1 else 0
  let owner := queue.cqe cqeIdx &&& 0x01
  ctx.cqe = false ∨ owner = expectedOwner

def quietReturns (ctx : DeviceCtx) (queue : Queue) : Prop :=
  queue.prodIdx = 0 ∨ pollReady ctx queue queue.prodIdx

instance (ctx : DeviceCtx) (queue : Queue) (expectedWqeIdx : Nat) : Decidable (pollReady ctx queue expectedWqeIdx) :=
  inferInstanceAs (Decidable (_ ∨ _))

instance (ctx : DeviceCtx) (queue : Queue) : Decidable (quietReturns ctx queue) :=
  inferInstanceAs (Decidable (_ ∨ _))

structure Session where
  queue : Queue
  todo : List Op

inductive Turn where
  | host
  | fetch
  | complete
deriving DecidableEq, Repr

def sessionStep (ctx : DeviceCtx) (session : Session) : Turn → Option Session
  | .host =>
      match session.todo with
      | op :: rest => some ⟨applyOp ctx session.queue op, rest⟩
      | [] => none
  | .fetch => (nicFetch ctx session.queue).map fun queue => { session with queue := queue }
  | .complete => (nicComplete ctx session.queue).map fun queue => { session with queue := queue }

-- At most nwqes WQEs are ever posted and not completed.
def Roomy (ctx : DeviceCtx) (session : Session) : Turn → Prop
  | .host =>
      ∀ op ∈ session.todo.head?, (op.write ctx).isSome →
        session.queue.built < session.queue.completed + ctx.nwqes
  | _ => True

instance (ctx : DeviceCtx) (session : Session) (turn : Turn) : Decidable (Roomy ctx session turn) := by
  cases turn with
  | host => exact inferInstanceAs (Decidable (∀ op ∈ session.todo.head?, _))
  | _ => exact isTrue trivial

def startSession (ops : List Op) : Session := ⟨freshQueue, ops⟩

def opWrites (ctx : DeviceCtx) (ops : List Op) : List Put := ops.filterMap (Op.write ctx)

def deferredNext (ctx : DeviceCtx) (deferred : Nat) (op : Op) : Nat :=
  if op.rings then 0 else deferred + (op.write ctx).toList.length

def deferredAfter (ctx : DeviceCtx) : Nat → List Op → Nat
  | deferred, [] => deferred
  | deferred, op :: rest => deferredAfter ctx (deferredNext ctx deferred op) rest

-- No more than nwqes puts ever wait for one doorbell.
def Postable (ctx : DeviceCtx) : Nat → List Op → Prop
  | _, [] => True
  | deferred, op :: rest =>
      deferred + (op.write ctx).toList.length ≤ ctx.nwqes ∧ Postable ctx (deferredNext ctx deferred op) rest

structure Serving (ctx : DeviceCtx) (ops : List Op) (session : Session) (fifo : Fifo) : Prop where
  refines : Refines ctx session.queue fifo
  program : fifo.posted ++ opWrites ctx session.todo = opWrites ctx ops
  cqes : session.queue.cqes = (fifo.posted.take fifo.completed).countP Put.signaled
  tracks : Tracks session.queue.cqe ctx.ncqes session.queue.cqes
  room : fifo.posted.length ≤ fifo.completed + ctx.nwqes
  deferred : deferredAfter ctx (fifo.posted.length - fifo.announced) session.todo = deferredAfter ctx 0 ops

theorem start_serving (ctx : DeviceCtx) (ops : List Op) : Serving ctx ops (startSession ops) emptyFifo where
  refines := fresh_refines ctx
  program := rfl
  cqes := rfl
  tracks := initial_tracks _ _ fun _ _ => by simp [startSession, freshQueue]
  room := Nat.zero_le _
  deferred := rfl

theorem apply_op_cq (ctx : DeviceCtx) (queue : Queue) (op : Op) :
    (applyOp ctx queue op).cqe = queue.cqe ∧ (applyOp ctx queue op).cqes = queue.cqes := by
  cases op <;> exact ⟨rfl, rfl⟩

theorem nic_fetch_cq (ctx : DeviceCtx) (before after : Queue) (taken : nicFetch ctx before = some after) :
    after.cqe = before.cqe ∧ after.cqes = before.cqes := by
  simp only [nicFetch] at taken
  split at taken
  · cases taken
  · split at taken <;> cases taken
    exact ⟨rfl, rfl⟩

theorem fifo_deferred (ctx : DeviceCtx) (fifo : Fifo) (op : Op) (announced : fifo.announced ≤ fifo.posted.length) :
    (fifo.applyOp ctx op).posted.length - (fifo.applyOp ctx op).announced =
      deferredNext ctx (fifo.posted.length - fifo.announced) op := by
  by_cases rings : op.rings = true
  · simp [Fifo.applyOp, deferredNext, rings]
  · simp only [Fifo.applyOp, deferredNext, if_neg rings, List.length_append]
    omega

theorem host_serving (ctx : DeviceCtx) (sized : Sized ctx) (ops : List Op) (session : Session) (fifo : Fifo)
    (serving : Serving ctx ops session fifo) (op : Op) (rest : List Op) (todo : session.todo = op :: rest)
    (roomy : (op.write ctx).isSome → session.queue.built < session.queue.completed + ctx.nwqes) :
    Serving ctx ops ⟨applyOp ctx session.queue op, rest⟩ (fifo.applyOp ctx op) := by
  have refines := serving.refines
  have retired := refines.retired
  have announced := refines.announced
  have order := refines.order
  have fits : Fits ctx session.queue (.op op) := by
    intro write
    have room := roomy write
    rw [refines.completed] at room
    rw [executed_length ctx session.queue fifo refines]
    omega
  obtain ⟨cqe, cqes⟩ := apply_op_cq ctx session.queue op
  refine ⟨op_refines ctx sized session.queue fifo refines op fits, ?_, ?_, ?_, ?_, ?_⟩
  · rw [← serving.program, todo]
    cases write : op.write ctx <;> simp [Fifo.applyOp, opWrites, write]
  · simp only [cqes, serving.cqes, Fifo.applyOp]
    rw [List.take_append_of_le_length (by omega)]
  · simpa only [cqe, cqes] using serving.tracks
  · cases write : op.write ctx with
    | none => simpa [Fifo.applyOp, write] using serving.room
    | some put =>
        have room := roomy (by simp [write])
        rw [refines.built, refines.completed] at room
        simpa [Fifo.applyOp, write] using room
  · rw [fifo_deferred ctx fifo op announced, ← serving.deferred, todo, deferredAfter]

theorem fetch_serving (ctx : DeviceCtx) (sized : Sized ctx) (ops : List Op) (session : Session) (fifo : Fifo)
    (serving : Serving ctx ops session fifo) (queue : Queue) (taken : nicFetch ctx session.queue = some queue) :
    Serving ctx ops { session with queue := queue } { fifo with executed := fifo.executed + 1 } := by
  obtain ⟨next, followed, refines⟩ := step_refines ctx sized session.queue queue fifo .fetch serving.refines trivial taken
  simp only [Fifo.step] at followed
  split at followed <;> cases followed
  obtain ⟨cqe, cqes⟩ := nic_fetch_cq ctx session.queue queue taken
  exact ⟨refines, serving.program, cqes.trans serving.cqes, by simpa only [cqe, cqes] using serving.tracks,
    serving.room, serving.deferred⟩

theorem complete_serving (ctx : DeviceCtx) (ops : List Op) (session : Session) (fifo : Fifo)
    (serving : Serving ctx ops session fifo) (queue : Queue) (taken : nicComplete ctx session.queue = some queue) :
    Serving ctx ops { session with queue := queue } { fifo with completed := fifo.completed + 1 } := by
  obtain ⟨more, refines⟩ := complete_refines ctx session.queue queue fifo serving.refines taken
  have order := serving.refines.order
  have announced := serving.refines.announced
  have inside : fifo.completed < fifo.posted.length := by omega
  have found : session.queue.executed[session.queue.completed]? =
      some ⟨fifo.completed % 2 ^ 16, fifo.posted[fifo.completed]⟩ := by
    rw [serving.refines.executed, serving.refines.completed, stamped, List.getElem?_mapIdx]
    simp [more, List.getElem?_eq_getElem inside]
  have counted : (fifo.posted.take (fifo.completed + 1)).countP Put.signaled =
      (fifo.posted.take fifo.completed).countP Put.signaled + if fifo.posted[fifo.completed].signaled then 1 else 0 := by
    rw [List.take_add_one, List.getElem?_eq_getElem inside, Option.toList_some, List.countP_append, List.countP_singleton]
  have room := serving.room
  simp only [nicComplete, found] at taken
  by_cases signaled : fifo.posted[fifo.completed].signaled = true
  · rw [if_pos signaled, Option.some.injEq] at taken
    subst taken
    refine ⟨refines, serving.program, ?_, ?_, ?_, serving.deferred⟩
    · simp only [counted, serving.cqes, if_pos signaled]
    · exact push_tracks _ _ _ _ serving.tracks (Nat.mod_mod _ 2)
    · simp only
      omega
  · rw [if_neg signaled, Option.some.injEq] at taken
    subst taken
    refine ⟨refines, serving.program, ?_, serving.tracks, ?_, serving.deferred⟩
    · simp only [counted, serving.cqes, if_neg signaled, Nat.add_zero]
    · simp only
      omega

theorem session_step_serving (ctx : DeviceCtx) (sized : Sized ctx) (ops : List Op) (before after : Session)
    (turn : Turn) (fifo : Fifo) (serving : Serving ctx ops before fifo) (roomy : Roomy ctx before turn)
    (taken : sessionStep ctx before turn = some after) : ∃ next, Serving ctx ops after next := by
  cases turn with
  | host =>
      cases todo : before.todo with
      | nil => simp [sessionStep, todo] at taken
      | cons op rest =>
          simp only [sessionStep, todo, Option.some.injEq] at taken
          subst taken
          exact ⟨_, host_serving ctx sized ops before fifo serving op rest todo (roomy op (by simp [todo]))⟩
  | fetch =>
      simp only [sessionStep, Option.map_eq_some_iff] at taken
      obtain ⟨queue, fetched, rfl⟩ := taken
      exact ⟨_, fetch_serving ctx sized ops before fifo serving queue fetched⟩
  | complete =>
      simp only [sessionStep, Option.map_eq_some_iff] at taken
      obtain ⟨queue, completed, rfl⟩ := taken
      exact ⟨_, complete_serving ctx ops before fifo serving queue completed⟩

theorem reach_serving (ctx : DeviceCtx) (sized : Sized ctx) (ops : List Op) (session : Session)
    (reached : Reach (sessionStep ctx) (Roomy ctx) (startSession ops) session) :
    ∃ fifo, Serving ctx ops session fifo :=
  reach_invariant _ _ (fun session => ∃ fifo, Serving ctx ops session fifo) _ session
    ⟨emptyFifo, start_serving ctx ops⟩
    (fun before after turn ⟨fifo, serving⟩ roomy taken =>
      session_step_serving ctx sized ops before after turn fifo serving roomy taken) reached

theorem complete_one (ctx : DeviceCtx) (sized : Sized ctx) (ops : List Op) (session : Session) (fifo : Fifo)
    (serving : Serving ctx ops session fifo) (more : fifo.completed < fifo.announced) :
    ∃ after next, Reach (sessionStep ctx) (Roomy ctx) session after ∧ Serving ctx ops after next ∧
      after.todo = session.todo ∧ next.posted = fifo.posted ∧ next.announced = fifo.announced ∧
      next.completed = fifo.completed + 1 := by
  have ready : ∀ (session : Session) (fifo : Fifo), Serving ctx ops session fifo → fifo.completed < fifo.executed →
      ∃ queue, nicComplete ctx session.queue = some queue := by
    intro session fifo serving more
    have inside : session.queue.completed < session.queue.executed.length := by
      rwa [executed_length ctx session.queue fifo serving.refines, serving.refines.completed]
    simp only [nicComplete, List.getElem?_eq_getElem inside]
    split <;> exact ⟨_, rfl⟩
  by_cases executed : fifo.completed < fifo.executed
  · obtain ⟨queue, completed⟩ := ready session fifo serving executed
    refine ⟨_, _, .step _ _ .complete .start trivial ?_, complete_serving ctx ops session fifo serving queue completed,
      rfl, rfl, rfl, rfl⟩
    simp [sessionStep, completed]
  · have retired := serving.refines.retired
    obtain ⟨queue, fetched, _⟩ := fetch_refines ctx sized session.queue fifo serving.refines (by omega)
    have servingNext := fetch_serving ctx sized ops session fifo serving queue fetched
    obtain ⟨last, completed⟩ := ready _ _ servingNext (by simp only; omega)
    refine ⟨_, _, .step _ _ .complete (.step _ { session with queue := queue } .fetch .start trivial ?_) trivial ?_,
      complete_serving ctx ops _ _ servingNext last completed, rfl, rfl, rfl, rfl⟩
    · simp [sessionStep, fetched]
    · simp [sessionStep, completed]

theorem complete_some (ctx : DeviceCtx) (sized : Sized ctx) (ops : List Op) (more : Nat) (session : Session)
    (fifo : Fifo) (serving : Serving ctx ops session fifo) (bound : fifo.completed + more ≤ fifo.announced) :
    ∃ after next, Reach (sessionStep ctx) (Roomy ctx) session after ∧ Serving ctx ops after next ∧
      after.todo = session.todo ∧ next.posted = fifo.posted ∧ next.announced = fifo.announced ∧
      next.completed = fifo.completed + more := by
  induction more with
  | zero => exact ⟨session, fifo, .start, serving, rfl, rfl, rfl, rfl⟩
  | succ more ih =>
      obtain ⟨middle, next, reached, served, todo, posted, announced, completed⟩ := ih (by omega)
      obtain ⟨after, last, later, still, todoLast, postedLast, announcedLast, completedLast⟩ :=
        complete_one ctx sized ops middle next served (by omega)
      exact ⟨after, last, reach_trans _ _ _ _ _ reached later, still, todoLast.trans todo, postedLast.trans posted,
        announcedLast.trans announced, by omega⟩

theorem schedule (ctx : DeviceCtx) (sized : Sized ctx) (ops : List Op) (target : Nat)
    (near : (opWrites ctx ops).length ≤ target + ctx.nwqes) (todo : List Op) (session : Session) (fifo : Fifo)
    (serving : Serving ctx ops session fifo) (remaining : session.todo = todo) (early : fifo.completed ≤ target)
    (postable : Postable ctx (fifo.posted.length - fifo.announced) todo) :
    ∃ after next, Reach (sessionStep ctx) (Roomy ctx) session after ∧ Serving ctx ops after next ∧ after.todo = [] ∧
      next.completed = min next.announced target := by
  induction todo generalizing session fifo with
  | nil =>
      have retired := serving.refines.retired
      have order := serving.refines.order
      obtain ⟨after, next, reached, served, todo, posted, announced, completed⟩ :=
        complete_some ctx sized ops (min fifo.announced target - fifo.completed) session fifo serving (by omega)
      exact ⟨after, next, reached, served, todo.trans remaining, by omega⟩
  | cons op rest ih =>
      have retired := serving.refines.retired
      have order := serving.refines.order
      obtain ⟨caught, image, reached, served, todo, posted, announced, completed⟩ :=
        complete_some ctx sized ops (min fifo.announced target - fifo.completed) session fifo serving (by omega)
      have todo := todo.trans remaining
      obtain ⟨fitting, postable⟩ := postable
      have ahead := served.refines.announced
      have roomy : (op.write ctx).isSome → caught.queue.built < caught.queue.completed + ctx.nwqes := by
        intro write
        obtain ⟨put, write⟩ := Option.isSome_iff_exists.mp write
        rw [served.refines.built, served.refines.completed]
        have total : image.posted.length < (opWrites ctx ops).length := by
          rw [← served.program, todo]
          simp [opWrites, write]
        rw [← posted, write, Option.toList_some, List.length_singleton] at fitting
        omega
      have next := host_serving ctx sized ops caught image served op rest todo roomy
      have stepped : sessionStep ctx caught .host = some ⟨applyOp ctx caught.queue op, rest⟩ := by
        simp [sessionStep, todo]
      have deferred := fifo_deferred ctx image op ahead
      rw [posted, announced] at deferred
      obtain ⟨after, last, later, final⟩ := ih _ _ next rfl (by simp only [Fifo.applyOp]; omega)
        (by rwa [deferred])
      refine ⟨after, last, reach_trans _ _ _ _ _ reached (reach_head _ _ _ _ _ .host ?_ stepped later), final⟩
      intro first head
      rw [todo, List.head?_cons, Option.mem_some_iff] at head
      exact head ▸ roomy

theorem schedule_program (ctx : DeviceCtx) (sized : Sized ctx) (ops : List Op) (postable : Postable ctx 0 ops)
    (target : Nat) (near : (opWrites ctx ops).length ≤ target + ctx.nwqes) :
    ∃ session fifo, Reach (sessionStep ctx) (Roomy ctx) (startSession ops) session ∧ Serving ctx ops session fifo ∧
      session.todo = [] ∧ fifo.completed = min fifo.announced target :=
  schedule ctx sized ops target near ops (startSession ops) emptyFifo (start_serving ctx ops) rfl (Nat.zero_le _) postable

end OpenGda.Mlx5
