import OpenGda.Mlx5.Quiet

set_option autoImplicit false

namespace OpenGda.Mlx5

open Machine PhaseRing

structure CqSized (ctx : DeviceCtx) : Prop where
  positive : 0 < ctx.ncqes
  slot : ∀ index, index &&& ctx.ncqesMask = index % ctx.ncqes

theorem prepare_cq_sized (qpn : BitVec 32) (logWqSize logNcqes : Nat) (remote : RemoteBufferInfo) (cqe : Bool)
    (small : logNcqes ≤ 31) : CqSized (prepare qpn logWqSize (2 ^ logNcqes) remote cqe) := by
  have bound : 2 ^ logNcqes ≤ 2 ^ 31 := Nat.pow_le_pow_right (by decide) small
  have positive : 0 < 2 ^ logNcqes := Nat.two_pow_pos logNcqes
  have mask : (prepare qpn logWqSize (2 ^ logNcqes) remote cqe).ncqesMask = 2 ^ logNcqes - 1 := by
    simp only [prepare]
    omega
  exact ⟨positive, fun index => by rw [mask, Nat.and_two_pow_sub_one_eq_mod]; rfl⟩

def lapsMissing (ctx : DeviceCtx) (missing : Nat) : Nat := (missing + ctx.ncqes - 1) / ctx.ncqes

theorem poll_ready_iff (ctx : DeviceCtx) (sized : CqSized ctx) (mapped : ctx.cqe = true) (queue : Queue) (expected : Nat) :
    pollReady ctx queue expected ↔
      queue.cqe ((expected - 1) % ctx.ncqes) % 2 = (expected - 1) / ctx.ncqes % 2 := by
  simp only [pollReady, mapped, Bool.true_eq_false, false_or, sized.slot, Nat.and_one_is_mod]
  split <;> omega

theorem quiet_returns_iff (ctx : DeviceCtx) (cqSized : CqSized ctx) (mapped : ctx.cqe = true) (ops : List Op) (session : Session) (fifo : Fifo)
    (serving : Serving ctx ops session fifo) (sent : fifo.posted.length % 2 ^ 16 ≠ 0)
    (slot : (fifo.posted.length % 2 ^ 16 - 1) % ctx.ncqes = (fifo.posted.length - 1) % ctx.ncqes)
    (lap : (fifo.posted.length % 2 ^ 16 - 1) / ctx.ncqes % 2 = (fifo.posted.length - 1) / ctx.ncqes % 2) :
    quietReturns ctx session.queue ↔
      lapsMissing ctx (fifo.posted.length - (fifo.posted.take fifo.completed).countP Put.signaled) % 2 = 0 := by
  have counted := List.countP_le_length (p := Put.signaled) (l := fifo.posted.take fifo.completed)
  rw [List.length_take] at counted
  rw [quietReturns, serving.refines.prod, poll_ready_iff ctx cqSized mapped, slot, lap]
  have found := found_iff session.queue.cqe ctx.ncqes (fifo.posted.length - 1) session.queue.cqes
    (fifo.posted.length - (fifo.posted.take fifo.completed).countP Put.signaled) cqSized.positive serving.tracks
    (by rw [serving.cqes]; omega)
  simpa only [sent, false_or, lapsMissing] using found

theorem finished_posted (ctx : DeviceCtx) (ops : List Op) (session : Session) (fifo : Fifo)
    (serving : Serving ctx ops session fifo) (finished : session.todo = []) : fifo.posted = opWrites ctx ops := by
  rw [← serving.program, finished]
  simp [opWrites]

theorem finished_announced (ctx : DeviceCtx) (ops : List Op) (session : Session) (fifo : Fifo)
    (serving : Serving ctx ops session fifo) (finished : session.todo = []) :
    fifo.posted.length - fifo.announced = deferredAfter ctx 0 ops := by
  rw [← serving.deferred, finished, deferredAfter]

theorem completed_iff (ctx : DeviceCtx) (ops : List Op) (session : Session) (fifo : Fifo)
    (serving : Serving ctx ops session fifo) :
    session.queue.completed = session.queue.built ↔ fifo.completed = fifo.posted.length := by
  rw [serving.refines.completed, serving.refines.built]

theorem last_outstanding (ctx : DeviceCtx) (sized : Sized ctx) (ops : List Op) (postable : Postable ctx 0 ops)
    (sent : (opWrites ctx ops).length ≠ 0) :
    ∃ session, Reach (sessionStep ctx) (Roomy ctx) (startSession ops) session ∧ session.todo = [] ∧
      session.queue.prodIdx = (opWrites ctx ops).length % 2 ^ 16 ∧ session.queue.completed ≠ session.queue.built := by
  have positive := sized.positive
  obtain ⟨session, fifo, reached, serving, finished, completed⟩ :=
    schedule_program ctx sized ops postable ((opWrites ctx ops).length - 1) (by omega)
  have posted := finished_posted ctx ops session fifo serving finished
  refine ⟨session, reached, finished, by rw [serving.refines.prod, posted], fun all => ?_⟩
  rw [completed_iff ctx ops session fifo serving, posted] at all
  omega

theorem quiet_returns_early (ctx : DeviceCtx) (sized : Sized ctx) (ops : List Op) (postable : Postable ctx 0 ops)
    (sent : (opWrites ctx ops).length ≠ 0) (blind : ctx.cqe = false ∨ (opWrites ctx ops).length % 2 ^ 16 = 0) :
    ∃ session, Reach (sessionStep ctx) (Roomy ctx) (startSession ops) session ∧ session.todo = [] ∧
      quietReturns ctx session.queue ∧ session.queue.completed ≠ session.queue.built := by
  obtain ⟨session, reached, finished, prod, undone⟩ := last_outstanding ctx sized ops postable sent
  refine ⟨session, reached, finished, ?_, undone⟩
  rcases blind with absent | wrapped
  · exact Or.inr (Or.inl absent)
  · exact Or.inl (prod.trans wrapped)

-- gda_quiet after signaled puts only, on the queues DevxQp makes: 256 WQEs and 512 CQEs.
theorem quiet_signaled_iff (qpn : BitVec 32) (remote : RemoteBufferInfo) (cqe : Bool) (ops : List Op)
    (signaled : ∀ put ∈ opWrites (prepare qpn 8 512 remote cqe) ops, put.signaled = true)
    (postable : Postable (prepare qpn 8 512 remote cqe) 0 ops) :
    (∀ session, Reach (sessionStep (prepare qpn 8 512 remote cqe)) (Roomy (prepare qpn 8 512 remote cqe)) (startSession ops)
        session → session.todo = [] → quietReturns (prepare qpn 8 512 remote cqe) session.queue →
        session.queue.completed = session.queue.built) ↔
      (opWrites (prepare qpn 8 512 remote cqe) ops).length = 0 ∨
        (cqe = true ∧ (opWrites (prepare qpn 8 512 remote cqe) ops).length % 2 ^ 16 ≠ 0) := by
  have sized := prepare_sized qpn 8 512 remote cqe (by decide)
  have cqSized : CqSized (prepare qpn 8 512 remote cqe) := prepare_cq_sized qpn 8 9 remote cqe (by decide)
  have nwqes : (prepare qpn 8 512 remote cqe).nwqes = 256 := rfl
  have ncqes : (prepare qpn 8 512 remote cqe).ncqes = 512 := rfl
  have pointer : (prepare qpn 8 512 remote cqe).cqe = cqe := rfl
  generalize prepare qpn 8 512 remote cqe = ctx at *
  constructor
  · intro exact
    by_contra blind
    obtain ⟨some, wrapped⟩ := not_or.mp blind
    have early : ctx.cqe = false ∨ (opWrites ctx ops).length % 2 ^ 16 = 0 := by
      rw [pointer, ← Bool.not_eq_true]
      by_cases mapped : cqe = true
      · exact Or.inr (not_not.mp fun left => wrapped ⟨mapped, left⟩)
      · exact Or.inl mapped
    obtain ⟨session, reached, finished, returns, undone⟩ := quiet_returns_early ctx sized ops postable some early
    exact undone (exact session reached finished returns)
  · intro unwrapped session reached finished returns
    obtain ⟨fifo, serving⟩ := reach_serving ctx sized ops session reached
    have posted := finished_posted ctx ops session fifo serving finished
    have retired := serving.refines.retired
    have order := serving.refines.order
    have announced := serving.refines.announced
    have room := serving.room
    rw [completed_iff ctx ops session fifo serving]
    by_cases none : fifo.posted.length = 0
    · omega
    · rw [← posted] at unwrapped signaled
      obtain ⟨mapped, left⟩ := unwrapped.resolve_left none
      have counted : (fifo.posted.take fifo.completed).countP Put.signaled = fifo.completed := by
        rw [List.countP_eq_length.mpr fun put member => signaled put (List.mem_of_mem_take member), List.length_take]
        omega
      rw [quiet_returns_iff ctx cqSized (pointer.trans mapped) ops session fifo serving left (by rw [ncqes]; omega)
        (by rw [ncqes]; omega), counted, lapsMissing, ncqes] at returns
      omega

def onePut (signaled : Bool) : Put := ⟨0x1000, 1, 0x2000, 2, 64, signaled⟩

theorem put_quiet_waits : ∃ session, Reach (sessionStep (prepare 5 8 512 ⟨0, 0⟩ true)) (Roomy (prepare 5 8 512 ⟨0, 0⟩ true))
    (startSession [.put (onePut true)]) session ∧ session.todo = [] ∧
    quietReturns (prepare 5 8 512 ⟨0, 0⟩ true) session.queue ∧ session.queue.completed = session.queue.built := by
  obtain ⟨session, reached, done, returns⟩ := reach_of_decided (sessionStep (prepare 5 8 512 ⟨0, 0⟩ true))
    (Roomy (prepare 5 8 512 ⟨0, 0⟩ true)) [.host, .fetch, .complete] (startSession [.put (onePut true)])
    (fun session => session.todo = [] ∧ quietReturns (prepare 5 8 512 ⟨0, 0⟩ true) session.queue) (by decide +kernel)
  exact ⟨session, reached, done, returns,
    (quiet_signaled_iff 5 ⟨0, 0⟩ true [.put (onePut true)] (by decide) ⟨by decide, trivial⟩).mpr
      (Or.inr ⟨rfl, by decide⟩)
      session reached done returns⟩

theorem replicate_postable (ctx : DeviceCtx) (positive : 0 < ctx.nwqes) (put : Put) (count : Nat) :
    Postable ctx 0 (List.replicate count (.put put)) := by
  induction count with
  | zero => trivial
  | succ count ih => exact ⟨positive, ih⟩

theorem replicate_writes (ctx : DeviceCtx) (put : Put) (count : Nat) :
    (opWrites ctx (List.replicate count (.put put))).length = count := by
  induction count with
  | zero => rfl
  | succ count ih => simpa [opWrites, Op.write, List.replicate_succ] using ih

theorem quiet_returns_after_wrap : ∃ session,
    Reach (sessionStep (prepare 5 8 512 ⟨0, 0⟩ true)) (Roomy (prepare 5 8 512 ⟨0, 0⟩ true))
      (startSession (List.replicate 65536 (.put (onePut true)))) session ∧ session.todo = [] ∧
    quietReturns (prepare 5 8 512 ⟨0, 0⟩ true) session.queue ∧ session.queue.completed ≠ session.queue.built := by
  refine quiet_returns_early _ (prepare_sized 5 8 512 ⟨0, 0⟩ true (by decide)) _ ?_ ?_ (Or.inr ?_)
  · exact replicate_postable _ (by decide) _ _
  · rw [replicate_writes]
    decide
  · rw [replicate_writes]
    rfl

end OpenGda.Mlx5
