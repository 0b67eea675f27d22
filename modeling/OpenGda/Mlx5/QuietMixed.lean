import OpenGda.Mlx5.QuietSignaled

set_option autoImplicit false

namespace OpenGda.Mlx5

open Machine PhaseRing

def unsignaledCount (posted : List Put) : Nat := posted.countP fun put => ! put.signaled

def signaledAfter (posted : List Put) (count : Nat) : Nat := (posted.drop count).countP Put.signaled

theorem missing_cqes (posted : List Put) (completed : Nat) :
    posted.length - (posted.take completed).countP Put.signaled =
      unsignaledCount posted + signaledAfter posted completed := by
  have split : (posted.take completed ++ posted.drop completed).countP Put.signaled =
      (posted.take completed).countP Put.signaled + (posted.drop completed).countP Put.signaled := List.countP_append
  have total := List.length_eq_countP_add_countP Put.signaled (l := posted)
  rw [List.take_append_drop] at split
  simp only [unsignaledCount, signaledAfter, Bool.not_eq_true, Bool.decide_eq_false] at *
  omega

theorem signaled_after_mono (posted : List Put) (fewer more : Nat) (order : fewer ≤ more) :
    signaledAfter posted more ≤ signaledAfter posted fewer :=
  List.Sublist.countP_le (List.drop_sublist_drop_left posted order)

theorem signaled_after_all (posted : List Put) : signaledAfter posted posted.length = 0 := by
  simp [signaledAfter]

theorem signaled_after_step (posted : List Put) (count : Nat) (inside : count < posted.length) :
    signaledAfter posted count = signaledAfter posted (count + 1) + if posted[count].signaled then 1 else 0 := by
  rw [signaledAfter, signaledAfter, List.drop_eq_getElem_cons inside, List.countP_cons]

theorem signaled_after_takes (posted : List Put) (start wanted : Nat) (positive : 0 < wanted)
    (reachable : wanted ≤ signaledAfter posted start) :
    ∃ count, start ≤ count ∧ count < posted.length ∧ signaledAfter posted count = wanted := by
  by_cases inside : start < posted.length
  · by_cases here : signaledAfter posted start = wanted
    · exact ⟨start, Nat.le_refl _, inside, here⟩
    · have step := signaled_after_step posted start inside
      have later : wanted ≤ signaledAfter posted (start + 1) := by
        split at step <;> omega
      obtain ⟨count, order, bound, found⟩ := signaled_after_takes posted (start + 1) wanted positive later
      exact ⟨count, by omega, bound, found⟩
  · rw [signaledAfter, List.drop_eq_nil_of_le (by omega), List.countP_nil] at reachable
    omega
termination_by posted.length - start

theorem laps_missing_mono (ctx : DeviceCtx) (fewer more : Nat) (order : fewer ≤ more) :
    lapsMissing ctx fewer ≤ lapsMissing ctx more := Nat.div_le_div_right (by omega)

theorem laps_missing_le_iff (ctx : DeviceCtx) (sized : CqSized ctx) (missing laps : Nat) :
    lapsMissing ctx missing ≤ laps ↔ missing ≤ laps * ctx.ncqes := by
  have positive := sized.positive
  rw [lapsMissing, ← Nat.lt_succ_iff, Nat.div_lt_iff_lt_mul positive, Nat.succ_mul]
  omega

theorem laps_missing_next (ctx : DeviceCtx) (sized : CqSized ctx) (laps : Nat) :
    lapsMissing ctx (laps * ctx.ncqes + 1) = laps + 1 := by
  have positive := sized.positive
  refine Nat.le_antisymm ?_ (Nat.lt_of_not_le fun small => ?_)
  · rw [laps_missing_le_iff ctx sized, Nat.succ_mul]
    omega
  · rw [laps_missing_le_iff ctx sized] at small
    omega

theorem laps_missing_whole (ctx : DeviceCtx) (sized : CqSized ctx) (laps : Nat) :
    lapsMissing ctx (laps * ctx.ncqes) = laps := by
  have positive := sized.positive
  have upper := (laps_missing_le_iff ctx sized (laps * ctx.ncqes) laps).mpr (Nat.le_refl _)
  have lower := laps_missing_le_iff ctx sized (laps * ctx.ncqes) (laps - 1)
  have less := Nat.mul_lt_mul_of_pos_right (show laps - 1 < laps - 1 + 1 by omega) positive
  by_cases zero : laps = 0
  · omega
  · rw [show laps - 1 + 1 = laps by omega] at less
    omega

theorem postable_deferred (ctx : DeviceCtx) (deferred : Nat) (ops : List Op) (postable : Postable ctx deferred ops)
    (few : deferred ≤ ctx.nwqes) :
    deferredAfter ctx deferred ops ≤ ctx.nwqes ∧
      deferredAfter ctx deferred ops ≤ deferred + (opWrites ctx ops).length := by
  induction ops generalizing deferred with
  | nil => exact ⟨few, by simp [deferredAfter]⟩
  | cons op rest ih =>
      obtain ⟨fitting, postable⟩ := postable
      have next : deferredNext ctx deferred op ≤ deferred + (op.write ctx).toList.length := by
        rw [deferredNext]
        split <;> omega
      obtain ⟨small, short⟩ := ih (deferredNext ctx deferred op) postable (by omega)
      refine ⟨small, Nat.le_trans short ?_⟩
      cases write : op.write ctx <;> simp [opWrites, write] at next ⊢ <;> omega

-- Quiet is exact if the test holds of no completion count the NIC can stop at, except the full one.
def TestExact (ctx : DeviceCtx) (posted : List Put) (announced : Nat) : Prop :=
  ∀ completed, posted.length ≤ completed + ctx.nwqes → completed ≤ announced →
    (lapsMissing ctx (unsignaledCount posted + signaledAfter posted completed) % 2 = 0 ↔ completed = posted.length)

theorem quiet_exact_iff_test (ctx : DeviceCtx) (sized : Sized ctx) (cqSized : CqSized ctx) (mapped : ctx.cqe = true)
    (ops : List Op) (postable : Postable ctx 0 ops) (sent : (opWrites ctx ops).length ≠ 0) (few : (opWrites ctx ops).length < 2 ^ 16) :
    (∀ session, Reach (sessionStep ctx) (Roomy ctx) (startSession ops) session → session.todo = [] →
        (quietReturns ctx session.queue ↔ session.queue.completed = session.queue.built)) ↔
      TestExact ctx (opWrites ctx ops) ((opWrites ctx ops).length - deferredAfter ctx 0 ops) := by
  have unfolded : ∀ session fifo, Serving ctx ops session fifo → session.todo = [] →
      ((quietReturns ctx session.queue ↔ session.queue.completed = session.queue.built) ↔
        (lapsMissing ctx (unsignaledCount (opWrites ctx ops) + signaledAfter (opWrites ctx ops) fifo.completed) % 2 = 0 ↔
          fifo.completed = (opWrites ctx ops).length)) := by
    intro session fifo serving finished
    have posted := finished_posted ctx ops session fifo serving finished
    rw [quiet_returns_iff ctx cqSized mapped ops session fifo serving (by rw [posted]; omega)
      (by rw [posted, Nat.mod_eq_of_lt few]) (by rw [posted, Nat.mod_eq_of_lt few]),
      completed_iff ctx ops session fifo serving, missing_cqes, posted]
  constructor
  · intro exact completed near announced
    obtain ⟨session, fifo, reached, serving, finished, level⟩ := schedule_program ctx sized ops postable completed near
    have posted := finished_posted ctx ops session fifo serving finished
    have tail := finished_announced ctx ops session fifo serving finished
    have ahead := serving.refines.announced
    rw [posted] at tail ahead
    have here : fifo.completed = completed := by omega
    rw [← here]
    exact (unfolded session fifo serving finished).mp (exact session reached finished)
  · intro exact session reached finished
    obtain ⟨fifo, serving⟩ := reach_serving ctx sized ops session reached
    have posted := finished_posted ctx ops session fifo serving finished
    have tail := finished_announced ctx ops session fifo serving finished
    have ahead := serving.refines.announced
    have order := serving.refines.order
    have retired := serving.refines.retired
    have room := serving.room
    rw [posted] at tail ahead room
    exact (unfolded session fifo serving finished).mpr (exact fifo.completed room (by omega))

theorem test_exact_iff (ctx : DeviceCtx) (sized : CqSized ctx) (posted : List Put) (announced newest : Nat)
    (positive : 0 < ctx.nwqes) (ahead : announced ≤ posted.length) (outstanding : newest < posted.length)
    (last : ∀ completed, completed < posted.length → (completed ≤ announced ↔ completed ≤ newest))
    (near : posted.length ≤ newest + ctx.nwqes) :
    TestExact ctx posted announced ↔
      lapsMissing ctx (unsignaledCount posted + signaledAfter posted newest) % 2 = 1 ∧
      lapsMissing ctx (unsignaledCount posted + signaledAfter posted (posted.length - ctx.nwqes)) =
        lapsMissing ctx (unsignaledCount posted + signaledAfter posted newest) ∧
      (announced = posted.length → lapsMissing ctx (unsignaledCount posted) % 2 = 0) := by
  have oldest := signaled_after_mono posted (posted.length - ctx.nwqes) newest (by omega)
  constructor
  · intro exact
    have odd : lapsMissing ctx (unsignaledCount posted + signaledAfter posted newest) % 2 = 1 := by
      have test := exact newest near ((last newest outstanding).mpr (Nat.le_refl _))
      omega
    refine ⟨odd, ?_, fun rung => ?_⟩
    · by_contra different
      have grows := laps_missing_mono ctx _ _ (Nat.add_le_add_left oldest (unsignaledCount posted))
      -- Somewhere in between the count of missing CQEs is one past a whole number of laps.
      have past : ¬ unsignaledCount posted + signaledAfter posted (posted.length - ctx.nwqes) ≤
          lapsMissing ctx (unsignaledCount posted + signaledAfter posted newest) * ctx.ncqes := by
        rw [← laps_missing_le_iff ctx sized]
        omega
      have within := (laps_missing_le_iff ctx sized _ _).mp
        (Nat.le_refl (lapsMissing ctx (unsignaledCount posted + signaledAfter posted newest)))
      have next := laps_missing_next ctx sized
        (lapsMissing ctx (unsignaledCount posted + signaledAfter posted newest))
      generalize lapsMissing ctx (unsignaledCount posted + signaledAfter posted newest) = laps at *
      obtain ⟨completed, late, bound, found⟩ := signaled_after_takes posted (posted.length - ctx.nwqes)
        (laps * ctx.ncqes + 1 - unsignaledCount posted) (by omega) (by omega)
      have early : completed ≤ newest := by
        by_contra beyond
        have fewer := signaled_after_mono posted newest completed (by omega)
        omega
      have test := exact completed (by omega) ((last completed bound).mpr early)
      rw [found, show unsignaledCount posted + (laps * ctx.ncqes + 1 - unsignaledCount posted) = laps * ctx.ncqes + 1
        by omega, next] at test
      omega
    · have test := exact posted.length (by omega) (by omega)
      rw [signaled_after_all, Nat.add_zero] at test
      exact test.mpr rfl
  · rintro ⟨odd, level, even⟩ completed window reachable
    by_cases all : completed = posted.length
    · subst all
      rw [signaled_after_all, Nat.add_zero]
      simpa using even (by omega)
    · have early := (last completed (by omega)).mp reachable
      have low := laps_missing_mono ctx _ _ (Nat.add_le_add_left (signaled_after_mono posted completed newest early)
        (unsignaledCount posted))
      have high := laps_missing_mono ctx _ _ (Nat.add_le_add_left
        (signaled_after_mono posted (posted.length - ctx.nwqes) completed (by omega)) (unsignaledCount posted))
      omega

def lastSignaled (posted : List Put) : Prop := ∃ put, posted.getLast? = some put ∧ put.signaled = true

-- With every put announced: the last put is signaled, the unsignaled ones come in whole pairs of
-- laps, and the signaled ones among the last nwqes fit one lap.
def LapsAgree (ctx : DeviceCtx) (posted : List Put) : Prop :=
  lastSignaled posted ∧ unsignaledCount posted % (2 * ctx.ncqes) = 0 ∧
    signaledAfter posted (posted.length - ctx.nwqes) ≤ ctx.ncqes

-- With `deferred` puts not announced: the CQEs missing at any stopping point stay within one odd lap.
def LapsDisagree (ctx : DeviceCtx) (posted : List Put) (deferred : Nat) : Prop :=
  lapsMissing ctx (unsignaledCount posted + signaledAfter posted (posted.length - deferred)) % 2 = 1 ∧
    lapsMissing ctx (unsignaledCount posted + signaledAfter posted (posted.length - ctx.nwqes)) =
      lapsMissing ctx (unsignaledCount posted + signaledAfter posted (posted.length - deferred))

theorem signaled_after_last (posted : List Put) (sent : posted.length ≠ 0) :
    (lastSignaled posted ∧ signaledAfter posted (posted.length - 1) = 1) ∨
      (¬ lastSignaled posted ∧ signaledAfter posted (posted.length - 1) = 0) := by
  have inside : posted.length - 1 < posted.length := by omega
  have step := signaled_after_step posted (posted.length - 1) inside
  rw [show posted.length - 1 + 1 = posted.length by omega, signaled_after_all, Nat.zero_add] at step
  have last : posted.getLast? = some posted[posted.length - 1] := by
    rw [List.getLast?_eq_getElem?, List.getElem?_eq_getElem inside]
  by_cases signaled : posted[posted.length - 1].signaled = true
  · exact Or.inl ⟨⟨_, last, signaled⟩, by rw [step, if_pos signaled]⟩
  · refine Or.inr ⟨?_, by rw [step, if_neg signaled]⟩
    rintro ⟨put, found, flag⟩
    rw [last, Option.some.injEq] at found
    exact signaled (found ▸ flag)

theorem laps_agree_iff (ctx : DeviceCtx) (sized : CqSized ctx) (posted : List Put) (positive : 0 < ctx.nwqes)
    (sent : posted.length ≠ 0) :
    (lapsMissing ctx (unsignaledCount posted + signaledAfter posted (posted.length - 1)) % 2 = 1 ∧
      lapsMissing ctx (unsignaledCount posted + signaledAfter posted (posted.length - ctx.nwqes)) =
        lapsMissing ctx (unsignaledCount posted + signaledAfter posted (posted.length - 1)) ∧
      lapsMissing ctx (unsignaledCount posted) % 2 = 0) ↔ LapsAgree ctx posted := by
  have window := signaled_after_mono posted (posted.length - ctx.nwqes) (posted.length - 1) (by omega)
  rw [LapsAgree]
  generalize signaledAfter posted (posted.length - ctx.nwqes) = recent at *
  rcases signaled_after_last posted sent with ⟨last, one⟩ | ⟨last, zero⟩
  · rw [one] at window ⊢
    generalize unsignaledCount posted = unsignaled at *
    constructor
    · rintro ⟨odd, level, even⟩
      have more := laps_missing_mono ctx unsignaled (unsignaled + 1) (by omega)
      have within := (laps_missing_le_iff ctx sized unsignaled _).mp (Nat.le_refl _)
      have past := laps_missing_le_iff ctx sized (unsignaled + 1) (lapsMissing ctx unsignaled)
      have whole : unsignaled = lapsMissing ctx unsignaled * ctx.ncqes := by omega
      generalize lapsMissing ctx unsignaled = laps at *
      subst whole
      rw [laps_missing_next ctx sized laps] at level
      have fits := (laps_missing_le_iff ctx sized _ _).mp (Nat.le_of_eq level)
      rw [Nat.succ_mul] at fits
      obtain ⟨half, pairs⟩ := Nat.dvd_of_mod_eq_zero even
      refine ⟨last, ?_, by omega⟩
      rw [pairs, Nat.mul_right_comm, Nat.mul_mod_right]
    · rintro ⟨_, pairs, fits⟩
      obtain ⟨half, whole⟩ := Nat.dvd_of_mod_eq_zero pairs
      rw [Nat.mul_right_comm] at whole
      subst whole
      have atLeast := laps_missing_mono ctx (2 * half * ctx.ncqes + 1) (2 * half * ctx.ncqes + recent) (by omega)
      have atMost := (laps_missing_le_iff ctx sized (2 * half * ctx.ncqes + recent) (2 * half + 1)).mpr
        (by rw [Nat.add_mul (2 * half) 1, Nat.one_mul]; omega)
      rw [laps_missing_next ctx sized] at atLeast
      rw [laps_missing_next ctx sized, laps_missing_whole ctx sized]
      omega
  · rw [zero, Nat.add_zero]
    constructor
    · rintro ⟨odd, _, even⟩
      omega
    · rintro ⟨signaled, _⟩
      exact absurd signaled last

theorem quiet_exact_iff (qpn : BitVec 32) (logWqSize logNcqes : Nat) (remote : RemoteBufferInfo) (cqe : Bool)
    (smallWq : logWqSize ≤ 15) (smallCq : logNcqes ≤ 31) (ops : List Op)
    (postable : Postable (prepare qpn logWqSize (2 ^ logNcqes) remote cqe) 0 ops)
    (few : (opWrites (prepare qpn logWqSize (2 ^ logNcqes) remote cqe) ops).length < 2 ^ 16) :
    let ctx := prepare qpn logWqSize (2 ^ logNcqes) remote cqe
    (∀ session, Reach (sessionStep ctx) (Roomy ctx) (startSession ops) session → session.todo = [] →
        (quietReturns ctx session.queue ↔ session.queue.completed = session.queue.built)) ↔
      opWrites ctx ops = [] ∨
        (cqe = true ∧ deferredAfter ctx 0 ops = 0 ∧ LapsAgree ctx (opWrites ctx ops)) ∨
        (cqe = true ∧ deferredAfter ctx 0 ops ≠ 0 ∧
          LapsDisagree ctx (opWrites ctx ops) (deferredAfter ctx 0 ops)) := by
  intro ctx
  have pointer : ctx.cqe = cqe := rfl
  have sized : Sized ctx := prepare_sized qpn logWqSize (2 ^ logNcqes) remote cqe smallWq
  have cqSized : CqSized ctx := prepare_cq_sized qpn logWqSize logNcqes remote cqe smallCq
  have positive := sized.positive
  obtain ⟨small, short⟩ := postable_deferred ctx 0 ops postable (Nat.zero_le _)
  by_cases sent : (opWrites ctx ops).length = 0
  · have none : opWrites ctx ops = [] := List.length_eq_zero_iff.mp sent
    refine iff_of_true (fun session reached finished => ?_) (Or.inl none)
    obtain ⟨fifo, serving⟩ := reach_serving ctx sized ops session reached
    have posted := finished_posted ctx ops session fifo serving finished
    have announced := serving.refines.announced
    have order := serving.refines.order
    have retired := serving.refines.retired
    rw [posted, sent] at announced
    refine iff_of_true (Or.inl (by rw [serving.refines.prod, posted, sent, Nat.zero_mod])) ?_
    rw [completed_iff ctx ops session fifo serving, posted, sent]
    omega
  · have nonempty : opWrites ctx ops ≠ [] := fun none => sent (by rw [none, List.length_nil])
    by_cases mapped : cqe = true
    swap
    · refine iff_of_false (fun exact => ?_) ?_
      · obtain ⟨session, reached, finished, returns, undone⟩ := quiet_returns_early ctx sized ops postable sent
          (Or.inl (pointer.trans (Bool.eq_false_of_not_eq_true mapped)))
        exact undone ((exact session reached finished).mp returns)
      · rintro (none | ⟨there, _⟩ | ⟨there, _⟩)
        · exact nonempty none
        · exact mapped there
        · exact mapped there
    rw [quiet_exact_iff_test ctx sized cqSized (pointer.trans mapped) ops postable sent few]
    simp only [mapped, true_and]
    by_cases rung : deferredAfter ctx 0 ops = 0
    · have all := test_exact_iff ctx cqSized (opWrites ctx ops) (opWrites ctx ops).length
        ((opWrites ctx ops).length - 1) positive (Nat.le_refl _) (by omega) (fun _ _ => by omega) (by omega)
      have agree := laps_agree_iff ctx cqSized (opWrites ctx ops) positive sent
      simp only [nonempty, rung, Nat.sub_zero, all, true_imp_iff, agree, true_and, false_or, ne_eq, not_true_eq_false,
        false_and, or_false]
    · have some := test_exact_iff ctx cqSized (opWrites ctx ops) ((opWrites ctx ops).length - deferredAfter ctx 0 ops)
        ((opWrites ctx ops).length - deferredAfter ctx 0 ops) positive (by omega) (by omega) (fun _ _ => Iff.rfl)
        (by omega)
      have behind : (opWrites ctx ops).length - deferredAfter ctx 0 ops ≠ (opWrites ctx ops).length := by omega
      simp only [nonempty, rung, some, behind, LapsDisagree, false_imp_iff, and_true, false_and, false_or, ne_eq,
        not_false_eq_true, true_and]

theorem signaled_put_quiet_exact : ∃ session,
    Reach (sessionStep (prepare 5 8 (2 ^ 9) ⟨0, 0⟩ true)) (Roomy (prepare 5 8 (2 ^ 9) ⟨0, 0⟩ true))
      (startSession [.put (onePut true)]) session ∧ session.todo = [] ∧
    session.queue.completed = session.queue.built ∧ quietReturns (prepare 5 8 (2 ^ 9) ⟨0, 0⟩ true) session.queue := by
  obtain ⟨session, reached, done, all⟩ := reach_of_decided (sessionStep (prepare 5 8 (2 ^ 9) ⟨0, 0⟩ true))
    (Roomy (prepare 5 8 (2 ^ 9) ⟨0, 0⟩ true)) [.host, .fetch, .complete] (startSession [.put (onePut true)])
    (fun session => session.todo = [] ∧ session.queue.completed = session.queue.built) (by decide +kernel)
  refine ⟨session, reached, done, all, ?_⟩
  refine ((quiet_exact_iff 5 8 9 ⟨0, 0⟩ true (by decide) (by decide) [.put (onePut true)] ⟨by decide, trivial⟩
    (by decide)).mpr (Or.inr (Or.inl ⟨rfl, by decide, ⟨onePut true, by decide, rfl⟩, by decide, by decide⟩))
      session reached done).mpr all

theorem unsignaled_put_hangs : ∃ session,
    Reach (sessionStep (prepare 5 8 (2 ^ 9) ⟨0, 0⟩ true)) (Roomy (prepare 5 8 (2 ^ 9) ⟨0, 0⟩ true))
      (startSession [.put (onePut false)]) session ∧ session.todo = [] ∧
    session.queue.completed = session.queue.built ∧ ¬ quietReturns (prepare 5 8 (2 ^ 9) ⟨0, 0⟩ true) session.queue :=
  reach_of_decided (sessionStep (prepare 5 8 (2 ^ 9) ⟨0, 0⟩ true)) (Roomy (prepare 5 8 (2 ^ 9) ⟨0, 0⟩ true))
    [.host, .fetch, .complete] (startSession [.put (onePut false)])
    (fun session => session.todo = [] ∧ session.queue.completed = session.queue.built ∧
      ¬ quietReturns (prepare 5 8 (2 ^ 9) ⟨0, 0⟩ true) session.queue) (by decide +kernel)

end OpenGda.Mlx5
