import OpenGda.Mlx5.NvshmemSubmitSafety

set_option autoImplicit false

-- No doorbell is lost: a thread that does not ring leaves it to a later one.
namespace OpenGda.Mlx5.Nvshmem

open Machine Reservation

variable {Thread : Type}

-- The count fits the uint16_t parameter of gda_submit_requests.
def Submittable (_ : Qp Thread) : Action Thread → Prop
  | .reserve _ numWqes => numWqes.toNat < 2 ^ 16
  | _ => True

instance (qp : Qp Thread) (action : Action Thread) : Decidable (Submittable qp action) := by
  cases action with
  | reserve => exact inferInstanceAs (Decidable (_ < _))
  | _ => exact isTrue trivial

def Stage.Whole : Stage → Prop
  | .building _ numWqes _ => numWqes.toNat < 2 ^ 16
  | .waiting _ numWqes reserved => numWqes.toNat = reserved.toNat
  | _ => True

structure PostInv (qp : Qp Thread) : Prop where
  covered : Covered (heldBy qp) qp.readyHead qp.resvHead
  whole : ∀ thread, (qp.threads thread).Whole
  responsible : qp.prodIdx = qp.readyHead ∨ qp.readyHead < qp.resvHead ∨
    ∃ thread, (qp.threads thread).responsible = some qp.readyHead

theorem initial_post : PostInv (initial : Qp Thread) where
  covered := fun index _ below => absurd below (Nat.not_lt_zero index)
  whole := fun _ => trivial
  responsible := .inl rfl

variable [DecidableEq Thread]

theorem responsible_kept (before changed : Qp Thread) (thread : Thread) (stage : Stage)
    (threads : changed.threads = before.threads) (value : Nat)
    (owner : ∃ other, (before.threads other).responsible = some value)
    (same : stage.responsible = (before.threads thread).responsible ∨
      (before.threads thread).responsible ≠ some value) :
    ∃ other, ((changed.moveTo thread stage).threads other).responsible = some value := by
  obtain ⟨other, owns⟩ := owner
  refine ⟨other, ?_⟩
  by_cases own : other = thread
  · subst own
    rcases same with same | differs
    · simpa [Qp.moveTo, same] using owns
    · exact absurd owns differs
  · rw [moved_other changed thread stage other own, threads, owns]

theorem post_frame (before changed : Qp Thread) (thread : Thread) (stage : Stage) (inv : PostInv before)
    (threads : changed.threads = before.threads)
    (heads : changed.readyHead = before.readyHead ∧ changed.resvHead = before.resvHead)
    (held : stage.held = (before.threads thread).held) (whole : stage.Whole)
    (responsible : changed.prodIdx = before.readyHead ∨ before.readyHead < before.resvHead ∨
      ∃ other, ((changed.moveTo thread stage).threads other).responsible = some before.readyHead) :
    PostInv (changed.moveTo thread stage) := by
  have holds : heldBy (changed.moveTo thread stage) = heldBy before := by
    rw [held_kept changed thread stage (by rw [held, threads])]
    funext other
    rw [heldBy, heldBy, threads]
  refine ⟨?_, ?_, ?_⟩
  · rw [holds]
    simpa only [Qp.moveTo, heads] using inv.covered
  · apply every_stage _ thread _ Stage.Whole whole
    intro other _
    rw [threads]
    exact inv.whole other
  · simpa only [Qp.moveTo, heads] using responsible

theorem step_post (config : QpConfig) (before after : Qp Thread) (action : Action Thread) (slots : SlotInv before)
    (doorbell : DoorbellInv before) (inv : PostInv before) (submittable : Submittable before action)
    (moves : Moves config before action after) : PostInv after := by
  have same : ∀ (changed : Qp Thread) (thread : Thread) (stage : Stage), changed.threads = before.threads →
      changed.prodIdx = before.prodIdx → stage.responsible = (before.threads thread).responsible →
      changed.prodIdx = before.readyHead ∨ before.readyHead < before.resvHead ∨
        ∃ other, ((changed.moveTo thread stage).threads other).responsible = some before.readyHead := by
    intro changed thread stage threads prod kept
    rcases inv.responsible with posted | behind | owner
    · exact .inl (prod.trans posted)
    · exact .inr (.inl behind)
    · exact .inr (.inr (responsible_kept before changed thread stage threads before.readyHead owner (.inl kept)))
  cases moves with
  | reserve thread numWqes stage positive =>
      refine ⟨?_, ?_, ?_⟩
      · rw [gdaReserveWqeSlots, held_move]
        exact covered_reserve (heldBy before) before.readyHead before.resvHead numWqes.toNat thread
          (by rw [heldBy, stage]; rfl) inv.covered
      · apply every_stage _ thread (.building before.resvHead numWqes 0) Stage.Whole submittable
        exact fun other _ => inv.whole other
      · exact .inr (.inl (Nat.lt_of_le_of_lt slots.held.order (Nat.lt_add_of_pos_right positive)))
  | build thread base numWqes done stage left =>
      have whole := inv.whole thread
      rw [stage] at whole
      exact post_frame before _ thread _ inv rfl ⟨rfl, rfl⟩ (by rw [stage]; rfl) whole
        (same _ thread _ rfl rfl (by rw [stage]; rfl))
  | call thread base numWqes done stage all =>
      have whole := inv.whole thread
      rw [stage] at whole
      refine post_frame before before thread _ inv rfl ⟨rfl, rfl⟩ (by rw [stage]; rfl) ?_
        (same _ thread _ rfl rfl (by rw [stage]; rfl))
      rw [Stage.Whole, UInt32.toNat_toUInt16]
      exact Nat.mod_eq_of_lt whole
  | ready thread base numWqes reserved stage turn =>
      subst turn
      have whole := inv.whole thread
      rw [stage] at whole
      refine ⟨?_, ?_, ?_⟩
      · rw [held_move]
        apply covered_commit (heldBy before) before.readyHead before.resvHead numWqes.toNat thread _ inv.covered
        rw [heldBy, stage, Stage.held, show numWqes.toNat = reserved.toNat from whole]
      · apply every_stage _ thread (.deciding _ _) Stage.Whole trivial
        exact fun other _ => inv.whole other
      · exact .inr (.inr ⟨thread, by simp [Qp.moveTo, Stage.responsible]⟩)
  | post thread base numWqes stage =>
      exact post_frame before before thread _ inv rfl ⟨rfl, rfl⟩ (by rw [stage]; rfl) trivial
        (same _ thread _ rfl rfl (by rw [stage]; rfl))
  | skip thread base numWqes stage later =>
      refine post_frame before before thread _ inv rfl ⟨rfl, rfl⟩ (by rw [stage]; rfl) trivial ?_
      rcases inv.responsible with posted | behind | owner
      · exact .inl posted
      · exact .inr (.inl behind)
      · by_cases mine : base + numWqes.toNat = before.readyHead
        · exact .inr (.inl (Nat.lt_of_le_of_ne slots.held.order (mine ▸ later)))
        · refine .inr (.inr (responsible_kept before before thread _ rfl before.readyHead owner (.inr ?_)))
          rw [stage, Stage.responsible]
          simpa using mine
  | acquire thread newProdIdx stage _ =>
      exact post_frame before _ thread _ inv rfl ⟨rfl, rfl⟩ (by rw [stage]; rfl) trivial
        (same _ thread _ rfl rfl (by rw [stage]; rfl))
  | raise thread newProdIdx stage more =>
      have bound := slots.stages thread
      rw [stage] at bound
      refine post_frame before _ thread _ inv rfl ⟨rfl, rfl⟩ (by rw [stage]; rfl) trivial ?_
      rcases inv.responsible with posted | behind | owner
      · exact absurd bound (Nat.not_le.mpr (posted ▸ more))
      · exact .inr (.inl behind)
      · by_cases mine : newProdIdx = before.readyHead
        · exact .inl mine
        · refine .inr (.inr (responsible_kept before _ thread _ rfl before.readyHead owner (.inr ?_)))
          rw [stage, Stage.responsible]
          simpa using mine
  | keep thread newProdIdx stage enough =>
      refine post_frame before before thread _ inv rfl ⟨rfl, rfl⟩ (by rw [stage]; rfl) trivial ?_
      rcases inv.responsible with posted | behind | owner
      · exact .inl posted
      · exact .inr (.inl behind)
      · by_cases mine : newProdIdx = before.readyHead
        · exact .inl (Nat.le_antisymm doorbell.posted (mine ▸ enough))
        · refine .inr (.inr (responsible_kept before before thread _ rfl before.readyHead owner (.inr ?_)))
          rw [stage, Stage.responsible]
          simpa using mine
  | storeDbrec thread newProdIdx stage =>
      exact post_frame before _ thread _ inv rfl ⟨rfl, rfl⟩ (by rw [stage]; rfl) trivial
        (same _ thread _ rfl rfl (by rw [stage]; rfl))
  | storeBf thread newProdIdx stage =>
      exact post_frame before _ thread _ inv rfl ⟨rfl, rfl⟩ (by rw [stage]; rfl) trivial
        (same _ thread _ rfl rfl (by rw [stage]; rfl))
  | release thread stage =>
      exact post_frame before _ thread _ inv rfl ⟨rfl, rfl⟩ (by rw [stage]; rfl) trivial
        (same _ thread _ rfl rfl (by rw [stage]; rfl))

theorem reachable_post (config : QpConfig) (qp : Qp Thread) (reached : Reach (step config) Submittable initial qp) :
    SlotInv qp ∧ DoorbellInv qp ∧ PostInv qp := by
  refine reach_invariant (step config) Submittable (fun qp => SlotInv qp ∧ DoorbellInv qp ∧ PostInv qp) initial qp
    ⟨initial_slot, initial_doorbell, initial_post⟩ ?_ reached
  intro before after action inv submittable taken
  obtain ⟨slots, doorbell, post⟩ := inv
  have moves := step_moves config before after action taken
  refine ⟨?_, ?_, ?_⟩
  · exact step_slot config before after action slots moves
  · exact step_doorbell config before after action slots doorbell moves
  · exact step_post config before after action slots doorbell post submittable moves

def Returned (qp : Qp Thread) : Prop := ∀ thread, qp.threads thread = .idle

instance (qp : Qp (Fin 2)) : Decidable (Returned qp) := inferInstanceAs (Decidable (∀ _, _ = _))

def AllPosted (qp : Qp Thread) : Prop :=
  qp.readyHead = qp.resvHead ∧ qp.prodIdx = qp.resvHead ∧ qp.dbrecValues.getLastD 0 = qp.resvHead ∧
    dbrecIndex qp.dbrec = qp.resvHead % 2 ^ 16

theorem all_posted_when_returned (config : QpConfig) (qp : Qp Thread)
    (reached : Reach (step config) Submittable initial qp) (returned : Returned qp) : AllPosted qp := by
  obtain ⟨slots, doorbell, post⟩ := reachable_post config qp reached
  have ready : qp.readyHead = qp.resvHead := by
    apply released_all (heldBy qp) qp.readyHead qp.resvHead slots.held post.covered
    intro thread
    rw [heldBy, returned thread]
    rfl
  have posted : qp.prodIdx = qp.resvHead := by
    rcases post.responsible with posted | behind | ⟨thread, owns⟩
    · exact posted.trans ready
    · exact absurd ready (Nat.ne_of_lt behind)
    · rw [returned thread] at owns
      cases owns
  have stored : qp.dbrecValues.getLastD 0 = qp.resvHead := by
    rcases doorbell.dbrec.last with stored | ⟨thread, owes⟩
    · exact stored.trans posted
    · rw [returned thread] at owes
      cases owes
  refine ⟨ready, posted, stored, ?_⟩
  rw [(reachable_doorbell config Submittable qp reached).2.2.dbrec, stored]

theorem build_run (config : QpConfig) (qp : Qp Thread) (thread : Thread) (base : Nat) (numWqes : UInt32)
    (stage : qp.threads thread = .building base numWqes 0) (done : Nat) (within : done ≤ numWqes.toNat) :
    ∃ built, Reach (step config) always qp
      ({ qp with built := built }.moveTo thread (.building base numWqes done)) := by
  induction done with
  | zero =>
      refine ⟨qp.built, ?_⟩
      rw [Qp.moveTo, ← stage, Function.update_eq_self]
      exact .start
  | succ done ih =>
      obtain ⟨built, reached⟩ := ih (Nat.le_of_succ_le within)
      refine ⟨Function.update built (base + done) true, .step _ _ (.build thread) reached trivial ?_⟩
      simp [step, Qp.moveTo, buildNext, Nat.lt_of_succ_le within]

theorem narrowed_count_reached : ∃ qp : Qp Unit, Reach (step sampleConfig) always initial qp ∧ Returned qp ∧
    qp.readyHead = 0 ∧ qp.resvHead = 65536 := by
  have first : Reach (step sampleConfig) always (initial : Qp Unit) (gdaReserveWqeSlots initial () 65536) :=
    .step _ _ (.reserve () 65536) .start trivial rfl
  obtain ⟨built, all⟩ := build_run sampleConfig (gdaReserveWqeSlots (initial : Qp Unit) () 65536) () 0 65536 rfl 65536
    (Nat.le_refl _)
  have called := Reach.step _ _ (.build ()) (reach_trans _ _ _ _ _ first all) trivial rfl
  have ready := Reach.step _ _ (.submit ()) called trivial rfl
  have skipped := Reach.step _ _ (.submit ()) ready trivial rfl
  exact ⟨_, skipped, fun _ => rfl, rfl, rfl⟩

theorem narrowed_count_lost : ¬ ∀ qp : Qp Unit, Reach (step sampleConfig) always initial qp → Returned qp →
    AllPosted qp := by
  intro claim
  obtain ⟨qp, reached, returned, ready, resv⟩ := narrowed_count_reached
  have lost := (claim qp reached returned).1
  rw [ready, resv] at lost
  cases lost

theorem handed_over_returned : ∃ qp : Qp (Fin 2), Reach (step sampleConfig) Submittable initial qp ∧
    (qp.resvHead = 3 ∧ Returned qp) :=
  reach_of_decided (step sampleConfig) Submittable handedOver initial _ (by decide +kernel)

theorem handed_over_posted : ∃ qp : Qp (Fin 2), qp.resvHead = 3 ∧ Returned qp ∧ AllPosted qp := by
  obtain ⟨qp, reached, resv, returned⟩ := handed_over_returned
  exact ⟨qp, resv, returned, all_posted_when_returned sampleConfig qp reached returned⟩

end OpenGda.Mlx5.Nvshmem
