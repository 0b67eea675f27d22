import OpenGda.Mlx5.NvshmemSubmit

set_option autoImplicit false

-- No thread announces a WQE that is not built: what every step of any number of
-- threads keeps about the three indices and the lock.
namespace OpenGda.Mlx5.Nvshmem

open Machine Reservation

variable {Thread : Type}

def StageOk (qp : Qp Thread) : Stage → Prop
  | .building base numWqes done =>
      done ≤ numWqes.toNat ∧ ∀ index, base ≤ index → index < base + done → qp.built index = true
  | .waiting base numWqes reserved =>
      numWqes.toNat ≤ reserved.toNat ∧ ∀ index, base ≤ index → index < base + numWqes.toNat → qp.built index = true
  | .deciding base numWqes => base + numWqes.toNat ≤ qp.readyHead
  | .acquiring newProdIdx | .locked newProdIdx => newProdIdx ≤ qp.readyHead
  | _ => True

def heldBy (qp : Qp Thread) (thread : Thread) : Option Range := (qp.threads thread).held

structure SlotInv (qp : Qp Thread) : Prop where
  held : Held (heldBy qp) qp.readyHead qp.resvHead
  built : ∀ index < qp.readyHead, qp.built index = true
  stages : ∀ thread, StageOk qp (qp.threads thread)
  apart : qp.reservations.Pairwise Range.Apart
  within : ∀ range ∈ qp.reservations, range.base + range.count ≤ qp.resvHead

theorem stage_mono (before after : Qp Thread) (stage : Stage) (fine : StageOk before stage)
    (ready : before.readyHead ≤ after.readyHead) (built : ∀ index, before.built index = true → after.built index = true) :
    StageOk after stage := by
  cases stage with
  | building base numWqes done => exact ⟨fine.1, fun index above below => built index (fine.2 index above below)⟩
  | waiting base numWqes reserved => exact ⟨fine.1, fun index above below => built index (fine.2 index above below)⟩
  | deciding base numWqes => exact Nat.le_trans fine ready
  | acquiring newProdIdx | locked newProdIdx => exact Nat.le_trans fine ready
  | idle | updatingDbr | ringingDb | releasing => trivial

structure Announced (qp : Qp Thread) (owes : Stage → Option Nat) (values : List Nat) : Prop where
  increasing : values.Pairwise (· < ·)
  bounded : ∀ value ∈ values, value ≤ qp.prodIdx
  owed : ∀ thread value, owes (qp.threads thread) = some value → value = qp.prodIdx ∧ ∀ old ∈ values, old < value
  last : values.getLastD 0 = qp.prodIdx ∨ ∃ thread, (owes (qp.threads thread)).isSome = true

structure DoorbellInv (qp : Qp Thread) : Prop where
  exclusive : ∀ first second, (qp.threads first).critical = true → (qp.threads second).critical = true → first = second
  locked : ∀ thread, (qp.threads thread).critical = true → qp.postSendLock = true
  posted : qp.prodIdx ≤ qp.readyHead
  dbrec : Announced qp Stage.owesDbrec qp.dbrecValues
  bf : Announced qp Stage.owesBf qp.bfValues

structure Registers (qp : Qp Thread) : Prop where
  dbrec : dbrecIndex qp.dbrec = qp.dbrecValues.getLastD 0 % 2 ^ 16
  bf : bfIndex qp.bfReg = qp.bfValues.getLastD 0 % 2 ^ 16

theorem owes_dbrec_critical (stage : Stage) (owes : stage.owesDbrec.isSome = true) : stage.critical = true := by
  cases stage <;> simp_all [Stage.owesDbrec, Stage.critical]

theorem owes_bf_critical (stage : Stage) (owes : stage.owesBf.isSome = true) : stage.critical = true := by
  cases stage <;> simp_all [Stage.owesBf, Stage.critical]

theorem alone (qp : Qp Thread) (inv : DoorbellInv qp) (owes : Stage → Option Nat)
    (critical : ∀ stage, (owes stage).isSome = true → stage.critical = true) (thread : Thread)
    (inside : (qp.threads thread).critical = true) (other : Thread) (different : other ≠ thread) :
    owes (qp.threads other) = none := by
  cases owed : owes (qp.threads other) with
  | none => rfl
  | some value =>
      have also : (qp.threads other).critical = true := critical _ (by simp [owed])
      exact absurd (inv.exclusive other thread also inside) different

theorem initial_slot : SlotInv (initial : Qp Thread) where
  held := held_empty
  built := by simp [initial]
  stages := fun _ => trivial
  apart := List.Pairwise.nil
  within := by simp [initial]

theorem initial_announced (owes : Stage → Option Nat) (free : owes .idle = none) :
    Announced (initial : Qp Thread) owes [] where
  increasing := List.Pairwise.nil
  bounded := by simp
  owed := by simp [initial, free]
  last := .inl rfl

theorem initial_doorbell : DoorbellInv (initial : Qp Thread) where
  exclusive := fun _ _ critical => by cases critical
  locked := fun _ critical => by cases critical
  posted := Nat.le_refl _
  dbrec := initial_announced Stage.owesDbrec rfl
  bf := initial_announced Stage.owesBf rfl

theorem initial_registers : Registers (initial : Qp Thread) where
  dbrec := by simp only [initial]; decide
  bf := by simp only [initial]; decide

variable [DecidableEq Thread]

inductive Moves (config : QpConfig) (qp : Qp Thread) : Action Thread → Qp Thread → Prop where
  | reserve (thread : Thread) (numWqes : UInt32) (stage : qp.threads thread = .idle) (positive : 0 < numWqes.toNat) :
      Moves config qp (.reserve thread numWqes) (gdaReserveWqeSlots qp thread numWqes)
  | build (thread : Thread) (base : Nat) (numWqes : UInt32) (done : Nat)
      (stage : qp.threads thread = .building base numWqes done) (left : done < numWqes.toNat) :
      Moves config qp (.build thread) ({ qp with built := Function.update qp.built (base + done) true }.moveTo thread
        (.building base numWqes (done + 1)))
  | call (thread : Thread) (base : Nat) (numWqes : UInt32) (done : Nat)
      (stage : qp.threads thread = .building base numWqes done) (all : numWqes.toNat ≤ done) :
      Moves config qp (.build thread) (qp.moveTo thread (.waiting base numWqes.toUInt16 numWqes))
  | ready (thread : Thread) (base : Nat) (numWqes : UInt16) (reserved : UInt32)
      (stage : qp.threads thread = .waiting base numWqes reserved) (turn : qp.readyHead = base) :
      Moves config qp (.submit thread) ({ qp with readyHead := base + numWqes.toNat }.moveTo thread (.deciding base numWqes))
  | post (thread : Thread) (base : Nat) (numWqes : UInt16) (stage : qp.threads thread = .deciding base numWqes) :
      Moves config qp (.submit thread) (qp.moveTo thread (.acquiring (base + numWqes.toNat)))
  | skip (thread : Thread) (base : Nat) (numWqes : UInt16) (stage : qp.threads thread = .deciding base numWqes)
      (later : base + numWqes.toNat ≠ qp.resvHead) : Moves config qp (.submit thread) (qp.moveTo thread .idle)
  | acquire (thread : Thread) (newProdIdx : Nat) (stage : qp.threads thread = .acquiring newProdIdx)
      (free : qp.postSendLock = false) :
      Moves config qp (.submit thread) ({ qp with postSendLock := true }.moveTo thread (.locked newProdIdx))
  | raise (thread : Thread) (newProdIdx : Nat) (stage : qp.threads thread = .locked newProdIdx)
      (more : qp.prodIdx < newProdIdx) :
      Moves config qp (.submit thread) ({ qp with prodIdx := newProdIdx }.moveTo thread (.updatingDbr newProdIdx))
  | keep (thread : Thread) (newProdIdx : Nat) (stage : qp.threads thread = .locked newProdIdx)
      (enough : newProdIdx ≤ qp.prodIdx) : Moves config qp (.submit thread) (qp.moveTo thread .releasing)
  | storeDbrec (thread : Thread) (newProdIdx : Nat) (stage : qp.threads thread = .updatingDbr newProdIdx) :
      Moves config qp (.submit thread) ({ qp with
        dbrec := dbrecWord newProdIdx
        dbrecValues := qp.dbrecValues ++ [newProdIdx] }.moveTo thread (.ringingDb newProdIdx))
  | storeBf (thread : Thread) (newProdIdx : Nat) (stage : qp.threads thread = .ringingDb newProdIdx) :
      Moves config qp (.submit thread) ({ qp with
        bfReg := bfWord config.qpn (newProdIdx % 2 ^ 16)
        bfValues := qp.bfValues ++ [newProdIdx] }.moveTo thread .releasing)
  | release (thread : Thread) (stage : qp.threads thread = .releasing) :
      Moves config qp (.submit thread) ({ qp with postSendLock := false }.moveTo thread .idle)

theorem submit_moves (config : QpConfig) (before after : Qp Thread) (thread : Thread)
    (taken : submitStep config before thread (before.threads thread) = some after) :
    Moves config before (.submit thread) after := by
  cases stage : before.threads thread with
  | idle | building => simp [stage, submitStep] at taken
  | waiting base numWqes reserved =>
      simp only [stage, submitStep] at taken
      split_ifs at taken with turn
      rw [← Option.some.inj taken]
      exact .ready thread base numWqes reserved stage turn
  | deciding base numWqes =>
      simp only [stage, submitStep] at taken
      split_ifs at taken with decided
      · rw [← Option.some.inj taken]
        exact .post thread base numWqes stage
      · rw [← Option.some.inj taken]
        exact .skip thread base numWqes stage fun last => decided (.inl last)
  | acquiring newProdIdx =>
      simp only [stage, submitStep] at taken
      split_ifs at taken with free
      rw [← Option.some.inj taken]
      exact .acquire thread newProdIdx stage (Bool.eq_false_iff.mpr free)
  | locked newProdIdx =>
      simp only [stage, submitStep] at taken
      rw [← Option.some.inj taken]
      by_cases more : before.prodIdx < newProdIdx
      · rw [if_pos more, max_eq_right (Nat.le_of_lt more)]
        exact .raise thread newProdIdx stage more
      · rw [if_neg more, max_eq_left (Nat.le_of_not_lt more)]
        exact .keep thread newProdIdx stage (Nat.le_of_not_lt more)
  | updatingDbr newProdIdx =>
      simp only [stage, submitStep] at taken
      rw [← Option.some.inj taken]
      exact .storeDbrec thread newProdIdx stage
  | ringingDb newProdIdx =>
      simp only [stage, submitStep] at taken
      rw [← Option.some.inj taken]
      exact .storeBf thread newProdIdx stage
  | releasing =>
      simp only [stage, submitStep] at taken
      rw [← Option.some.inj taken]
      exact .release thread stage

theorem step_moves (config : QpConfig) (before after : Qp Thread) (action : Action Thread)
    (taken : step config before action = some after) : Moves config before action after := by
  cases action with
  | reserve thread numWqes =>
      simp only [step] at taken
      split_ifs at taken with able
      rw [← Option.some.inj taken]
      exact .reserve thread numWqes able.1 able.2
  | build thread =>
      simp only [step] at taken
      cases stage : before.threads thread with
      | building base numWqes done =>
          simp only [stage, buildNext] at taken
          rw [← Option.some.inj taken]
          split_ifs with left
          · exact .build thread base numWqes done stage left
          · exact .call thread base numWqes done stage (Nat.le_of_not_lt left)
      | _ => simp [stage] at taken
  | submit thread => exact submit_moves config before after thread taken

theorem moved_other (qp : Qp Thread) (thread : Thread) (stage : Stage) (other : Thread) (different : other ≠ thread) :
    (qp.moveTo thread stage).threads other = qp.threads other := by
  simp [Qp.moveTo, different]

theorem every_stage (qp : Qp Thread) (thread : Thread) (stage : Stage) (fits : Stage → Prop) (own : fits stage)
    (others : ∀ other, other ≠ thread → fits (qp.threads other)) :
    ∀ other, fits ((qp.moveTo thread stage).threads other) := by
  intro other
  by_cases same : other = thread
  · subst same
    simpa only [Qp.moveTo, Function.update_self] using own
  · rw [moved_other qp thread stage other same]
    exact others other same

theorem held_move (qp : Qp Thread) (thread : Thread) (stage : Stage) :
    heldBy (qp.moveTo thread stage) = Function.update (heldBy qp) thread stage.held := by
  funext other
  by_cases same : other = thread
  · subst same
    simp [heldBy, Qp.moveTo]
  · simp [heldBy, Qp.moveTo, Function.update_of_ne same]

theorem held_kept (qp : Qp Thread) (thread : Thread) (stage : Stage) (same : stage.held = (qp.threads thread).held) :
    heldBy (qp.moveTo thread stage) = heldBy qp := by
  rw [held_move, same]
  exact Function.update_eq_self thread (heldBy qp)

theorem slot_frame (before changed : Qp Thread) (thread : Thread) (stage : Stage) (inv : SlotInv before)
    (threads : changed.threads = before.threads) (heads : changed.readyHead = before.readyHead ∧
      changed.resvHead = before.resvHead) (slots : changed.built = before.built ∧
      changed.reservations = before.reservations) (held : stage.held = (before.threads thread).held)
    (fine : StageOk before stage) : SlotInv (changed.moveTo thread stage) := by
  have holds : heldBy (changed.moveTo thread stage) = heldBy before := by
    rw [held_kept changed thread stage (by rw [held, threads])]
    funext other
    rw [heldBy, heldBy, threads]
  have kept : ∀ stage, StageOk before stage → StageOk (changed.moveTo thread stage) stage := by
    intro stage ok
    refine stage_mono before _ stage ok ?_ ?_
    · exact Nat.le_of_eq heads.1.symm
    · exact fun index done => slots.1.symm ▸ done
  refine ⟨?_, ?_, ?_, ?_, ?_⟩
  · rw [holds]
    simpa only [Qp.moveTo, heads] using inv.held
  · simpa only [Qp.moveTo, heads, slots] using inv.built
  · apply every_stage
    · exact kept stage fine
    · intro other _
      rw [threads]
      exact kept _ (inv.stages other)
  · simpa only [Qp.moveTo, slots] using inv.apart
  · simpa only [Qp.moveTo, slots, heads] using inv.within

theorem reserve_slot (before : Qp Thread) (thread : Thread) (numWqes : UInt32) (inv : SlotInv before)
    (positive : 0 < numWqes.toNat) : SlotInv (gdaReserveWqeSlots before thread numWqes) := by
  refine ⟨?_, inv.built, ?_, ?_, ?_⟩
  · rw [gdaReserveWqeSlots, held_move]
    exact held_reserve (heldBy before) before.readyHead before.resvHead numWqes.toNat thread inv.held positive
  · apply every_stage
    · refine ⟨Nat.zero_le _, ?_⟩
      intro index above below
      exact absurd below (Nat.not_lt.mpr above)
    · intro other _
      exact stage_mono before _ _ (inv.stages other) (Nat.le_refl _) fun _ done => done
  · refine List.pairwise_append.mpr ⟨inv.apart, List.pairwise_singleton _ _, ?_⟩
    intro range member other last
    rw [List.mem_singleton.mp last]
    exact .inl (inv.within range member)
  · intro range member
    rcases List.mem_append.mp member with old | last
    · exact Nat.le_add_right_of_le (inv.within range old)
    · rw [List.mem_singleton.mp last]
      exact Nat.le_refl _

theorem build_slot (before : Qp Thread) (thread : Thread) (base : Nat) (numWqes : UInt32) (done : Nat)
    (inv : SlotInv before) (stage : before.threads thread = .building base numWqes done) (left : done < numWqes.toNat) :
    SlotInv ({ before with built := Function.update before.built (base + done) true }.moveTo thread
      (.building base numWqes (done + 1))) := by
  have grows : ∀ index, before.built index = true → Function.update before.built (base + done) true index = true := by
    intro index built
    by_cases same : index = base + done
    · rw [same, Function.update_self]
    · rwa [Function.update_of_ne same]
  have mine := inv.stages thread
  rw [stage] at mine
  refine ⟨?_, ?_, ?_, inv.apart, inv.within⟩
  · rw [held_kept _ thread _ (by simp [stage, Stage.held])]
    exact inv.held
  · exact fun index below => grows index (inv.built index below)
  · apply every_stage
    · refine ⟨left, ?_⟩
      intro index above below
      by_cases last : index = base + done
      · simp [Qp.moveTo, last]
      · exact grows index (mine.2 index above (by omega))
    · intro other _
      exact stage_mono before _ _ (inv.stages other) (Nat.le_refl _) grows

theorem ready_slot (before : Qp Thread) (thread : Thread) (base : Nat) (numWqes : UInt16) (reserved : UInt32)
    (inv : SlotInv before) (stage : before.threads thread = .waiting base numWqes reserved)
    (turn : before.readyHead = base) :
    SlotInv ({ before with readyHead := base + numWqes.toNat }.moveTo thread (.deciding base numWqes)) := by
  subst turn
  have mine := inv.stages thread
  rw [stage] at mine
  refine ⟨?_, ?_, ?_, inv.apart, inv.within⟩
  · rw [held_move]
    apply held_commit (heldBy before) before.readyHead before.resvHead reserved.toNat numWqes.toNat thread inv.held
    · simp [heldBy, stage, Stage.held]
    · exact mine.1
  · intro index below
    by_cases old : index < before.readyHead
    · exact inv.built index old
    · exact mine.2 index (Nat.le_of_not_lt old) below
  · apply every_stage
    · exact Nat.le_refl _
    · intro other _
      exact stage_mono before _ _ (inv.stages other) (Nat.le_add_right _ _) fun _ done => done

theorem narrowed_le (numWqes : UInt32) : numWqes.toUInt16.toNat ≤ numWqes.toNat := by
  rw [UInt32.toNat_toUInt16]
  exact Nat.mod_le _ _

theorem step_slot (config : QpConfig) (before after : Qp Thread) (action : Action Thread) (inv : SlotInv before)
    (moves : Moves config before action after) : SlotInv after := by
  cases moves with
  | reserve thread numWqes _ positive => exact reserve_slot before thread numWqes inv positive
  | build thread base numWqes done stage left => exact build_slot before thread base numWqes done inv stage left
  | call thread base numWqes done stage all =>
      have mine := inv.stages thread
      rw [stage] at mine
      apply slot_frame before before thread _ inv rfl ⟨rfl, rfl⟩ ⟨rfl, rfl⟩
      · rw [stage, Stage.held, Stage.held]
      · refine ⟨narrowed_le numWqes, ?_⟩
        intro index above below
        have narrowed := narrowed_le numWqes
        exact mine.2 index above (by omega)
  | ready thread base numWqes reserved stage turn => exact ready_slot before thread base numWqes reserved inv stage turn
  | post thread base numWqes stage =>
      have mine := inv.stages thread
      rw [stage] at mine
      exact slot_frame before before thread _ inv rfl ⟨rfl, rfl⟩ ⟨rfl, rfl⟩ (by rw [stage]; rfl) mine
  | skip thread base numWqes stage _ =>
      exact slot_frame before before thread _ inv rfl ⟨rfl, rfl⟩ ⟨rfl, rfl⟩ (by rw [stage]; rfl) trivial
  | acquire thread newProdIdx stage _ =>
      have mine := inv.stages thread
      rw [stage] at mine
      exact slot_frame before _ thread _ inv rfl ⟨rfl, rfl⟩ ⟨rfl, rfl⟩ (by rw [stage]; rfl) mine
  | raise thread newProdIdx stage _ =>
      exact slot_frame before _ thread _ inv rfl ⟨rfl, rfl⟩ ⟨rfl, rfl⟩ (by rw [stage]; rfl) trivial
  | keep thread newProdIdx stage _ =>
      exact slot_frame before before thread _ inv rfl ⟨rfl, rfl⟩ ⟨rfl, rfl⟩ (by rw [stage]; rfl) trivial
  | storeDbrec thread newProdIdx stage =>
      exact slot_frame before _ thread _ inv rfl ⟨rfl, rfl⟩ ⟨rfl, rfl⟩ (by rw [stage]; rfl) trivial
  | storeBf thread newProdIdx stage =>
      exact slot_frame before _ thread _ inv rfl ⟨rfl, rfl⟩ ⟨rfl, rfl⟩ (by rw [stage]; rfl) trivial
  | release thread stage =>
      exact slot_frame before _ thread _ inv rfl ⟨rfl, rfl⟩ ⟨rfl, rfl⟩ (by rw [stage]; rfl) trivial

theorem announced_frame (before changed : Qp Thread) (thread : Thread) (stage : Stage) (owes : Stage → Option Nat)
    (values : List Nat) (inv : Announced before owes values) (threads : changed.threads = before.threads)
    (prod : changed.prodIdx = before.prodIdx) (same : owes stage = owes (before.threads thread)) :
    Announced (changed.moveTo thread stage) owes values := by
  have kept : ∀ other, owes ((changed.moveTo thread stage).threads other) = owes (before.threads other) := by
    intro other
    by_cases own : other = thread
    · subst own
      simp [Qp.moveTo, same]
    · simp [Qp.moveTo, Function.update_of_ne own, threads]
  refine ⟨inv.increasing, ?_, ?_, ?_⟩
  · simpa only [Qp.moveTo, prod] using inv.bounded
  · intro other value owed
    rw [kept] at owed
    simpa only [Qp.moveTo, prod] using inv.owed other value owed
  · rcases inv.last with stored | ⟨other, owed⟩
    · exact .inl (by simpa only [Qp.moveTo, prod] using stored)
    · exact .inr ⟨other, by rw [kept, owed]⟩

theorem announced_raise (before : Qp Thread) (thread : Thread) (newProdIdx : Nat) (owes : Stage → Option Nat)
    (values : List Nat) (inv : Announced before owes values) (more : before.prodIdx < newProdIdx)
    (others : ∀ other, other ≠ thread → owes (before.threads other) = none)
    (owned : owes (.updatingDbr newProdIdx) = some newProdIdx) :
    Announced ({ before with prodIdx := newProdIdx }.moveTo thread (.updatingDbr newProdIdx)) owes values := by
  have below : ∀ value ∈ values, value < newProdIdx := fun value member =>
    Nat.lt_of_le_of_lt (inv.bounded value member) more
  refine ⟨inv.increasing, fun value member => Nat.le_of_lt (below value member), ?_, ?_⟩
  · apply every_stage _ thread _ fun stage => ∀ value, owes stage = some value →
      value = newProdIdx ∧ ∀ old ∈ values, old < value
    · intro value owed
      rw [owned] at owed
      cases owed
      exact ⟨rfl, below⟩
    · intro other different value owed
      rw [others other different] at owed
      cases owed
  · exact .inr ⟨thread, by simp [Qp.moveTo, owned]⟩

theorem announced_store (before changed : Qp Thread) (thread : Thread) (stage : Stage) (value : Nat)
    (owes : Stage → Option Nat) (values : List Nat) (inv : Announced before owes values)
    (threads : changed.threads = before.threads) (prod : changed.prodIdx = before.prodIdx)
    (owned : owes (before.threads thread) = some value) (done : owes stage = none)
    (others : ∀ other, other ≠ thread → owes (before.threads other) = none) :
    Announced (changed.moveTo thread stage) owes (values ++ [value]) := by
  obtain ⟨current, above⟩ := inv.owed thread value owned
  refine ⟨?_, ?_, ?_, ?_⟩
  · refine List.pairwise_append.mpr ⟨inv.increasing, List.pairwise_singleton _ _, ?_⟩
    intro old member new last
    rw [List.mem_singleton.mp last]
    exact above old member
  · intro other member
    rcases List.mem_append.mp member with old | last
    · simpa only [Qp.moveTo, prod] using inv.bounded other old
    · rw [List.mem_singleton.mp last, current]
      exact Nat.le_of_eq prod.symm
  · apply every_stage _ thread _ fun stage => ∀ other, owes stage = some other →
      other = changed.prodIdx ∧ ∀ old ∈ values ++ [value], old < other
    · intro other owed
      rw [done] at owed
      cases owed
    · intro other different old owed
      rw [threads, others other different] at owed
      cases owed
  · exact .inl (by simp [Qp.moveTo, prod, current])

theorem doorbell_frame (before changed : Qp Thread) (thread : Thread) (stage : Stage) (inv : DoorbellInv before)
    (threads : changed.threads = before.threads)
    (indices : changed.prodIdx = before.prodIdx ∧ before.readyHead ≤ changed.readyHead)
    (lock : changed.postSendLock = before.postSendLock)
    (values : changed.dbrecValues = before.dbrecValues ∧ changed.bfValues = before.bfValues)
    (same : stage.critical = (before.threads thread).critical ∧
      stage.owesDbrec = (before.threads thread).owesDbrec ∧ stage.owesBf = (before.threads thread).owesBf) :
    DoorbellInv (changed.moveTo thread stage) := by
  have inside : ∀ other, ((changed.moveTo thread stage).threads other).critical = (before.threads other).critical := by
    intro other
    by_cases own : other = thread
    · subst own
      simp [Qp.moveTo, same]
    · simp [Qp.moveTo, Function.update_of_ne own, threads]
  refine ⟨?_, ?_, ?_, ?_, ?_⟩
  · intro first second one two
    rw [inside] at one two
    exact inv.exclusive first second one two
  · intro other critical
    rw [inside] at critical
    exact lock.trans (inv.locked other critical)
  · simp only [Qp.moveTo, indices]
    exact Nat.le_trans inv.posted indices.2
  · have stored := announced_frame before changed thread stage _ _ inv.dbrec threads indices.1 same.2.1
    rwa [← values.1] at stored
  · have rung := announced_frame before changed thread stage _ _ inv.bf threads indices.1 same.2.2
    rwa [← values.2] at rung

theorem acquire_doorbell (before : Qp Thread) (thread : Thread) (newProdIdx : Nat) (inv : DoorbellInv before)
    (stage : before.threads thread = .acquiring newProdIdx) (free : before.postSendLock = false) :
    DoorbellInv ({ before with postSendLock := true }.moveTo thread (.locked newProdIdx)) := by
  have outside : ∀ other, (before.threads other).critical = true → False := by
    intro other critical
    rw [inv.locked other critical] at free
    cases free
  have only : ∀ other, (({ before with postSendLock := true }.moveTo thread (.locked newProdIdx)).threads other).critical
      = true → other = thread := by
    intro other critical
    by_contra different
    rw [moved_other _ _ _ _ different] at critical
    exact outside other critical
  refine ⟨?_, fun _ _ => rfl, inv.posted, ?_, ?_⟩
  · exact fun first second one two => (only first one).trans (only second two).symm
  · exact announced_frame before _ thread _ _ _ inv.dbrec rfl rfl (by rw [stage]; rfl)
  · exact announced_frame before _ thread _ _ _ inv.bf rfl rfl (by rw [stage]; rfl)

theorem inside_lock (before changed : Qp Thread) (thread : Thread) (stage : Stage) (inv : DoorbellInv before)
    (threads : changed.threads = before.threads) (lock : changed.postSendLock = before.postSendLock)
    (critical : (before.threads thread).critical = true) :
    (∀ first second, ((changed.moveTo thread stage).threads first).critical = true →
      ((changed.moveTo thread stage).threads second).critical = true → first = second) ∧
    ∀ other, ((changed.moveTo thread stage).threads other).critical = true →
      (changed.moveTo thread stage).postSendLock = true := by
  have was : ∀ other, ((changed.moveTo thread stage).threads other).critical = true →
      (before.threads other).critical = true := by
    intro other now
    by_cases own : other = thread
    · rw [own, critical]
    · rwa [moved_other _ _ _ _ own, threads] at now
  refine ⟨?_, ?_⟩
  · exact fun first second one two => inv.exclusive first second (was first one) (was second two)
  · exact fun other now => lock.trans (inv.locked other (was other now))

theorem release_doorbell (before : Qp Thread) (thread : Thread) (inv : DoorbellInv before)
    (stage : before.threads thread = .releasing) :
    DoorbellInv ({ before with postSendLock := false }.moveTo thread .idle) := by
  have nobody : ∀ other, (({ before with postSendLock := false }.moveTo thread .idle).threads other).critical = false := by
    apply every_stage _ thread _ fun stage => stage.critical = false
    · rfl
    · intro other different
      rw [Bool.eq_false_iff]
      intro critical
      exact different (inv.exclusive other thread critical (by rw [stage]; rfl))
  refine ⟨?_, ?_, inv.posted, ?_, ?_⟩
  · intro first second one
    rw [nobody first] at one
    cases one
  · intro other critical
    rw [nobody other] at critical
    cases critical
  · exact announced_frame before _ thread _ _ _ inv.dbrec rfl rfl (by rw [stage]; rfl)
  · exact announced_frame before _ thread _ _ _ inv.bf rfl rfl (by rw [stage]; rfl)

theorem step_doorbell (config : QpConfig) (before after : Qp Thread) (action : Action Thread) (slots : SlotInv before)
    (inv : DoorbellInv before) (moves : Moves config before action after) : DoorbellInv after := by
  cases moves with
  | reserve thread numWqes stage _ =>
      exact doorbell_frame before _ thread _ inv rfl ⟨rfl, Nat.le_refl _⟩ rfl ⟨rfl, rfl⟩ (by rw [stage]; exact ⟨rfl, rfl, rfl⟩)
  | build thread base numWqes done stage _ =>
      exact doorbell_frame before _ thread _ inv rfl ⟨rfl, Nat.le_refl _⟩ rfl ⟨rfl, rfl⟩ (by rw [stage]; exact ⟨rfl, rfl, rfl⟩)
  | call thread base numWqes done stage _ =>
      exact doorbell_frame before _ thread _ inv rfl ⟨rfl, Nat.le_refl _⟩ rfl ⟨rfl, rfl⟩ (by rw [stage]; exact ⟨rfl, rfl, rfl⟩)
  | ready thread base numWqes reserved stage turn =>
      subst turn
      exact doorbell_frame before _ thread _ inv rfl ⟨rfl, Nat.le_add_right _ _⟩ rfl ⟨rfl, rfl⟩
        (by rw [stage]; exact ⟨rfl, rfl, rfl⟩)
  | post thread base numWqes stage =>
      exact doorbell_frame before _ thread _ inv rfl ⟨rfl, Nat.le_refl _⟩ rfl ⟨rfl, rfl⟩ (by rw [stage]; exact ⟨rfl, rfl, rfl⟩)
  | skip thread base numWqes stage _ =>
      exact doorbell_frame before _ thread _ inv rfl ⟨rfl, Nat.le_refl _⟩ rfl ⟨rfl, rfl⟩ (by rw [stage]; exact ⟨rfl, rfl, rfl⟩)
  | acquire thread newProdIdx stage free => exact acquire_doorbell before thread newProdIdx inv stage free
  | raise thread newProdIdx stage more =>
      have critical : (before.threads thread).critical = true := by rw [stage]; rfl
      have mine := slots.stages thread
      rw [stage] at mine
      obtain ⟨exclusive, locked⟩ := inside_lock before { before with prodIdx := newProdIdx } thread
        (.updatingDbr newProdIdx) inv rfl rfl critical
      refine ⟨exclusive, locked, mine, ?_, ?_⟩
      · exact announced_raise before thread newProdIdx _ _ inv.dbrec more
          (alone before inv _ owes_dbrec_critical thread critical) rfl
      · exact announced_raise before thread newProdIdx _ _ inv.bf more
          (alone before inv _ owes_bf_critical thread critical) rfl
  | keep thread newProdIdx stage _ =>
      exact doorbell_frame before _ thread _ inv rfl ⟨rfl, Nat.le_refl _⟩ rfl ⟨rfl, rfl⟩ (by rw [stage]; exact ⟨rfl, rfl, rfl⟩)
  | storeDbrec thread newProdIdx stage =>
      have critical : (before.threads thread).critical = true := by rw [stage]; rfl
      obtain ⟨exclusive, locked⟩ := inside_lock before { before with
        dbrec := dbrecWord newProdIdx
        dbrecValues := before.dbrecValues ++ [newProdIdx] } thread (.ringingDb newProdIdx) inv rfl rfl critical
      refine ⟨exclusive, locked, inv.posted, ?_, ?_⟩
      · exact announced_store before _ thread _ newProdIdx _ _ inv.dbrec rfl rfl (by rw [stage]; rfl) rfl
          (alone before inv _ owes_dbrec_critical thread critical)
      · exact announced_frame before _ thread _ _ _ inv.bf rfl rfl (by rw [stage]; rfl)
  | storeBf thread newProdIdx stage =>
      have critical : (before.threads thread).critical = true := by rw [stage]; rfl
      obtain ⟨exclusive, locked⟩ := inside_lock before { before with
        bfReg := bfWord config.qpn (newProdIdx % 2 ^ 16)
        bfValues := before.bfValues ++ [newProdIdx] } thread .releasing inv rfl rfl critical
      refine ⟨exclusive, locked, inv.posted, ?_, ?_⟩
      · exact announced_frame before _ thread _ _ _ inv.dbrec rfl rfl (by rw [stage]; rfl)
      · exact announced_store before _ thread _ newProdIdx _ _ inv.bf rfl rfl (by rw [stage]; rfl) rfl
          (alone before inv _ owes_bf_critical thread critical)
  | release thread stage => exact release_doorbell before thread inv stage

theorem step_registers (config : QpConfig) (before after : Qp Thread) (action : Action Thread) (inv : Registers before)
    (moves : Moves config before action after) : Registers after := by
  cases moves with
  | storeDbrec thread newProdIdx stage =>
      refine ⟨?_, inv.bf⟩
      simp only [Qp.moveTo, List.getLastD_concat]
      exact dbrec_word_decodes newProdIdx
  | storeBf thread newProdIdx stage =>
      refine ⟨inv.dbrec, ?_⟩
      simp only [Qp.moveTo, List.getLastD_concat]
      exact bf_word_decodes config.qpn _ (Nat.mod_lt _ (by decide))
  | reserve | build | call | ready | post | skip | acquire | raise | keep | release => exact ⟨inv.dbrec, inv.bf⟩

theorem reachable_doorbell (config : QpConfig) (allowed : Qp Thread → Action Thread → Prop) (qp : Qp Thread)
    (reached : Reach (step config) allowed initial qp) : SlotInv qp ∧ DoorbellInv qp ∧ Registers qp := by
  refine reach_invariant (step config) allowed (fun qp => SlotInv qp ∧ DoorbellInv qp ∧ Registers qp) initial qp
    ⟨initial_slot, initial_doorbell, initial_registers⟩ ?_ reached
  intro before after action inv _ taken
  obtain ⟨slots, doorbell, registers⟩ := inv
  have moves := step_moves config before after action taken
  exact ⟨step_slot config before after action slots moves, step_doorbell config before after action slots doorbell moves,
    step_registers config before after action registers moves⟩

theorem announced_only_built (config : QpConfig) (qp : Qp Thread)
    (reached : Reach (step config) always initial qp) :
    qp.reservations.Pairwise Range.Apart ∧
      (∀ value ∈ qp.dbrecValues ++ qp.bfValues, ∀ index < value, qp.built index = true) ∧
      qp.dbrecValues.Pairwise (· < ·) ∧ qp.bfValues.Pairwise (· < ·) ∧
      dbrecIndex qp.dbrec = qp.dbrecValues.getLastD 0 % 2 ^ 16 ∧
      bfIndex qp.bfReg = qp.bfValues.getLastD 0 % 2 ^ 16 := by
  obtain ⟨slots, doorbell, registers⟩ := reachable_doorbell config always qp reached
  refine ⟨slots.apart, ?_, doorbell.dbrec.increasing, doorbell.bf.increasing, registers.dbrec, registers.bf⟩
  intro value member index below
  have posted : value ≤ qp.prodIdx := by
    rcases List.mem_append.mp member with stored | rung
    · exact doorbell.dbrec.bounded value stored
    · exact doorbell.bf.bounded value rung
  exact slots.built index (Nat.lt_of_lt_of_le below (Nat.le_trans posted doorbell.posted))

def sampleConfig : QpConfig := ⟨5, 32, 0xFFFFFFE0⟩

def handedOver : List (Action (Fin 2)) :=
  [.reserve 0 2, .reserve 1 1, .build 1, .build 1, .build 0, .build 0, .build 0, .submit 0, .submit 0, .submit 1,
    .submit 1, .submit 1, .submit 1, .submit 1, .submit 1, .submit 1]

theorem handed_over_reached : ∃ qp : Qp (Fin 2), Reach (step sampleConfig) always initial qp ∧
    (qp.dbrecValues = [3] ∧ qp.bfValues = [3] ∧ qp.reservations.length = 2) :=
  reach_of_decided (step sampleConfig) always handedOver initial _ (by decide +kernel)

theorem handed_over_built : ∃ qp : Qp (Fin 2), qp.dbrecValues = [3] ∧ qp.reservations.Pairwise Range.Apart ∧
    (∀ index < 3, qp.built index = true) ∧ dbrecIndex qp.dbrec = 3 ∧ bfIndex qp.bfReg = 3 := by
  obtain ⟨qp, reached, stored, rung, _⟩ := handed_over_reached
  obtain ⟨apart, built, _, _, dbrec, bf⟩ := announced_only_built sampleConfig qp reached
  rw [stored] at dbrec
  rw [rung] at bf
  exact ⟨qp, stored, apart, built 3 (by simp [stored]), dbrec, bf⟩

end OpenGda.Mlx5.Nvshmem
