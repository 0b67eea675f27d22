import OpenGda.Lib.Machine

set_option autoImplicit false

-- gda_reserve_wqe_slots and gda_mark_wqes_ready (device_opt.cuh): threads that reserve
-- ranges of WQEs, build them and mark them ready, one atomic operation at a time.
namespace OpenGda.Mlx5.MarkReady

open Machine

variable {Thread : Type}

-- A thread that marks is about to do its compare-and-swap, with `expected`, or, when
-- that has failed, to load ready_head.
inductive Stage where
  | idle
  | building (baseIdx : Nat) (numWqes : UInt32) (done : Nat)
  | marking (baseIdx : Nat) (numWqes : UInt32) (expected : Nat)
  | loading (baseIdx : Nat) (numWqes : UInt32)
deriving DecidableEq, Repr

-- `built` is ghost: the WQEs that are complete.
structure Qp (Thread : Type) where
  resvHead : Nat
  readyHead : Nat
  threads : Thread → Stage
  built : Nat → Bool

def initial : Qp Thread := ⟨0, 0, fun _ => .idle, fun _ => false⟩

-- What is marked ready is built, and with everybody back all that was reserved is marked.
def InOrder (qp : Qp Thread) : Prop :=
  (∀ index < qp.readyHead, qp.built index = true) ∧ ((∀ thread, qp.threads thread = .idle) → qp.readyHead = qp.resvHead)

def Stage.newVal : Stage → Option Nat
  | .building baseIdx numWqes _ | .marking baseIdx numWqes _ | .loading baseIdx numWqes => some (baseIdx + numWqes.toNat)
  | .idle => none

def StageOk (qp : Qp Thread) : Stage → Prop
  | .idle => True
  | .building baseIdx numWqes done =>
      baseIdx + numWqes.toNat ≤ qp.resvHead ∧ done ≤ numWqes.toNat ∧
        ∀ index, baseIdx ≤ index → index < baseIdx + done → qp.built index = true
  | .marking baseIdx numWqes expected =>
      baseIdx + numWqes.toNat ≤ qp.resvHead ∧ expected ≤ baseIdx + numWqes.toNat ∧
        ∀ index, baseIdx ≤ index → index < baseIdx + numWqes.toNat → qp.built index = true
  | .loading baseIdx numWqes =>
      baseIdx + numWqes.toNat ≤ qp.resvHead ∧
        ∀ index, baseIdx ≤ index → index < baseIdx + numWqes.toNat → qp.built index = true

structure Inv (qp : Qp Thread) : Prop where
  stages : ∀ thread, StageOk qp (qp.threads thread)
  ready : qp.readyHead ≤ qp.resvHead
  last : qp.resvHead ≤ qp.readyHead ∨ ∃ thread, (qp.threads thread).newVal = some qp.resvHead

theorem initial_inv : Inv (initial : Qp Thread) := ⟨fun _ => trivial, Nat.le_refl _, .inl (Nat.le_refl _)⟩

def Stage.ToBuild : Stage → Nat → Prop
  | .building baseIdx numWqes done, index => baseIdx + done ≤ index ∧ index < baseIdx + numWqes.toNat
  | .idle, _ | .marking _ _ _, _ | .loading _ _, _ => False

structure BuildInv (qp : Qp Thread) : Prop where
  reserved : ∀ index, qp.built index = true → index < qp.resvHead
  covers : ∀ index < qp.resvHead, qp.built index = true ∨ ∃ thread, (qp.threads thread).ToBuild index
  unbuilt : ∀ thread index, (qp.threads thread).ToBuild index → index < qp.resvHead ∧ qp.built index = false
  sole : ∀ first second index, (qp.threads first).ToBuild index → (qp.threads second).ToBuild index → first = second

theorem initial_build : BuildInv (initial : Qp Thread) where
  reserved := fun _ built => absurd built Bool.false_ne_true
  covers := fun _ below => absurd below (Nat.not_lt_zero _)
  unbuilt := fun _ _ builds => builds.elim
  sole := fun _ _ _ builds => builds.elim

theorem stage_mono (before after : Qp Thread) (stage : Stage) (fine : StageOk before stage)
    (resv : before.resvHead ≤ after.resvHead) (built : ∀ index, before.built index = true → after.built index = true) :
    StageOk after stage := by
  cases stage with
  | idle => trivial
  | building baseIdx numWqes done =>
      exact ⟨Nat.le_trans fine.1 resv, fine.2.1, fun index above below => built index (fine.2.2 index above below)⟩
  | marking baseIdx numWqes expected =>
      exact ⟨Nat.le_trans fine.1 resv, fine.2.1, fun index above below => built index (fine.2.2 index above below)⟩
  | loading baseIdx numWqes =>
      exact ⟨Nat.le_trans fine.1 resv, fun index above below => built index (fine.2 index above below)⟩

theorem swap_ready (before : Qp Thread) (thread : Thread) (baseIdx : Nat) (numWqes : UInt32) (inv : Inv before)
    (stage : before.threads thread = .marking baseIdx numWqes before.readyHead)
    (ready : ∀ index < before.readyHead, before.built index = true)
    (gap : ∀ index, before.readyHead ≤ index → index < baseIdx → before.built index = true) :
    ∀ index < baseIdx + numWqes.toNat, before.built index = true := by
  have mine := inv.stages thread
  rw [stage] at mine
  intro index below
  by_cases marked : index < before.readyHead
  · exact ready index marked
  · by_cases earlier : index < baseIdx
    · exact gap index (Nat.le_of_not_lt marked) earlier
    · exact mine.2.2 index (Nat.le_of_not_lt earlier) below

theorem inv_last (qp : Qp Thread) (inv : Inv qp) (back : ∀ thread, qp.threads thread = .idle) :
    qp.readyHead = qp.resvHead := by
  rcases inv.last with marked | ⟨thread, works⟩
  · exact Nat.le_antisymm inv.ready marked
  · rw [back thread] at works
    cases works

section Steps

variable [DecidableEq Thread]

def Qp.moveTo (qp : Qp Thread) (thread : Thread) (stage : Stage) : Qp Thread :=
  { qp with threads := Function.update qp.threads thread stage }

def gdaReserveWqeSlots (qp : Qp Thread) (thread : Thread) (numSlots : UInt32) : Qp Thread :=
  { qp with resvHead := qp.resvHead + numSlots.toNat }.moveTo thread (.building qp.resvHead numSlots 0)

-- The last store of the next WQE of the range, or the call of gda_mark_wqes_ready.
def buildNext (qp : Qp Thread) (thread : Thread) (baseIdx : Nat) (numWqes : UInt32) (done : Nat) : Qp Thread :=
  if done < numWqes.toNat then
    { qp with built := Function.update qp.built (baseIdx + done) true }.moveTo thread (.building baseIdx numWqes (done + 1))
  else qp.moveTo thread (.marking baseIdx numWqes baseIdx)

def gdaMarkWqesReady (qp : Qp Thread) (thread : Thread) : Stage → Option (Qp Thread)
  | .marking baseIdx numWqes expected =>
      let newVal := baseIdx + numWqes.toNat
      if qp.readyHead = expected then some ({ qp with readyHead := newVal }.moveTo thread .idle)
      else some (qp.moveTo thread (.loading baseIdx numWqes))
  | .loading baseIdx numWqes =>
      let newVal := baseIdx + numWqes.toNat
      let expected := qp.readyHead
      if newVal ≤ expected then some (qp.moveTo thread .idle)
      else some (qp.moveTo thread (.marking baseIdx numWqes expected))
  | .idle | .building _ _ _ => none

inductive Action (Thread : Type) where
  | reserve (thread : Thread) (numSlots : UInt32)
  | build (thread : Thread)
  | mark (thread : Thread)

def step (qp : Qp Thread) : Action Thread → Option (Qp Thread)
  | .reserve thread numSlots =>
      if qp.threads thread = .idle then some (gdaReserveWqeSlots qp thread numSlots) else none
  | .build thread =>
      match qp.threads thread with
      | .building baseIdx numWqes done => some (buildNext qp thread baseIdx numWqes done)
      | _ => none
  | .mark thread => gdaMarkWqesReady qp thread (qp.threads thread)

-- A first attempt is let through by its own compare-and-swap. A retry expects what it
-- has loaded instead of base_idx: it may succeed only when no thread has a WQE below
-- base_idx still to build.
def InTurn (qp : Qp Thread) : Action Thread → Prop
  | .mark thread =>
      match qp.threads thread with
      | .marking baseIdx _ expected =>
          expected ≠ baseIdx → qp.readyHead = expected →
            ∀ other index, (qp.threads other).ToBuild index → baseIdx ≤ index
      | _ => True
  | _ => True

inductive Moves (before : Qp Thread) : Action Thread → Qp Thread → Prop where
  | reserve (thread : Thread) (numSlots : UInt32) (stage : before.threads thread = .idle) :
      Moves before (.reserve thread numSlots) (gdaReserveWqeSlots before thread numSlots)
  | build (thread : Thread) (baseIdx : Nat) (numWqes : UInt32) (done : Nat)
      (stage : before.threads thread = .building baseIdx numWqes done) (left : done < numWqes.toNat) :
      Moves before (.build thread)
        ({ before with built := Function.update before.built (baseIdx + done) true }.moveTo thread
          (.building baseIdx numWqes (done + 1)))
  | call (thread : Thread) (baseIdx : Nat) (numWqes : UInt32) (done : Nat)
      (stage : before.threads thread = .building baseIdx numWqes done) (all : numWqes.toNat ≤ done) :
      Moves before (.build thread) (before.moveTo thread (.marking baseIdx numWqes baseIdx))
  | swap (thread : Thread) (baseIdx : Nat) (numWqes : UInt32)
      (stage : before.threads thread = .marking baseIdx numWqes before.readyHead) :
      Moves before (.mark thread) ({ before with readyHead := baseIdx + numWqes.toNat }.moveTo thread .idle)
  | fail (thread : Thread) (baseIdx : Nat) (numWqes : UInt32) (expected : Nat)
      (stage : before.threads thread = .marking baseIdx numWqes expected) (other : before.readyHead ≠ expected) :
      Moves before (.mark thread) (before.moveTo thread (.loading baseIdx numWqes))
  | past (thread : Thread) (baseIdx : Nat) (numWqes : UInt32)
      (stage : before.threads thread = .loading baseIdx numWqes) (beyond : baseIdx + numWqes.toNat ≤ before.readyHead) :
      Moves before (.mark thread) (before.moveTo thread .idle)
  | again (thread : Thread) (baseIdx : Nat) (numWqes : UInt32)
      (stage : before.threads thread = .loading baseIdx numWqes) (short : before.readyHead < baseIdx + numWqes.toNat) :
      Moves before (.mark thread) (before.moveTo thread (.marking baseIdx numWqes before.readyHead))

theorem step_moves (before after : Qp Thread) (action : Action Thread) (taken : step before action = some after) :
    Moves before action after := by
  cases action with
  | reserve thread numSlots =>
      simp only [step] at taken
      split_ifs at taken with stage
      cases taken
      exact .reserve thread numSlots stage
  | build thread =>
      cases stage : before.threads thread with
      | building baseIdx numWqes done =>
          simp only [step, stage, buildNext, Option.some.injEq] at taken
          split_ifs at taken with left
          · rw [← taken]
            exact .build thread baseIdx numWqes done stage left
          · rw [← taken]
            exact .call thread baseIdx numWqes done stage (Nat.le_of_not_lt left)
      | idle | marking | loading => simp [step, stage] at taken
  | mark thread =>
      cases stage : before.threads thread with
      | marking baseIdx numWqes expected =>
          simp only [step, stage, gdaMarkWqesReady] at taken
          split_ifs at taken with same
          · cases taken
            exact .swap thread baseIdx numWqes (same ▸ stage)
          · cases taken
            exact .fail thread baseIdx numWqes expected stage same
      | loading baseIdx numWqes =>
          simp only [step, stage, gdaMarkWqesReady] at taken
          split_ifs at taken with beyond
          · cases taken
            exact .past thread baseIdx numWqes stage beyond
          · cases taken
            exact .again thread baseIdx numWqes stage (Nat.lt_of_not_le beyond)
      | idle | building => simp [step, stage, gdaMarkWqesReady] at taken

theorem moved_stage (qp : Qp Thread) (thread : Thread) (stage : Stage) : (qp.moveTo thread stage).threads thread = stage :=
  Function.update_self _ _ _

theorem moved_other (qp : Qp Thread) (thread other : Thread) (stage : Stage) (different : other ≠ thread) :
    (qp.moveTo thread stage).threads other = qp.threads other :=
  Function.update_of_ne different _ _

theorem move_stages (before changed : Qp Thread) (thread : Thread) (stage : Stage) (inv : Inv before)
    (threads : changed.threads = before.threads) (resv : before.resvHead ≤ changed.resvHead)
    (built : ∀ index, before.built index = true → changed.built index = true) (fine : StageOk changed stage) :
    ∀ other, StageOk (changed.moveTo thread stage) ((changed.moveTo thread stage).threads other) := by
  intro other
  by_cases own : other = thread
  · rw [own, moved_stage]
    exact stage_mono changed _ stage fine (Nat.le_refl _) fun _ done => done
  · rw [moved_other _ _ _ _ own, threads]
    exact stage_mono before _ _ (inv.stages other) resv built

theorem move_last (before changed : Qp Thread) (thread : Thread) (stage : Stage) (inv : Inv before)
    (threads : changed.threads = before.threads)
    (heads : changed.resvHead = before.resvHead ∧ changed.readyHead = before.readyHead)
    (same : stage.newVal = (before.threads thread).newVal) :
    (changed.moveTo thread stage).resvHead ≤ (changed.moveTo thread stage).readyHead ∨
      ∃ other, ((changed.moveTo thread stage).threads other).newVal = some (changed.moveTo thread stage).resvHead := by
  have heads' : (changed.moveTo thread stage).resvHead = before.resvHead ∧
      (changed.moveTo thread stage).readyHead = before.readyHead := heads
  rw [heads'.1, heads'.2]
  rcases inv.last with marked | ⟨other, works⟩
  · exact .inl marked
  · refine .inr ⟨other, ?_⟩
    by_cases own : other = thread
    · rw [own, moved_stage, same, ← own, works]
    · rw [moved_other _ _ _ _ own, threads, works]

theorem step_inv (before after : Qp Thread) (action : Action Thread) (inv : Inv before)
    (moves : Moves before action after) : Inv after := by
  have kept : ∀ index, before.built index = true → before.built index = true := fun _ done => done
  cases moves with
  | reserve thread numSlots stage =>
      refine ⟨?_, Nat.le_trans inv.ready (Nat.le_add_right _ _), .inr ⟨thread, ?_⟩⟩
      · apply move_stages before { before with resvHead := before.resvHead + numSlots.toNat } thread _ inv rfl
          (Nat.le_add_right _ _) kept
        exact ⟨Nat.le_refl _, Nat.zero_le _, fun index above below => absurd above (Nat.not_le.mpr below)⟩
      · rw [gdaReserveWqeSlots, moved_stage]
        rfl
  | build thread baseIdx numWqes done stage left =>
      have mine := inv.stages thread
      rw [stage] at mine
      have grows : ∀ index, before.built index = true → Function.update before.built (baseIdx + done) true index = true := by
        intro index built
        by_cases same : index = baseIdx + done
        · rw [same, Function.update_self]
        · rwa [Function.update_of_ne same]
      refine ⟨?_, inv.ready, move_last before _ thread _ inv rfl ⟨rfl, rfl⟩ (by rw [stage]; rfl)⟩
      apply move_stages before { before with built := Function.update before.built (baseIdx + done) true } thread _ inv
        rfl (Nat.le_refl _) grows
      refine ⟨mine.1, left, ?_⟩
      intro index above below
      by_cases last : index = baseIdx + done
      · simp only [last, Function.update_self]
      · exact grows index (mine.2.2 index above (by omega))
  | call thread baseIdx numWqes done stage all =>
      have mine := inv.stages thread
      rw [stage] at mine
      refine ⟨?_, inv.ready, move_last before _ thread _ inv rfl ⟨rfl, rfl⟩ (by rw [stage]; rfl)⟩
      apply move_stages before before thread _ inv rfl (Nat.le_refl _) kept
      exact ⟨mine.1, Nat.le_add_right _ _, fun index above below => mine.2.2 index above (by omega)⟩
  | swap thread baseIdx numWqes stage =>
      have mine := inv.stages thread
      rw [stage] at mine
      refine ⟨move_stages before _ thread _ inv rfl (Nat.le_refl _) kept trivial, mine.1, ?_⟩
      rcases inv.last with marked | ⟨other, works⟩
      · exact .inl (Nat.le_trans marked mine.2.1)
      · by_cases own : other = thread
        · subst own
          rw [stage] at works
          exact .inl (Nat.le_of_eq (Option.some.inj works).symm)
        · refine .inr ⟨other, ?_⟩
          rw [moved_other _ _ _ _ own]
          exact works
  | fail thread baseIdx numWqes expected stage _ =>
      have mine := inv.stages thread
      rw [stage] at mine
      exact ⟨move_stages before before thread _ inv rfl (Nat.le_refl _) kept ⟨mine.1, mine.2.2⟩, inv.ready,
        move_last before before thread _ inv rfl ⟨rfl, rfl⟩ (by rw [stage]; rfl)⟩
  | past thread baseIdx numWqes stage beyond =>
      refine ⟨move_stages before before thread _ inv rfl (Nat.le_refl _) kept trivial, inv.ready, ?_⟩
      rcases inv.last with marked | ⟨other, works⟩
      · exact .inl marked
      · by_cases own : other = thread
        · subst own
          rw [stage] at works
          exact .inl (Option.some.inj works ▸ beyond)
        · refine .inr ⟨other, ?_⟩
          rw [moved_other _ _ _ _ own]
          exact works
  | again thread baseIdx numWqes stage short =>
      have mine := inv.stages thread
      rw [stage] at mine
      exact ⟨move_stages before before thread _ inv rfl (Nat.le_refl _) kept ⟨mine.1, Nat.le_of_lt short, mine.2⟩,
        inv.ready, move_last before before thread _ inv rfl ⟨rfl, rfl⟩ (by rw [stage]; rfl)⟩

theorem build_frame (before changed : Qp Thread) (thread : Thread) (stage : Stage) (inv : BuildInv before)
    (threads : changed.threads = before.threads)
    (same : changed.resvHead = before.resvHead ∧ changed.built = before.built)
    (own : ∀ index, stage.ToBuild index ↔ (before.threads thread).ToBuild index) :
    BuildInv (changed.moveTo thread stage) := by
  have builds : ∀ other index, ((changed.moveTo thread stage).threads other).ToBuild index ↔
      (before.threads other).ToBuild index := by
    intro other index
    by_cases mine : other = thread
    · rw [mine, moved_stage]
      exact own index
    · rw [moved_other _ _ _ _ mine, threads]
  have resv : (changed.moveTo thread stage).resvHead = before.resvHead := same.1
  have built : (changed.moveTo thread stage).built = before.built := same.2
  refine ⟨?_, ?_, ?_, ?_⟩
  · rw [resv, built]
    exact inv.reserved
  · simp only [resv, built, builds]
    exact inv.covers
  · simp only [resv, built, builds]
    exact inv.unbuilt
  · simp only [builds]
    exact inv.sole

theorem reserve_build (before : Qp Thread) (thread : Thread) (numSlots : UInt32) (inv : BuildInv before)
    (stage : before.threads thread = .idle) : BuildInv (gdaReserveWqeSlots before thread numSlots) := by
  have builds : ∀ other index, ((gdaReserveWqeSlots before thread numSlots).threads other).ToBuild index ↔
      (before.threads other).ToBuild index ∨
        other = thread ∧ before.resvHead ≤ index ∧ index < before.resvHead + numSlots.toNat := by
    intro other index
    by_cases mine : other = thread
    · simp [gdaReserveWqeSlots, mine, moved_stage, stage, Stage.ToBuild]
    · simp [gdaReserveWqeSlots, moved_other _ _ _ _ mine, mine]
  have resv : (gdaReserveWqeSlots before thread numSlots).resvHead = before.resvHead + numSlots.toNat := rfl
  have built : (gdaReserveWqeSlots before thread numSlots).built = before.built := rfl
  refine ⟨?_, ?_, ?_, ?_⟩
  · rw [resv, built]
    exact fun index done => Nat.lt_add_right _ (inv.reserved index done)
  · intro index below
    rw [resv] at below
    rw [built]
    by_cases old : index < before.resvHead
    · exact (inv.covers index old).imp_right fun ⟨other, works⟩ => ⟨other, (builds other index).mpr (.inl works)⟩
    · exact .inr ⟨thread, (builds thread index).mpr (.inr ⟨rfl, Nat.le_of_not_lt old, below⟩)⟩
  · intro other index works
    rw [resv, built]
    rcases (builds other index).mp works with old | ⟨_, above, below⟩
    · exact ⟨Nat.lt_add_right _ (inv.unbuilt other index old).1, (inv.unbuilt other index old).2⟩
    · refine ⟨below, Bool.eq_false_iff.mpr fun done => ?_⟩
      exact absurd (inv.reserved index done) (Nat.not_lt.mpr above)
  · intro first second index one two
    have outside : ∀ other, (before.threads other).ToBuild index → ¬ before.resvHead ≤ index := fun other old =>
      Nat.not_le.mpr (inv.unbuilt other index old).1
    rcases (builds first index).mp one with oldFirst | ⟨rfl, above, _⟩
    · rcases (builds second index).mp two with oldSecond | ⟨_, above, _⟩
      · exact inv.sole first second index oldFirst oldSecond
      · exact absurd above (outside first oldFirst)
    · rcases (builds second index).mp two with oldSecond | ⟨same, _, _⟩
      · exact absurd above (outside second oldSecond)
      · exact same.symm

theorem build_build (before : Qp Thread) (thread : Thread) (baseIdx : Nat) (numWqes : UInt32) (done : Nat)
    (inv : BuildInv before) (stage : before.threads thread = .building baseIdx numWqes done)
    (left : done < numWqes.toNat) :
    BuildInv ({ before with built := Function.update before.built (baseIdx + done) true }.moveTo thread
      (.building baseIdx numWqes (done + 1))) := by
  have next : (before.threads thread).ToBuild (baseIdx + done) := by
    rw [stage]
    exact ⟨Nat.le_refl _, Nat.add_lt_add_left left baseIdx⟩
  have builds : ∀ other index, (({ before with built := Function.update before.built (baseIdx + done) true }.moveTo
      thread (.building baseIdx numWqes (done + 1))).threads other).ToBuild index ↔
        (before.threads other).ToBuild index ∧ index ≠ baseIdx + done := by
    intro other index
    by_cases mine : other = thread
    · rw [mine, moved_stage, stage]
      simp only [Stage.ToBuild]
      omega
    · rw [moved_other _ _ _ _ mine]
      refine ⟨fun works => ⟨works, ?_⟩, And.left⟩
      rintro rfl
      exact mine (inv.sole other thread _ works next)
  refine ⟨?_, ?_, ?_, ?_⟩
  · intro index built
    by_cases same : index = baseIdx + done
    · rw [same]
      exact (inv.unbuilt thread _ next).1
    · exact inv.reserved index (by simpa only [Qp.moveTo, Function.update_of_ne same] using built)
  · intro index below
    by_cases same : index = baseIdx + done
    · exact .inl (by simp only [Qp.moveTo, same, Function.update_self])
    · rcases inv.covers index below with built | ⟨other, works⟩
      · exact .inl (by simpa only [Qp.moveTo, Function.update_of_ne same] using built)
      · exact .inr ⟨other, (builds other index).mpr ⟨works, same⟩⟩
  · intro other index works
    obtain ⟨old, same⟩ := (builds other index).mp works
    obtain ⟨below, unbuilt⟩ := inv.unbuilt other index old
    exact ⟨below, by simpa only [Qp.moveTo, Function.update_of_ne same] using unbuilt⟩
  · intro first second index one two
    exact inv.sole first second index ((builds first index).mp one).1 ((builds second index).mp two).1

theorem step_build (before after : Qp Thread) (action : Action Thread) (inv : BuildInv before)
    (moves : Moves before action after) : BuildInv after := by
  cases moves with
  | reserve thread numSlots stage => exact reserve_build before thread numSlots inv stage
  | build thread baseIdx numWqes done stage left => exact build_build before thread baseIdx numWqes done inv stage left
  | call thread baseIdx numWqes done stage all =>
      refine build_frame before before thread _ inv rfl ⟨rfl, rfl⟩ fun index => ?_
      rw [stage]
      refine ⟨False.elim, fun works => ?_⟩
      obtain ⟨above, below⟩ := works
      omega
  | swap thread baseIdx numWqes stage =>
      exact build_frame before _ thread _ inv rfl ⟨rfl, rfl⟩ fun index => by rw [stage]; exact Iff.rfl
  | fail thread baseIdx numWqes expected stage _ =>
      exact build_frame before before thread _ inv rfl ⟨rfl, rfl⟩ fun index => by rw [stage]; exact Iff.rfl
  | past thread baseIdx numWqes stage _ | again thread baseIdx numWqes stage _ =>
      exact build_frame before before thread _ inv rfl ⟨rfl, rfl⟩ fun index => by rw [stage]; exact Iff.rfl

theorem step_ready (before after : Qp Thread) (action : Action Thread) (inv : Inv before) (builds : BuildInv before)
    (inTurn : InTurn before action) (moves : Moves before action after)
    (ready : ∀ index < before.readyHead, before.built index = true) :
    ∀ index < after.readyHead, after.built index = true := by
  cases moves with
  | build thread baseIdx numWqes done stage left =>
      intro index below
      by_cases same : index = baseIdx + done
      · simp only [Qp.moveTo, same, Function.update_self]
      · simpa only [Qp.moveTo, Function.update_of_ne same] using ready index below
  | swap thread baseIdx numWqes stage =>
      refine swap_ready before thread baseIdx numWqes inv stage ready ?_
      intro index above below
      simp only [InTurn, stage, forall_const] at inTurn
      have turn := inTurn (by omega)
      have mine := inv.stages thread
      rw [stage] at mine
      have reserved : index < before.resvHead := by
        have top := mine.1
        omega
      rcases builds.covers index reserved with built | ⟨other, works⟩
      · exact built
      · exact absurd below (Nat.not_lt.mpr (turn other index works))
  | reserve | call | fail | past | again => exact ready

theorem reach_in_order (qp : Qp Thread) (reached : Reach step InTurn initial qp) : InOrder qp := by
  have all : Inv qp ∧ BuildInv qp ∧ ∀ index < qp.readyHead, qp.built index = true := by
    refine reach_invariant step InTurn
      (fun qp => Inv qp ∧ BuildInv qp ∧ ∀ index < qp.readyHead, qp.built index = true) initial qp
      ⟨initial_inv, initial_build, fun index below => absurd below (Nat.not_lt_zero index)⟩ ?_ reached
    · intro before after action kept inTurn taken
      obtain ⟨inv, builds, ready⟩ := kept
      have moves := step_moves before after action taken
      exact ⟨step_inv before after action inv moves, step_build before after action builds moves,
        step_ready before after action inv builds inTurn moves ready⟩
  exact ⟨all.2.2, inv_last qp all.1⟩

theorem run_build (actions : List (Action Thread)) (done : Nat) (qp : Qp Thread)
    (ran : run step initial (actions.take done) = some qp) : BuildInv qp :=
  reach_invariant step always BuildInv initial qp initial_build
    (fun before after action inv _ taken => step_build before after action inv (step_moves before after action taken))
    (reach_of_steps step always initial actions (fun _ _ _ _ _ _ _ => trivial) done qp ran)

theorem in_turn_of_ready (before after : Qp Thread) (action : Action Thread) (builds : BuildInv before)
    (taken : step before action = some after) (ready : ∀ index < after.readyHead, after.built index = true) :
    InTurn before action := by
  cases step_moves before after action taken with
  | swap thread baseIdx numWqes stage =>
      simp only [InTurn, stage]
      intro _ _ other index works
      by_contra early
      have built := ready index (Nat.lt_add_right _ (Nat.lt_of_not_le early))
      exact Bool.false_ne_true ((builds.unbuilt other index works).2.symm.trans built)
  | fail thread baseIdx numWqes expected stage other =>
      simp only [InTurn, stage]
      exact fun _ same => absurd same other
  | reserve | build => trivial
  | call thread baseIdx numWqes done stage => trivial
  | past thread baseIdx numWqes stage | again thread baseIdx numWqes stage => simp only [InTurn, stage]

end Steps

theorem mark_ready_in_order_iff (Thread : Type) [DecidableEq Thread] (actions : List (Action Thread)) :
    (∀ done qp, run step initial (actions.take done) = some qp → InOrder qp) ↔ AllSteps step InTurn initial actions := by
  constructor
  · intro holds done before after action ran found taken
    have next := run_take_succ step actions done initial before after action ran found taken
    exact in_turn_of_ready before after action (run_build actions done before ran) taken (holds (done + 1) after next).1
  · intro inTurn done qp ran
    exact reach_in_order qp (reach_of_steps step InTurn initial actions inTurn done qp ran)

def overtaking : List (Action (Fin 2)) :=
  [.reserve 0 1, .reserve 1 1, .build 1, .build 1, .mark 1, .mark 1, .mark 1]

theorem overtaken_unbuilt :
    ¬ ∀ (Thread : Type) [DecidableEq Thread] (actions : List (Action Thread)) (done : Nat) (qp : Qp Thread),
      run step initial (actions.take done) = some qp → InOrder qp := by
  intro holds
  have found : (run step initial overtaking).any (fun qp => decide (qp.readyHead = 2 ∧ qp.built 0 = false)) = true := by
    decide +kernel
  obtain ⟨qp, ran, facts⟩ := (Option.any_eq_true _ _).mp found
  obtain ⟨ready, unbuilt⟩ := of_decide_eq_true facts
  have built := (holds (Fin 2) overtaking 7 qp ran).1 0 (by omega)
  exact Bool.false_ne_true (unbuilt.symm.trans built)

end OpenGda.Mlx5.MarkReady
