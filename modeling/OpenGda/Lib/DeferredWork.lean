import OpenGda.Lib.Machine

set_option autoImplicit false

-- Deferred work as libfabric's FI_QUEUE_WORK offers it: a queued operation runs
-- some time after its triggering counter has reached its threshold.
namespace DeferredWork

open Machine

variable {Counter Desc : Type}

inductive Op (Counter Desc : Type) where
  | write (desc : Desc)
  | cntrAdd (counter : Counter) (value : Nat)
deriving DecidableEq, Repr

structure Work (Counter Desc : Type) where
  triggering : Counter
  threshold : Nat
  op : Op Counter Desc
  completion : Option Counter
deriving DecidableEq, Repr

structure Nic (Counter Desc : Type) where
  counters : Counter → Nat
  pending : List (Work Counter Desc)

def queueWork (nic : Nic Counter Desc) (work : Work Counter Desc) : Nic Counter Desc :=
  { nic with pending := nic.pending ++ [work] }

def Ready (nic : Nic Counter Desc) (work : Work Counter Desc) : Prop :=
  work.threshold ≤ nic.counters work.triggering

instance (nic : Nic Counter Desc) (work : Work Counter Desc) : Decidable (Ready nic work) :=
  inferInstanceAs (Decidable (_ ≤ _))

-- Released work waits for nothing more, also after its counter is set back.
def release (nic : Nic Counter Desc) (work : Work Counter Desc) : Work Counter Desc :=
  if Ready nic work then { work with threshold := 0 } else work

def releaseReady (nic : Nic Counter Desc) : Nic Counter Desc :=
  { nic with pending := nic.pending.map (release nic) }

@[simp]
theorem release_ready_counters (nic : Nic Counter Desc) : (releaseReady nic).counters = nic.counters := rfl

@[simp]
theorem release_triggering (nic : Nic Counter Desc) (work : Work Counter Desc) :
    (release nic work).triggering = work.triggering := by
  unfold release
  split <;> rfl

@[simp]
theorem release_op (nic : Nic Counter Desc) (work : Work Counter Desc) : (release nic work).op = work.op := by
  unfold release
  split <;> rfl

theorem release_threshold (nic : Nic Counter Desc) (work : Work Counter Desc) :
    (release nic work).threshold ≤ work.threshold := by
  unfold release
  split
  · exact Nat.zero_le _
  · exact Nat.le_refl _

theorem release_same (nic : Nic Counter Desc) (work : Work Counter Desc) :
    release nic work = { work with threshold := (release nic work).threshold } := by
  unfold release
  split <;> rfl

variable [DecidableEq Counter]

def setCounter (nic : Nic Counter Desc) (counter : Counter) (value : Nat) : Nic Counter Desc :=
  { nic with counters := Function.update nic.counters counter value }

def credit (counter : Counter) (work : Work Counter Desc) : Nat :=
  (if work.completion = some counter then 1 else 0) +
    match work.op with
    | .write _ => 0
    | .cntrAdd target value => if target = counter then value else 0

def fire (nic : Nic Counter Desc) (index : Nat) : Option (Work Counter Desc × Nic Counter Desc) :=
  match nic.pending[index]? with
  | some work =>
      if Ready nic work then
        some (work, ⟨fun counter => nic.counters counter + credit counter work, nic.pending.eraseIdx index⟩)
      else none
  | none => none

def fireStep (nic : Nic Counter Desc) (index : Nat) : Option (Nic Counter Desc) :=
  (fire nic index).map Prod.snd

structure Fired (before after : Nic Counter Desc) (work : Work Counter Desc) : Prop where
  ready : Ready before work
  perm : before.pending.Perm (work :: after.pending)
  counters : ∀ counter, after.counters counter = before.counters counter + credit counter work

theorem fire_fired (before after : Nic Counter Desc) (index : Nat) (work : Work Counter Desc)
    (taken : fire before index = some (work, after)) : Fired before after work := by
  unfold fire at taken
  cases found : before.pending[index]? with
  | none => simp [found] at taken
  | some queued =>
      by_cases ready : Ready before queued
      · simp only [found, if_pos ready, Option.some.injEq, Prod.mk.injEq] at taken
        obtain ⟨rfl, rfl⟩ := taken
        obtain ⟨within, value⟩ := List.getElem?_eq_some_iff.mp found
        have moved := List.getElem_cons_eraseIdx_perm within
        rw [value] at moved
        exact ⟨ready, moved.symm, fun _ => rfl⟩
      · simp [found, ready] at taken

theorem fired_pending (before after : Nic Counter Desc) (work : Work Counter Desc) (fired : Fired before after work) :
    work ∈ before.pending ∧ ∀ other ∈ after.pending, other ∈ before.pending := by
  have members := fun other => fired.perm.mem_iff (a := other)
  exact ⟨(members work).mpr (by simp), fun other member => (members other).mpr (by simp [member])⟩

theorem fired_count (before after : Nic Counter Desc) (work : Work Counter Desc) (fired : Fired before after work)
    (chosen : Work Counter Desc → Bool) :
    before.pending.countP chosen = after.pending.countP chosen + if chosen work then 1 else 0 := by
  rw [fired.perm.countP_eq, List.countP_cons]

theorem fire_member (nic : Nic Counter Desc) (work : Work Counter Desc) (member : work ∈ nic.pending)
    (ready : Ready nic work) : ∃ after, Reach fireStep always nic after ∧ Fired nic after work := by
  obtain ⟨index, within, value⟩ := List.mem_iff_getElem.mp member
  have found : nic.pending[index]? = some work := List.getElem?_eq_some_iff.mpr ⟨within, value⟩
  obtain ⟨after, taken⟩ : ∃ after, fire nic index = some (work, after) := by
    simp [fire, found, ready]
  refine ⟨after, .step nic after index .start trivial ?_, fire_fired nic after index work taken⟩
  simp [fireStep, taken]

theorem fire_some (chosen : Work Counter Desc → Bool) (counter : Counter) (number : Nat) (nic : Nic Counter Desc)
    (ready : ∀ work ∈ nic.pending, chosen work = true → Ready nic work ∧ credit counter work = 1)
    (enough : number ≤ nic.pending.countP chosen) :
    ∃ after, Reach fireStep always nic after ∧ after.counters counter = nic.counters counter + number ∧
      after.pending.countP chosen + number = nic.pending.countP chosen ∧
      (∀ work ∈ after.pending, work ∈ nic.pending) ∧
      ∀ work ∈ nic.pending, chosen work = false → work ∈ after.pending := by
  induction number generalizing nic with
  | zero => exact ⟨nic, .start, rfl, rfl, fun _ member => member, fun _ member _ => member⟩
  | succ number ih =>
      obtain ⟨work, member, pick⟩ := List.countP_pos_iff.mp (Nat.lt_of_lt_of_le (Nat.succ_pos number) enough)
      obtain ⟨able, unit⟩ := ready work member pick
      obtain ⟨next, fires, fired⟩ := fire_member nic work member able
      have counted := fired_count nic next work fired chosen
      have gained := fired.counters counter
      obtain ⟨_, remaining⟩ := fired_pending nic next work fired
      simp only [pick, if_true] at counted
      have later : ∀ other ∈ next.pending, chosen other = true → Ready next other ∧ credit counter other = 1 := by
        intro other left selected
        obtain ⟨before, one⟩ := ready other (remaining other left) selected
        refine ⟨?_, one⟩
        rw [Ready, fired.counters]
        exact Nat.le_trans before (Nat.le_add_right _ _)
      obtain ⟨after, reached, total, left, subset, kept⟩ := ih next later (by omega)
      refine ⟨after, reach_trans fireStep always _ _ _ fires reached, by omega, by omega,
        fun other last => remaining other (subset other last), ?_⟩
      intro other queued unpicked
      rcases List.mem_cons.mp (fired.perm.mem_iff.mp queued) with rfl | stays
      · simp [pick] at unpicked
      · exact kept other stays unpicked

theorem fire_selection (chosen : Work Counter Desc → Bool) (nic : Nic Counter Desc)
    (ready : ∀ work ∈ nic.pending, chosen work = true → Ready nic work) :
    ∃ after, Reach fireStep always nic after ∧ after.pending = nic.pending.filter (fun work => ! chosen work) ∧
      ∀ counter, after.counters counter =
        nic.counters counter + ((nic.pending.filter chosen).map (credit counter)).sum := by
  obtain ⟨counters, pending⟩ := nic
  suffices general : ∀ (rest kept : List (Work Counter Desc)) (counters : Counter → Nat),
      (∀ work ∈ rest, chosen work = true → work.threshold ≤ counters work.triggering) →
      ∃ after, Reach fireStep always ⟨counters, kept ++ rest⟩ after ∧
        after.pending = kept ++ rest.filter (fun work => ! chosen work) ∧
        ∀ counter, after.counters counter = counters counter + ((rest.filter chosen).map (credit counter)).sum by
    simpa using general pending [] counters ready
  intro rest
  induction rest with
  | nil => exact fun kept counters _ => ⟨⟨counters, kept ++ []⟩, .start, by simp, by simp⟩
  | cons work rest ih =>
      intro kept counters ready
      by_cases pick : chosen work = true
      · have now : fireStep ⟨counters, kept ++ work :: rest⟩ kept.length =
            some ⟨fun counter => counters counter + credit counter work, kept ++ rest⟩ := by
          simp [fireStep, fire, Ready, ready work (by simp) pick, List.eraseIdx_append_of_length_le]
        have later : ∀ other ∈ rest, chosen other = true →
            other.threshold ≤ counters other.triggering + credit other.triggering work := by
          intro other member selected
          have enough := ready other (by simp [member]) selected
          omega
        obtain ⟨after, reached, left, gained⟩ :=
          ih kept (fun counter => counters counter + credit counter work) later
        refine ⟨after, reach_head fireStep always _ _ after kept.length trivial now reached, ?_, ?_⟩
        · simpa [pick] using left
        · intro counter
          rw [gained counter]
          simp [pick, Nat.add_assoc]
      · have later : ∀ other ∈ rest, chosen other = true → other.threshold ≤ counters other.triggering :=
          fun other member => ready other (by simp [member])
        obtain ⟨after, reached, left, gained⟩ := ih (kept ++ [work]) counters later
        refine ⟨after, by simpa using reached, ?_, ?_⟩
        · simpa [pick] using left
        · intro counter
          simpa [pick] using gained counter

end DeferredWork
