import OpenGda.Lib.Machine

set_option autoImplicit false

-- Parties that work in rounds on one shared memory and meet at a barrier after each.
namespace Supersteps

variable {Party Task Place Value : Type}

-- What the rounds are made of: a task belongs to a party and writes at most one place.
-- The late tasks of a party come after all its early ones.
structure Work (Party Task Place Value : Type) where
  owner : Task → Party
  active : Nat → Task → Prop
  late : Task → Prop
  target : Nat → Task → Option Place
  result : Nat → Task → (Place → Value) → Value

structure View (Party Task Place Value : Type) where
  round : Party → Nat
  entered : Party → Prop
  done : Task → Prop
  memory : Place → Value

def startView (memory : Place → Value) : View Party Task Place Value :=
  ⟨fun _ => 0, fun _ => False, fun _ => False, memory⟩

section Steps

variable [DecidableEq Place] (work : Work Party Task Place Value)

def deliver (memory : Place → Value) (value : Value) : Option Place → Place → Value
  | some place => Function.update memory place value
  | none => memory

-- The tasks of a round in any order, and a barrier that no party leaves before all have entered it.
inductive Step (before after : View Party Task Place Value) : Prop where
  | perform (task : Task) (active : work.active (before.round (work.owner task)) task)
      (outside : ¬ before.entered (work.owner task))
      (ready : work.late task → ∀ other, work.active (before.round (work.owner task)) other →
        work.owner other = work.owner task → ¬ work.late other → before.done other)
      (round : after.round = before.round) (entered : after.entered = before.entered)
      (done : ∀ other, after.done other ↔ other = task ∨ before.done other)
      (memory : after.memory = deliver before.memory
        (work.result (before.round (work.owner task)) task before.memory)
        (work.target (before.round (work.owner task)) task))
  | enter (party : Party)
      (complete : ∀ task, work.active (before.round party) task → work.owner task = party → before.done task)
      (round : after.round = before.round)
      (entered : ∀ other, after.entered other ↔ other = party ∨ before.entered other)
      (done : after.done = before.done) (memory : after.memory = before.memory)
  | leave (party : Party) (inside : before.entered party)
      (all : ∀ other, (before.round other = before.round party ∧ before.entered other) ∨
        before.round party < before.round other)
      (round : after.round party = before.round party + 1)
      (others : ∀ other, other ≠ party → after.round other = before.round other)
      (entered : ∀ other, after.entered other ↔ other ≠ party ∧ before.entered other)
      (done : ∀ task, after.done task ↔ work.owner task ≠ party ∧ before.done task)
      (memory : after.memory = before.memory)

end Steps

section Lockstep

variable (work : Work Party Task Place Value) (gen : Nat → Place → Value)

def Unwritten (round : Nat) (place : Place) : Prop :=
  ∀ task, work.active round task → work.target round task ≠ some place

def OwnEarly (round : Nat) (party : Party) (place : Place) : Prop :=
  ∀ task, work.active round task → work.target round task = some place → ¬ work.late task ∧ work.owner task = party

structure Lockstep : Prop where
  early : ∀ round task place memory, work.active round task → ¬ work.late task → work.target round task = some place →
    (∀ other, Unwritten work round other → memory other = gen round other) →
    work.result round task memory = gen (round + 1) place
  late : ∀ round task place memory, work.active round task → work.late task → work.target round task = some place →
    (∀ other, OwnEarly work round (work.owner task) other → memory other = gen (round + 1) other) →
    work.result round task memory = gen (round + 1) place
  idle : ∀ round place, Unwritten work round place → gen (round + 1) place = gen round place

-- Nobody is more than a barrier away from the front, and every place has the value
-- of the front's generation or, where its task is done, of the next.
structure Consistent (view : View Party Task Place Value) (front : Nat) : Prop where
  rounds : ∀ party, view.round party = front ∨ (view.round party + 1 = front ∧ view.entered party)
  complete : ∀ task, work.active (view.round (work.owner task)) task → view.entered (work.owner task) → view.done task
  fresh : ∀ task place, work.active front task → view.done task → view.round (work.owner task) = front →
    work.target front task = some place → view.memory place = gen (front + 1) place
  stale : ∀ place, (∀ task, work.active front task → work.target front task = some place →
    ¬ (view.done task ∧ view.round (work.owner task) = front)) → view.memory place = gen front place

theorem start_consistent : Consistent work gen (startView (gen 0)) 0 where
  rounds := fun _ => .inl rfl
  complete := fun _ _ entered => entered.elim
  fresh := fun _ _ _ done => done.elim
  stale := fun _ _ => rfl

variable {work gen}

theorem consistent_unwritten (view : View Party Task Place Value) (front : Nat)
    (consistent : Consistent work gen view front) (place : Place) (unwritten : Unwritten work front place) :
    view.memory place = gen front place :=
  consistent.stale place fun task active target => absurd target (unwritten task active)

theorem round_of_outside (view : View Party Task Place Value) (front : Nat)
    (consistent : Consistent work gen view front) (party : Party) (outside : ¬ view.entered party) :
    view.round party = front := by
  rcases consistent.rounds party with now | ⟨_, entered⟩
  · exact now
  · exact absurd entered outside

theorem round_memory (view : View Party Task Place Value) (consistent : ∃ front, Consistent work gen view front)
    (party : Party) (outside : ¬ view.entered party) (place : Place)
    (pending : ∀ task, work.active (view.round party) task → work.target (view.round party) task = some place →
      ¬ (view.done task ∧ view.round (work.owner task) = view.round party)) :
    view.memory place = gen (view.round party) place := by
  obtain ⟨front, consistent⟩ := consistent
  rw [round_of_outside view front consistent party outside] at pending ⊢
  exact consistent.stale place pending

theorem perform_result (lockstep : Lockstep work gen) (view : View Party Task Place Value) (front : Nat)
    (consistent : Consistent work gen view front) (task : Task) (place : Place) (active : work.active front task)
    (now : view.round (work.owner task) = front) (target : work.target front task = some place)
    (ready : work.late task → ∀ other, work.active front other → work.owner other = work.owner task →
      ¬ work.late other → view.done other) :
    work.result front task view.memory = gen (front + 1) place := by
  by_cases late : work.late task
  · apply lockstep.late front task place view.memory active late target
    intro other own
    by_cases unwritten : Unwritten work front other
    · rw [lockstep.idle front other unwritten]
      exact consistent_unwritten view front consistent other unwritten
    · obtain ⟨writer, writes, hits⟩ : ∃ writer, work.active front writer ∧ work.target front writer = some other := by
        simpa [Unwritten] using unwritten
      obtain ⟨early, same⟩ := own writer writes hits
      exact consistent.fresh writer other writes (ready late writer writes same early) (same ▸ now) hits
  · exact lockstep.early front task place view.memory active late target
      (consistent_unwritten view front consistent)

variable [DecidableEq Place]

theorem perform_consistent (lockstep : Lockstep work gen) (before after : View Party Task Place Value) (front : Nat)
    (consistent : Consistent work gen before front) (task : Task)
    (active : work.active (before.round (work.owner task)) task) (outside : ¬ before.entered (work.owner task))
    (ready : work.late task → ∀ other, work.active (before.round (work.owner task)) other →
      work.owner other = work.owner task → ¬ work.late other → before.done other)
    (round : after.round = before.round) (entered : after.entered = before.entered)
    (done : ∀ other, after.done other ↔ other = task ∨ before.done other)
    (memory : after.memory = deliver before.memory (work.result (before.round (work.owner task)) task before.memory)
      (work.target (before.round (work.owner task)) task)) : Consistent work gen after front := by
  have now := round_of_outside before front consistent _ outside
  rw [now] at active ready memory
  have written : ∀ place, work.target front task = some place → after.memory place = gen (front + 1) place := by
    intro place target
    rw [memory, target, deliver, Function.update_self]
    exact perform_result lockstep before front consistent task place active now target ready
  have kept : ∀ place, work.target front task ≠ some place → after.memory place = before.memory place := by
    intro place other
    rw [memory]
    cases target : work.target front task with
    | none => rfl
    | some own => exact Function.update_of_ne (fun same => other (target.trans (congrArg some same.symm))) _ _
  refine ⟨?_, ?_, ?_, ?_⟩
  · rw [round, entered]
    exact consistent.rounds
  · intro other runs inside
    rw [round] at runs
    rw [entered] at inside
    exact (done other).mpr (.inr (consistent.complete other runs inside))
  · intro other place runs finished sameRound target
    by_cases own : work.target front task = some place
    · exact written place own
    · rw [kept place own]
      rcases (done other).mp finished with same | earlier
      · rw [same] at target
        exact absurd target own
      · exact consistent.fresh other place runs earlier (round ▸ sameRound) target
  · intro place untouched
    have own : work.target front task ≠ some place := fun target =>
      untouched task active target ⟨(done task).mpr (.inl rfl), by rw [round, now]⟩
    rw [kept place own]
    apply consistent.stale
    intro other runs target finished
    exact untouched other runs target ⟨(done other).mpr (.inr finished.1), by rw [round, finished.2]⟩

theorem leave_consistent (lockstep : Lockstep work gen) (before after : View Party Task Place Value) (front : Nat)
    (consistent : Consistent work gen before front) (party : Party)
    (all : ∀ other, (before.round other = before.round party ∧ before.entered other) ∨
      before.round party < before.round other)
    (round : after.round party = before.round party + 1)
    (others : ∀ other, other ≠ party → after.round other = before.round other)
    (entered : ∀ other, after.entered other ↔ other ≠ party ∧ before.entered other)
    (done : ∀ task, after.done task ↔ work.owner task ≠ party ∧ before.done task)
    (memory : after.memory = before.memory) : ∃ next, Consistent work gen after next := by
  rcases consistent.rounds party with now | ⟨behind, _⟩
  · -- The first to leave: every task of the round is done, and the whole memory is of the next generation.
    have entire : ∀ other, before.round other = front ∧ before.entered other := by
      intro other
      rcases all other with ⟨same, waits⟩ | ahead
      · exact ⟨same.trans now, waits⟩
      · rcases consistent.rounds other with atFront | ⟨previous, _⟩ <;> omega
    have next : ∀ place, before.memory place = gen (front + 1) place := by
      intro place
      by_cases unwritten : Unwritten work front place
      · rw [lockstep.idle front place unwritten]
        exact consistent_unwritten before front consistent place unwritten
      · obtain ⟨writer, writes, hits⟩ : ∃ writer, work.active front writer ∧ work.target front writer = some place := by
          simpa [Unwritten] using unwritten
        have finished := consistent.complete writer ((entire (work.owner writer)).1 ▸ writes) (entire _).2
        exact consistent.fresh writer place writes finished (entire _).1 hits
    refine ⟨front + 1, ?_, ?_, ?_, ?_⟩
    · intro other
      by_cases own : other = party
      · exact .inl (by rw [own, round, now])
      · exact .inr ⟨by rw [others other own, (entire other).1], (entered other).mpr ⟨own, (entire other).2⟩⟩
    · intro task runs waits
      obtain ⟨own, waited⟩ := (entered _).mp waits
      rw [others _ own] at runs
      exact (done task).mpr ⟨own, consistent.complete task runs waited⟩
    · intro task place _ finished ahead
      rw [others _ ((done task).mp finished).1, (entire _).1] at ahead
      omega
    · intro place _
      rw [memory, next place]
  · -- A late leaver joins the others; none of its tasks of the new round has run.
    refine ⟨front, ?_, ?_, ?_, ?_⟩
    · intro other
      by_cases own : other = party
      · exact .inl (by rw [own, round, behind])
      · rw [others other own, entered other]
        exact (consistent.rounds other).imp id fun ⟨previous, waits⟩ => ⟨previous, own, waits⟩
    · intro task runs waits
      obtain ⟨own, waited⟩ := (entered _).mp waits
      rw [others _ own] at runs
      exact (done task).mpr ⟨own, consistent.complete task runs waited⟩
    · intro task place runs finished sameRound target
      obtain ⟨own, earlier⟩ := (done task).mp finished
      rw [memory]
      exact consistent.fresh task place runs earlier ((others _ own).symm.trans sameRound) target
    · intro place untouched
      rw [memory]
      apply consistent.stale
      intro task runs target finished
      by_cases own : work.owner task = party
      · rw [own] at finished
        omega
      · exact untouched task runs target ⟨(done task).mpr ⟨own, finished.1⟩, (others _ own).trans finished.2⟩

theorem step_consistent (lockstep : Lockstep work gen) (before after : View Party Task Place Value)
    (consistent : ∃ front, Consistent work gen before front) (taken : Step work before after) :
    ∃ front, Consistent work gen after front := by
  obtain ⟨front, consistent⟩ := consistent
  cases taken with
  | perform task active outside ready round entered done memory =>
      exact ⟨front, perform_consistent lockstep before after front consistent task active outside ready round entered
        done memory⟩
  | enter party complete round entered done memory =>
      refine ⟨front, ?_, ?_, ?_, ?_⟩
      · intro other
        rw [round, entered other]
        exact (consistent.rounds other).imp id fun ⟨previous, waits⟩ => ⟨previous, .inr waits⟩
      · intro task runs waits
        rw [round] at runs
        rw [done]
        rcases (entered _).mp waits with own | earlier
        · exact complete task (own ▸ runs) own
        · exact consistent.complete task runs earlier
      · rw [round, done, memory]
        exact consistent.fresh
      · rw [round, done, memory]
        exact consistent.stale
  | leave party inside all round others entered done memory =>
      exact leave_consistent lockstep before after front consistent party all round others entered done memory

end Lockstep

section Reading

variable {Stage : Type}

structure Reading (Party Task Place Value Stage : Type) where
  owner : Task → Party
  holder : Place → Party
  round : Stage → Nat
  entered : Stage → Prop
  done : Task → Stage → Prop
  value : Place → Stage → Value

variable (reading : Reading Party Task Place Value Stage)

def Reading.view (state : Party → Stage) : View Party Task Place Value where
  round party := reading.round (state party)
  entered party := reading.entered (state party)
  done task := reading.done task (state (reading.owner task))
  memory place := reading.value place (state (reading.holder place))

theorem view_start (state : Party → Stage) (memory : Place → Value) (round : ∀ party, reading.round (state party) = 0)
    (outside : ∀ party, ¬ reading.entered (state party)) (undone : ∀ task, ¬ reading.done task (state (reading.owner task)))
    (held : ∀ place, reading.value place (state (reading.holder place)) = memory place) :
    reading.view state = startView memory := by
  simp [Reading.view, startView, round, outside, undone, held]

variable [DecidableEq Party] (state : Party → Stage) (party : Party) (now : Stage)

theorem update_field {Field : Type} (field : Stage → Field) (same : field now = field (state party)) (other : Party) :
    field (Function.update state party now other) = field (state other) := by
  by_cases own : other = party
  · rw [own, Function.update_self, same]
  · rw [Function.update_of_ne own]

theorem view_round (same : reading.round now = reading.round (state party)) :
    (reading.view (Function.update state party now)).round = (reading.view state).round :=
  funext (update_field state party now reading.round same)

theorem view_entered (same : reading.entered now = reading.entered (state party)) :
    (reading.view (Function.update state party now)).entered = (reading.view state).entered :=
  funext (update_field state party now reading.entered same)

theorem view_done (same : ∀ task, reading.done task now = reading.done task (state party)) :
    (reading.view (Function.update state party now)).done = (reading.view state).done :=
  funext fun task => update_field state party now (reading.done task) (same task) _

theorem view_memory (same : ∀ place, reading.value place now = reading.value place (state party)) :
    (reading.view (Function.update state party now)).memory = (reading.view state).memory :=
  funext fun place => update_field state party now (reading.value place) (same place) _

theorem view_unseen (round : reading.round now = reading.round (state party))
    (entered : reading.entered now = reading.entered (state party))
    (done : ∀ task, reading.done task now = reading.done task (state party))
    (memory : ∀ place, reading.value place now = reading.value place (state party)) :
    reading.view (Function.update state party now) = reading.view state := by
  have rounds := view_round reading state party now round
  have entries := view_entered reading state party now entered
  have tasks := view_done reading state party now done
  have places := view_memory reading state party now memory
  cases moved : reading.view (Function.update state party now)
  cases first : reading.view state
  simp_all

theorem view_marked (task : Task) (own : reading.owner task = party)
    (marks : ∀ other, reading.owner other = party →
      (reading.done other now ↔ other = task ∨ reading.done other (state party))) (other : Task) :
    (reading.view (Function.update state party now)).done other ↔ other = task ∨ (reading.view state).done other := by
  simp only [Reading.view]
  by_cases mine : reading.owner other = party
  · rw [mine, Function.update_self]
    exact marks other mine
  · rw [Function.update_of_ne mine]
    have different : other ≠ task := fun same => mine ((congrArg reading.owner same).trans own)
    exact ⟨.inr, fun either => either.resolve_left different⟩

theorem view_stored [DecidableEq Place] (place : Place) (value : Value) (here : reading.holder place = party)
    (stores : ∀ other, reading.holder other = party →
      reading.value other now = if other = place then value else reading.value other (state party)) :
    (reading.view (Function.update state party now)).memory =
      Function.update (reading.view state).memory place value := by
  funext other
  simp only [Reading.view, Function.update_apply]
  by_cases mine : reading.holder other = party
  · rw [if_pos mine, mine]
    exact stores other mine
  · have different : other ≠ place := fun same => mine ((congrArg reading.holder same).trans here)
    rw [if_neg mine, if_neg different]

theorem view_delivered (work : Work Party Task Place Value) [DecidableEq Place] (owners : reading.owner = work.owner)
    (task : Task) (own : reading.owner task = party) (active : work.active (reading.round (state party)) task)
    (outside : ¬ reading.entered (state party))
    (ready : work.late task → ∀ other, work.active (reading.round (state party)) other → work.owner other = party →
      ¬ work.late other → (reading.view state).done other)
    (round : reading.round now = reading.round (state party)) (entered : reading.entered now = reading.entered (state party))
    (kept : ∀ place, reading.value place now = reading.value place (state party))
    (marks : ∀ other, reading.owner other = party →
      (reading.done other now ↔ other = task ∨ reading.done other (state party)))
    (sent : Party → Stage) (isSent : sent = Function.update state party now) (receiver : Party) (written : Stage)
    (place : Place) (here : reading.holder place = receiver)
    (target : work.target (reading.round (state party)) task = some place)
    (receiverRound : reading.round written = reading.round (sent receiver))
    (receiverEntered : reading.entered written = reading.entered (sent receiver))
    (receiverDone : ∀ other, reading.done other written = reading.done other (sent receiver))
    (stores : ∀ other, reading.holder other = receiver → reading.value other written =
      if other = place then work.result (reading.round (state party)) task (reading.view state).memory
      else reading.value other (sent receiver)) :
    Step work (reading.view state) (reading.view (Function.update sent receiver written)) := by
  have owner : work.owner task = party := owners ▸ own
  subst isSent
  refine .perform task (owner ▸ active) (owner ▸ outside) (owner ▸ ready) ?_ ?_ ?_ ?_
  · rw [view_round reading _ receiver written receiverRound]
    exact view_round reading state party now round
  · rw [view_entered reading _ receiver written receiverEntered]
    exact view_entered reading state party now entered
  · intro other
    rw [view_done reading _ receiver written receiverDone]
    exact view_marked reading state party now task own marks other
  · rw [view_stored reading _ receiver written place _ here stores, view_memory reading state party now kept, owner]
    simp only [Reading.view, target, deliver]

theorem view_enter (work : Work Party Task Place Value) [DecidableEq Place]
    (complete : ∀ task, work.active (reading.round (state party)) task → work.owner task = party →
      (reading.view state).done task)
    (round : reading.round now = reading.round (state party)) (entered : reading.entered now)
    (done : ∀ task, reading.done task now = reading.done task (state party))
    (memory : ∀ place, reading.value place now = reading.value place (state party)) :
    Step work (reading.view state) (reading.view (Function.update state party now)) := by
  refine .enter party complete (view_round reading state party now round) ?_ (view_done reading state party now done)
    (view_memory reading state party now memory)
  intro other
  simp only [Reading.view]
  by_cases own : other = party
  · rw [own, Function.update_self]
    exact ⟨fun _ => .inl rfl, fun _ => entered⟩
  · rw [Function.update_of_ne own]
    exact ⟨.inr, fun either => either.resolve_left own⟩

theorem view_leave (work : Work Party Task Place Value) [DecidableEq Place] (owners : reading.owner = work.owner)
    (inside : reading.entered (state party))
    (all : ∀ other, (reading.round (state other) = reading.round (state party) ∧ reading.entered (state other)) ∨
      reading.round (state party) < reading.round (state other))
    (round : reading.round now = reading.round (state party) + 1) (outside : ¬ reading.entered now)
    (undone : ∀ task, ¬ reading.done task now)
    (memory : ∀ place, reading.value place now = reading.value place (state party)) :
    Step work (reading.view state) (reading.view (Function.update state party now)) := by
  refine .leave party inside all ?_ ?_ ?_ ?_ (view_memory reading state party now memory)
  · simpa [Reading.view] using round
  · intro other own
    simp [Reading.view, own]
  · intro other
    by_cases own : other = party
    · simp [Reading.view, own, outside]
    · simp [Reading.view, own]
  · intro task
    by_cases own : work.owner task = party
    · simp [Reading.view, owners, own, undone]
    · simp [Reading.view, owners, own]

end Reading

end Supersteps
