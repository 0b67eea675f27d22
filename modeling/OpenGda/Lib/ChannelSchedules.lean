import OpenGda.Lib.ChannelRuns

set_option autoImplicit false

-- A family of call sequences completes in every order of steps exactly when its waits
-- can be laid out in time, and so when it completes in one.
namespace Channels

open Machine

variable {Party Label Payload : Type} [DecidableEq Party] [DecidableEq Label]

def Finished (state : State Party Label Payload) : Prop := ∀ party, state.todo party = []

def Deadlocked (state : State Party Label Payload) : Prop := Stuck step state ∧ ¬ Finished state

structure Completes (start : State Party Label Payload) (replies : Party → List (Option Payload)) : Prop where
  ends : ∃ bound, ∀ actions state, run step start actions = some state → actions.length ≤ bound
  free : ∀ state, Reach step always start state → ¬ Deadlocked state
  answers : ∀ state, Reach step always start state → Finished state → state.replies = replies

variable (progs : Party → List (Call Party Label Payload))

def Answered (replies : Party → List (Option Payload)) : Prop :=
  ∀ party, (replies party).length = (progs party).length ∧ ∀ index call reply, (progs party)[index]? = some call →
    (replies party)[index]? = some reply → Answers progs party index call reply

-- `time party count` is when the party has returned from its first `count` calls.
structure Scheduled (time : Party → Nat → Nat) : Prop where
  order : ∀ party index, index < (progs party).length → time party index < time party (index + 1)
  waits : ∀ party index take place payload, Awaits progs party index take place payload →
    time take.src place < time party (index + 1)

theorem answers_unique (party : Party) (index : Nat) (call : Call Party Label Payload) (reply other : Option Payload)
    (one : Answers progs party index call reply)
    (two : Answers progs party index call other) : reply = other := by
  cases wants : call.take with
  | none =>
      simp only [Answers, wants] at one two
      rw [one, two]
  | some take =>
      simp only [Answers, wants] at one two
      obtain ⟨place, payload, awaits, _, rfl⟩ := one
      obtain ⟨another, message, also, _, rfl⟩ := two
      rw [(awaits_unique progs party index take place another payload message awaits also).2]

theorem answered_unique (replies others : Party → List (Option Payload)) (one : Answered progs replies)
    (two : Answered progs others) : replies = others := by
  funext party
  obtain ⟨length, each⟩ := one party
  obtain ⟨length', each'⟩ := two party
  apply List.ext_getElem (length.trans length'.symm)
  intro index inside inside'
  have found : (progs party)[index]? = some ((progs party)[index]) := List.getElem?_eq_getElem (length ▸ inside)
  exact answers_unique progs party index _ _ _ (each index _ _ found (List.getElem?_eq_getElem inside))
    (each' index _ _ found (List.getElem?_eq_getElem inside'))

theorem finished_answered (state : State Party Label Payload) (flow : Flow progs state) (finished : Finished state) :
    Answered progs state.replies := by
  intro party
  refine ⟨?_, flow.replies party⟩
  have todo := flow.todo party
  rw [finished party] at todo
  exact Nat.le_antisymm (flow.within party) (List.drop_eq_nil_iff.mp todo.symm)

theorem empty_not_issued (state : State Party Label Payload) (flow : Flow progs state) (party : Party)
    (take : Take Party Label Payload) (place : Nat) (payload : Payload)
    (awaits : Awaits progs party (state.returned party) take place payload)
    (empty : state.channels take.src party take.label = []) : state.issued take.src ≤ place := by
  by_contra early
  obtain ⟨other, found, posts⟩ := awaits.post
  rw [flow.channels, List.drop_eq_nil_iff, ← awaits.turn] at empty
  have next := posted_take_succ party take.label (progs take.src) place other found
  have grows : (posted party take.label ((progs take.src).take (place + 1))).length ≤
      (posted party take.label ((progs take.src).take (state.issued take.src))).length :=
    ((List.take_sublist_take_left (Nat.lt_of_not_le early)).filterMap _).length_le
  rw [next, posts, List.length_append, Option.toList_some, List.length_singleton] at grows
  exact Nat.not_succ_le_self _ (Nat.le_trans grows empty)

theorem time_mono (time : Party → Nat → Nat) (scheduled : Scheduled progs time) (party : Party) (early late : Nat)
    (before : early ≤ late) (inside : late ≤ (progs party).length) : time party early ≤ time party late := by
  induction late, before using Nat.le_induction with
  | base => exact Nat.le_refl _
  | succ late before ih =>
      exact Nat.le_trans (ih (Nat.le_of_succ_le inside)) (Nat.le_of_lt (scheduled.order party late inside))

theorem stuck_waits_earlier (replies : Party → List (Option Payload)) (answered : Answered progs replies)
    (time : Party → Nat → Nat) (scheduled : Scheduled progs time) (state : State Party Label Payload)
    (flow : Flow progs state) (stuck : Stuck step state) (party : Party) (unfinished : state.todo party ≠ []) :
    ∃ other, state.todo other ≠ [] ∧ time other (state.returned other + 1) < time party (state.returned party + 1) := by
  have due : ∀ call take rest, state.todo party = call :: rest → call.take = some take → ∃ place payload,
      Awaits progs party (state.returned party) take place payload ∧ take.fits payload = true := by
    intro call take rest todo wants
    have found := (current_call progs state flow party call rest todo).1
    obtain ⟨length, each⟩ := answered party
    have inside : state.returned party < (replies party).length := length ▸ (List.getElem?_eq_some_iff.mp found).1
    have answers := each _ call _ found (List.getElem?_eq_getElem inside)
    simp only [Answers, wants] at answers
    obtain ⟨place, payload, awaits, fits, _⟩ := answers
    exact ⟨place, payload, awaits, fits⟩
  cases step_waits state party (stuck party) unfinished with
  | empty call rest take todo inside wants none =>
      obtain ⟨place, payload, awaits, _⟩ := due call take rest todo wants
      have behind := empty_not_issued progs state flow party take place payload awaits none
      obtain ⟨other, found, _⟩ := awaits.post
      have within : place < (progs take.src).length := (List.getElem?_eq_some_iff.mp found).1
      have waiting : state.todo take.src ≠ [] := by
        rw [flow.todo, Ne, List.drop_eq_nil_iff, Nat.not_le]
        exact Nat.lt_of_le_of_lt (Nat.le_trans (Nat.le_add_right _ _) behind) within
      have entered : state.entered take.src = true := by
        cases step_waits state take.src (stuck take.src) waiting with
        | empty | unfit => assumption
      rw [State.issued, entered] at behind
      refine ⟨take.src, waiting, ?_⟩
      exact Nat.lt_of_le_of_lt (time_mono progs time scheduled take.src _ place behind (Nat.le_of_lt within))
        (scheduled.waits party _ take place payload awaits)
  | unfit call rest take payload more todo inside wants head unfit =>
      obtain ⟨place, message, awaits, fits⟩ := due call take rest todo wants
      have found := (current_call progs state flow party call rest todo).1
      obtain ⟨another, also, _⟩ := head_awaited progs state flow party call take payload more found wants head
      rw [(awaits_unique progs party _ take place another message payload awaits also).2, unfit] at fits
      cases fits

theorem scheduled_not_deadlocked (replies : Party → List (Option Payload)) (answered : Answered progs replies)
    (time : Party → Nat → Nat) (scheduled : Scheduled progs time) (state : State Party Label Payload)
    (flow : Flow progs state) : ¬ Deadlocked state := by
  rintro ⟨stuck, unfinished⟩
  have none_waits : ∀ moment party, time party (state.returned party + 1) = moment → state.todo party = [] := by
    intro moment
    induction moment using Nat.strong_induction_on with
    | _ moment ih =>
        intro party same
        by_contra waiting
        obtain ⟨other, also, earlier⟩ :=
          stuck_waits_earlier progs replies answered time scheduled state flow stuck party waiting
        exact also (ih _ (same ▸ earlier) other rfl)
  exact unfinished fun party => none_waits _ party rfl

structure Timed (time : Party → Nat → Nat) (now : Nat) (state : State Party Label Payload) : Prop where
  past : ∀ party count, count ≤ state.returned party → time party count ≤ now
  order : ∀ party index, index < state.returned party → time party index < time party (index + 1)
  waits : ∀ party index take place payload, index < state.returned party →
    Awaits progs party index take place payload →
      place ≤ state.returned take.src ∧ time take.src place < time party (index + 1)

theorem finish_timed (time : Party → Nat → Nat) (now : Nat) (before after : State Party Label Payload) (party : Party)
    (timed : Timed progs time now before) (own : after.returned party = before.returned party + 1)
    (others : ∀ other, other ≠ party → after.returned other = before.returned other)
    (posted : ∀ take place payload, Awaits progs party (before.returned party) take place payload →
      place ≤ before.returned take.src) : ∃ time now, Timed progs time now after := by
  have grows : ∀ other, before.returned other ≤ after.returned other := by
    intro other
    by_cases mine : other = party
    · rw [mine, own]
      exact Nat.le_succ _
    · rw [others other mine]
  let later : Party → Nat → Nat := fun other count =>
    if other = party ∧ count = before.returned party + 1 then now + 1 else time other count
  have old : ∀ other count, count ≤ before.returned other → later other count = time other count := by
    intro other count past
    apply if_neg
    rintro ⟨rfl, rfl⟩
    exact Nat.not_succ_le_self _ past
  have new : later party (before.returned party + 1) = now + 1 := if_pos ⟨rfl, rfl⟩
  have cases_of : ∀ other index, index < after.returned other →
      index < before.returned other ∨ other = party ∧ index = before.returned party := by
    intro other index inside
    by_cases mine : other = party
    · subst mine
      rw [own] at inside
      exact (Nat.lt_succ_iff_lt_or_eq.mp inside).imp_right fun same => ⟨rfl, same⟩
    · rw [others other mine] at inside
      exact .inl inside
  refine ⟨later, now + 1, ?_, ?_, ?_⟩
  · intro other count past
    by_cases inside : count ≤ before.returned other
    · rw [old other count inside]
      exact Nat.le_succ_of_le (timed.past other count inside)
    · by_cases mine : other = party
      · subst mine
        rw [own] at past
        rw [Nat.le_antisymm past (Nat.lt_of_not_le inside), new]
      · rw [others other mine] at past
        exact absurd past inside
  · intro other index inside
    rcases cases_of other index inside with early | ⟨rfl, rfl⟩
    · rw [old other index (Nat.le_of_lt early), old other (index + 1) early]
      exact timed.order other index early
    · rw [old other _ (Nat.le_refl _), new]
      exact Nat.lt_succ_of_le (timed.past other _ (Nat.le_refl _))
  · intro other index take place payload inside awaits
    rcases cases_of other index inside with early | ⟨rfl, rfl⟩
    · obtain ⟨passed, before_it⟩ := timed.waits other index take place payload early awaits
      rw [old take.src place passed, old other (index + 1) early]
      exact ⟨Nat.le_trans passed (grows take.src), before_it⟩
    · have passed := posted take place payload awaits
      rw [old take.src place passed, new]
      exact ⟨Nat.le_trans passed (grows take.src), Nat.lt_succ_of_le (timed.past take.src place passed)⟩

theorem step_timed (time : Party → Nat → Nat) (now : Nat) (before after : State Party Label Payload) (party : Party)
    (flow : Flow progs before) (timed : Timed progs time now before) (taken : step before party = some after) :
    ∃ time now, Timed progs time now after := by
  have finished : ∀ (middle : State Party Label Payload) rest reply, middle.replies = before.replies →
      (middle.finish party rest reply).returned party = before.returned party + 1 ∧
        ∀ other, other ≠ party → (middle.finish party rest reply).returned other = before.returned other := by
    intro middle rest reply same
    constructor
    · simp [State.finish, State.returned, same]
    · intro other different
      simp [State.finish, State.returned, same, different]
  cases step_moves before after party taken with
  | enter call rest todo outside =>
      refine ⟨time, now, ?_, ?_, ?_⟩
      · simpa using timed.past
      · simpa using timed.order
      · simpa using timed.waits
  | leave call rest todo inside quiet =>
      obtain ⟨own, others⟩ := finished before rest none rfl
      apply finish_timed progs time now before _ party timed own others
      intro take place payload awaits
      obtain ⟨again, found, wants⟩ := awaits.call
      rw [(current_call progs before flow party call rest todo).1] at found
      cases found
      rw [quiet] at wants
      cases wants
  | take call rest take payload more todo inside wants head fits =>
      obtain ⟨own, others⟩ := finished (before.setChannel take.src party take.label more) rest (some payload) rfl
      apply finish_timed progs time now before _ party timed own others
      intro take' place' payload' awaits
      have found := (current_call progs before flow party call rest todo).1
      obtain ⟨again, found', wants'⟩ := awaits.call
      rw [found] at found'
      cases found'
      rw [wants] at wants'
      cases wants'
      obtain ⟨place, issued, posted⟩ := head_awaited progs before flow party call take payload more found wants head
      rw [(awaits_unique progs party _ take place' place payload' payload awaits issued).1]
      have ahead : before.issued take.src ≤ before.returned take.src + 1 :=
        Nat.add_le_add_left (Bool.toNat_le (before.entered take.src)) (before.returned take.src)
      exact Nat.le_of_lt_succ (Nat.lt_of_lt_of_le posted ahead)

theorem reachable_timed (state : State Party Label Payload) (reached : Reach step always (start progs) state) :
    ∃ time now, Timed progs time now state := by
  induction reached with
  | start =>
      refine ⟨fun _ _ => 0, 0, fun _ _ _ => Nat.le_refl _, ?_, ?_⟩
      · intro party index inside
        simp [start, State.returned] at inside
      · intro party index take place payload inside
        simp [start, State.returned] at inside
  | step before after party reached permitted taken ih =>
      obtain ⟨time, now, timed⟩ := ih
      exact step_timed progs time now before after party (reachable_flow progs before reached) timed taken

theorem finished_scheduled (state : State Party Label Payload) (reached : Reach step always (start progs) state)
    (finished : Finished state) : ∃ time, Scheduled progs time := by
  obtain ⟨time, now, timed⟩ := reachable_timed progs state reached
  have whole : ∀ party, state.returned party = (progs party).length := fun party =>
    (finished_answered progs state (reachable_flow progs state reached) finished party).1
  refine ⟨time, ?_, ?_⟩
  · intro party index inside
    exact timed.order party index (whole party ▸ inside)
  · intro party index take place payload awaits
    obtain ⟨call, found, _⟩ := awaits.call
    have inside : index < (progs party).length := (List.getElem?_eq_some_iff.mp found).1
    exact (timed.waits party index take place payload (whole party ▸ inside) awaits).2

section Finite

variable [Fintype Party]

def State.steps (state : State Party Label Payload) (party : Party) : Nat :=
  2 * (state.todo party).length - (state.entered party).toNat

def State.measure (state : State Party Label Payload) : Nat := ∑ party, state.steps party

theorem step_measure (before after : State Party Label Payload) (party : Party) (taken : step before party = some after) :
    after.measure < before.measure := by
  have moves := step_moves before after party taken
  have less : after.steps party < before.steps party := by
    cases moves with
    | enter call rest todo outside => simp [State.steps, todo, outside]
    | leave call rest todo inside quiet =>
        simp [State.steps, State.finish, todo, inside]
        omega
    | take call rest take payload more todo inside wants head fits =>
        simp [State.steps, State.finish, todo, inside]
        omega
  refine sum_move_lt Finset.univ before.steps after.steps party (Finset.mem_univ party) less ?_
  intro other own
  cases moves <;> simp [State.steps, State.finish, own]

theorem runs_end (start : State Party Label Payload) :
    ∃ bound, ∀ actions state, run step start actions = some state → actions.length ≤ bound :=
  ⟨start.measure, fun actions state ran => run_length step (fun _ => True) State.measure (fun _ _ _ _ _ => trivial)
    (fun before after party _ taken => step_measure before after party taken) actions start state trivial ran⟩

theorem free_finishes (free : ∀ state, Reach step always (start progs) state → ¬ Deadlocked state) :
    ∃ state, Reach step always (start progs) state ∧ Finished state := by
  obtain ⟨state, reached, stuck⟩ := stuck_reachable step (fun _ => True) State.measure (fun _ _ _ _ _ => trivial)
    (fun before after party _ taken => step_measure before after party taken) (start progs) trivial
  refine ⟨state, reached, ?_⟩
  by_contra waiting
  exact free state reached ⟨stuck, waiting⟩

theorem deadlock_free_iff (replies : Party → List (Option Payload)) (answered : Answered progs replies) :
    (∀ state, Reach step always (start progs) state → ¬ Deadlocked state) ↔ ∃ time, Scheduled progs time := by
  constructor
  · intro free
    obtain ⟨state, reached, finished⟩ := free_finishes progs free
    exact finished_scheduled progs state reached finished
  · rintro ⟨time, scheduled⟩ state reached
    exact scheduled_not_deadlocked progs replies answered time scheduled state (reachable_flow progs state reached)

theorem completes_iff (replies : Party → List (Option Payload)) :
    Completes (start progs) replies ↔ Answered progs replies ∧ ∃ time, Scheduled progs time := by
  constructor
  · intro completes
    obtain ⟨state, reached, finished⟩ := free_finishes progs completes.free
    refine ⟨?_, finished_scheduled progs state reached finished⟩
    rw [← completes.answers state reached finished]
    exact finished_answered progs state (reachable_flow progs state reached) finished
  · rintro ⟨answered, scheduled⟩
    refine ⟨runs_end (start progs), (deadlock_free_iff progs replies answered).mpr scheduled, ?_⟩
    intro state reached finished
    exact answered_unique progs state.replies replies
      (finished_answered progs state (reachable_flow progs state reached) finished) answered

theorem completes_of_finished (state : State Party Label Payload) (reached : Reach step always (start progs) state)
    (finished : Finished state) : Completes (start progs) state.replies :=
  (completes_iff progs state.replies).mpr ⟨finished_answered progs state (reachable_flow progs state reached) finished,
    finished_scheduled progs state reached finished⟩

theorem completes_of_run [DecidableEq Payload] (replies : Party → List (Option Payload)) (actions : List Party)
    (decided : (run (guarded step always) (start progs) actions).any (fun state =>
      decide ((∀ party, (state.todo party).isEmpty = true) ∧ ∀ party, state.replies party = replies party)) = true) :
    Completes (start progs) replies := by
  obtain ⟨state, reached, finished, same⟩ := reach_of_decided step always actions (start progs) _ decided
  have completes := completes_of_finished progs state reached fun party => List.isEmpty_iff.mp (finished party)
  rwa [funext same] at completes

end Finite

end Channels
