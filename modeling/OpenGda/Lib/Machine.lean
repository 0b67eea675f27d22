import Mathlib

set_option autoImplicit false

namespace Machine

-- For the numerals that name the parties of a small machine.
instance twoParties : NeZero 2 := ⟨by decide⟩

instance threeParties : NeZero 3 := ⟨by decide⟩

variable {State Action : Type}

-- A machine is its partial step function: an action it refuses is not enabled.
def run (step : State → Action → Option State) : State → List Action → Option State
  | state, [] => some state
  | state, action :: rest => (step state action).bind fun next => run step next rest

inductive Reach (step : State → Action → Option State) (allowed : State → Action → Prop)
    (start : State) : State → Prop where
  | start : Reach step allowed start start
  | step (before after : State) (action : Action) (previous : Reach step allowed start before)
      (permitted : allowed before action) (taken : step before action = some after) :
      Reach step allowed start after

def always : State → Action → Prop := fun _ _ => True

instance (state : State) (action : Action) : Decidable (always state action) := isTrue trivial

theorem reach_invariant (step : State → Action → Option State) (allowed : State → Action → Prop)
    (inv : State → Prop) (start state : State) (initially : inv start)
    (preserved : ∀ before after action, inv before → allowed before action →
      step before action = some after → inv after)
    (reached : Reach step allowed start state) : inv state := by
  induction reached with
  | start => exact initially
  | step before after action _ permitted taken ih => exact preserved before after action ih permitted taken

theorem reach_trans (step : State → Action → Option State) (allowed : State → Action → Prop)
    (start middle state : State) (first : Reach step allowed start middle)
    (second : Reach step allowed middle state) : Reach step allowed start state := by
  induction second with
  | start => exact first
  | step before after action _ permitted taken ih => exact .step before after action ih permitted taken

theorem reach_head (step : State → Action → Option State) (allowed : State → Action → Prop)
    (start middle state : State) (action : Action) (permitted : allowed start action)
    (taken : step start action = some middle) (rest : Reach step allowed middle state) :
    Reach step allowed start state :=
  reach_trans step allowed start middle state (.step start middle action .start permitted taken) rest

theorem reach_sweep {Place View : Type} (step : State → Action → Option State) (allowed : State → Action → Prop)
    (view : State → Place → View) (before after : Place → View → Prop)
    (moves : ∀ place state, before place (view state place) → ∃ next, Reach step allowed state next ∧
      after place (view next place) ∧ ∀ other, other ≠ place → view next other = view state other)
    (places : List Place) (distinct : places.Nodup) (state : State)
    (ready : ∀ place ∈ places, before place (view state place)) :
    ∃ next, Reach step allowed state next ∧ (∀ place ∈ places, after place (view next place)) ∧
      ∀ other, other ∉ places → view next other = view state other := by
  induction places generalizing state with
  | nil => exact ⟨state, .start, fun place member => absurd member List.not_mem_nil, fun _ _ => rfl⟩
  | cons place rest ih =>
      obtain ⟨absent, distinct⟩ := List.nodup_cons.mp distinct
      obtain ⟨middle, first, moved, others⟩ := moves place state (ready place List.mem_cons_self)
      have readyRest : ∀ other ∈ rest, before other (view middle other) := by
        intro other member
        rw [others other fun same => absent (same ▸ member)]
        exact ready other (List.mem_cons_of_mem place member)
      obtain ⟨next, second, movedRest, othersRest⟩ := ih distinct middle readyRest
      refine ⟨next, reach_trans step allowed state middle next first second, ?_, ?_⟩
      · intro other member
        rcases List.mem_cons.mp member with same | later
        · rw [same, othersRest place absent]
          exact moved
        · exact movedRest other later
      · intro other outside
        obtain ⟨different, later⟩ := not_or.mp (mt List.mem_cons.mpr outside)
        rw [othersRest other later, others other different]

theorem run_append (step : State → Action → Option State) (first second : List Action) (start : State) :
    run step start (first ++ second) = (run step start first).bind fun middle => run step middle second := by
  induction first generalizing start with
  | nil => rfl
  | cons action rest ih =>
      simp only [List.cons_append, run, Option.bind_assoc]
      congr 1
      funext next
      exact ih next

def AllSteps (step : State → Action → Option State) (allowed : State → Action → Prop) (start : State)
    (actions : List Action) : Prop :=
  ∀ done before after action, run step start (actions.take done) = some before → actions[done]? = some action →
    step before action = some after → allowed before action

theorem run_take_succ (step : State → Action → Option State) (actions : List Action) (done : Nat)
    (start before after : State) (action : Action) (ran : run step start (actions.take done) = some before)
    (found : actions[done]? = some action) (taken : step before action = some after) :
    run step start (actions.take (done + 1)) = some after := by
  rw [List.take_add_one, found, run_append, ran]
  simp [run, taken]

theorem reach_of_steps (step : State → Action → Option State) (allowed : State → Action → Prop) (start : State)
    (actions : List Action) (permitted : AllSteps step allowed start actions) (done : Nat) (state : State)
    (ran : run step start (actions.take done) = some state) : Reach step allowed start state := by
  induction done generalizing state with
  | zero =>
      cases ran
      exact .start
  | succ done ih =>
      rw [List.take_add_one, run_append] at ran
      obtain ⟨before, reached, last⟩ := Option.bind_eq_some_iff.mp ran
      cases found : actions[done]? with
      | none =>
          rw [found] at last
          cases last
          exact ih _ reached
      | some action =>
          rw [found] at last
          obtain ⟨after, taken, rfl⟩ : ∃ after, step before action = some after ∧ after = state := by
            simpa [run] using last
          exact .step before after action (ih before reached)
            (permitted done before after action reached found taken) taken

def Stuck (step : State → Action → Option State) (state : State) : Prop := ∀ action, step state action = none

theorem run_length (step : State → Action → Option State) (inv : State → Prop) (measure : State → Nat)
    (preserved : ∀ before after action, inv before → step before action = some after → inv after)
    (decreases : ∀ before after action, inv before → step before action = some after → measure after < measure before)
    (actions : List Action) (start state : State) (initially : inv start) (ran : run step start actions = some state) :
    actions.length ≤ measure start := by
  induction actions generalizing start with
  | nil => exact Nat.zero_le _
  | cons action rest ih =>
      simp only [run, Option.bind_eq_some_iff] at ran
      obtain ⟨next, taken, ran⟩ := ran
      have later := ih next (preserved start next action initially taken) ran
      exact Nat.lt_of_le_of_lt later (decreases start next action initially taken)

theorem sum_move_lt {Party : Type} (parties : Finset Party) (before after : Party → Nat) (party : Party)
    (among : party ∈ parties) (less : after party < before party)
    (others : ∀ other, other ≠ party → after other = before other) :
    ∑ other ∈ parties, after other < ∑ other ∈ parties, before other := by
  apply Finset.sum_lt_sum
  · intro other _
    by_cases own : other = party
    · rw [own]
      exact Nat.le_of_lt less
    · exact Nat.le_of_eq (others other own)
  · exact ⟨party, among, less⟩

theorem sum_update_lt {Stage : Type} (left : Stage → Nat) (parties party : Nat) (stages : Nat → Stage) (stage : Stage)
    (among : party < parties) (less : left stage < left (stages party)) :
    ∑ other ∈ Finset.range parties, left (Function.update stages party stage other) <
      ∑ other ∈ Finset.range parties, left (stages other) := by
  refine sum_move_lt (Finset.range parties) (fun other => left (stages other))
    (fun other => left (Function.update stages party stage other)) party (Finset.mem_range.mpr among) ?_ ?_
  · simpa only [Function.update_self] using less
  · intro other own
    simp only [Function.update_of_ne own]

theorem stuck_reachable (step : State → Action → Option State) (inv : State → Prop) (measure : State → Nat)
    (preserved : ∀ before after action, inv before → step before action = some after → inv after)
    (decreases : ∀ before after action, inv before → step before action = some after → measure after < measure before)
    (start : State) (initially : inv start) : ∃ state, Reach step always start state ∧ Stuck step state := by
  induction size : measure start using Nat.strong_induction_on generalizing start with
  | _ size ih =>
      subst size
      by_cases moves : ∃ action next, step start action = some next
      · obtain ⟨action, next, taken⟩ := moves
        obtain ⟨state, reached, stuck⟩ := ih (measure next) (decreases start next action initially taken) next
          (preserved start next action initially taken) rfl
        exact ⟨state, reach_head step always start next state action trivial taken reached, stuck⟩
      · refine ⟨start, .start, fun action => ?_⟩
        cases taken : step start action with
        | none => rfl
        | some next => exact absurd ⟨action, next, taken⟩ moves

def guarded (step : State → Action → Option State) (allowed : State → Action → Prop)
    [∀ state action, Decidable (allowed state action)] (state : State) (action : Action) : Option State :=
  if allowed state action then step state action else none

theorem reach_of_run (step : State → Action → Option State) (allowed : State → Action → Prop)
    [∀ state action, Decidable (allowed state action)] (actions : List Action) (start state : State)
    (ran : run (guarded step allowed) start actions = some state) : Reach step allowed start state := by
  induction actions generalizing start with
  | nil =>
      cases ran
      exact .start
  | cons action rest ih =>
      simp only [run, Option.bind_eq_some_iff] at ran
      obtain ⟨next, taken, ran⟩ := ran
      by_cases permitted : allowed start action
      · rw [guarded, if_pos permitted] at taken
        exact reach_head step allowed start next state action permitted taken (ih next ran)
      · rw [guarded, if_neg permitted] at taken
        exact absurd taken (Option.some_ne_none next).symm

theorem reach_of_decided (step : State → Action → Option State) (allowed : State → Action → Prop)
    [∀ state action, Decidable (allowed state action)] (actions : List Action) (start : State)
    (facts : State → Prop) [DecidablePred facts]
    (decided : (run (guarded step allowed) start actions).any (fun state => decide (facts state)) = true) :
    ∃ state, Reach step allowed start state ∧ facts state := by
  obtain ⟨state, ran, holds⟩ := (Option.any_eq_true _ _).mp decided
  exact ⟨state, reach_of_run step allowed actions start state ran, of_decide_eq_true holds⟩

theorem run_simulates {Concrete Abstract : Type} (concrete : Concrete → Action → Option Concrete)
    (abstract : Abstract → Action → Option Abstract) (related : Concrete → Abstract → Prop)
    (matched : ∀ before after image action, related before image → concrete before action = some after →
      ∃ next, abstract image action = some next ∧ related after next)
    (actions : List Action) (start state : Concrete) (image : Abstract) (initially : related start image)
    (ran : run concrete start actions = some state) :
    ∃ last, run abstract image actions = some last ∧ related state last := by
  induction actions generalizing start image with
  | nil =>
      cases ran
      exact ⟨image, rfl, initially⟩
  | cons action rest ih =>
      simp only [run, Option.bind_eq_some_iff] at ran
      obtain ⟨middle, taken, ran⟩ := ran
      obtain ⟨next, followed, still⟩ := matched start middle image action initially taken
      obtain ⟨last, reached, final⟩ := ih middle next still ran
      exact ⟨last, by simp [run, followed, reached], final⟩

theorem run_lockstep {First Second : Type} (first : First → Action → Option First)
    (second : Second → Action → Option Second) (related : First → Second → Prop) (actions : List Action)
    (matched : ∀ one other action, action ∈ actions → related one other →
      (∃ next image, first one action = some next ∧ second other action = some image ∧ related next image) ∨
        (first one action = none ∧ second other action = none))
    (one : First) (other : Second) (initially : related one other) :
    (∃ last image, run first one actions = some last ∧ run second other actions = some image ∧ related last image) ∨
      (run first one actions = none ∧ run second other actions = none) := by
  induction actions generalizing one other with
  | nil => exact .inl ⟨one, other, rfl, rfl, initially⟩
  | cons action rest ih =>
      rcases matched one other action List.mem_cons_self initially with ⟨next, image, taken, followed, still⟩ | ⟨no, nor⟩
      · simp only [run, taken, followed, Option.bind_some]
        exact ih (fun one other action member => matched one other action (List.mem_cons_of_mem _ member)) next image still
      · exact .inr ⟨by simp [run, no], by simp [run, nor]⟩

end Machine
