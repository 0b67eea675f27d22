import OpenGda.Lib.FencedStore

set_option autoImplicit false

-- Which families of programs complete over a fenced store, whatever the order of
-- their steps: those whose fences are as many and whose gets come late enough.
namespace FencedStore

open Machine

variable {Key Value Error Result : Type} {size : Nat}

structure Setting (size : Nat) (Key Value Error Result : Type) where
  puts : List (Entry Key Value)
  base : Nat
  progs : Fin size → Prog Key Value Error Result
  answers : Key → Option Value

def Setting.trace (setting : Setting size Key Value Error Result) (party : Fin size) : List (Event Key Value) :=
  events setting.answers (setting.progs party)

def Setting.start (setting : Setting size Key Value Error Result) : State size Key Value Error Result :=
  FencedStore.start setting.puts setting.base setting.progs

def Setting.Puts (setting : Setting size Key Value Error Result) (entry : Entry Key Value) : Prop :=
  entry ∈ setting.puts ∨ ∃ party, entry ∈ entries setting.base (setting.trace party)

structure Sound (setting : Setting size Key Value Error Result) : Prop where
  before : ∀ entry ∈ setting.puts, entry.phase < setting.base
  truthful : ∀ entry, setting.Puts entry → setting.answers entry.key = some entry.value
  strict : ∀ party, Strict (setting.progs party)

def Visible (setting : Setting size Key Value Error Result) : Prop :=
  ∀ party, ∀ demand ∈ demands setting.base (setting.trace party),
    ∃ entry, setting.Puts entry ∧ entry.key = demand.1 ∧ entry.phase < demand.2

def Level (setting : Setting size Key Value Error Result) : Prop :=
  ∀ party other, fences (setting.trace party) = fences (setting.trace other)

structure Tracks (setting : Setting size Key Value Error Result) (state : State size Key Value Error Result)
    (party : Fin size) (past : List (Event Key Value)) : Prop where
  trace : setting.trace party = past ++ events setting.answers (state.progs party)
  outcome : outcome setting.answers (state.progs party) = outcome setting.answers (setting.progs party)
  strict : Strict (state.progs party)
  returned : state.returned party = setting.base + fences past
  entries : ∀ entry ∈ entries setting.base past, entry ∈ state.puts
  demands : ∀ demand ∈ demands setting.base past, ∃ entry ∈ state.puts, entry.key = demand.1 ∧ entry.phase < demand.2

def Failed (prog : Prog Key Value Error Result) : Prop := ∃ error, prog = .throw error

theorem not_failed (answers : Key → Option Value) (prog : Prog Key Value Error Result) (result : Result)
    (ends : outcome answers prog = .ok result) : ¬ Failed prog := by
  rintro ⟨error, rfl⟩
  cases ends

structure Tracking (setting : Setting size Key Value Error Result) (state : State size Key Value Error Result) :
    Prop where
  tracks : ∀ party, Failed (state.progs party) ∨ ∃ past, Tracks setting state party past
  fencing : ∀ party, state.called party = state.returned party ∨
    state.called party = state.returned party + 1 ∧ ∃ next, state.progs party = .fence next
  waited : ∀ party other, state.returned party ≤ state.called other
  puts : ∀ entry ∈ state.puts, setting.Puts entry
  kept : ∀ entry ∈ setting.puts, entry ∈ state.puts

inductive Moves (before : State size Key Value Error Result) (party : Fin size) (found : Key → Option Value) :
    State size Key Value Error Result → Prop where
  | put (key : Key) (value : Value) (next : Prog Key Value Error Result) (prog : before.progs party = .put key value next) :
      Moves before party found
        ({ before with puts := ⟨key, value, before.called party⟩ :: before.puts }.continueWith party next)
  | call (next : Prog Key Value Error Result) (prog : before.progs party = .fence next)
      (level : before.called party = before.returned party) :
      Moves before party found
        { before with called := Function.update before.called party (before.called party + 1) }
  | back (next : Prog Key Value Error Result) (prog : before.progs party = .fence next)
      (inside : before.called party ≠ before.returned party)
      (arrived : ∀ other, before.called party ≤ before.called other) :
      Moves before party found ({ before with
        returned := Function.update before.returned party (before.returned party + 1) }.continueWith party next)
  | get (key : Key) (next : Option Value → Prog Key Value Error Result) (prog : before.progs party = .get key next) :
      Moves before party found (before.continueWith party (next (found key)))

theorem moves_others (before after : State size Key Value Error Result) (party : Fin size) (found : Key → Option Value)
    (moves : Moves before party found after) (other : Fin size) (different : other ≠ party) :
    after.progs other = before.progs other ∧ after.returned other = before.returned other ∧
      after.called other = before.called other := by
  cases moves <;> simp [State.continueWith, different]

theorem start_tracking (setting : Setting size Key Value Error Result) (sound : Sound setting) :
    Tracking setting setting.start where
  tracks := fun party => .inr ⟨[], ⟨rfl, rfl, sound.strict party, rfl, by simp [entries], by simp [demands]⟩⟩
  fencing := fun _ => .inl rfl
  waited := fun _ _ => Nat.le_refl _
  puts := fun _ member => .inl member
  kept := fun _ member => member

theorem tracks_grow (setting : Setting size Key Value Error Result) (before after : State size Key Value Error Result)
    (party : Fin size) (past : List (Event Key Value)) (tracks : Tracks setting before party past)
    (progs : after.progs party = before.progs party) (returned : after.returned party = before.returned party)
    (puts : ∀ entry ∈ before.puts, entry ∈ after.puts) : Tracks setting after party past where
  trace := by rw [progs, tracks.trace]
  outcome := by rw [progs, tracks.outcome]
  strict := by rw [progs]; exact tracks.strict
  returned := by rw [returned, tracks.returned]
  entries := fun entry member => puts entry (tracks.entries entry member)
  demands := by
    intro demand member
    obtain ⟨entry, present, fits⟩ := tracks.demands demand member
    exact ⟨entry, puts entry present, fits⟩

theorem tracks_move (setting : Setting size Key Value Error Result) (before after : State size Key Value Error Result)
    (party : Fin size) (past : List (Event Key Value)) (event : Event Key Value) (tracks : Tracks setting before party past)
    (trace : events setting.answers (before.progs party) = event :: events setting.answers (after.progs party))
    (result : outcome setting.answers (after.progs party) = outcome setting.answers (before.progs party))
    (strict : Strict (after.progs party)) (returned : after.returned party = setting.base + fences (past ++ [event]))
    (puts : ∀ entry ∈ before.puts, entry ∈ after.puts)
    (put : ∀ entry ∈ entries (setting.base + fences past) [event], entry ∈ after.puts)
    (got : ∀ demand ∈ demands (setting.base + fences past) [event], ∃ entry ∈ after.puts,
      entry.key = demand.1 ∧ entry.phase < demand.2) :
    Tracks setting after party (past ++ [event]) where
  trace := by rw [tracks.trace, trace, List.append_assoc, List.singleton_append]
  outcome := result.trans tracks.outcome
  strict := strict
  returned := returned
  entries := by
    intro entry member
    rw [entries_append] at member
    rcases List.mem_append.mp member with old | new
    · exact puts entry (tracks.entries entry old)
    · exact put entry new
  demands := by
    intro demand member
    rw [demands_append] at member
    rcases List.mem_append.mp member with old | new
    · obtain ⟨entry, present, fits⟩ := tracks.demands demand old
      exact ⟨entry, puts entry present, fits⟩
    · exact got demand new

theorem tracking_move (setting : Setting size Key Value Error Result) (before after : State size Key Value Error Result)
    (party : Fin size) (inv : Tracking setting before)
    (others : ∀ other, other ≠ party → after.progs other = before.progs other ∧
      after.returned other = before.returned other ∧ after.called other = before.called other)
    (puts : ∀ entry ∈ before.puts, entry ∈ after.puts)
    (moved : Failed (after.progs party) ∨ ∃ past, Tracks setting after party past)
    (fencing : after.called party = after.returned party ∨
      after.called party = after.returned party + 1 ∧ ∃ next, after.progs party = .fence next)
    (waited : ∀ party other, after.returned party ≤ after.called other)
    (known : ∀ entry ∈ after.puts, setting.Puts entry) : Tracking setting after where
  tracks := by
    intro other
    by_cases own : other = party
    · rw [own]
      exact moved
    · obtain ⟨progs, returned, _⟩ := others other own
      rcases inv.tracks other with failed | ⟨past, tracks⟩
      · exact .inl (progs ▸ failed)
      · exact .inr ⟨past, tracks_grow setting before after other past tracks progs returned puts⟩
  fencing := by
    intro other
    by_cases own : other = party
    · rw [own]
      exact fencing
    · obtain ⟨progs, returned, called⟩ := others other own
      rw [progs, returned, called]
      exact inv.fencing other
  waited := waited
  puts := known
  kept := fun entry member => puts entry (inv.kept entry member)

theorem moving (setting : Setting size Key Value Error Result) (state : State size Key Value Error Result)
    (party : Fin size) (inv : Tracking setting state) (running : ¬ Failed (state.progs party))
    (outside : ∀ next, state.progs party ≠ .fence next) :
    state.called party = state.returned party ∧ ∃ past, Tracks setting state party past := by
  refine ⟨?_, (inv.tracks party).resolve_left running⟩
  rcases inv.fencing party with level | ⟨_, next, fence⟩
  · exact level
  · exact absurd fence (outside next)

theorem put_tracking (setting : Setting size Key Value Error Result) (before : State size Key Value Error Result)
    (party : Fin size) (key : Key) (value : Value) (next : Prog Key Value Error Result) (inv : Tracking setting before)
    (prog : before.progs party = .put key value next) :
    Tracking setting
      ({ before with puts := ⟨key, value, before.called party⟩ :: before.puts }.continueWith party next) := by
  obtain ⟨level, past, tracks⟩ := moving setting before party inv (by simp [Failed, prog]) (by simp [prog])
  have strict := tracks.strict
  rw [prog] at strict
  have phase : before.called party = setting.base + fences past := level.trans tracks.returned
  have here : Tracks setting ({ before with puts := ⟨key, value, before.called party⟩ :: before.puts }.continueWith
      party next) party (past ++ [.put key value]) := by
    apply tracks_move setting before _ party past (.put key value) tracks
    · simp [State.continueWith, prog, events]
    · simp [State.continueWith, prog, outcome]
    · simp only [State.continueWith, Function.update_self]
      exact strict
    · simp [State.continueWith, fences_append, fences, tracks.returned]
    · exact fun entry member => List.mem_cons_of_mem _ member
    · intro entry member
      rw [List.mem_singleton.mp member, ← phase]
      exact List.mem_cons_self
    · simp [demands]
  apply tracking_move setting before _ party inv
  · intro other different
    simp [State.continueWith, different]
  · exact fun entry member => List.mem_cons_of_mem _ member
  · exact .inr ⟨_, here⟩
  · exact .inl level
  · exact inv.waited
  · intro entry member
    rcases List.mem_cons.mp member with rfl | old
    · refine .inr ⟨party, ?_⟩
      rw [tracks.trace, entries_append, phase]
      simp [prog, events, entries]
    · exact inv.puts entry old

theorem call_tracking (setting : Setting size Key Value Error Result) (before : State size Key Value Error Result)
    (party : Fin size) (next : Prog Key Value Error Result) (inv : Tracking setting before)
    (prog : before.progs party = .fence next) (level : before.called party = before.returned party) :
    Tracking setting { before with called := Function.update before.called party (before.called party + 1) } := by
  have above : ∀ other, before.called other ≤ Function.update before.called party (before.called party + 1) other := by
    intro other
    by_cases own : other = party
    · subst own
      simp
    · simp [own]
  apply tracking_move setting before _ party inv
  · intro other different
    simp [different]
  · exact fun entry member => member
  · rcases inv.tracks party with failed | ⟨past, tracks⟩
    · exact .inl failed
    · exact .inr ⟨past, tracks_grow setting before _ party past tracks rfl rfl fun entry member => member⟩
  · exact .inr ⟨by simp [level], next, prog⟩
  · exact fun one other => Nat.le_trans (inv.waited one other) (above other)
  · exact inv.puts

theorem return_tracking (setting : Setting size Key Value Error Result) (before : State size Key Value Error Result)
    (party : Fin size) (next : Prog Key Value Error Result) (inv : Tracking setting before)
    (prog : before.progs party = .fence next) (inside : before.called party ≠ before.returned party)
    (arrived : ∀ other, before.called party ≤ before.called other) :
    Tracking setting ({ before with
      returned := Function.update before.returned party (before.returned party + 1) }.continueWith party next) := by
  obtain ⟨past, tracks⟩ := (inv.tracks party).resolve_left (by simp [Failed, prog])
  have strict := tracks.strict
  rw [prog] at strict
  have ahead : before.called party = before.returned party + 1 := ((inv.fencing party).resolve_left inside).1
  have here : Tracks setting ({ before with
      returned := Function.update before.returned party (before.returned party + 1) }.continueWith party next) party
      (past ++ [.fence]) := by
    apply tracks_move setting before _ party past .fence tracks
    · simp [State.continueWith, prog, events]
    · simp [State.continueWith, prog, outcome]
    · simp only [State.continueWith, Function.update_self]
      exact strict
    · simp [State.continueWith, fences_append, fences, tracks.returned, Nat.add_assoc]
    · exact fun entry member => member
    · simp [entries]
    · simp [demands]
  apply tracking_move setting before _ party inv
  · intro other different
    simp [State.continueWith, different]
  · exact fun entry member => member
  · exact .inr ⟨_, here⟩
  · exact .inl (by simp [State.continueWith, ahead])
  · intro one other
    by_cases own : one = party
    · subst own
      simpa [State.continueWith, ahead] using arrived other
    · simpa [State.continueWith, own] using inv.waited one other
  · exact inv.puts

variable [DecidableEq Key]

theorem lookup_found (puts : List (Entry Key Value)) (phase : Nat) (key : Key) (answers : Key → Option Value)
    (truthful : ∀ entry ∈ puts, answers entry.key = some entry.value)
    (present : ∃ entry ∈ puts, entry.key = key ∧ entry.phase < phase) : lookup puts phase key = answers key := by
  obtain ⟨entry, member, visible⟩ := present
  cases found : puts.find? (fun entry => decide (entry.key = key ∧ entry.phase < phase)) with
  | none => exact absurd visible (by simpa using List.find?_eq_none.mp found entry member)
  | some first =>
      have fits := List.find?_some found
      simp only [decide_eq_true_eq] at fits
      rw [lookup, found, Option.map_some, ← fits.1, truthful first (List.mem_of_find?_eq_some found)]

theorem lookup_some (puts : List (Entry Key Value)) (phase : Nat) (key : Key) (value : Value)
    (found : lookup puts phase key = some value) : ∃ entry ∈ puts, entry.key = key ∧ entry.phase < phase := by
  simp only [lookup, Option.map_eq_some_iff] at found
  obtain ⟨entry, first, _⟩ := found
  have fits := List.find?_some first
  simp only [decide_eq_true_eq] at fits
  exact ⟨entry, List.mem_of_find?_eq_some first, fits⟩

theorem lookup_answer (setting : Setting size Key Value Error Result) (sound : Sound setting)
    (state : State size Key Value Error Result) (inv : Tracking setting state) (phase : Nat) (key : Key)
    (present : ∃ entry ∈ state.puts, entry.key = key ∧ entry.phase < phase) :
    lookup state.puts phase key = setting.answers key :=
  lookup_found state.puts phase key setting.answers (fun entry member => sound.truthful entry (inv.puts entry member))
    present

theorem get_tracking (setting : Setting size Key Value Error Result) (before : State size Key Value Error Result)
    (party : Fin size) (key : Key) (next : Option Value → Prog Key Value Error Result) (sound : Sound setting)
    (inv : Tracking setting before) (prog : before.progs party = .get key next) :
    Tracking setting
      (before.continueWith party (next (lookup before.puts (before.returned party) key))) := by
  obtain ⟨level, past, tracks⟩ := moving setting before party inv (by simp [Failed, prog]) (by simp [prog])
  have strict := tracks.strict
  rw [prog] at strict
  apply tracking_move setting before _ party inv
  · intro other different
    simp [State.continueWith, different]
  · exact fun entry member => member
  · cases answer : lookup before.puts (before.returned party) key with
    | none =>
        obtain ⟨error, fails⟩ := strict.1
        exact .inl ⟨error, by simp [State.continueWith, fails]⟩
    | some value =>
        have present := lookup_some before.puts _ key value answer
        have right : setting.answers key = some value := by
          rw [← lookup_answer setting sound before inv _ key present, answer]
        refine .inr ⟨past ++ [.get key], ?_⟩
        apply tracks_move setting before _ party past (.get key) tracks
        · simp [State.continueWith, prog, events, right]
        · simp [State.continueWith, prog, outcome, right]
        · simpa only [State.continueWith, Function.update_self] using strict.2 value
        · simp [State.continueWith, fences_append, fences, tracks.returned]
        · exact fun entry member => member
        · simp [entries]
        · intro demand member
          rw [List.mem_singleton.mp member, ← tracks.returned]
          exact present
  · exact .inl level
  · exact inv.waited
  · exact inv.puts

theorem step_moves (before after : State size Key Value Error Result) (party : Fin size)
    (taken : step before party = some after) :
    Moves before party (lookup before.puts (before.returned party)) after := by
  cases prog : before.progs party with
  | done | throw => simp [step, prog] at taken
  | put key value next =>
      simp only [step, prog, Option.some.injEq] at taken
      rw [← taken]
      exact .put key value next prog
  | fence next =>
      simp only [step, prog] at taken
      split_ifs at taken with level arrived
      · rw [← Option.some.inj taken]
        exact .call next prog level
      · rw [← Option.some.inj taken]
        exact .back next prog level arrived
  | get key next =>
      simp only [step, prog, Option.some.injEq] at taken
      rw [← taken]
      exact .get key next prog

theorem step_tracking (setting : Setting size Key Value Error Result) (sound : Sound setting)
    (before after : State size Key Value Error Result) (party : Fin size) (inv : Tracking setting before)
    (taken : step before party = some after) : Tracking setting after := by
  cases step_moves before after party taken with
  | put key value next prog => exact put_tracking setting before party key value next inv prog
  | call next prog level => exact call_tracking setting before party next inv prog level
  | back next prog inside arrived => exact return_tracking setting before party next inv prog inside arrived
  | get key next prog => exact get_tracking setting before party key next sound inv prog

theorem reachable_tracking (setting : Setting size Key Value Error Result) (sound : Sound setting)
    (state : State size Key Value Error Result) (reached : Reach step always setting.start state) :
    Tracking setting state :=
  reach_invariant step always (Tracking setting) setting.start state (start_tracking setting sound)
    (fun before after party inv _ taken => step_tracking setting sound before after party inv taken) reached

def weight : List (Event Key Value) → Nat
  | [] => 0
  | .fence :: rest => weight rest + 2
  | _ :: rest => weight rest + 1

def remaining (setting : Setting size Key Value Error Result) (state : State size Key Value Error Result)
    (party : Fin size) : Nat :=
  weight (events setting.answers (state.progs party)) + state.returned party - state.called party

theorem step_remaining (setting : Setting size Key Value Error Result) (sound : Sound setting)
    (before after : State size Key Value Error Result) (party : Fin size) (inv : Tracking setting before)
    (taken : step before party = some after) : remaining setting after party < remaining setting before party := by
  have fencing := inv.fencing party
  cases step_moves before after party taken with
  | put key value next prog =>
      have level : before.called party = before.returned party := by simpa [prog] using fencing
      simp [remaining, State.continueWith, prog, events, weight, level]
  | call next prog level =>
      simp [remaining, prog, events, weight, level]
      omega
  | back next prog inside arrived =>
      have ahead : before.called party = before.returned party + 1 := (fencing.resolve_left inside).1
      simp [remaining, State.continueWith, prog, events, weight, ahead]
      omega
  | get key next prog =>
      have level : before.called party = before.returned party := by simpa [prog] using fencing
      cases answer : lookup before.puts (before.returned party) key with
      | none =>
          obtain ⟨past, tracks⟩ := (inv.tracks party).resolve_left (by simp [Failed, prog])
          have strict := tracks.strict
          rw [prog] at strict
          obtain ⟨error, fails⟩ := strict.1
          simp [remaining, State.continueWith, prog, events, weight, level, fails]
      | some value =>
          have right := lookup_answer setting sound before inv _ key (lookup_some before.puts _ key value answer)
          simp [remaining, State.continueWith, prog, events, weight, level, ← right, answer]

def measure (setting : Setting size Key Value Error Result) (state : State size Key Value Error Result) : Nat :=
  ∑ party, remaining setting state party

theorem step_measure (setting : Setting size Key Value Error Result) (sound : Sound setting)
    (before after : State size Key Value Error Result) (party : Fin size) (inv : Tracking setting before)
    (taken : step before party = some after) : measure setting after < measure setting before := by
  have less := step_remaining setting sound before after party inv taken
  refine sum_move_lt Finset.univ (remaining setting before) (remaining setting after) party (Finset.mem_univ party) less ?_
  intro other own
  obtain ⟨progs, returned, called⟩ := moves_others before after party _ (step_moves before after party taken) other own
  rw [remaining, remaining, progs, returned, called]

def Completes (start : State size Key Value Error Result) (results : Fin size → Result) : Prop :=
  (∃ bound, ∀ actions state, run step start actions = some state → actions.length ≤ bound) ∧
    ∀ state, Reach step always start state → Stuck step state → ∀ party, state.progs party = .done (results party)

theorem visible_lookup (setting : Setting size Key Value Error Result) (sound : Sound setting) (visible : Visible setting)
    (state : State size Key Value Error Result) (inv : Tracking setting state)
    (running : ∀ party, ¬ Failed (state.progs party)) (party : Fin size) (key : Key)
    (next : Option Value → Prog Key Value Error Result) (prog : state.progs party = .get key next) :
    lookup state.puts (state.returned party) key = setting.answers key := by
  apply lookup_answer setting sound state inv
  obtain ⟨past, tracks⟩ := (inv.tracks party).resolve_left (running party)
  have demanded : (key, state.returned party) ∈ demands setting.base (setting.trace party) := by
    rw [tracks.trace, demands_append, ← tracks.returned, prog]
    simp [events, demands]
  obtain ⟨entry, puts, same, before⟩ := visible party _ demanded
  refine ⟨entry, ?_, same, before⟩
  rcases puts with old | ⟨owner, member⟩
  · exact inv.kept entry old
  · obtain ⟨early, follows⟩ := (inv.tracks owner).resolve_left (running owner)
    rw [follows.trace, entries_append] at member
    rcases List.mem_append.mp member with published | later
    · exact follows.entries entry published
    · -- The owner has called every fence that the party has passed.
      have called := inv.waited party owner
      have phase : state.called owner ≤ entry.phase := by
        rw [← follows.returned] at later
        rcases inv.fencing owner with level | ⟨ahead, rest, fence⟩
        · rw [level]
          exact entries_phase _ _ entry later
        · rw [fence] at later
          rw [ahead]
          exact entries_phase _ _ entry later
      exact absurd before (Nat.not_lt.mpr (Nat.le_trans called phase))

theorem step_outcome (setting : Setting size Key Value Error Result) (sound : Sound setting) (visible : Visible setting)
    (before after : State size Key Value Error Result) (party : Fin size) (inv : Tracking setting before)
    (running : ∀ party, ¬ Failed (before.progs party)) (taken : step before party = some after) (other : Fin size) :
    outcome setting.answers (after.progs other) = outcome setting.answers (before.progs other) := by
  have moves := step_moves before after party taken
  by_cases own : other = party
  · subst own
    cases moves with
    | put key value next prog => simp [State.continueWith, prog, outcome]
    | call next prog level => rfl
    | back next prog inside arrived => simp [State.continueWith, prog, outcome]
    | get key next prog =>
        rw [visible_lookup setting sound visible before inv running other key next prog]
        simp [State.continueWith, prog, outcome]
  · rw [(moves_others before after party _ moves other own).1]

theorem reachable_outcome (setting : Setting size Key Value Error Result) (sound : Sound setting)
    (visible : Visible setting) (results : Fin size → Result)
    (ends : ∀ party, outcome setting.answers (setting.progs party) = .ok (results party))
    (state : State size Key Value Error Result) (reached : Reach step always setting.start state) :
    Tracking setting state ∧ ∀ party, outcome setting.answers (state.progs party) = .ok (results party) := by
  refine reach_invariant step always (fun state => Tracking setting state ∧
    ∀ party, outcome setting.answers (state.progs party) = .ok (results party)) setting.start state
    ⟨start_tracking setting sound, ends⟩ ?_ reached
  intro before after party inv _ taken
  refine ⟨step_tracking setting sound before after party inv.1 taken, ?_⟩
  intro other
  have running := fun party => not_failed setting.answers (before.progs party) (results party) (inv.2 party)
  rw [step_outcome setting sound visible before after party inv.1 running taken other, inv.2 other]

-- The party with the fewest fences called is not held up by anybody.
theorem stuck_done (setting : Setting size Key Value Error Result) (level : Level setting)
    (state : State size Key Value Error Result) (inv : Tracking setting state)
    (running : ∀ party, ¬ Failed (state.progs party)) (stuck : Stuck step state) (party : Fin size) :
    ∃ result, state.progs party = .done result := by
  have kinds : ∀ party, (∃ result, state.progs party = .done result) ∨
      state.called party = state.returned party + 1 ∧ (∃ next, state.progs party = .fence next) ∧
        ∃ other, state.called other < state.called party := by
    intro party
    have blocked := stuck party
    cases prog : state.progs party with
    | done result => exact .inl ⟨result, rfl⟩
    | throw error => exact absurd ⟨error, prog⟩ (running party)
    | put key value next => simp [step, prog] at blocked
    | get key next => simp [step, prog] at blocked
    | fence next =>
        simp only [step, prog] at blocked
        split_ifs at blocked with outside arrived
        obtain ⟨other, behind⟩ := not_forall.mp arrived
        exact .inr ⟨((inv.fencing party).resolve_left outside).1, ⟨next, rfl⟩, other, Nat.lt_of_not_le behind⟩
  rcases kinds party with finished | ⟨inside, ⟨next, prog⟩, other, behind⟩
  · exact finished
  · obtain ⟨least, _, minimal⟩ := Finset.exists_min_image Finset.univ state.called ⟨party, Finset.mem_univ party⟩
    obtain ⟨result, finished⟩ : ∃ result, state.progs least = .done result := by
      rcases kinds least with finished | ⟨_, _, other, less⟩
      · exact finished
      · exact absurd less (Nat.not_lt.mpr (minimal other (Finset.mem_univ other)))
    obtain ⟨past, tracks⟩ := (inv.tracks party).resolve_left (running party)
    obtain ⟨whole, ended⟩ := (inv.tracks least).resolve_left (running least)
    have passed : state.returned party + 1 ≤ state.returned least := by
      have count := level party least
      rw [tracks.trace, ended.trace, finished, prog, fences_append, fences_append] at count
      simp only [events, fences, Nat.add_zero] at count
      rw [tracks.returned, ended.returned]
      omega
    have called := inv.waited least least
    have within := minimal other (Finset.mem_univ other)
    omega

theorem completes_iff (setting : Setting size Key Value Error Result) (sound : Sound setting)
    (results : Fin size → Result) :
    Completes setting.start results ↔ Level setting ∧ Visible setting ∧
      ∀ party, outcome setting.answers (setting.progs party) = .ok (results party) := by
  have preserved : ∀ before after party, Tracking setting before → step before party = some after →
      Tracking setting after := fun before after party inv taken =>
    step_tracking setting sound before after party inv taken
  have decreases : ∀ before after party, Tracking setting before → step before party = some after →
      measure setting after < measure setting before := fun before after party inv taken =>
    step_measure setting sound before after party inv taken
  have initially := start_tracking setting sound
  constructor
  · rintro ⟨_, completes⟩
    obtain ⟨state, reached, stuck⟩ := stuck_reachable step (Tracking setting) (measure setting) preserved decreases
      setting.start initially
    have inv := reachable_tracking setting sound state reached
    have done := completes state reached stuck
    have whole : ∀ party, Tracks setting state party (setting.trace party) ∧
        outcome setting.answers (setting.progs party) = .ok (results party) := by
      intro party
      obtain ⟨past, tracks⟩ := (inv.tracks party).resolve_left (by simp [Failed, done party])
      have trace := tracks.trace
      have result := tracks.outcome
      rw [done party] at trace result
      simp only [events, List.append_nil] at trace
      exact ⟨trace ▸ tracks, result.symm⟩
    refine ⟨?_, ?_, fun party => (whole party).2⟩
    · have least : ∀ party other, fences (setting.trace party) ≤ fences (setting.trace other) := by
        intro party other
        have waited := inv.waited party other
        have outside : state.called other = state.returned other := by simpa [done other] using inv.fencing other
        rw [outside, (whole party).1.returned, (whole other).1.returned] at waited
        exact Nat.le_of_add_le_add_left waited
      exact fun party other => Nat.le_antisymm (least party other) (least other party)
    · intro party demand member
      obtain ⟨entry, present, fits⟩ := (whole party).1.demands demand member
      exact ⟨entry, inv.puts entry present, fits⟩
  · rintro ⟨level, visible, ends⟩
    refine ⟨⟨measure setting setting.start, fun actions state ran =>
      run_length step (Tracking setting) (measure setting) preserved decreases actions setting.start state initially ran⟩,
      ?_⟩
    intro state reached stuck party
    obtain ⟨inv, outcomes⟩ := reachable_outcome setting sound visible results ends state reached
    have running := fun party => not_failed setting.answers (state.progs party) (results party) (outcomes party)
    obtain ⟨result, done⟩ := stuck_done setting level state inv running stuck party
    have ok := outcomes party
    rw [done] at ok
    cases ok
    exact done

end FencedStore
