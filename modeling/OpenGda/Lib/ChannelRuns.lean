import OpenGda.Lib.Channels

set_option autoImplicit false

-- What a channel holds at any time, and when a family of call sequences can only
-- complete: exactly when its waits can be laid out in time.
namespace Channels

open Machine

variable {Party Label Payload : Type} [DecidableEq Party] [DecidableEq Label]

section Updates

variable (state : State Party Label Payload) (src dst : Party) (label : Label) (queue : List Payload)

@[simp] theorem set_channel_todo : (state.setChannel src dst label queue).todo = state.todo := rfl
@[simp] theorem set_channel_entered : (state.setChannel src dst label queue).entered = state.entered := rfl
@[simp] theorem set_channel_replies : (state.setChannel src dst label queue).replies = state.replies := rfl

variable (party : Party) (call : Call Party Label Payload)

@[simp] theorem announce_todo : (state.announce party call).todo = state.todo := by
  unfold State.announce
  split <;> rfl

@[simp] theorem announce_entered : (state.announce party call).entered = state.entered := by
  unfold State.announce
  split <;> rfl

@[simp] theorem announce_replies : (state.announce party call).replies = state.replies := by
  unfold State.announce
  split <;> rfl

@[simp] theorem announce_returned : (state.announce party call).returned = state.returned := by
  funext other
  rw [State.returned, announce_replies, State.returned]

theorem announce_channels : (state.announce party call).channels src dst label =
    state.channels src dst label ++ if src = party then (call.posting dst label).toList else [] := by
  unfold State.announce Call.posting
  cases call.post with
  | none => simp
  | some post =>
      by_cases own : src = party
      · subst own
        by_cases here : dst = post.dest ∧ label = post.label
        · obtain ⟨rfl, rfl⟩ := here
          simp [State.setChannel]
        · have there : ¬ (post.dest = dst ∧ post.label = label) := fun same => here ⟨same.1.symm, same.2.symm⟩
          simp [State.setChannel, here, there]
      · simp [State.setChannel, own]

end Updates

structure Flow (progs : Party → List (Call Party Label Payload)) (state : State Party Label Payload) : Prop where
  todo : ∀ party, state.todo party = (progs party).drop (state.returned party)
  within : ∀ party, state.returned party ≤ (progs party).length
  busy : ∀ party, state.entered party = true → state.todo party ≠ []
  ahead : ∀ src dst label, taken src label ((progs dst).take (state.returned dst)) ≤
    (posted dst label ((progs src).take (state.issued src))).length
  channels : ∀ src dst label, state.channels src dst label =
    (posted dst label ((progs src).take (state.issued src))).drop
      (taken src label ((progs dst).take (state.returned dst)))
  replies : ∀ party index call reply, (progs party)[index]? = some call →
    (state.replies party)[index]? = some reply → Answers progs party index call reply

variable (progs : Party → List (Call Party Label Payload))

theorem start_flow : Flow progs (start progs) where
  todo := fun _ => rfl
  within := fun _ => Nat.zero_le _
  busy := fun party entered => by cases entered
  ahead := fun _ _ _ => by simp [start, State.returned, taken]
  channels := fun _ _ _ => by simp [start, State.returned, State.issued, posted, taken]
  replies := fun party index call reply _ replied => by simp [start] at replied

theorem current_call (state : State Party Label Payload) (flow : Flow progs state) (party : Party)
    (call : Call Party Label Payload) (rest : List (Call Party Label Payload)) (todo : state.todo party = call :: rest) :
    (progs party)[state.returned party]? = some call ∧ rest = (progs party).drop (state.returned party + 1) := by
  rw [flow.todo] at todo
  constructor
  · rw [← List.head?_drop, todo, List.head?_cons]
  · rw [← List.tail_drop, todo, List.tail_cons]

theorem enter_flow (before : State Party Label Payload) (party : Party) (call : Call Party Label Payload)
    (rest : List (Call Party Label Payload)) (flow : Flow progs before) (todo : before.todo party = call :: rest)
    (outside : before.entered party = false) : Flow progs ((before.announce party call).enter party) := by
  obtain ⟨found, _⟩ := current_call progs before flow party call rest todo
  have posts : ∀ src dst label, posted dst label ((progs src).take (((before.announce party call).enter party).issued src)) =
      posted dst label ((progs src).take (before.issued src)) ++
        if src = party then (call.posting dst label).toList else [] := by
    intro src dst label
    by_cases own : src = party
    · subst own
      have grown := posted_take_succ dst label (progs src) (before.returned src) call found
      simpa [State.issued, outside] using grown
    · simp [State.issued, own]
  constructor
  · intro other
    simpa using flow.todo other
  · intro other
    simpa using flow.within other
  · intro other entered
    by_cases own : other = party
    · subst own
      simp [todo]
    · simp only [enter_entered, announce_entered, Function.update_of_ne own] at entered
      simpa using flow.busy other entered
  · intro src dst label
    rw [enter_returned, announce_returned, posts, List.length_append]
    exact Nat.le_add_right_of_le (flow.ahead src dst label)
  · intro src dst label
    rw [enter_returned, announce_returned, posts, List.drop_append_of_le_length (flow.ahead src dst label),
      ← flow.channels]
    exact announce_channels before src dst label party call
  · intro other index call reply found replied
    simp only [enter_replies, announce_replies] at replied
    exact flow.replies other index call reply found replied

theorem finish_flow (before middle : State Party Label Payload) (party : Party) (call : Call Party Label Payload)
    (rest : List (Call Party Label Payload)) (reply : Option Payload) (flow : Flow progs before)
    (todo : before.todo party = call :: rest) (inside : before.entered party = true)
    (same : middle.todo = before.todo ∧ middle.entered = before.entered ∧ middle.replies = before.replies)
    (some_head : ∀ src label, call.takes src label = true → before.channels src party label ≠ [])
    (queues : ∀ src dst label, middle.channels src dst label =
      if dst = party ∧ call.takes src label = true then (before.channels src dst label).tail
      else before.channels src dst label)
    (answers : Answers progs party (before.returned party) call reply) :
    Flow progs (middle.finish party rest reply) := by
  obtain ⟨sameTodo, sameEntered, sameReplies⟩ := same
  obtain ⟨found, remaining⟩ := current_call progs before flow party call rest todo
  have own_returned : (middle.finish party rest reply).returned party = before.returned party + 1 := by
    simp [State.finish, State.returned, sameReplies]
  have other_returned : ∀ other, other ≠ party → (middle.finish party rest reply).returned other = before.returned other := by
    intro other different
    simp [State.finish, State.returned, sameReplies, different]
  have issued : ∀ other, (middle.finish party rest reply).issued other = before.issued other := by
    intro other
    by_cases own : other = party
    · subst own
      rw [State.issued, own_returned, State.issued, inside]
      simp [State.finish]
    · rw [State.issued, other_returned other own, State.issued]
      simp [State.finish, own, sameEntered]
  have takes : ∀ src dst label, taken src label ((progs dst).take ((middle.finish party rest reply).returned dst)) =
      taken src label ((progs dst).take (before.returned dst)) + if dst = party ∧ call.takes src label = true then 1 else 0 := by
    intro src dst label
    by_cases own : dst = party
    · subst own
      rw [own_returned, taken_take_succ src label (progs dst) (before.returned dst) call found]
      simp
    · rw [other_returned dst own]
      simp [own]
  constructor
  · intro other
    by_cases own : other = party
    · subst own
      rw [own_returned, ← remaining]
      simp [State.finish]
    · rw [other_returned other own, ← flow.todo other]
      simp [State.finish, own, sameTodo]
  · intro other
    by_cases own : other = party
    · subst own
      rw [own_returned]
      exact (List.getElem?_eq_some_iff.mp found).1
    · rw [other_returned other own]
      exact flow.within other
  · intro other entered
    by_cases own : other = party
    · subst own
      simp [State.finish] at entered
    · simp only [State.finish, Function.update_of_ne own, sameEntered] at entered
      simpa [State.finish, own, sameTodo] using flow.busy other entered
  · intro src dst label
    rw [issued, takes]
    split_ifs with wanted
    · have nonempty := some_head src label wanted.2
      rw [← wanted.1, flow.channels] at nonempty
      exact Nat.lt_of_not_le fun less => nonempty (List.drop_eq_nil_iff.mpr less)
    · exact flow.ahead src dst label
  · intro src dst label
    rw [issued, takes]
    refine (queues src dst label).trans ?_
    rw [flow.channels]
    split_ifs with wanted
    · rw [List.tail_drop]
    · rw [Nat.add_zero]
  · intro other index call' reply' found' replied
    by_cases own : other = party
    · subst own
      simp only [State.finish, Function.update_self, sameReplies] at replied
      by_cases last : index = before.returned other
      · subst last
        rw [State.returned, List.getElem?_concat_length] at replied
        rw [found] at found'
        cases found'
        cases replied
        exact answers
      · have early : index < (before.replies other).length := by
          have inside := (List.getElem?_eq_some_iff.mp replied).1
          rw [List.length_append, List.length_singleton] at inside
          exact Nat.lt_of_le_of_ne (Nat.le_of_lt_succ inside) last
        rw [List.getElem?_append_left early] at replied
        exact flow.replies other index call' reply' found' replied
    · simp only [State.finish, Function.update_of_ne own, sameReplies] at replied
      exact flow.replies other index call' reply' found' replied

theorem head_awaited (state : State Party Label Payload) (flow : Flow progs state) (party : Party)
    (call : Call Party Label Payload) (take : Take Party Label Payload) (payload : Payload) (more : List Payload)
    (found : (progs party)[state.returned party]? = some call) (wants : call.take = some take)
    (head : state.channels take.src party take.label = payload :: more) :
    ∃ place, Awaits progs party (state.returned party) take place payload ∧ place < state.issued take.src := by
  have first : (posted party take.label ((progs take.src).take (state.issued take.src)))[
      taken take.src take.label ((progs party).take (state.returned party))]? = some payload := by
    rw [← List.head?_drop, ← flow.channels, head, List.head?_cons]
  obtain ⟨place, other, there, posts, count⟩ := (filter_map_nth _ _ _ _).mp first
  obtain ⟨inside, _⟩ := List.getElem?_eq_some_iff.mp there
  have early : place < state.issued take.src := by
    rw [List.length_take] at inside
    exact Nat.lt_of_lt_of_le inside (Nat.min_le_left _ _)
  rw [List.getElem?_take_of_lt early] at there
  rw [List.take_take, Nat.min_eq_left (Nat.le_of_lt early)] at count
  exact ⟨place, ⟨⟨call, found, wants⟩, ⟨other, there, posts⟩, count⟩, early⟩

theorem step_flow (before after : State Party Label Payload) (party : Party) (flow : Flow progs before)
    (taken : step before party = some after) : Flow progs after := by
  cases step_moves before after party taken with
  | enter call rest todo outside => exact enter_flow progs before party call rest flow todo outside
  | leave call rest todo inside quiet =>
      have none_taken : ∀ src label, call.takes src label = false := by simp [Call.takes, quiet]
      apply finish_flow progs before before party call rest none flow todo inside ⟨rfl, rfl, rfl⟩
      · simp [none_taken]
      · simp [none_taken]
      · simp [Answers, quiet]
  | take call rest take payload more todo inside wants head fits =>
      have found := (current_call progs before flow party call rest todo).1
      have only : ∀ src label, call.takes src label = true ↔ take.src = src ∧ take.label = label := by
        simp [Call.takes, wants]
      apply finish_flow progs before (before.setChannel take.src party take.label more) party call rest (some payload) flow todo inside ⟨rfl, rfl, rfl⟩
      · intro src label wanted
        obtain ⟨rfl, rfl⟩ := (only src label).mp wanted
        simp [head]
      · intro src dst label
        simp only [State.setChannel, only]
        by_cases here : src = take.src ∧ dst = party ∧ label = take.label
        · obtain ⟨rfl, rfl, rfl⟩ := here
          simp [head]
        · have there : ¬ (dst = party ∧ take.src = src ∧ take.label = label) :=
            fun same => here ⟨same.2.1.symm, same.1, same.2.2.symm⟩
          rw [if_neg here, if_neg there]
      · obtain ⟨place, awaits, _⟩ := head_awaited progs before flow party call take payload more found wants head
        simp only [Answers, wants]
        exact ⟨place, payload, awaits, fits, rfl⟩

theorem reachable_flow (state : State Party Label Payload) (reached : Reach step always (start progs) state) :
    Flow progs state :=
  reach_invariant step always (Flow progs) (start progs) state (start_flow progs)
    (fun before after party flow _ taken => step_flow progs before after party flow taken) reached

end Channels
