import OpenGda.Lib.Machine

set_option autoImplicit false

-- Parties that call each other over FIFO channels. A call posts a message, takes one,
-- or posts one at once and then takes one.
namespace Channels

open Machine

variable {Party Label Payload : Type}

structure Post (Party Label Payload : Type) where
  dest : Party
  label : Label
  payload : Payload

-- The message taken has to fit; one that does not blocks the taker for ever.
structure Take (Party Label Payload : Type) where
  src : Party
  label : Label
  fits : Payload → Bool

structure Call (Party Label Payload : Type) where
  post : Option (Post Party Label Payload)
  take : Option (Take Party Label Payload)

structure State (Party Label Payload : Type) where
  todo : Party → List (Call Party Label Payload)
  entered : Party → Bool
  channels : Party → Party → Label → List Payload
  replies : Party → List (Option Payload)

def start (progs : Party → List (Call Party Label Payload)) : State Party Label Payload :=
  ⟨progs, fun _ => false, fun _ _ _ => [], fun _ => []⟩

def State.returned (state : State Party Label Payload) (party : Party) : Nat := (state.replies party).length

def State.issued (state : State Party Label Payload) (party : Party) : Nat :=
  state.returned party + (state.entered party).toNat

section Parties

variable [DecidableEq Party]

def State.enter (state : State Party Label Payload) (party : Party) : State Party Label Payload :=
  { state with entered := Function.update state.entered party true }

def State.finish (state : State Party Label Payload) (party : Party) (rest : List (Call Party Label Payload))
    (reply : Option Payload) : State Party Label Payload :=
  { state with
    todo := Function.update state.todo party rest
    entered := Function.update state.entered party false
    replies := Function.update state.replies party (state.replies party ++ [reply]) }

variable (state : State Party Label Payload) (party : Party)

@[simp] theorem enter_todo : (state.enter party).todo = state.todo := rfl
@[simp] theorem enter_entered : (state.enter party).entered = Function.update state.entered party true := rfl
@[simp] theorem enter_channels : (state.enter party).channels = state.channels := rfl
@[simp] theorem enter_replies : (state.enter party).replies = state.replies := rfl
@[simp] theorem enter_returned : (state.enter party).returned = state.returned := rfl

end Parties

variable [DecidableEq Party] [DecidableEq Label]

def State.setChannel (state : State Party Label Payload) (src dst : Party) (label : Label) (queue : List Payload) :
    State Party Label Payload :=
  { state with
    channels := fun src' dst' label' =>
      if src' = src ∧ dst' = dst ∧ label' = label then queue else state.channels src' dst' label' }

def State.announce (state : State Party Label Payload) (party : Party) (call : Call Party Label Payload) :
    State Party Label Payload :=
  match call.post with
  | none => state
  | some post =>
      state.setChannel party post.dest post.label (state.channels party post.dest post.label ++ [post.payload])

def step (state : State Party Label Payload) (party : Party) : Option (State Party Label Payload) :=
  match state.todo party with
  | [] => none
  | call :: rest =>
      if state.entered party then
        match call.take with
        | none => some (state.finish party rest none)
        | some take =>
            match state.channels take.src party take.label with
            | [] => none
            | payload :: more =>
                if take.fits payload then
                  some ((state.setChannel take.src party take.label more).finish party rest (some payload))
                else none
      else some ((state.announce party call).enter party)

inductive Moves (before : State Party Label Payload) (party : Party) : State Party Label Payload → Prop where
  | enter (call : Call Party Label Payload) (rest : List (Call Party Label Payload))
      (todo : before.todo party = call :: rest) (outside : before.entered party = false) :
      Moves before party ((before.announce party call).enter party)
  | leave (call : Call Party Label Payload) (rest : List (Call Party Label Payload))
      (todo : before.todo party = call :: rest) (inside : before.entered party = true) (quiet : call.take = none) :
      Moves before party (before.finish party rest none)
  | take (call : Call Party Label Payload) (rest : List (Call Party Label Payload)) (take : Take Party Label Payload)
      (payload : Payload) (more : List Payload) (todo : before.todo party = call :: rest)
      (inside : before.entered party = true) (wants : call.take = some take)
      (head : before.channels take.src party take.label = payload :: more) (fits : take.fits payload = true) :
      Moves before party ((before.setChannel take.src party take.label more).finish party rest (some payload))

theorem step_moves (before after : State Party Label Payload) (party : Party)
    (taken : step before party = some after) : Moves before party after := by
  unfold step at taken
  split at taken
  · cases taken
  · rename_i call rest todo
    split at taken
    · rename_i inside
      split at taken
      · rename_i quiet
        cases taken
        exact .leave call rest todo inside quiet
      · rename_i take wants
        split at taken
        · cases taken
        · rename_i payload more head
          split_ifs at taken with fits
          cases taken
          exact .take call rest take payload more todo inside wants head fits
    · rename_i outside
      cases taken
      exact .enter call rest todo (Bool.eq_false_iff.mpr outside)

inductive Waits (state : State Party Label Payload) (party : Party) : Prop where
  | empty (call : Call Party Label Payload) (rest : List (Call Party Label Payload)) (take : Take Party Label Payload)
      (todo : state.todo party = call :: rest) (inside : state.entered party = true) (wants : call.take = some take)
      (none : state.channels take.src party take.label = [])
  | unfit (call : Call Party Label Payload) (rest : List (Call Party Label Payload)) (take : Take Party Label Payload)
      (payload : Payload) (more : List Payload) (todo : state.todo party = call :: rest)
      (inside : state.entered party = true) (wants : call.take = some take)
      (head : state.channels take.src party take.label = payload :: more) (unfit : take.fits payload = false)

theorem step_waits (state : State Party Label Payload) (party : Party) (refused : step state party = none)
    (unfinished : state.todo party ≠ []) : Waits state party := by
  unfold step at refused
  split at refused
  · rename_i done
    exact absurd done unfinished
  · rename_i call rest todo
    split at refused
    · rename_i inside
      split at refused
      · cases refused
      · rename_i take wants
        split at refused
        · rename_i none
          exact .empty call rest take todo inside wants none
        · rename_i payload more head
          split_ifs at refused with fits
          exact .unfit call rest take payload more todo inside wants head (Bool.eq_false_iff.mpr fits)
    · cases refused

def Call.posting (call : Call Party Label Payload) (dst : Party) (label : Label) : Option Payload :=
  call.post.bind fun post => if post.dest = dst ∧ post.label = label then some post.payload else none

def Call.takes (call : Call Party Label Payload) (src : Party) (label : Label) : Bool :=
  call.take.any fun take => decide (take.src = src ∧ take.label = label)

def posted (dst : Party) (label : Label) (calls : List (Call Party Label Payload)) : List Payload :=
  calls.filterMap (·.posting dst label)

def taken (src : Party) (label : Label) (calls : List (Call Party Label Payload)) : Nat :=
  calls.countP (·.takes src label)

theorem posted_take_succ (dst : Party) (label : Label) (calls : List (Call Party Label Payload)) (place : Nat)
    (call : Call Party Label Payload) (found : calls[place]? = some call) :
    posted dst label (calls.take (place + 1)) = posted dst label (calls.take place) ++ (call.posting dst label).toList := by
  rw [List.take_add_one, found, posted, List.filterMap_append, Option.toList_some]
  cases posts : call.posting dst label with
  | none => simp [posted, posts]
  | some payload => simp [posted, posts]

theorem taken_take_succ (src : Party) (label : Label) (calls : List (Call Party Label Payload)) (place : Nat)
    (call : Call Party Label Payload) (found : calls[place]? = some call) :
    taken src label (calls.take (place + 1)) =
      taken src label (calls.take place) + if call.takes src label then 1 else 0 := by
  rw [List.take_add_one, found, taken, List.countP_append]
  simp [taken, List.countP_cons]

theorem filter_map_nth {First Second : Type} (f : First → Option Second) (list : List First) (number : Nat)
    (result : Second) : (list.filterMap f)[number]? = some result ↔ ∃ place source, list[place]? = some source ∧
      f source = some result ∧ ((list.take place).filterMap f).length = number := by
  induction list generalizing number with
  | nil => simp
  | cons source rest ih =>
      cases image : f source with
      | none =>
          rw [List.filterMap_cons_none image, ih]
          constructor
          · rintro ⟨place, later, found, same, count⟩
            exact ⟨place + 1, later, found, same, by rw [List.take_succ_cons, List.filterMap_cons_none image, count]⟩
          · rintro ⟨place, later, found, same, count⟩
            cases place with
            | zero =>
                cases found
                rw [image] at same
                cases same
            | succ place =>
                rw [List.take_succ_cons, List.filterMap_cons_none image] at count
                exact ⟨place, later, found, same, count⟩
      | some first =>
          rw [List.filterMap_cons_some image]
          cases number with
          | zero =>
              constructor
              · rintro ⟨⟩
                exact ⟨0, source, rfl, image, rfl⟩
              · rintro ⟨place, later, found, same, count⟩
                cases place with
                | zero =>
                    cases found
                    rw [image] at same
                    cases same
                    rfl
                | succ place =>
                    rw [List.take_succ_cons, List.filterMap_cons_some image] at count
                    cases count
          | succ number =>
              rw [List.getElem?_cons_succ, ih]
              constructor
              · rintro ⟨place, later, found, same, count⟩
                refine ⟨place + 1, later, found, same, ?_⟩
                rw [List.take_succ_cons, List.filterMap_cons_some image, List.length_cons, count]
              · rintro ⟨place, later, found, same, count⟩
                cases place with
                | zero => cases count
                | succ place =>
                    rw [List.take_succ_cons, List.filterMap_cons_some image, List.length_cons] at count
                    exact ⟨place, later, found, same, Nat.succ.inj count⟩

structure Awaits (progs : Party → List (Call Party Label Payload)) (party : Party) (index : Nat)
    (take : Take Party Label Payload) (place : Nat) (payload : Payload) : Prop where
  call : ∃ call, (progs party)[index]? = some call ∧ call.take = some take
  post : ∃ other, (progs take.src)[place]? = some other ∧ other.posting party take.label = some payload
  turn : (posted party take.label ((progs take.src).take place)).length =
    taken take.src take.label ((progs party).take index)

theorem awaits_unique (progs : Party → List (Call Party Label Payload)) (party : Party) (index : Nat)
    (take : Take Party Label Payload) (place another : Nat) (payload other : Payload)
    (one : Awaits progs party index take place payload) (two : Awaits progs party index take another other) :
    place = another ∧ payload = other := by
  have later : ∀ near far near_payload far_payload, Awaits progs party index take near near_payload →
      Awaits progs party index take far far_payload → ¬ near < far := by
    intro near far near_payload far_payload first second less
    obtain ⟨call, found, posts⟩ := first.post
    have count := posted_take_succ party take.label (progs take.src) near call found
    rw [posts] at count
    have grows : (posted party take.label ((progs take.src).take (near + 1))).length ≤
        (posted party take.label ((progs take.src).take far)).length := by
      apply List.Sublist.length_le
      exact (List.take_sublist_take_left less).filterMap _
    rw [count, List.length_append, Option.toList_some, List.length_singleton, first.turn, second.turn] at grows
    exact Nat.not_succ_le_self _ grows
  have same : place = another := Nat.le_antisymm (Nat.le_of_not_lt (later another place other payload two one))
    (Nat.le_of_not_lt (later place another payload other one two))
  subst same
  obtain ⟨call, found, posts⟩ := one.post
  obtain ⟨again, also, equal⟩ := two.post
  rw [found] at also
  cases also
  rw [posts] at equal
  exact ⟨rfl, Option.some.inj equal⟩

def Answers (progs : Party → List (Call Party Label Payload)) (party : Party) (index : Nat)
    (call : Call Party Label Payload) (reply : Option Payload) : Prop :=
  match call.take with
  | none => reply = none
  | some take => ∃ place payload, Awaits progs party index take place payload ∧ take.fits payload = true ∧
      reply = some payload

end Channels
