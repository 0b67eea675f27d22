import OpenGda.Lib.Machine

set_option autoImplicit false

-- Parties that share a key-value store and a collective fence: what was put
-- before a fence can be got after it. Each party runs a program of its own.
namespace FencedStore

open Machine

variable {Key Value Error Result : Type}

inductive Prog (Key Value Error Result : Type) where
  | done (result : Result)
  | throw (error : Error)
  | put (key : Key) (value : Value) (next : Prog Key Value Error Result)
  | fence (next : Prog Key Value Error Result)
  | get (key : Key) (next : Option Value → Prog Key Value Error Result)

def Prog.bind {Next : Type} (prog : Prog Key Value Error Result) (rest : Result → Prog Key Value Error Next) :
    Prog Key Value Error Next :=
  match prog with
  | .done result => rest result
  | .throw error => .throw error
  | .put key value next => .put key value (next.bind rest)
  | .fence next => .fence (next.bind rest)
  | .get key next => .get key fun value => (next value).bind rest

instance : Monad (Prog Key Value Error) where
  pure := .done
  bind := Prog.bind

@[simp] theorem pure_eq (result : Result) : (pure result : Prog Key Value Error Result) = .done result := rfl

@[simp] theorem bind_eq {Next : Type} (prog : Prog Key Value Error Result)
    (rest : Result → Prog Key Value Error Next) : prog >>= rest = prog.bind rest := rfl

theorem bind_assoc {Second Third : Type} (prog : Prog Key Value Error Result)
    (first : Result → Prog Key Value Error Second) (second : Second → Prog Key Value Error Third) :
    (prog.bind first).bind second = prog.bind fun result => (first result).bind second := by
  induction prog with
  | done result => rfl
  | throw error => rfl
  | put key value next ih => exact congrArg (Prog.put key value) ih
  | fence next ih => exact congrArg Prog.fence ih
  | get key next ih => exact congrArg (Prog.get key) (funext ih)

inductive Event (Key Value : Type) where
  | put (key : Key) (value : Value)
  | fence
  | get (key : Key)
deriving DecidableEq, Repr

def events (answers : Key → Option Value) : Prog Key Value Error Result → List (Event Key Value)
  | .done _ | .throw _ => []
  | .put key value next => .put key value :: events answers next
  | .fence next => .fence :: events answers next
  | .get key next => .get key :: events answers (next (answers key))

def outcome (answers : Key → Option Value) : Prog Key Value Error Result → Except Error Result
  | .done result => .ok result
  | .throw error => .error error
  | .put _ _ next | .fence next => outcome answers next
  | .get key next => outcome answers (next (answers key))

theorem outcome_bind {Next : Type} (answers : Key → Option Value) (prog : Prog Key Value Error Result)
    (rest : Result → Prog Key Value Error Next) :
    outcome answers (prog.bind rest) = (outcome answers prog).bind fun result => outcome answers (rest result) := by
  induction prog with
  | done result => rfl
  | throw error => rfl
  | put key value next ih => exact ih
  | fence next ih => exact ih
  | get key next ih => exact ih (answers key)

theorem events_bind {Next : Type} (answers : Key → Option Value) (prog : Prog Key Value Error Result)
    (rest : Result → Prog Key Value Error Next) (result : Result) (ends : outcome answers prog = .ok result) :
    events answers (prog.bind rest) = events answers prog ++ events answers (rest result) := by
  induction prog with
  | done other =>
      cases ends
      rfl
  | throw error => cases ends
  | put key value next ih => exact congrArg (List.cons _) (ih ends)
  | fence next ih => exact congrArg (List.cons _) (ih ends)
  | get key next ih => exact congrArg (List.cons _) (ih (answers key) ends)

theorem events_bind_error {Next : Type} (answers : Key → Option Value) (prog : Prog Key Value Error Result)
    (rest : Result → Prog Key Value Error Next) (error : Error) (ends : outcome answers prog = .error error) :
    events answers (prog.bind rest) = events answers prog := by
  induction prog with
  | done result => cases ends
  | throw other => rfl
  | put key value next ih => exact congrArg (List.cons _) (ih ends)
  | fence next ih => exact congrArg (List.cons _) (ih ends)
  | get key next ih => exact congrArg (List.cons _) (ih (answers key) ends)

-- A get that finds nothing is an error.
def Strict : Prog Key Value Error Result → Prop
  | .done _ | .throw _ => True
  | .put _ _ next | .fence next => Strict next
  | .get _ next => (∃ error, next none = .throw error) ∧ ∀ value, Strict (next (some value))

theorem strict_bind {Next : Type} (prog : Prog Key Value Error Result) (rest : Result → Prog Key Value Error Next)
    (first : Strict prog) (second : ∀ result, Strict (rest result)) : Strict (prog.bind rest) := by
  induction prog with
  | done result => exact second result
  | throw error => trivial
  | put key value next ih => exact ih first
  | fence next ih => exact ih first
  | get key next ih =>
      obtain ⟨⟨error, fails⟩, later⟩ := first
      exact ⟨⟨error, by simp only [fails, Prog.bind]⟩, fun value => ih (some value) (later value)⟩

-- A put, under the number of fences its party had called before.
structure Entry (Key Value : Type) where
  key : Key
  value : Value
  phase : Nat
deriving DecidableEq, Repr

def fences : List (Event Key Value) → Nat
  | [] => 0
  | .fence :: rest => fences rest + 1
  | _ :: rest => fences rest

def entries (phase : Nat) : List (Event Key Value) → List (Entry Key Value)
  | [] => []
  | .put key value :: rest => ⟨key, value, phase⟩ :: entries phase rest
  | .fence :: rest => entries (phase + 1) rest
  | .get _ :: rest => entries phase rest

def demands (phase : Nat) : List (Event Key Value) → List (Key × Nat)
  | [] => []
  | .put _ _ :: rest => demands phase rest
  | .fence :: rest => demands (phase + 1) rest
  | .get key :: rest => (key, phase) :: demands phase rest

theorem fences_append (first second : List (Event Key Value)) :
    fences (first ++ second) = fences first + fences second := by
  induction first with
  | nil => simp [fences]
  | cons event rest ih =>
      cases event <;> simp only [List.cons_append, fences, ih]
      omega

theorem entries_append (phase : Nat) (first second : List (Event Key Value)) :
    entries phase (first ++ second) = entries phase first ++ entries (phase + fences first) second := by
  induction first generalizing phase with
  | nil => rfl
  | cons event rest ih =>
      cases event <;> simp only [List.cons_append, entries, fences, ih]
      rw [Nat.add_assoc, Nat.add_comm 1]

theorem demands_append (phase : Nat) (first second : List (Event Key Value)) :
    demands phase (first ++ second) = demands phase first ++ demands (phase + fences first) second := by
  induction first generalizing phase with
  | nil => rfl
  | cons event rest ih =>
      cases event <;> simp only [List.cons_append, demands, fences, ih]
      rw [Nat.add_assoc, Nat.add_comm 1]

theorem entries_phase (phase : Nat) (list : List (Event Key Value)) (entry : Entry Key Value)
    (member : entry ∈ entries phase list) : phase ≤ entry.phase := by
  induction list generalizing phase with
  | nil => simp [entries] at member
  | cons event rest ih =>
      cases event with
      | put key value =>
          rcases List.mem_cons.mp member with rfl | later
          · exact Nat.le_refl _
          · exact ih phase later
      | fence => exact Nat.le_of_succ_le (ih (phase + 1) member)
      | get key => exact ih phase member

variable {size : Nat}

structure State (size : Nat) (Key Value Error Result : Type) where
  puts : List (Entry Key Value)
  progs : Fin size → Prog Key Value Error Result
  called : Fin size → Nat
  returned : Fin size → Nat

-- `puts` is what the store holds after the `base` fences that are over.
def start (puts : List (Entry Key Value)) (base : Nat) (progs : Fin size → Prog Key Value Error Result) :
    State size Key Value Error Result :=
  ⟨puts, progs, fun _ => base, fun _ => base⟩

variable [DecidableEq Key]

def lookup (puts : List (Entry Key Value)) (phase : Nat) (key : Key) : Option Value :=
  (puts.find? fun entry => decide (entry.key = key ∧ entry.phase < phase)).map Entry.value

def State.continueWith (state : State size Key Value Error Result) (party : Fin size)
    (next : Prog Key Value Error Result) : State size Key Value Error Result :=
  { state with progs := Function.update state.progs party next }

-- A fence is called, and returns once every party has called it.
def step (state : State size Key Value Error Result) (party : Fin size) : Option (State size Key Value Error Result) :=
  match state.progs party with
  | .done _ | .throw _ => none
  | .put key value next =>
      some ({ state with puts := ⟨key, value, state.called party⟩ :: state.puts }.continueWith party next)
  | .fence next =>
      if state.called party = state.returned party then
        some { state with called := Function.update state.called party (state.called party + 1) }
      else if ∀ other, state.called party ≤ state.called other then
        some ({ state with
          returned := Function.update state.returned party (state.returned party + 1) }.continueWith party next)
      else none
  | .get key next => some (state.continueWith party (next (lookup state.puts (state.returned party) key)))

end FencedStore
