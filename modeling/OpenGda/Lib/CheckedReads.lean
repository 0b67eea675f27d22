import Mathlib.Data.List.Range

set_option autoImplicit false

-- Functions that read arrays without looking at their length. What is past the end of an
-- array is not known, so a function is followed up to its first read there.
namespace CheckedReads

variable {Access Result : Type}

structure Reads (Access Result : Type) where
  accesses : List Access
  result : Option Result

def Reads.bind {Next : Type} (reads : Reads Access Result) (next : Result → Reads Access Next) : Reads Access Next :=
  match reads.result with
  | none => ⟨reads.accesses, none⟩
  | some result => ⟨reads.accesses ++ (next result).accesses, (next result).result⟩

instance : Monad (Reads Access) where
  pure := fun result => ⟨[], some result⟩
  bind := Reads.bind

@[simp] theorem pure_eq (result : Result) : (pure result : Reads Access Result) = ⟨[], some result⟩ := rfl

@[simp] theorem bind_eq {Next : Type} (reads : Reads Access Result) (next : Result → Reads Access Next) :
    reads >>= next = reads.bind next := rfl

def readAt (access : Access) (value : Option Result) : Reads Access Result := ⟨[access], value⟩

def Within (inside : Access → Prop) (reads : Reads Access Result) : Prop := ∀ access ∈ reads.accesses, inside access

variable (inside : Access → Prop)

theorem within_pure (result : Result) : Within inside (⟨[], some result⟩ : Reads Access Result) :=
  fun _ member => absurd member List.not_mem_nil

theorem within_read (access : Access) (value : Option Result) : Within inside (readAt access value) ↔ inside access :=
  List.forall_mem_singleton

theorem within_bind {Next : Type} (reads : Reads Access Result) (next : Result → Reads Access Next) :
    Within inside (reads.bind next) ↔
      Within inside reads ∧ ∀ result, reads.result = some result → Within inside (next result) := by
  cases returned : reads.result with
  | none => simp [Reads.bind, returned, Within]
  | some result =>
      simp only [Reads.bind, returned, Within, List.mem_append, Option.some.injEq, forall_eq']
      constructor
      · intro all
        exact ⟨fun access member => all access (.inl member), fun access member => all access (.inr member)⟩
      · rintro ⟨first, second⟩ access (member | member)
        · exact first access member
        · exact second access member

theorem result_bind {Next : Type} (reads : Reads Access Result) (next : Result → Reads Access Next) :
    (reads.bind next).result = reads.result.bind fun result => (next result).result := by
  cases returned : reads.result <;> simp [Reads.bind, returned]

def search (look : Nat → Reads Access (Option Result)) (missing : Result) : List Nat → Reads Access Result
  | [] => pure missing
  | place :: rest => do
      match ← look place with
      | some found => pure found
      | none => search look missing rest

theorem search_cons (look : Nat → Reads Access (Option Result)) (missing : Result) (place : Nat) (rest : List Nat) :
    Within inside (search look missing (place :: rest)) ↔ Within inside (look place) ∧
      ((look place).result = some none → Within inside (search look missing rest)) := by
  rw [search, bind_eq, within_bind]
  refine and_congr_right fun _ => ?_
  constructor
  · intro each missed
    exact each none missed
  · intro next hit returned
    cases hit with
    | none => exact next returned
    | some found => exact within_pure inside found

theorem search_within_iff (look : Nat → Reads Access (Option Result)) (missing : Result) (limit : Nat)
    (hit : Nat → Option Result)
    (known : ∀ place < limit, Within inside (look place) ∧ (look place).result = some (hit place))
    (beyond : ∀ place, limit ≤ place → ¬ Within inside (look place)) (count first : Nat) (start : first ≤ limit) :
    Within inside (search look missing (List.range' first count)) ↔
      first + count ≤ limit ∨ ∃ place < limit, first ≤ place ∧ (hit place).isSome = true := by
  induction count generalizing first with
  | zero =>
      rw [List.range'_zero, search]
      exact iff_of_true (within_pure inside missing) (.inl start)
  | succ count ih =>
      rw [List.range'_succ, search_cons]
      by_cases here : first < limit
      · obtain ⟨within, looked⟩ := known first here
        rw [looked, Option.some.injEq]
        cases found : hit first with
        | some result =>
            refine iff_of_true ⟨within, fun never => ?_⟩ (.inr ⟨first, here, Nat.le_refl first, by simp [found]⟩)
            cases never
        | none =>
            have later := ih (first + 1) here
            have past : (∃ place < limit, first + 1 ≤ place ∧ (hit place).isSome = true) ↔
                ∃ place < limit, first ≤ place ∧ (hit place).isSome = true := by
              constructor
              · rintro ⟨place, bound, after, some⟩
                exact ⟨place, bound, Nat.le_of_succ_le after, some⟩
              · rintro ⟨place, bound, after, some⟩
                refine ⟨place, bound, Nat.lt_of_le_of_ne after ?_, some⟩
                rintro rfl
                simp [found] at some
            rw [Nat.add_right_comm, past] at later
            rw [← Nat.add_assoc, ← later]
            exact ⟨fun both => both.2 rfl, fun rest => ⟨within, fun _ => rest⟩⟩
      · have last : first = limit := Nat.le_antisymm start (Nat.le_of_not_lt here)
        subst last
        refine iff_of_false (fun both => beyond first (Nat.le_refl first) both.1) ?_
        rintro (short | ⟨place, bound, after, _⟩)
        · omega
        · exact absurd after (Nat.not_le_of_lt bound)

theorem search_total (look : Nat → Reads Access (Option Result)) (missing : Result) (places : List Nat)
    (total : ∀ place, Within inside (look place) → (look place).result.isSome = true)
    (within : Within inside (search look missing places)) : (search look missing places).result.isSome = true := by
  induction places with
  | nil => rfl
  | cons place rest ih =>
      obtain ⟨first, next⟩ := (search_cons inside look missing place rest).mp within
      obtain ⟨hit, returned⟩ := Option.isSome_iff_exists.mp (total place first)
      rw [search, bind_eq, result_bind, returned, Option.bind_some]
      cases hit with
      | none => exact ih (next returned)
      | some found => rfl

end CheckedReads
