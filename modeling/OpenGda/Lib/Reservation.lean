import Mathlib

set_option autoImplicit false

-- Ranges of indices handed out at a tail by fetch-and-add, each held by its owner
-- until the head has moved up to it and over it.
namespace Reservation

variable {Owner : Type}

structure Range where
  base : Nat
  count : Nat
deriving DecidableEq, Repr

def Range.Has (range : Range) (index : Nat) : Prop := range.base ≤ index ∧ index < range.base + range.count

def Range.Apart (first second : Range) : Prop :=
  first.base + first.count ≤ second.base ∨ second.base + second.count ≤ first.base

instance (first second : Range) : Decidable (first.Apart second) := inferInstanceAs (Decidable (_ ∨ _))

structure Held (held : Owner → Option Range) (head tail : Nat) : Prop where
  order : head ≤ tail
  within : ∀ owner range, held owner = some range →
    0 < range.count ∧ head ≤ range.base ∧ range.base + range.count ≤ tail
  apart : ∀ first second range other, first ≠ second → held first = some range → held second = some other →
    range.Apart other

def Covered (held : Owner → Option Range) (head tail : Nat) : Prop :=
  ∀ index, head ≤ index → index < tail → ∃ owner range, held owner = some range ∧ range.Has index

theorem held_empty : Held (fun _ : Owner => none) 0 0 where
  order := Nat.le_refl 0
  within := by simp
  apart := by simp

theorem released_all (held : Owner → Option Range) (head tail : Nat) (valid : Held held head tail)
    (covered : Covered held head tail) (released : ∀ owner, held owner = none) : head = tail := by
  apply Nat.le_antisymm valid.order
  by_contra behind
  obtain ⟨owner, range, found, _⟩ := covered head (Nat.le_refl head) (Nat.lt_of_not_le behind)
  exact absurd found (by simp [released owner])

variable [DecidableEq Owner]

theorem held_reserve (held : Owner → Option Range) (head tail count : Nat) (owner : Owner)
    (valid : Held held head tail) (positive : 0 < count) :
    Held (Function.update held owner (some ⟨tail, count⟩)) head (tail + count) where
  order := Nat.le_add_right_of_le valid.order
  within := by
    intro other range found
    by_cases same : other = owner
    · subst same
      rw [Function.update_self] at found
      cases found
      exact ⟨positive, valid.order, Nat.le_refl _⟩
    · rw [Function.update_of_ne same] at found
      obtain ⟨some_left, above, below⟩ := valid.within other range found
      exact ⟨some_left, above, Nat.le_add_right_of_le below⟩
  apart := by
    intro first second range other different found another
    by_cases one : first = owner
    · subst one
      rw [Function.update_self] at found
      rw [Function.update_of_ne (Ne.symm different)] at another
      cases found
      exact .inr (valid.within second other another).2.2
    · rw [Function.update_of_ne one] at found
      by_cases two : second = owner
      · subst two
        rw [Function.update_self] at another
        cases another
        exact .inl (valid.within first range found).2.2
      · rw [Function.update_of_ne two] at another
        exact valid.apart first second range other different found another

theorem held_commit (held : Owner → Option Range) (head tail count moved : Nat) (owner : Owner)
    (valid : Held held head tail) (own : held owner = some ⟨head, count⟩) (within : moved ≤ count) :
    Held (Function.update held owner none) (head + moved) tail where
  order := Nat.le_trans (Nat.add_le_add_left within head) (valid.within owner _ own).2.2
  within := by
    intro other range found
    by_cases same : other = owner
    · subst same
      simp at found
    · rw [Function.update_of_ne same] at found
      obtain ⟨positive, above, below⟩ := valid.within other range found
      refine ⟨positive, ?_, below⟩
      rcases valid.apart other owner range _ same found own with before | after
      · simp only at before
        omega
      · exact Nat.le_trans (Nat.add_le_add_left within head) after
  apart := by
    intro first second range other different found another
    by_cases one : first = owner
    · subst one
      simp at found
    · by_cases two : second = owner
      · subst two
        simp at another
      · rw [Function.update_of_ne one] at found
        rw [Function.update_of_ne two] at another
        exact valid.apart first second range other different found another

theorem covered_reserve (held : Owner → Option Range) (head tail count : Nat) (owner : Owner)
    (free : held owner = none) (covered : Covered held head tail) :
    Covered (Function.update held owner (some ⟨tail, count⟩)) head (tail + count) := by
  intro index above below
  by_cases old : index < tail
  · obtain ⟨other, range, found, has⟩ := covered index above old
    have different : other ≠ owner := by
      rintro rfl
      simp [free] at found
    exact ⟨other, range, by rw [Function.update_of_ne different, found], has⟩
  · exact ⟨owner, ⟨tail, count⟩, by rw [Function.update_self], Nat.le_of_not_lt old, below⟩

theorem covered_commit (held : Owner → Option Range) (head tail count : Nat) (owner : Owner)
    (own : held owner = some ⟨head, count⟩) (covered : Covered held head tail) :
    Covered (Function.update held owner none) (head + count) tail := by
  intro index above below
  obtain ⟨other, range, found, has⟩ := covered index (Nat.le_trans (Nat.le_add_right head count) above) below
  have different : other ≠ owner := by
    rintro rfl
    rw [own] at found
    cases found
    exact Nat.not_lt.mpr above has.2
  exact ⟨other, range, by rw [Function.update_of_ne different, found], has⟩

end Reservation
