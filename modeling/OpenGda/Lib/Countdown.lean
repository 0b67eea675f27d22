import OpenGda.Lib.Machine

set_option autoImplicit false

-- Measures of what is left to do: flags not set yet, and rounds with a fixed amount of work each.
namespace Countdown

section Flags

variable {Key : Type}

def unset (keys : Finset Key) (flags : Key → Bool) : Nat := (keys.filter fun key => flags key = false).card

theorem unset_update_lt [DecidableEq Key] (keys : Finset Key) (flags : Key → Bool) (key : Key) (member : key ∈ keys)
    (clear : flags key = false) : unset keys (Function.update flags key true) < unset keys flags := by
  apply Finset.card_lt_card
  rw [Finset.ssubset_iff_of_subset]
  · exact ⟨key, by simp [member, clear], by simp⟩
  · intro other within
    rw [Finset.mem_filter, Function.update_apply] at within
    rw [Finset.mem_filter]
    refine ⟨within.1, ?_⟩
    split at within
    case isTrue => exact absurd within.2 (by simp)
    case isFalse => exact within.2

theorem flag_set [DecidableEq Key] (flags : Key → Bool) (key other : Key) :
    Function.update flags key true other = true ↔ other = key ∨ flags other = true := by
  rw [Function.update_apply]
  split
  case isTrue same => simp [same]
  case isFalse different => simp [different]

theorem flag_keep [DecidableEq Key] (flags : Key → Bool) (key other : Key) (set : flags other = true) :
    Function.update flags key true other = true := (flag_set flags key other).mpr (.inr set)

theorem row_flag_set {Row : Type} [DecidableEq Row] [DecidableEq Key] (flags : Row → Key → Bool) (row : Row) (key : Key)
    (other : Row) (index : Key) :
    Function.update flags row (Function.update (flags row) key true) other index = true ↔
      (other = row ∧ index = key) ∨ flags other index = true := by
  by_cases same : other = row
  · subst same
    rw [Function.update_self, flag_set, and_iff_right rfl]
  · simp only [Function.update_of_ne same, same, false_and, false_or]

theorem row_flag_keep {Row : Type} [DecidableEq Row] [DecidableEq Key] (flags : Row → Key → Bool) (row : Row) (key : Key)
    (other : Row) (index : Key) (set : flags other index = true) :
    Function.update flags row (Function.update (flags row) key true) other index = true :=
  (row_flag_set flags row key other index).mpr (.inr set)

theorem unset_fresh (keys : Finset Key) : unset keys (fun _ => false) = keys.card := by simp [unset]

end Flags

section Rounds

-- `work` bounds what a round begins with.
def left (total work round remaining : Nat) : Nat := (total - round) * (work + 1) + remaining

theorem left_lt (total work round before after : Nat) (less : after < before) :
    left total work round after < left total work round before := Nat.add_lt_add_left less _

theorem left_next (total work round before after : Nat) (running : round < total) (fresh : after ≤ work) :
    left total work (round + 1) after < left total work round before := by
  unfold left
  rw [show total - round = total - (round + 1) + 1 by omega, Nat.succ_mul]
  omega

theorem barrier_finished {Party : Type} [Finite Party] (total : Nat) (round : Party → Nat) (waiting : Party → Prop)
    (bound : ∀ party, round party ≤ total) (arrives : ∀ party, round party < total → waiting party)
    (stays : ∀ party, waiting party →
      ¬ ∀ other, (round other = round party ∧ waiting other) ∨ round party < round other)
    (party : Party) : round party = total := by
  have : Nonempty Party := ⟨party⟩
  obtain ⟨slowest, least⟩ := Finite.exists_min round
  have below := least party
  suffices done : ¬ round slowest < total by
    have most := bound party
    omega
  intro running
  apply stays slowest (arrives slowest running)
  intro other
  rcases Nat.lt_or_eq_of_le (least other) with ahead | level
  · exact .inr ahead
  · exact .inl ⟨level.symm, arrives other (level ▸ running)⟩

theorem barrier_stuck {State Action Party : Type} [Finite Party] (step : State → Action → Option State) (state : State)
    (stuck : Machine.Stuck step state) (total : Nat) (round : Party → Nat) (waiting : Party → Bool)
    (bound : ∀ party, round party ≤ total)
    (moves : ∀ party, round party < total → waiting party = false → ∃ action next, step state action = some next)
    (leaves : ∀ party, waiting party = true →
      (∀ other, (round other = round party ∧ waiting other = true) ∨ round party < round other) →
        ∃ action next, step state action = some next)
    (party : Party) : round party = total := by
  have still : ¬ ∃ action next, step state action = some next := by
    rintro ⟨action, next, taken⟩
    rw [stuck action] at taken
    cases taken
  refine barrier_finished total round (fun party => waiting party = true) bound ?_ ?_ party
  · intro other running
    by_contra outside
    exact still (moves other running (Bool.eq_false_iff.mpr outside))
  · exact fun other inside all => still (leaves other inside all)

end Rounds

section Tallies

variable {Party Stage : Type} [Fintype Party] [DecidableEq Party]

structure Tally (Party Stage : Type) where
  total : Nat
  work : Party → Nat
  round : Stage → Nat
  remaining : Party → Stage → Nat

def Tally.left (tally : Tally Party Stage) (party : Party) (now : Stage) : Nat :=
  Countdown.left tally.total (tally.work party) (tally.round now) (tally.remaining party now)

def Tally.all (tally : Tally Party Stage) (state : Party → Stage) : Nat := ∑ party, tally.left party (state party)

variable (tally : Tally Party Stage) (state : Party → Stage) (party : Party) (now : Stage)

theorem tally_move (less : tally.left party now < tally.left party (state party)) :
    tally.all (Function.update state party now) < tally.all state := by
  apply Machine.sum_move_lt Finset.univ (fun other => tally.left other (state other))
    (fun other => tally.left other (Function.update state party now other)) party (Finset.mem_univ party)
  · rwa [Function.update_self]
  · intro other own
    rw [Function.update_of_ne own]

theorem tally_same (round : tally.round now = tally.round (state party))
    (less : tally.remaining party now < tally.remaining party (state party)) :
    tally.all (Function.update state party now) < tally.all state := by
  apply tally_move
  rw [Tally.left, Tally.left, round]
  exact left_lt _ _ _ _ _ less

theorem tally_next (round : tally.round now = tally.round (state party) + 1)
    (running : tally.round (state party) < tally.total) (fresh : tally.remaining party now ≤ tally.work party) :
    tally.all (Function.update state party now) < tally.all state := by
  apply tally_move
  rw [Tally.left, Tally.left, round]
  exact left_next _ _ _ _ _ running fresh

theorem tally_unseen (round : tally.round now = tally.round (state party))
    (remaining : tally.remaining party now = tally.remaining party (state party)) :
    tally.all (Function.update state party now) = tally.all state := by
  apply Finset.sum_congr rfl
  intro other _
  by_cases own : other = party
  · rw [own, Function.update_self, Tally.left, Tally.left, round, remaining]
  · rw [Function.update_of_ne own]

end Tallies

end Countdown
