import Mathlib

set_option autoImplicit false

-- The combinatorial core of a dissemination barrier on a ring of n places,
-- for every n: a place that has heard of the m places behind it, and takes
-- over what the place m behind it had heard, has heard of 2m places.
namespace Dissemination

variable {n : Nat}

def ahead (place : Fin n) (distance : Nat) : Fin n :=
  ⟨(place.val + distance) % n, Nat.mod_lt _ place.pos⟩

def behind (place : Fin n) (distance : Nat) : Fin n :=
  ⟨(place.val + n - distance % n) % n, Nat.mod_lt _ place.pos⟩

theorem ahead_unique (a b : Fin n) (distance : Nat) (same : ahead a distance = ahead b distance) : a = b := by
  have values : (a.val + distance) % n = (b.val + distance) % n := congrArg Fin.val same
  have congruent : a.val ≡ b.val [MOD n] := Nat.ModEq.add_right_cancel' distance values
  exact Fin.ext (by rwa [Nat.ModEq, Nat.mod_eq_of_lt a.isLt, Nat.mod_eq_of_lt b.isLt] at congruent)

theorem ahead_behind (place : Fin n) (distance : Nat) : ahead (behind place distance) distance = place := by
  have bound : distance % n < n := Nat.mod_lt _ place.pos
  have split : distance = n * (distance / n) + distance % n := (Nat.div_add_mod distance n).symm
  apply Fin.ext
  change ((place.val + n - distance % n) % n + distance) % n = place.val
  rw [Nat.mod_add_mod]
  have total : place.val + n - distance % n + distance = place.val + n * (distance / n + 1) := by
    rw [Nat.mul_add]
    omega
  rw [total, Nat.add_mul_mod_self_left, Nat.mod_eq_of_lt place.isLt]

theorem behind_ahead (place : Fin n) (distance : Nat) : behind (ahead place distance) distance = place :=
  ahead_unique _ _ distance (ahead_behind (ahead place distance) distance)

theorem ahead_add (place : Fin n) (first second : Nat) :
    ahead (ahead place first) second = ahead place (first + second) := by
  apply Fin.ext
  change ((place.val + first) % n + second) % n = (place.val + (first + second)) % n
  rw [Nat.mod_add_mod, Nat.add_assoc]

theorem behind_behind (place : Fin n) (first second : Nat) :
    behind (behind place first) second = behind place (first + second) := by
  apply ahead_unique _ _ (first + second)
  rw [ahead_behind, Nat.add_comm first second, ← ahead_add, ahead_behind, ahead_behind]

theorem behind_zero (place : Fin n) : behind place 0 = place := by
  apply Fin.ext
  change (place.val + n - 0 % n) % n = place.val
  rw [Nat.zero_mod, Nat.sub_zero, Nat.add_mod_right, Nat.mod_eq_of_lt place.isLt]

theorem behind_reaches (place other : Fin n) : ∃ distance < n, behind place distance = other := by
  refine ⟨(place.val + n - other.val) % n, Nat.mod_lt _ place.pos, ?_⟩
  apply ahead_unique _ _ ((place.val + n - other.val) % n)
  rw [ahead_behind]
  apply Fin.ext
  change place.val = (other.val + (place.val + n - other.val) % n) % n
  have bound := other.isLt
  rw [Nat.add_mod_mod, show other.val + (place.val + n - other.val) = place.val + n by omega,
    Nat.add_mod_right, Nat.mod_eq_of_lt place.isLt]

def Heard (known : Fin n → Prop) (place : Fin n) (count : Nat) : Prop :=
  ∀ distance < count, known (behind place distance)

theorem heard_one (known : Fin n → Prop) (place : Fin n) (self : known place) : Heard known place 1 := by
  intro distance bound
  have zero : distance = 0 := by omega
  rw [zero, behind_zero]
  exact self

theorem heard_double (known : Fin n → Prop) (place : Fin n) (count : Nat)
    (own : Heard known place count) (received : Heard known (behind place count) count) :
    Heard known place (2 * count) := by
  intro distance bound
  by_cases near : distance < count
  · exact own distance near
  · have far := received (distance - count) (by omega)
    rwa [behind_behind, show count + (distance - count) = distance by omega] at far

theorem heard_mono (before after : Fin n → Prop) (place : Fin n) (count : Nat)
    (grows : ∀ other, before other → after other) (heard : Heard before place count) :
    Heard after place count :=
  fun distance bound => grows _ (heard distance bound)

theorem heard_everyone (known : Fin n → Prop) (place : Fin n) (count : Nat) (enough : n ≤ count)
    (heard : Heard known place count) (other : Fin n) : known other := by
  obtain ⟨distance, bound, same⟩ := behind_reaches place other
  exact same ▸ heard distance (by omega)

structure Progress where
  entered : Nat
  passed : Nat
deriving DecidableEq, Repr

def Progress.Past (progress : Progress) (episode round : Nat) : Prop :=
  episode < progress.entered ∨ (episode = progress.entered ∧ round < progress.passed)

def Informed (rounds : Nat) (places : Fin n → Progress) : Prop :=
  ∀ place episode round, round < rounds → (places place).Past episode round →
    Heard (fun other => episode ≤ (places other).entered) place (2 ^ (round + 1))

theorem informed_initially (rounds : Nat) : Informed (n := n) rounds (fun _ => ⟨0, rounds⟩) := by
  intro place episode round _ past distance _
  rcases past with less | ⟨same, _⟩
  · exact absurd less (Nat.not_lt_zero episode)
  · exact Nat.le_of_eq same

theorem informed_update (rounds : Nat) (places : Fin n → Progress) (mover : Fin n) (progress : Progress)
    (informed : Informed rounds places) (grows : (places mover).entered ≤ progress.entered)
    (moved : ∀ episode round, round < rounds → progress.Past episode round →
      Heard (fun other => episode ≤ (places other).entered) mover (2 ^ (round + 1))) :
    Informed rounds (Function.update places mover progress) := by
  intro place episode round bound past
  have kept : ∀ other, episode ≤ (places other).entered →
      episode ≤ (Function.update places mover progress other).entered := by
    intro other entered
    by_cases same : other = mover
    · subst other
      simpa using Nat.le_trans entered grows
    · simpa [same] using entered
  apply heard_mono _ _ place _ kept
  by_cases same : place = mover
  · subst place
    exact moved episode round bound (by simpa using past)
  · exact informed place episode round bound (by simpa [same] using past)

theorem informed_enter (rounds : Nat) (places : Fin n → Progress) (mover : Fin n)
    (informed : Informed rounds places) (finished : (places mover).passed = rounds) :
    Informed rounds (Function.update places mover ⟨(places mover).entered + 1, 0⟩) := by
  apply informed_update rounds places mover _ informed (Nat.le_succ _)
  intro episode round bound past
  apply informed mover episode round bound
  rcases past with less | ⟨_, within⟩
  · by_cases same : episode = (places mover).entered
    · exact Or.inr ⟨same, by omega⟩
    · exact Or.inl (by simp only at less; omega)
  · exact absurd within (Nat.not_lt_zero round)

theorem informed_tells (rounds : Nat) (places : Fin n → Progress) (informed : Informed rounds places)
    (place : Fin n) (episode round : Nat) (bound : round < rounds) (entered : episode ≤ (places place).entered)
    (ready : ∀ earlier, earlier < round → (places place).Past episode earlier) :
    Heard (fun other => episode ≤ (places other).entered) place (2 ^ round) := by
  cases round with
  | zero => exact heard_one _ place entered
  | succ round => exact informed place episode round (by omega) (ready round (by omega))

theorem informed_pass (rounds : Nat) (places : Fin n → Progress) (mover : Fin n) (round : Nat)
    (informed : Informed rounds places) (bound : round < rounds) (current : (places mover).passed = round)
    (told : Heard (fun other => (places mover).entered ≤ (places other).entered) (behind mover (2 ^ round))
      (2 ^ round)) :
    Informed rounds (Function.update places mover ⟨(places mover).entered, round + 1⟩) := by
  apply informed_update rounds places mover ⟨(places mover).entered, round + 1⟩ informed (Nat.le_refl _)
  intro episode other otherBound past
  by_cases old : (places mover).Past episode other
  · exact informed mover episode other otherBound old
  · have now : episode = (places mover).entered ∧ other = round := by
      simp only [Progress.Past] at past old
      omega
    obtain ⟨rfl, rfl⟩ := now
    have own := informed_tells rounds places informed mover (places mover).entered other bound (Nat.le_refl _)
      (fun earlier before => Or.inr ⟨rfl, by omega⟩)
    have both := heard_double _ mover (2 ^ other) own told
    rwa [Nat.pow_succ, Nat.mul_comm]

theorem informed_everyone (rounds : Nat) (places : Fin n → Progress) (informed : Informed rounds places)
    (enough : n ≤ 2 ^ rounds) (place other : Fin n) (episode : Nat) (entered : episode ≤ (places place).entered)
    (finished : ∀ round, round < rounds → (places place).Past episode round) :
    episode ≤ (places other).entered := by
  cases rounds with
  | zero =>
      have alone : other = place := Fin.ext (by omega)
      rw [alone]
      exact entered
  | succ last =>
      exact heard_everyone _ place _ enough (informed place episode last (by omega) (finished last (by omega))) other

def doublings (size : Nat) : Nat → Nat → Nat
  | 0, _ => 0
  | fuel + 1, reached => if reached < size then doublings size fuel (2 * reached) + 1 else 0

theorem doublings_cover (size fuel reached : Nat) (enough : size ≤ reached + fuel) (positive : 0 < reached) :
    size ≤ reached * 2 ^ doublings size fuel reached := by
  induction fuel generalizing reached with
  | zero => simpa [doublings] using enough
  | succ fuel ih =>
      by_cases more : reached < size
      · have rest := ih (2 * reached) (by omega) (by omega)
        rw [doublings, if_pos more, Nat.pow_succ]
        calc size ≤ 2 * reached * 2 ^ doublings size fuel (2 * reached) := rest
          _ = reached * (2 ^ doublings size fuel (2 * reached) * 2) := by ring
      · rw [doublings, if_neg more]
        omega

theorem doublings_needed (size fuel reached round : Nat) (bound : round < doublings size fuel reached) :
    reached * 2 ^ round < size := by
  induction fuel generalizing reached round with
  | zero => simp [doublings] at bound
  | succ fuel ih =>
      by_cases more : reached < size
      · rw [doublings, if_pos more] at bound
        cases round with
        | zero => simpa using more
        | succ round =>
            have rest := ih (2 * reached) round (by omega)
            calc reached * 2 ^ (round + 1) = 2 * reached * 2 ^ round := by ring
              _ < size := rest
      · rw [doublings, if_neg more] at bound
        omega

end Dissemination
