import OpenGda.Examples.Matmul
import OpenGda.Lib.Supersteps

set_option autoImplicit false

-- The stripes of B as rounds of work: one that fills both buffers of every process, then npes
-- in which every stripe moves on by one process.
namespace OpenGda.Examples.Matmul

open Supersteps

variable {Scalar : Type}

structure Place (sizes : Sizes) where
  rank : Fin sizes.npes
  which : Nat
  index : Nat
deriving DecidableEq

inductive Path where
  | push
  | pull
deriving DecidableEq

inductive Task (sizes : Sizes) where
  | refill (mype : Fin sizes.npes) (which index : Nat)
  | move (path : Path) (receiver : Fin sizes.npes) (index : Nat)
deriving DecidableEq

def stage (sizes : Sizes) (round : Nat) : Nat := round % (sizes.npes + 1)

def stepOf (sizes : Sizes) (round : Nat) : Nat := stage sizes round - 1

structure Ring (sizes : Sizes) where
  source : Fin sizes.npes → Fin sizes.npes
  serves : Path → Fin sizes.npes → Bool

section Work

variable {sizes : Sizes} (ring : Ring sizes) (hBs : Nat → Nat → Scalar)

def Moves (round : Nat) (path : Path) (receiver : Fin sizes.npes) (index : Nat) : Prop :=
  stage sizes round ≠ 0 ∧ ring.serves path receiver = true ∧ index < stripe sizes

def Refills (sizes : Sizes) (round which index : Nat) : Prop :=
  stage sizes round = 0 ∧ which < 2 ∧ index < stripe sizes

instance (round which index : Nat) : Decidable (Refills sizes round which index) := inferInstanceAs (Decidable (_ ∧ _ ∧ _))

def Ring.owner : Task sizes → Fin sizes.npes
  | .refill mype _ _ => mype
  | .move .push receiver _ => ring.source receiver
  | .move .pull receiver _ => receiver

def work : Work (Fin sizes.npes) (Task sizes) (Place sizes) Scalar where
  owner := ring.owner
  active round
    | .refill _ which index => Refills sizes round which index
    | .move path receiver index => Moves ring round path receiver index
  late _ := False
  target round
    | .refill mype which index => some ⟨mype, which, index⟩
    | .move _ receiver index => some ⟨receiver, nextBuf (stepOf sizes round), index⟩
  result round
    | .refill mype _ index, _ => hBs mype index
    | .move _ receiver index, memory => memory ⟨ring.source receiver, curBuf (stepOf sizes round), index⟩

def generation (garbage : Place sizes → Scalar) : Nat → Place sizes → Scalar
  | 0, place => garbage place
  | round + 1, place =>
      if place.which < 2 ∧ place.index < stripe sizes then
        if stage sizes round = 0 then hBs place.rank place.index
        else if place.which = nextBuf (stepOf sizes round) then
          generation garbage round ⟨ring.source place.rank, curBuf (stepOf sizes round), place.index⟩
        else generation garbage round place
      else generation garbage round place

end Work

section Ring

variable {sizes : Sizes} (ring : Ring sizes) (hBs : Nat → Nat → Scalar) (garbage : Place sizes → Scalar)

theorem next_buf_lt (s : Nat) : nextBuf s < 2 := Nat.mod_lt _ (by decide)

theorem stage_zero : stage sizes 0 = 0 := Nat.zero_mod _

theorem stage_succ (round s : Nat) (later : stage sizes round = s + 1) :
    ∃ earlier, round = earlier + 1 ∧ stage sizes earlier = s := by
  cases round with
  | zero =>
      rw [stage_zero] at later
      omega
  | succ earlier =>
      refine ⟨earlier, rfl, ?_⟩
      unfold stage at later ⊢
      rw [Nat.add_mod] at later
      have below : earlier % (sizes.npes + 1) < sizes.npes + 1 := Nat.mod_lt _ (Nat.succ_pos _)
      rcases Nat.lt_or_ge (earlier % (sizes.npes + 1)) sizes.npes with inner | last
      · have one : 1 % (sizes.npes + 1) = 1 := Nat.mod_eq_of_lt (by omega)
        rw [one, Nat.mod_eq_of_lt (by omega)] at later
        omega
      · have top : earlier % (sizes.npes + 1) = sizes.npes := by omega
        rw [top, Nat.add_mod_mod, Nat.mod_self] at later
        omega

theorem generation_step (round s index : Nat) (mype : Fin sizes.npes) (inside : index < stripe sizes)
    (now : stage sizes round = s + 1) :
    generation ring hBs garbage round ⟨mype, curBuf s, index⟩ = hBs (ring.source^[s] mype) index := by
  induction s generalizing round mype with
  | zero =>
      obtain ⟨earlier, rfl, first⟩ := stage_succ round 0 now
      have within : curBuf 0 < 2 := by decide
      simp [generation, inside, within, first]
  | succ s ih =>
      obtain ⟨earlier, rfl, before⟩ := stage_succ round (s + 1) now
      have step : stepOf sizes earlier = s := by rw [stepOf, before, Nat.add_sub_cancel]
      have notRefill : ¬ stage sizes earlier = 0 := by omega
      have within : nextBuf s < 2 := next_buf_lt s
      simp only [generation, cur_succ, within, inside, and_self, if_true, if_neg notRefill, step]
      exact ih earlier (ring.source mype) before

theorem task_target (round : Nat) (task : Task sizes) (place : Place sizes)
    (active : (work ring hBs).active round task) (target : (work ring hBs).target round task = some place) :
    (∃ mype which index, task = .refill mype which index ∧ Refills sizes round which index ∧
      place = ⟨mype, which, index⟩) ∨
    ∃ path receiver index, task = .move path receiver index ∧ Moves ring round path receiver index ∧
      place = ⟨receiver, nextBuf (stepOf sizes round), index⟩ := by
  cases task with
  | refill mype which index => exact .inl ⟨mype, which, index, rfl, active, (Option.some.inj target).symm⟩
  | move path receiver index => exact .inr ⟨path, receiver, index, rfl, active, (Option.some.inj target).symm⟩

theorem unwritten_cur (round : Nat) (step : stage sizes round ≠ 0) (mype : Fin sizes.npes) (index : Nat) :
    Unwritten (work ring hBs) round ⟨mype, curBuf (stepOf sizes round), index⟩ := by
  intro task active target
  rcases task_target ring hBs round task _ active target with ⟨_, _, _, _, refills, _⟩ | ⟨_, _, _, _, _, same⟩
  · exact step refills.1
  · exact cur_ne_next _ (congrArg Place.which same)

theorem current_stripe (view : View (Fin sizes.npes) (Task sizes) (Place sizes) Scalar)
    (consistent : ∃ front, Consistent (work ring hBs) (generation ring hBs garbage) view front) (mype : Fin sizes.npes)
    (outside : ¬ view.entered mype) (s index : Nat) (now : stage sizes (view.round mype) = s + 1)
    (inside : index < stripe sizes) : view.memory ⟨mype, curBuf s, index⟩ = hBs (ring.source^[s] mype) index := by
  have current : stepOf sizes (view.round mype) = s := by rw [stepOf, now, Nat.add_sub_cancel]
  have written := unwritten_cur ring hBs (view.round mype) (by omega) mype index
  rw [current] at written
  calc view.memory ⟨mype, curBuf s, index⟩
      = generation ring hBs garbage (view.round mype) ⟨mype, curBuf s, index⟩ :=
        round_memory view consistent mype outside _ fun task active target => absurd target (written task active)
    _ = _ := generation_step ring hBs garbage _ s index mype inside now

theorem stage_next (sizes : Sizes) (round : Nat) : stage sizes (round + 1) =
    if stage sizes round = sizes.npes then 0 else stage sizes round + 1 := by
  unfold stage
  have below : round % (sizes.npes + 1) < sizes.npes + 1 := Nat.mod_lt _ (Nat.succ_pos _)
  split
  case isTrue last => rw [← Nat.mod_add_mod, last, Nat.mod_self]
  case isFalse inner => rw [← Nat.mod_add_mod, Nat.mod_eq_of_lt (by omega)]

theorem ring_lockstep (served : ∀ receiver, ∃ path, ring.serves path receiver = true) :
    Lockstep (work ring hBs) (generation ring hBs garbage) where
  early := by
    intro round task place memory active _ target reads
    rcases task_target ring hBs round task place active target with
      ⟨mype, which, index, rfl, refills, rfl⟩ | ⟨path, receiver, index, rfl, moves, rfl⟩
    · obtain ⟨first, within, inside⟩ := refills
      simp [generation, work, first, within, inside]
    · obtain ⟨step, _, inside⟩ := moves
      have within := next_buf_lt (stepOf sizes round)
      simp only [generation, work, within, inside, and_self, if_true, if_neg step]
      exact reads _ (unwritten_cur ring hBs round step _ _)
  late := fun _ _ _ _ _ late => late.elim
  idle := by
    intro round place unwritten
    obtain ⟨mype, which, index⟩ := place
    simp only [generation]
    by_cases inside : which < 2 ∧ index < stripe sizes
    · rw [if_pos inside]
      by_cases refill : stage sizes round = 0
      · exact absurd rfl (unwritten (.refill mype which index) ⟨refill, inside⟩)
      · rw [if_neg refill]
        by_cases next : which = nextBuf (stepOf sizes round)
        · subst next
          obtain ⟨path, serves⟩ := served mype
          exact absurd rfl (unwritten (.move path mype index) ⟨refill, serves, inside.2⟩)
        · rw [if_neg next]
    · rw [if_neg inside]

end Ring

end OpenGda.Examples.Matmul
