import OpenGda.Examples.MmMinimalProduct

set_option autoImplicit false

namespace OpenGda.Examples.MmMinimal

open Matmul Machine Countdown OfiBuffers

variable {Scalar : Type} {program : Program Scalar}

def grid (sizes : Sizes) : Finset (Nat × Nat) :=
  Finset.range (gridX sizes * blockDim) ×ˢ Finset.range (gridY sizes * blockDim)

def buffers (sizes : Sizes) : Finset (Nat × Nat) := Finset.range 2 ×ˢ Finset.range (stripe sizes)

def threadsLeft (sizes : Sizes) (kernel : Kernel Scalar) : Nat :=
  ∑ thread ∈ grid sizes, (operations sizes thread - kernel.progress thread)

def remaining (sizes : Sizes) (now : Rank Scalar) : Nat :=
  (! now.cleared).toNat + unset (buffers sizes) (fun place => now.refilled place.1 place.2) +
    3 * (! now.enqueued).toNat + (! now.triggered).toNat + unset (Finset.range (stripe sizes)) (now.landed 0) +
    now.rt.writes.length + now.rt.atomics.length + unset (Finset.range (stripe sizes)) now.pulled +
    threadsLeft sizes now.kernel + (! now.synced).toNat + (! now.waited).toNat + (! now.waiting).toNat

def roundWork (sizes : Sizes) : Nat :=
  1 + (buffers sizes).card + 3 + 1 + stripe sizes + stripe sizes + ∑ thread ∈ grid sizes, operations sizes thread + 3

theorem remaining_fresh [CommSemiring Scalar] (sizes : Sizes) (round : Nat) (dB : Nat → Nat → Scalar)
    (cs : Nat → Scalar) (rt : Rt.Runtime) (batch : Rt.BatchInv rt) (idle : rt.nOps = 0) :
    remaining sizes (freshRank (freshProcess round dB cs) rt) = roundWork sizes := by
  simp only [remaining, freshRank, freshProcess, (Rt.idle_batch rt batch idle).1, (Rt.idle_batch rt batch idle).2, unset_fresh,
    threadsLeft, launch, roundWork, Nat.sub_zero, Finset.card_range, List.length_nil, Bool.not_false, Bool.toNat_true]
  omega

def tally (program : Program Scalar) : Tally (Fin program.sizes.npes) (Rank Scalar) where
  total := totalRounds program
  work _ := roundWork program.sizes
  round now := now.round
  remaining _ now := remaining program.sizes now

theorem threads_left_lt [Add Scalar] [Mul Scalar] (sizes : Sizes) (as bs : Nat → Scalar) (colOffset : Nat)
    (thread : Nat × Nat) (now : Kernel Scalar) (inGrid : InGrid sizes thread)
    (more : now.progress thread < operations sizes thread) :
    threadsLeft sizes (threadStep sizes as bs colOffset thread now) < threadsLeft sizes now := by
  have moved : (threadStep sizes as bs colOffset thread now).progress =
      Function.update now.progress thread (now.progress thread + 1) := by
    unfold threadStep
    cases progress : now.progress thread <;> simp
  have member : thread ∈ grid sizes := by simp [grid, inGrid.1, inGrid.2]
  apply sum_move_lt (grid sizes) (fun thread => operations sizes thread - now.progress thread)
    (fun other => operations sizes other - (threadStep sizes as bs colOffset thread now).progress other) thread member
  · rw [moved, Function.update_self]
    omega
  · intro other different
    rw [moved, Function.update_of_ne different]

section Remaining

theorem refill_remaining (sizes : Sizes) (now : Rank Scalar) (which index : Nat) (value : Scalar) (below : which < 2)
    (inside : index < stripe sizes) (pending : now.refilled which index = false) :
    remaining sizes { now with toProcess := refillWord now.toProcess which index value } < remaining sizes now := by
  have member : (which, index) ∈ buffers sizes := by simp [buffers, below, inside]
  have fewer := unset_update_lt (buffers sizes) (fun place => now.refilled place.1 place.2) (which, index) member pending
  have same : (fun place : Nat × Nat => Function.update now.refilled which
      (Function.update (now.refilled which) index true) place.1 place.2) =
      Function.update (fun place => now.refilled place.1 place.2) (which, index) true := by
    funext place
    by_cases buffer : place.1 = which
    · simp [buffer, Function.update_apply, Prod.ext_iff]
    · simp [buffer, Prod.ext_iff]
  simp only [remaining, refillWord, storeWord, same]
  omega

theorem enqueue_remaining (placed : Placed program) (mype : Fin program.sizes.npes) (now next : Rank Scalar)
    (control : Control program mype now) (fresh : now.enqueued = false) (taken : enqueue program mype now = some next) :
    remaining program.sizes next < remaining program.sizes now := by
  unfold enqueue at taken
  split at taken
  · have none := (control.idle (fresh_token mype now control fresh)).1
    obtain ⟨writes, atomics⟩ := Rt.idle_batch now.rt control.batch none
    obtain ⟨write, _, puts⟩ := put_stripe placed mype now.rt control.opened control.batch none
      (curBuf (stepOf program.sizes now.round)) (nextBuf (stepOf program.sizes now.round)) (Nat.mod_lt _ (by decide))
      (Nat.mod_lt _ (by decide))
    simp only [puts, Option.map_some, Option.some.injEq] at taken
    subst taken
    simp only [remaining, Rt.prepareTrigger, queuedStripe, writes, atomics, fresh, List.length_cons, List.length_nil,
      Bool.not_false, Bool.not_true, Bool.toNat_true, Bool.toNat_false]
    omega
  · cases taken
    simp only [remaining, fresh, Bool.not_false, Bool.not_true, Bool.toNat_true, Bool.toNat_false]
    omega

theorem land_remaining (sizes : Sizes) (now : Rank Scalar) (word : Nat) (inside : word < stripe sizes)
    (pending : now.landed 0 word = false) : remaining sizes
      { now with landed := Function.update now.landed 0 (Function.update (now.landed 0) word true) } <
        remaining sizes now := by
  have fewer := unset_update_lt (Finset.range (stripe sizes)) (now.landed 0) word (Finset.mem_range.mpr inside) pending
  simp only [remaining, Function.update_self]
  omega

theorem complete_write_remaining (sizes : Sizes) (now : Rank Scalar) (index : Nat) (rt : Rt.Runtime)
    (taken : Rt.completeWrite now.rt index = some rt) :
    remaining sizes { now with rt := rt } < remaining sizes now := by
  obtain ⟨work, found, _, rfl⟩ := Rt.complete_write_result _ rt index taken
  obtain ⟨within, _⟩ := List.getElem?_eq_some_iff.mp found
  simp only [remaining, List.length_eraseIdx, if_pos within]
  omega

theorem complete_atomic_remaining (sizes : Sizes) (now : Rank Scalar) (index : Nat) (rt : Rt.Runtime)
    (batch : Rt.BatchInv now.rt) (taken : Rt.completeAtomic now.rt index = some rt) :
    remaining sizes { now with rt := rt } < remaining sizes now := by
  have within := Rt.complete_atomic_inside _ rt index taken
  obtain ⟨_, _, _, rfl, _⟩ := Rt.complete_atomic_result _ rt index batch taken
  simp only [remaining, List.length_eraseIdx, if_pos within]
  omega

theorem pull_remaining (sizes : Sizes) (now : Rank Scalar) (which index : Nat) (value : Scalar)
    (inside : index < stripe sizes) (pending : now.pulled index = false) : remaining sizes { now with
      toProcess := storeWord now.toProcess which index value
      pulled := Function.update now.pulled index true } < remaining sizes now := by
  have fewer := unset_update_lt (Finset.range (stripe sizes)) now.pulled index (Finset.mem_range.mpr inside) pending
  simp only [remaining, storeWord]
  omega

theorem thread_remaining [Add Scalar] [Mul Scalar] (sizes : Sizes) (as : Nat → Scalar) (mype : Fin sizes.npes) (s : Nat)
    (now : Rank Scalar) (thread : Nat × Nat) (inGrid : InGrid sizes thread)
    (more : now.kernel.progress thread < operations sizes thread) :
    remaining sizes { now with toProcess := runThread sizes as mype s now.toProcess thread } < remaining sizes now := by
  have fewer := threads_left_lt sizes as (now.dB (curBuf s)) (blockNum sizes mype s * Ns sizes) thread now.kernel inGrid more
  simp only [remaining, runThread]
  omega

theorem finish_remaining (sizes : Sizes) (now next : Rank Scalar) (batch : Rt.BatchInv now.rt)
    (outside : now.waiting = false) (taken : finish now = some next) : remaining sizes next < remaining sizes now := by
  unfold finish at taken
  split at taken
  · simp only [Option.map_eq_some_iff] at taken
    obtain ⟨rt, reset, rfl⟩ := taken
    obtain ⟨_, _, _, _, _, _, writes, atomics, _⟩ := Rt.reset_result _ rt batch reset
    simp only [remaining, writes, atomics, outside, Bool.not_false, Bool.not_true, Bool.toNat_true, Bool.toNat_false]
    omega
  · cases taken
    simp only [remaining, outside, Bool.not_false, Bool.not_true, Bool.toNat_true, Bool.toNat_false]
    omega

end Remaining

theorem step_decreases [CommSemiring Scalar] (placed : Placed program) (before after : State program)
    (action : Action program) (controlled : Controlled before) (taken : step program before action = some after) :
    (tally program).all after < (tally program).all before := by
  cases action with
  | clear mype =>
      simp only [step, Option.ite_none_right_eq_some, Option.some.injEq] at taken
      obtain ⟨⟨_, _, pending⟩, rfl⟩ := taken
      refine tally_same (tally program) before mype _ rfl ?_
      simp only [tally, remaining, clearCs, threadsLeft, pending, Bool.not_false, Bool.not_true, Bool.toNat_true, Bool.toNat_false]
      omega
  | refill mype which index =>
      simp only [step, Option.ite_none_right_eq_some, Option.some.injEq] at taken
      obtain ⟨⟨_, _, ⟨_, below, inside⟩, pending⟩, rfl⟩ := taken
      exact tally_same (tally program) before mype _ rfl (refill_remaining _ _ which index _ below inside pending)
  | refilled mype =>
      simp only [step, Option.ite_none_right_eq_some, Option.some.injEq] at taken
      obtain ⟨⟨_, _, outside, _⟩, rfl⟩ := taken
      refine tally_same (tally program) before mype _ rfl ?_
      simp only [tally, remaining, outside, Bool.not_false, Bool.not_true, Bool.toNat_true, Bool.toNat_false]
      omega
  | enqueue mype =>
      simp only [step, Option.ite_none_right_eq_some, Option.map_eq_some_iff] at taken
      obtain ⟨⟨_, fresh⟩, next, queued, rfl⟩ := taken
      exact tally_same (tally program) before mype next (enqueue_fields mype _ next queued).1
        (enqueue_remaining placed mype _ next (controlled mype) fresh queued)
  | trigger mype =>
      simp only [step, Option.ite_none_right_eq_some, Option.some.injEq] at taken
      obtain ⟨⟨_, pending⟩, rfl⟩ := taken
      refine tally_same (tally program) before mype _ rfl ?_
      simp only [tally, remaining, Rt.flush, pending, Bool.not_false, Bool.not_true, Bool.toNat_true, Bool.toNat_false]
      omega
  | land mype target index word =>
      obtain ⟨inside, pending, _, rfl⟩ := land_result placed before after mype target index word (controlled mype) taken
      rw [tally_unseen (tally program) _ (Matmul.left program.sizes mype) _ (by rfl) (by rfl)]
      exact tally_same (tally program) before mype _ (by rfl) (land_remaining _ (before mype) word inside pending)
  | completeWrite mype index =>
      simp only [step, Option.ite_none_right_eq_some, Option.map_eq_some_iff] at taken
      obtain ⟨_, rt, completed, rfl⟩ := taken
      exact tally_same (tally program) before mype _ rfl (complete_write_remaining _ _ index rt completed)
  | completeAtomic mype index =>
      simp only [step, Option.map_eq_some_iff] at taken
      obtain ⟨rt, completed, rfl⟩ := taken
      exact tally_same (tally program) before mype _ rfl
        (complete_atomic_remaining _ _ index rt (controlled mype).batch completed)
  | pull mype index =>
      simp only [step, Option.ite_none_right_eq_some, Option.some.injEq] at taken
      obtain ⟨⟨_, _, _, inside, pending⟩, rfl⟩ := taken
      exact tally_same (tally program) before mype _ rfl (pull_remaining _ _ _ index _ inside pending)
  | thread mype thread =>
      simp only [step, Option.ite_none_right_eq_some, Option.some.injEq] at taken
      obtain ⟨⟨_, _, _, inGrid, more⟩, rfl⟩ := taken
      exact tally_same (tally program) before mype _ rfl (thread_remaining _ _ mype _ _ thread inGrid more)
  | sync mype =>
      simp only [step, Option.ite_none_right_eq_some, Option.some.injEq] at taken
      obtain ⟨⟨_, pending, _⟩, rfl⟩ := taken
      refine tally_same (tally program) before mype _ rfl ?_
      simp only [tally, remaining, pending, Bool.not_false, Bool.not_true, Bool.toNat_true, Bool.toNat_false]
      omega
  | wait mype =>
      simp only [step, Option.ite_none_right_eq_some, Option.some.injEq] at taken
      obtain ⟨⟨_, pending, _⟩, rfl⟩ := taken
      refine tally_same (tally program) before mype _ rfl ?_
      simp only [tally, remaining, pending, Bool.not_false, Bool.not_true, Bool.toNat_true, Bool.toNat_false]
      omega
  | finish mype =>
      simp only [step, Option.ite_none_right_eq_some, Option.map_eq_some_iff] at taken
      obtain ⟨⟨_, outside, _⟩, next, finished, rfl⟩ := taken
      exact tally_same (tally program) before mype next (finish_fields _ next finished).1
        (finish_remaining _ _ next (controlled mype).batch outside finished)
  | leave mype =>
      simp only [step, Option.ite_none_right_eq_some, Option.some.injEq] at taken
      obtain ⟨⟨waiting, _⟩, rfl⟩ := taken
      have control := controlled mype
      exact tally_next (tally program) before mype _ rfl (control.waiting waiting).1
        (Nat.le_of_eq (remaining_fresh program.sizes _ _ _ _ control.batch
          (control.idle (waiting_token mype _ control waiting)).1))

end OpenGda.Examples.MmMinimal
