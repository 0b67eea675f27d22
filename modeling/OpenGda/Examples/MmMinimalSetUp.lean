import OpenGda.Examples.MmMinimal
import OpenGda.Ofi.RuntimeBatch

set_option autoImplicit false

-- What the set-up calls leave of each process' Runtime, and what a put of a stripe carries.
namespace OpenGda.Examples.MmMinimal

open Matmul OfiBuffers
open Ofi (RmaWrite)

variable {Scalar : Type} {program : Program Scalar}

abbrev Placed (program : Program Scalar) : Prop :=
  OfiBuffers.Placed program.toMemory program.sizes.npes (stripeSize program)

abbrev Opened (program : Program Scalar) (mype : Nat) (rt : Rt.Runtime) : Prop :=
  OfiBuffers.Opened program.toMemory program.sizes.npes mype rt

def stripeMove (program : Program Scalar) (source target : Nat) : Move := ⟨source, 0, target, 0, stripe program.sizes⟩

abbrev Carries (program : Program Scalar) (mype : Fin program.sizes.npes) (source target : Nat) (write : RmaWrite) : Prop :=
  OfiBuffers.Carries program.toMemory (stripeSize program) mype (left program.sizes mype)
    (stripeMove program source target) write

def queuedStripe (rt : Rt.Runtime) (write : RmaWrite) : Rt.Runtime :=
  { rt with
    nOps := 1
    writes := [⟨0, 1, write, rt.batch⟩]
    atomics := [⟨0, 1, rt.batch⟩]
    atomicSignalsQueued := true }

theorem queued_stripe_batch (rt : Rt.Runtime) (write : RmaWrite) (batch : Rt.BatchInv rt) (idle : rt.nOps = 0) :
    Rt.BatchInv (Rt.prepareTrigger (queuedStripe rt write)) := by
  obtain ⟨writes, atomics⟩ := Rt.idle_batch rt batch idle
  have queued := Rt.put_no_db_batch rt write batch (by rw [idle]; decide)
  simp only [idle, writes, atomics, List.nil_append] at queued
  exact Rt.prepare_trigger_batch _ queued

theorem put_stripe (placed : Placed program) (mype : Fin program.sizes.npes) (rt : Rt.Runtime)
    (opened : Opened program mype rt) (batch : Rt.BatchInv rt) (idle : rt.nOps = 0) (source target : Nat)
    (sourceBelow : source < 2) (targetBelow : target < 2) : ∃ write, Carries program mype source target write ∧
      Rt.putNoDb rt (gB program mype source) (left program.sizes mype) target (stripeSize program) 0 0 =
        some (⟨0⟩, queuedStripe rt write) := by
  have inside : (stripeMove program source target).Inside (stripeSize program) :=
    ⟨sourceBelow, targetBelow, by simp [stripeMove, stripeSize], by simp [stripeMove, stripeSize]⟩
  obtain ⟨write, carries, queues⟩ := put_queues placed mype (left program.sizes mype) rt opened (by rw [idle]; decide)
    (stripeMove program source target) inside
  obtain ⟨writes, atomics⟩ := Rt.idle_batch rt batch idle
  refine ⟨write, carries, ?_⟩
  simp only [stripeMove, Nat.zero_mul, idle, writes, atomics, List.nil_append] at queues
  exact queues

def SetUp (program : Program Scalar) (rt : Fin program.sizes.npes → Rt.Runtime) : Prop :=
  ∀ mype : Fin program.sizes.npes, ∃ opened,
    exchanged program.toMemory program.sizes.npes (stripeSize program) mype = some opened ∧
      warmUp program mype opened = some (rt mype)

def writtenStripe (rt : Rt.Runtime) (write : RmaWrite) : Rt.Runtime :=
  { Rt.flush (Rt.prepareTrigger (queuedStripe rt write)) with
    writes := []
    completionCntr := Function.update rt.completionCntr 0 (rt.completionCntr 0 + 1) }

def signalledStripe (rt : Rt.Runtime) (write : RmaWrite) : Rt.Runtime :=
  { writtenStripe rt write with
    atomics := []
    slotPool := Function.update rt.slotPool 0 (rt.slotPool 0 + 1)
    atomicCompletionCntr := Function.update rt.atomicCompletionCntr 0 (rt.atomicCompletionCntr 0 + 1) }

theorem warm_up_returns (placed : Placed program) (mype : Fin program.sizes.npes) (rt : Rt.Runtime)
    (opened : Opened program mype rt) (batch : Rt.BatchInv rt) (idle : rt.nOps = 0) :
    ∃ after, warmUp program mype rt = some after ∧ Opened program mype after ∧ Rt.BatchInv after ∧
      after.nOps = 0 ∧ after.fabric.nic.counters .trigger = 0 := by
  obtain ⟨write, _, puts⟩ := put_stripe placed mype rt opened batch idle 0 0 Nat.two_pos Nat.two_pos
  have released : Rt.BatchInv (Rt.flush (Rt.prepareTrigger (queuedStripe rt write))) :=
    Rt.batch_frame _ _ (queued_stripe_batch rt write batch idle) ⟨⟨rfl, rfl⟩, rfl, ⟨rfl, rfl⟩, ⟨rfl, rfl⟩, rfl, rfl⟩
  have written : Rt.completeWrite (Rt.flush (Rt.prepareTrigger (queuedStripe rt write))) 0 =
      some (writtenStripe rt write) := by
    have ready : Rt.WriteReady (Rt.flush (Rt.prepareTrigger (queuedStripe rt write))) ⟨0, 1, write, rt.batch⟩ :=
      Nat.le_refl 1
    unfold Rt.completeWrite
    exact if_pos ready
  have signalled : Rt.completeAtomic (writtenStripe rt write) 0 = some (signalledStripe rt write) := by
    have ready : Rt.AtomicReady (writtenStripe rt write) ⟨0, 1, rt.batch⟩ := by simp [Rt.AtomicReady, writtenStripe]
    unfold Rt.completeAtomic
    exact if_pos ready
  have done : (∀ slot < 1, 1 ≤ (signalledStripe rt write).completionCntr slot) ∧
      (true = true → ∀ slot < 1, 1 ≤ (signalledStripe rt write).atomicCompletionCntr slot) := by
    simp [signalledStripe, writtenStripe]
  obtain ⟨after, ends⟩ : ∃ after, Rt.reset (signalledStripe rt write) = some after := ⟨_, if_pos done⟩
  have complete := Rt.complete_atomic_batch _ _ 0 (Rt.complete_write_batch _ _ 0 released written) signalled
  obtain ⟨_, _, _, _, none, _, _, _, _, zero, _⟩ := Rt.reset_result _ after complete ends
  obtain ⟨buffers, remoteInfo, addresses, mode⟩ := Rt.reset_keeps _ after ends
  refine ⟨after, ?_, opened_same mype rt after opened buffers remoteInfo addresses mode,
    Rt.reset_batch _ after complete ends, none, zero⟩
  rw [warmUp, puts, Option.bind_some, written, Option.bind_some, signalled, Option.bind_some, ends]

theorem set_up_opened (placed : Placed program) (rt : Fin program.sizes.npes → Rt.Runtime) (setUp : SetUp program rt)
    (mype : Fin program.sizes.npes) : Opened program mype (rt mype) ∧ Rt.BatchInv (rt mype) ∧ (rt mype).nOps = 0 ∧
      (rt mype).fabric.nic.counters .trigger = 0 := by
  obtain ⟨opened, taken, warmed⟩ := setUp mype
  obtain ⟨shown, batch, idle, _⟩ := exchanged_opened placed mype opened taken
  obtain ⟨after, returns, ready⟩ := warm_up_returns placed mype opened shown batch idle
  obtain rfl := Option.some.inj (returns.symm.trans warmed)
  exact ready

theorem sets_up (placed : Placed program) : ∃ rt, SetUp program rt := by
  have each : ∀ mype : Fin program.sizes.npes, ∃ after opened,
      exchanged program.toMemory program.sizes.npes (stripeSize program) mype = some opened ∧
        warmUp program mype opened = some after := by
    intro mype
    obtain ⟨opened, taken⟩ := exchange_opens program.toMemory program.sizes.npes (stripeSize program) mype
    obtain ⟨shown, batch, idle, _⟩ := exchanged_opened placed mype opened taken
    obtain ⟨after, returns, _⟩ := warm_up_returns placed mype opened shown batch idle
    exact ⟨after, opened, taken, returns⟩
  exact Classical.skolem.mp each

end OpenGda.Examples.MmMinimal
