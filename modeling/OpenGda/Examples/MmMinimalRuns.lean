import OpenGda.Examples.MatmulReading
import OpenGda.Examples.MmMinimalSetUp
import OpenGda.Ofi.RuntimeQuiet

set_option autoImplicit false

namespace OpenGda.Examples.MmMinimal

open Matmul Machine Countdown OfiBuffers

variable {Scalar : Type} {program : Program Scalar}

def AllLanded (program : Program Scalar) (now : Rank Scalar) : Prop :=
  ∀ word < stripe program.sizes, now.landed 0 word = true

structure Control (program : Program Scalar) (mype : Fin program.sizes.npes) (now : Rank Scalar) : Prop where
  bound : now.round ≤ totalRounds program
  batch : Rt.BatchInv now.rt
  opened : Opened program mype now.rt
  idle : now.tok = none → now.rt.nOps = 0 ∧ now.rt.fabric.nic.counters .trigger = 0
  queued : ∀ tok, now.tok = some tok → tok.slotIdx = 0 ∧ now.rt.nOps = 1 ∧ now.rt.devCtx.triggerVal = 1 ∧
    now.rt.fabric.nic.counters .trigger = now.triggered.toNat ∧ needDwq program mype = true ∧ now.enqueued = true ∧
    now.waiting = false
  carries : ∀ work ∈ now.rt.writes, work.slot = 0 ∧ Carries program mype
    (curBuf (stepOf program.sizes now.round)) (nextBuf (stepOf program.sizes now.round)) work.write
  sent : ∀ tok, now.tok = some tok → now.rt.writes = [] → AllLanded program now
  refilling : now.cleared = true → stage program.sizes now.round = 0 ∧ now.round < totalRounds program
  stepping : now.enqueued = true → stage program.sizes now.round ≠ 0
  fired : now.triggered = true → now.enqueued = true
  holding : now.enqueued = true → needDwq program mype = true → now.waiting = false → now.tok.isSome = true
  synced : now.synced = true → now.enqueued = true ∧ Triggered program mype now ∧ Pulled program mype now ∧
    KernelDone program.sizes now.kernel
  waited : now.waited = true → AllLanded program now
  waiting : now.waiting = true → now.round < totalRounds program ∧
    (stage program.sizes now.round = 0 → now.cleared = true ∧ AllRefilled program.sizes now.toProcess) ∧
    (stage program.sizes now.round ≠ 0 → now.synced = true ∧ (needDwq program mype = true → AllLanded program now))

def Controlled (state : State program) : Prop := ∀ mype, Control program mype (state mype)

theorem total_stage : stage program.sizes (totalRounds program) = 0 := Nat.mul_mod_left _ _

theorem step_running (mype : Fin program.sizes.npes) (now : Rank Scalar) (control : Control program mype now)
    (stepping : stage program.sizes now.round ≠ 0) : now.round < totalRounds program := by
  rcases Nat.lt_or_eq_of_le control.bound with less | last
  · exact less
  · rw [last] at stepping
    exact absurd total_stage stepping

theorem store_control (mype : Fin program.sizes.npes) (now : Rank Scalar) (which index : Nat) (value : Scalar)
    (control : Control program mype now) :
    Control program mype { now with toProcess := storeWord now.toProcess which index value } :=
  ⟨control.bound, control.batch, control.opened, control.idle, control.queued, control.carries, control.sent,
    control.refilling, control.stepping, control.fired, control.holding, control.synced, control.waited, control.waiting⟩

theorem fresh_control [CommSemiring Scalar] (mype : Fin program.sizes.npes) (round : Nat) (dB : Nat → Nat → Scalar)
    (cs : Nat → Scalar) (rt : Rt.Runtime) (bound : round ≤ totalRounds program) (batch : Rt.BatchInv rt)
    (opened : Opened program mype rt) (idle : rt.nOps = 0 ∧ rt.fabric.nic.counters .trigger = 0) :
    Control program mype (freshRank (freshProcess round dB cs) rt) := by
  have empty := (Rt.idle_batch rt batch idle.1).1
  refine ⟨bound, batch, opened, fun _ => idle, ?_, ?_, ?_, ?_, ?_, ?_, ?_, ?_, ?_, ?_⟩ <;>
    simp [freshRank, freshProcess, empty]

theorem clear_control [CommSemiring Scalar] (mype : Fin program.sizes.npes) (now : Rank Scalar)
    (control : Control program mype now) (running : now.round < totalRounds program)
    (first : stage program.sizes now.round = 0) :
    Control program mype { now with toProcess := clearCs program.sizes now.toProcess } := by
  refine ⟨control.bound, control.batch, control.opened, control.idle, control.queued, control.carries, control.sent,
    fun _ => ⟨first, running⟩, control.stepping, control.fired, control.holding, ?_, control.waited, ?_⟩
  · intro synced
    exact absurd first (control.stepping (control.synced synced).1)
  · intro waiting
    obtain ⟨_, refilled, stepped⟩ := control.waiting waiting
    exact ⟨running, fun zero => ⟨rfl, (refilled zero).2⟩, stepped⟩

theorem refill_control (mype : Fin program.sizes.npes) (now : Rank Scalar) (which index : Nat) (value : Scalar)
    (control : Control program mype now) (outside : now.waiting = false) :
    Control program mype { now with toProcess := refillWord now.toProcess which index value } :=
  ⟨control.bound, control.batch, control.opened, control.idle, control.queued, control.carries, control.sent,
    control.refilling, control.stepping, control.fired, control.holding, control.synced, control.waited,
    fun inside => absurd (inside.symm.trans outside) Bool.noConfusion⟩

theorem refilled_control (mype : Fin program.sizes.npes) (now : Rank Scalar) (control : Control program mype now)
    (first : stage program.sizes now.round = 0) (cleared : now.cleared = true)
    (all : AllRefilled program.sizes now.toProcess) :
    Control program mype { now with waiting := true } := by
  have notEnqueued : now.enqueued = true → False := fun enqueued => control.stepping enqueued first
  refine ⟨control.bound, control.batch, control.opened, control.idle, ?_, control.carries, control.sent,
    control.refilling, control.stepping, control.fired, fun _ _ inside => absurd inside Bool.noConfusion, control.synced,
    control.waited, ?_⟩
  · intro tok held
    obtain ⟨_, _, _, _, _, enqueued, _⟩ := control.queued tok held
    exact (notEnqueued enqueued).elim
  · exact fun _ => ⟨(control.refilling cleared).2, fun _ => ⟨cleared, all⟩, fun step => absurd first step⟩

theorem fresh_token (mype : Fin program.sizes.npes) (now : Rank Scalar) (control : Control program mype now)
    (fresh : now.enqueued = false) : now.tok = none := by
  cases held : now.tok with
  | none => rfl
  | some tok => exact absurd (fresh.symm.trans (control.queued tok held).2.2.2.2.2.1) Bool.noConfusion

theorem waiting_token (mype : Fin program.sizes.npes) (now : Rank Scalar) (control : Control program mype now)
    (waiting : now.waiting = true) : now.tok = none := by
  cases held : now.tok with
  | none => rfl
  | some tok => exact absurd (waiting.symm.trans (control.queued tok held).2.2.2.2.2.2) Bool.noConfusion

theorem enqueue_control (placed : Placed program) (mype : Fin program.sizes.npes) (now next : Rank Scalar)
    (control : Control program mype now) (stepping : stage program.sizes now.round ≠ 0) (fresh : now.enqueued = false)
    (taken : enqueue program mype now = some next) : Control program mype next := by
  have notEnqueued : ¬ now.enqueued = true := by simp [fresh]
  have noToken := fresh_token mype now control fresh
  have outside : now.waiting = false := by
    cases waiting : now.waiting with
    | false => rfl
    | true => exact absurd (control.synced ((control.waiting waiting).2.2 stepping).1).1 notEnqueued
  have notSynced : ¬ now.synced = true := fun synced => notEnqueued (control.synced synced).1
  obtain ⟨none, zero⟩ := control.idle noToken
  unfold enqueue at taken
  by_cases need : needDwq program mype = true
  · obtain ⟨write, carries, puts⟩ := put_stripe placed mype now.rt control.opened control.batch none
      (curBuf (stepOf program.sizes now.round)) (nextBuf (stepOf program.sizes now.round)) (Nat.mod_lt _ (by decide))
      (Nat.mod_lt _ (by decide))
    simp only [if_pos need, puts, Option.map_some, Option.some.injEq] at taken
    subst taken
    refine ⟨control.bound, queued_stripe_batch now.rt write control.batch none,
      opened_same mype now.rt _ control.opened rfl rfl rfl rfl, fun held => absurd held (Option.some_ne_none _), ?_, ?_, ?_,
      control.refilling, fun _ => stepping, fun _ => rfl, fun _ _ _ => rfl, fun synced => absurd synced notSynced,
      control.waited, ?_⟩
    · intro other held
      obtain rfl := Option.some.inj held
      have notYet : now.triggered = false := by
        cases fired : now.triggered with
        | false => rfl
        | true => exact absurd (control.fired fired) notEnqueued
      exact ⟨rfl, rfl, rfl, zero.trans (congrArg Bool.toNat notYet).symm, need, rfl, outside⟩
    · intro work member
      obtain rfl := List.mem_singleton.mp member
      exact ⟨rfl, carries⟩
    · intro other _ empty
      cases empty
    · intro inside
      exact absurd (inside.symm.trans outside) Bool.noConfusion
  · simp only [if_neg need, Option.some.injEq] at taken
    subst taken
    exact ⟨control.bound, control.batch, control.opened, control.idle, fun tok held => absurd held (by simp [noToken]),
      control.carries, control.sent, control.refilling, fun _ => stepping, fun _ => rfl, fun _ needed => absurd needed need,
      fun synced => absurd synced notSynced, control.waited,
      fun inside => absurd (inside.symm.trans outside) Bool.noConfusion⟩

theorem token_outside (mype : Fin program.sizes.npes) (now : Rank Scalar) (control : Control program mype now)
    (tok : Rt.Token) (held : now.tok = some tok) : ¬ now.waiting = true := by
  simp [(control.queued tok held).2.2.2.2.2.2]

theorem flush_control (mype : Fin program.sizes.npes) (now : Rank Scalar) (control : Control program mype now)
    (some : now.tok.isSome = true) :
    Control program mype { now with rt := Rt.flush now.rt, triggered := true } := by
  obtain ⟨tok, held⟩ := Option.isSome_iff_exists.mp some
  obtain ⟨slot, one, value, _, need, enqueued, outside⟩ := control.queued tok held
  refine ⟨control.bound, Rt.batch_frame now.rt _ control.batch ⟨⟨rfl, rfl⟩, rfl, ⟨rfl, rfl⟩, ⟨rfl, rfl⟩, rfl, rfl⟩,
    opened_same mype now.rt _ control.opened rfl rfl rfl rfl,
    fun none => absurd (none.symm.trans held) (Option.some_ne_none _).symm, ?_, control.carries, control.sent,
    control.refilling, control.stepping, fun _ => enqueued, control.holding, ?_, control.waited, ?_⟩
  · intro other same
    obtain rfl := Option.some.inj (held.symm.trans same)
    exact ⟨slot, one, value, by simp [Rt.flush, DeferredWork.setCounter, value], need, enqueued, outside⟩
  · intro synced
    obtain ⟨_, _, pulled, done⟩ := control.synced synced
    exact ⟨enqueued, fun _ => rfl, pulled, done⟩
  · exact fun waiting => absurd waiting (token_outside mype now control tok held)

theorem land_control (mype : Fin program.sizes.npes) (now : Rank Scalar) (word : Nat)
    (control : Control program mype now) : Control program mype
      { now with landed := Function.update now.landed 0 (Function.update (now.landed 0) word true) } := by
  have keeps : AllLanded program now → AllLanded program
      { now with landed := Function.update now.landed 0 (Function.update (now.landed 0) word true) } :=
    fun all other inside => row_flag_keep now.landed 0 word 0 other (all other inside)
  exact ⟨control.bound, control.batch, control.opened, control.idle, control.queued, control.carries,
    fun tok held empty => keeps (control.sent tok held empty), control.refilling, control.stepping, control.fired,
    control.holding, control.synced, fun waited => keeps (control.waited waited), fun waiting =>
      ⟨(control.waiting waiting).1, (control.waiting waiting).2.1, fun step =>
        ⟨((control.waiting waiting).2.2 step).1, fun need => keeps (((control.waiting waiting).2.2 step).2 need)⟩⟩⟩

theorem completion_control (mype : Fin program.sizes.npes) (now : Rank Scalar) (rt : Rt.Runtime)
    (control : Control program mype now) (batch : Rt.BatchInv rt) (buffers : rt.localBufs = now.rt.localBufs)
    (fabric : rt.fabric = now.rt.fabric) (nOps : rt.nOps = now.rt.nOps) (devCtx : rt.devCtx = now.rt.devCtx)
    (writes : ∀ work ∈ rt.writes, work ∈ now.rt.writes)
    (sent : ∀ tok, now.tok = some tok → rt.writes = [] → AllLanded program now) :
    Control program mype { now with rt := rt } := by
  refine ⟨control.bound, batch, ?_, ?_, ?_, fun work member => control.carries work (writes work member), sent,
    control.refilling, control.stepping, control.fired, control.holding,
    control.synced, control.waited, control.waiting⟩
  · exact opened_same mype now.rt rt control.opened buffers (by rw [fabric]) (by rw [fabric]) (by rw [fabric])
  · simp only [nOps, fabric]
    exact control.idle
  · simp only [nOps, fabric, devCtx]
    exact control.queued

theorem complete_write_control (mype : Fin program.sizes.npes) (now : Rank Scalar) (index : Nat) (rt : Rt.Runtime)
    (control : Control program mype now) (whole : ∀ work ∈ now.rt.writes[index]?, WholeLanded now.landed work)
    (taken : Rt.completeWrite now.rt index = some rt) : Control program mype { now with rt := rt } := by
  have batch := Rt.complete_write_batch now.rt rt index control.batch taken
  obtain ⟨work, found, _, rfl⟩ := Rt.complete_write_result now.rt rt index taken
  obtain ⟨member, _, _, rest, _⟩ :=
    Rt.taken_slots now.rt.writes Rt.SlotWrite.slot index work found control.batch.writesOnce
  obtain ⟨slot, carries⟩ := control.carries work member
  refine completion_control mype now _ control batch rfl rfl rfl rfl rest ?_
  intro tok held empty word inside
  have landed := whole work found word (by rw [carried_words _ _ _ work carries]; exact inside)
  rwa [slot] at landed

theorem complete_atomic_control (mype : Fin program.sizes.npes) (now : Rank Scalar) (index : Nat) (rt : Rt.Runtime)
    (control : Control program mype now) (taken : Rt.completeAtomic now.rt index = some rt) :
    Control program mype { now with rt := rt } := by
  have batch := Rt.complete_atomic_batch now.rt rt index control.batch taken
  obtain ⟨work, _, _, rfl, _⟩ := Rt.complete_atomic_result now.rt rt index control.batch taken
  exact completion_control mype now _ control batch rfl rfl rfl rfl (fun _ member => member) control.sent

theorem pull_control (mype : Fin program.sizes.npes) (now : Rank Scalar) (which index : Nat) (value : Scalar)
    (control : Control program mype now) : Control program mype { now with
      toProcess := storeWord now.toProcess which index value
      pulled := Function.update now.pulled index true } := by
  refine ⟨control.bound, control.batch, control.opened, control.idle, control.queued, control.carries, control.sent,
    control.refilling, control.stepping, control.fired, control.holding, ?_, control.waited, control.waiting⟩
  intro synced
  obtain ⟨enqueued, triggered, pulled, done⟩ := control.synced synced
  exact ⟨enqueued, triggered, fun near word inside => flag_keep now.pulled index word (pulled near word inside), done⟩

theorem thread_control [CommSemiring Scalar] (mype : Fin program.sizes.npes) (now : Rank Scalar) (s : Nat)
    (thread : Nat × Nat) (control : Control program mype now) (running : ¬ KernelDone program.sizes now.kernel) :
    Control program mype { now with
      toProcess := runThread program.sizes (program.hAs mype) mype s now.toProcess thread } :=
  ⟨control.bound, control.batch, control.opened, control.idle, control.queued, control.carries, control.sent,
    control.refilling, control.stepping, control.fired, control.holding,
    fun synced => absurd (control.synced synced).2.2.2 running,
    control.waited, control.waiting⟩

theorem sync_control (mype : Fin program.sizes.npes) (now : Rank Scalar) (control : Control program mype now)
    (enqueued : now.enqueued = true) (triggered : Triggered program mype now) (pulled : Pulled program mype now)
    (done : KernelDone program.sizes now.kernel) : Control program mype { now with synced := true } := by
  refine ⟨control.bound, control.batch, control.opened, control.idle, control.queued, control.carries, control.sent,
    control.refilling, control.stepping, control.fired, control.holding,
    fun _ => ⟨enqueued, triggered, pulled, done⟩, control.waited, ?_⟩
  intro waiting
  obtain ⟨running, refilled, stepped⟩ := control.waiting waiting
  exact ⟨running, refilled, fun step => ⟨rfl, (stepped step).2⟩⟩

theorem wait_control (mype : Fin program.sizes.npes) (now : Rank Scalar) (control : Control program mype now)
    (waited : Waited now) : Control program mype { now with waited := true } := by
  obtain ⟨tok, held, returned⟩ := waited
  obtain ⟨slot, one, _⟩ := control.queued tok held
  have empty : now.rt.writes = [] := by
    rw [List.eq_nil_iff_forall_not_mem]
    intro work member
    have other := Rt.waited_complete now.rt control.batch tok returned work member
    have inside := (control.batch.writes work member).1
    omega
  exact ⟨control.bound, control.batch, control.opened, control.idle, control.queued, control.carries, control.sent,
    control.refilling, control.stepping, control.fired, control.holding, control.synced,
    fun _ => control.sent tok held empty,
    control.waiting⟩

theorem finish_control (mype : Fin program.sizes.npes) (now next : Rank Scalar) (control : Control program mype now)
    (synced : now.synced = true) (waited : now.tok.isSome = true → now.waited = true)
    (outside : now.waiting = false) (taken : finish now = some next) : Control program mype next := by
  obtain ⟨enqueued, _⟩ := control.synced synced
  have stepping := control.stepping enqueued
  have running := step_running mype now control stepping
  have landed : needDwq program mype = true → AllLanded program now := fun need =>
    control.waited (waited (control.holding enqueued need outside))
  unfold finish at taken
  cases held : now.tok with
  | none =>
      simp only [held, Option.some.injEq] at taken
      subst taken
      exact ⟨control.bound, control.batch, control.opened, fun _ => control.idle held,
        fun other same => absurd same.symm (Option.some_ne_none _), control.carries,
        fun other same => absurd same.symm (Option.some_ne_none _), control.refilling,
        control.stepping, control.fired, fun _ _ inside => absurd inside Bool.noConfusion, control.synced, control.waited,
        fun _ => ⟨running, fun first => absurd first stepping, fun _ => ⟨synced, landed⟩⟩⟩
  | some tok =>
      simp only [held, Option.map_eq_some_iff] at taken
      obtain ⟨rt, reset, rfl⟩ := taken
      obtain ⟨noWrites, _, _, _, none, _, writes, _, _, zero, _⟩ := Rt.reset_result now.rt rt control.batch reset
      obtain ⟨buffers, remoteInfo, addresses, mode⟩ := Rt.reset_keeps now.rt rt reset
      refine ⟨control.bound, Rt.reset_batch now.rt rt control.batch reset,
        opened_same mype now.rt rt control.opened buffers remoteInfo addresses mode, fun _ => ⟨none, zero⟩,
        fun other same => absurd same.symm (Option.some_ne_none _), ?_,
        fun other same => absurd same.symm (Option.some_ne_none _), control.refilling, control.stepping, control.fired,
        fun _ _ inside => absurd inside Bool.noConfusion, control.synced, control.waited,
        fun _ => ⟨running, fun first => absurd first stepping, fun _ => ⟨synced, landed⟩⟩⟩
      simp [writes, noWrites]

theorem leave_control [CommSemiring Scalar] (mype : Fin program.sizes.npes) (now : Rank Scalar)
    (control : Control program mype now) (waiting : now.waiting = true) :
    Control program mype (freshRank (freshProcess (now.round + 1) now.dB now.kernel.cs) now.rt) :=
  fresh_control mype (now.round + 1) now.dB now.kernel.cs now.rt (control.waiting waiting).1 control.batch
    control.opened (control.idle (waiting_token mype now control waiting))

theorem controlled_update (state : State program) (mype : Fin program.sizes.npes) (now : Rank Scalar)
    (controlled : Controlled state) (control : Control program mype now) :
    Controlled (Function.update state mype now) :=
  (Function.forall_update_iff state (Control program)).mpr ⟨control, fun other _ => controlled other⟩

def sentWord (state : State program) (mype : Fin program.sizes.npes) (word : Nat) : State program :=
  Function.update state mype { state mype with
    landed := Function.update (state mype).landed 0 (Function.update ((state mype).landed 0) word true) }

def receivedWord (state : State program) (mype : Fin program.sizes.npes) (word : Nat) : Rank Scalar :=
  let now := state mype
  let s := stepOf program.sizes now.round
  let receiver := sentWord state mype word (left program.sizes mype)
  { receiver with toProcess := storeWord receiver.toProcess (nextBuf s) word (now.dB (curBuf s) word) }

theorem land_result [CommSemiring Scalar] (placed : Placed program) (before after : State program)
    (mype target : Fin program.sizes.npes) (index word : Nat) (control : Control program mype (before mype))
    (taken : step program before (.land mype target index word) = some after) :
    word < stripe program.sizes ∧ (before mype).landed 0 word = false ∧ (before mype).tok.isSome = true ∧
      after = Function.update (sentWord before mype word) (left program.sizes mype) (receivedWord before mype word) := by
  simp only [step] at taken
  split at taken
  case h_2 => cases taken
  case h_1 slot source cell moved =>
    obtain ⟨work, found, _, _, _, pending⟩ := landing_queued _ _ mype target index word _ moved
    have member := List.mem_of_getElem? found
    obtain ⟨same, carries⟩ := control.carries work member
    obtain ⟨rfl, within, cells⟩ := landing_result placed mype (left program.sizes mype) target (before mype).rt
      (before mype).landed index word work _ _ control.opened found carries moved
    simp only [stripeMove, Nat.zero_add, same, Prod.mk.injEq] at cells
    obtain ⟨rfl, rfl, rfl⟩ := cells
    refine ⟨within, same ▸ pending, ?_, (Option.some.inj taken).symm⟩
    by_contra none
    rw [Option.not_isSome_iff_eq_none] at none
    rw [(Rt.idle_batch _ control.batch (control.idle none).1).1] at member
    cases member

theorem step_controlled [CommSemiring Scalar] (placed : Placed program) (before after : State program)
    (action : Action program) (controlled : Controlled before)
    (taken : step program before action = some after) : Controlled after := by
  cases action with
  | clear mype =>
      simp only [step, Option.ite_none_right_eq_some, Option.some.injEq] at taken
      obtain ⟨⟨running, first, _⟩, rfl⟩ := taken
      exact controlled_update before mype _ controlled (clear_control mype _ (controlled mype) running first)
  | refill mype which index =>
      simp only [step, Option.ite_none_right_eq_some, Option.some.injEq] at taken
      obtain ⟨⟨_, outside, _⟩, rfl⟩ := taken
      exact controlled_update before mype _ controlled (refill_control mype _ which index _ (controlled mype) outside)
  | refilled mype =>
      simp only [step, Option.ite_none_right_eq_some, Option.some.injEq] at taken
      obtain ⟨⟨first, cleared, _, all⟩, rfl⟩ := taken
      exact controlled_update before mype _ controlled (refilled_control mype _ (controlled mype) first cleared all)
  | enqueue mype =>
      simp only [step, Option.ite_none_right_eq_some, Option.map_eq_some_iff] at taken
      obtain ⟨⟨stepping, fresh⟩, next, queued, rfl⟩ := taken
      exact controlled_update before mype next controlled
        (enqueue_control placed mype _ next (controlled mype) stepping fresh queued)
  | trigger mype =>
      simp only [step, Option.ite_none_right_eq_some, Option.some.injEq] at taken
      obtain ⟨⟨some, _⟩, rfl⟩ := taken
      exact controlled_update before mype _ controlled (flush_control mype _ (controlled mype) some)
  | land mype target index word =>
      obtain ⟨_, _, _, rfl⟩ := land_result placed before after mype target index word (controlled mype) taken
      have sent := controlled_update before mype _ controlled (land_control mype _ word (controlled mype))
      exact controlled_update _ _ _ sent (store_control _ _ _ _ _ (sent (left program.sizes mype)))
  | completeWrite mype index =>
      simp only [step, Option.ite_none_right_eq_some, Option.map_eq_some_iff] at taken
      obtain ⟨whole, rt, completed, rfl⟩ := taken
      exact controlled_update before mype _ controlled
        (complete_write_control mype _ index rt (controlled mype) whole completed)
  | completeAtomic mype index =>
      simp only [step, Option.map_eq_some_iff] at taken
      obtain ⟨rt, completed, rfl⟩ := taken
      exact controlled_update before mype _ controlled
        (complete_atomic_control mype _ index rt (controlled mype) completed)
  | pull mype index =>
      simp only [step, Option.ite_none_right_eq_some, Option.some.injEq] at taken
      obtain ⟨_, rfl⟩ := taken
      exact controlled_update before mype _ controlled (pull_control mype _ _ index _ (controlled mype))
  | thread mype thread =>
      simp only [step, Option.ite_none_right_eq_some, Option.some.injEq] at taken
      obtain ⟨⟨_, _, _, inGrid, more⟩, rfl⟩ := taken
      exact controlled_update before mype _ controlled
        (thread_control mype _ _ thread (controlled mype) (grid_thread program.sizes _ thread inGrid more))
  | sync mype =>
      simp only [step, Option.ite_none_right_eq_some, Option.some.injEq] at taken
      obtain ⟨⟨enqueued, _, triggered, pulled, done⟩, rfl⟩ := taken
      exact controlled_update before mype _ controlled
        (sync_control mype _ (controlled mype) enqueued triggered pulled done)
  | wait mype =>
      simp only [step, Option.ite_none_right_eq_some, Option.some.injEq] at taken
      obtain ⟨⟨_, _, waited⟩, rfl⟩ := taken
      exact controlled_update before mype _ controlled (wait_control mype _ (controlled mype) waited)
  | finish mype =>
      simp only [step, Option.ite_none_right_eq_some, Option.map_eq_some_iff] at taken
      obtain ⟨⟨synced, outside, waited⟩, next, finished, rfl⟩ := taken
      exact controlled_update before mype next controlled
        (finish_control mype _ next (controlled mype) synced waited outside finished)
  | leave mype =>
      simp only [step, Option.ite_none_right_eq_some, Option.some.injEq] at taken
      obtain ⟨⟨waiting, _⟩, rfl⟩ := taken
      exact controlled_update before mype _ controlled (leave_control mype _ (controlled mype) waiting)

end OpenGda.Examples.MmMinimal
