import OpenGda.Ofi.GpuBarrierQueue

set_option autoImplicit false

namespace OpenGda.GpuBarrier

open Dissemination Machine DeferredWork

variable {size : Nat}

def sender (rank : Fin size) (k : Nat) : Fin size :=
  ⟨(rank.val + size - 2 ^ k) % size, Nat.mod_lt _ rank.pos⟩

def Rank.progress (rank : Rank size) : Progress := ⟨rank.entered.length, rank.passedRounds⟩

def SlotInv (executed : List (Cntr × Nat)) (k parity value : Nat) : Prop :=
  (value = 0 ∨ (value % barrierSignalSlots = parity ∧ (.trigger k, value) ∈ executed)) ∧
    ∀ threshold, (.trigger k, threshold) ∈ executed → threshold % barrierSignalSlots = parity → threshold ≤ value

structure Inv (config : Config size) (state : State size) : Prop where
  host : ∀ rank, HostInv (state rank)
  queue : ∀ rank, QueueInv config rank (state rank)
  slots : ∀ rank k parity, k < nRounds size → parity < barrierSignalSlots →
    SlotInv (state (sender rank k)).executed k parity ((state rank).signals (k * barrierSignalSlots + parity))
  informed : Informed (nRounds size) (fun rank => (state rank).progress)

theorem rounds_cover (size : Nat) : size ≤ 2 ^ nRounds size := by
  simpa only [Nat.one_mul, nRounds] using doublings_cover size size 1 (by omega) (by omega)

theorem rounds_needed (size k : Nat) (bound : k < nRounds size) : 2 ^ k < size := by
  simpa only [Nat.one_mul] using doublings_needed size size 1 k bound

theorem sender_behind (rank : Fin size) (k : Nat) (bound : k < nRounds size) : sender rank k = behind rank (2 ^ k) := by
  apply Fin.ext
  simp only [sender, behind, Nat.mod_eq_of_lt (rounds_needed size k bound)]

theorem peer_sender (rank : Fin size) (k : Nat) (bound : k < nRounds size) : peer (sender rank k) k = rank := by
  rw [sender_behind rank k bound]
  exact ahead_behind rank (2 ^ k)

theorem sender_peer (rank : Fin size) (k : Nat) (bound : k < nRounds size) : sender (peer rank k) k = rank := by
  rw [sender_behind _ k bound]
  exact behind_ahead rank (2 ^ k)

theorem initial_inv (config : Config size) : Inv config (initial size) where
  host := fun _ => initial_host size
  queue := fun rank => initial_queue config rank
  slots := fun _ _ _ _ _ => ⟨Or.inl rfl, fun _ member => by simp [initial, initialRank] at member⟩
  informed := informed_initially (nRounds size)

inductive Advance (before after : Rank size) : Prop where
  | same (result : after.progress = before.progress)
  | entered (finished : before.passedRounds = nRounds size)
      (result : after.progress = ⟨before.entered.length + 1, 0⟩)
  | passed (kernel : Kernel) (k : Nat) (gpu : before.gpu = some kernel) (pc : kernel.pc = .poll k)
      (seen : before.signals (sigIdx k kernel.expected) = kernel.expected)
      (result : after.progress = ⟨before.entered.length, k + 1⟩)

theorem app_keeps (config : Config size) (self : Fin size) (before after : Rank size)
    (taken : appStep config self before = some after) :
    after.signals = before.signals ∧ after.executed = before.executed ∧ after.progress = before.progress := by
  cases app_moves config self before after taken with
  | launch _ off | launchRun _ _ off => simp [Rank.progress, Rank.passedRounds, Kernel.passedRounds, off]
  | queue numBarriers next app queued =>
      obtain ⟨_, rfl⟩ := setup_result config self before next queued
      exact ⟨rfl, rfl, rfl⟩
  | _ => exact ⟨rfl, rfl, rfl⟩

theorem kernel_advance (before after : Rank size) (kernel : Kernel) (host : HostInv before)
    (gpu : before.gpu = some kernel) (taken : kernelStep before kernel = some after) :
    after.signals = before.signals ∧ after.executed = before.executed ∧ Advance before after := by
  have single := host.gpu
  simp only [GpuInv, gpu] at single
  obtain ⟨_, turn⟩ := single
  cases kernel_moves before after kernel taken with
  | leave pc _ => exact ⟨rfl, rfl, .same (by simp [Rank.progress, Rank.passedRounds, Kernel.passedRounds, gpu, pc])⟩
  | enter pc _ =>
      exact ⟨rfl, rfl, .entered (by simp [Rank.passedRounds, Kernel.passedRounds, gpu, pc])
        (by simp [Rank.progress, Rank.passedRounds, Kernel.passedRounds])⟩
  | begin pc _ =>
      refine ⟨rfl, rfl, .same ?_⟩
      by_cases rounds : 0 < nRounds size
      · simp [Rank.progress, Rank.passedRounds, Kernel.passedRounds, gpu, pc, roundHead, rounds]
      · have none : nRounds size = 0 := by omega
        simp [Rank.progress, Rank.passedRounds, Kernel.passedRounds, gpu, pc, roundHead, none]
  | see k pc seen =>
      simp only [KernelInv, pc] at turn
      refine ⟨rfl, rfl, .passed kernel k gpu pc seen ?_⟩
      by_cases more : k + 1 < nRounds size
      · simp [Rank.progress, Rank.passedRounds, Kernel.passedRounds, roundHead, more]
      · have last : nRounds size = k + 1 := by omega
        simp [Rank.progress, Rank.passedRounds, Kernel.passedRounds, roundHead, last]
  | trigger _ pc | notify pc | advance pc =>
      exact ⟨rfl, rfl, .same (by simp [Rank.progress, Rank.passedRounds, Kernel.passedRounds, gpu, pc])⟩

theorem move_advance (config : Config size) (self : Fin size) (before after : Rank size) (move : Move)
    (host : HostInv before) (taken : rankStep config self before move = some after) :
    after.signals = before.signals ∧ after.executed = before.executed ∧ Advance before after := by
  cases move with
  | app =>
      obtain ⟨signals, executed, progress⟩ := app_keeps config self before after taken
      exact ⟨signals, executed, .same progress⟩
  | monitor =>
      obtain ⟨_, gpu, entered, _, _, signals, executed, _⟩ := monitor_keeps config self before after host.gpu taken
      exact ⟨signals, executed, .same (by simp [Rank.progress, Rank.passedRounds, gpu, entered])⟩
  | gpu =>
      simp only [rankStep, Option.bind_eq_some_iff] at taken
      obtain ⟨kernel, gpu, taken⟩ := taken
      exact kernel_advance before after kernel host gpu taken
  | single =>
      simp only [rankStep] at taken
      split_ifs at taken
      rw [Option.map_eq_some_iff] at taken
      obtain ⟨next, taken, rfl⟩ := taken
      obtain ⟨_, rfl⟩ := setup_result config self before next taken
      exact ⟨rfl, rfl, .same rfl⟩
  | startContinuous numBarriers =>
      simp only [rankStep] at taken
      split_ifs at taken
      cases taken
      exact ⟨rfl, rfl, .same rfl⟩

theorem triggered_heard (config : Config size) (state : State size) (inv : Inv config state) (rank : Fin size)
    (k episode : Nat) (bound : k < nRounds size) (positive : 1 ≤ episode)
    (triggered : episode ≤ (state rank).nic.counters (.trigger k)) :
    Heard (fun other => episode ≤ (state other).entered.length) rank (2 ^ k) := by
  have counter := (inv.queue rank).triggers k bound
  apply informed_tells (nRounds size) (fun rank => (state rank).progress) inv.informed rank episode k bound
  · change episode ≤ (state rank).entered.length
    split_ifs at counter <;> omega
  · intro earlier before
    by_cases past : episode < (state rank).entered.length
    · exact Or.inl past
    · have sent : k < (state rank).sentRounds := by
        by_contra unsent
        rw [if_neg unsent] at counter
        omega
      rw [if_pos sent] at counter
      refine Or.inr ⟨?_, ?_⟩
      · change episode = (state rank).entered.length
        omega
      · change earlier < (state rank).passedRounds
        unfold Rank.sentRounds at sent
        unfold Rank.passedRounds
        cases gpu : (state rank).gpu with
        | none => simpa [gpu] using Nat.lt_trans before bound
        | some kernel =>
            simp only [gpu, Option.map_some, Option.getD_some, Kernel.sentRounds, Kernel.passedRounds] at sent ⊢
            cases pc : kernel.pc <;> simp only [pc] at sent ⊢ <;> omega

theorem signal_slot (k threshold : Nat) :
    sigIdx k threshold = k * barrierSignalSlots + threshold % barrierSignalSlots := rfl

theorem polled_executed (config : Config size) (state : State size) (inv : Inv config state) (rank : Fin size)
    (kernel : Kernel) (k : Nat) (gpu : (state rank).gpu = some kernel) (pc : kernel.pc = .poll k)
    (seen : (state rank).signals (sigIdx k kernel.expected) = kernel.expected) :
    (.trigger k, kernel.expected) ∈ (state (sender rank k)).executed := by
  have single := (inv.host rank).gpu
  simp only [GpuInv, gpu, KernelInv, pc, Inside] at single
  obtain ⟨_, ⟨_, expected, _, _⟩, _, bound⟩ := single
  obtain ⟨origin, _⟩ := inv.slots rank k (kernel.expected % barrierSignalSlots) bound (Nat.mod_lt _ (by decide))
  rw [← signal_slot, seen] at origin
  rcases origin with zero | ⟨_, executed⟩
  · omega
  · exact executed

theorem advance_informed (config : Config size) (state : State size) (inv : Inv config state) (rank : Fin size)
    (after : Rank size) (advance : Advance (state rank) after) :
    Informed (nRounds size) (Function.update (fun other => (state other).progress) rank after.progress) := by
  cases advance with
  | same result =>
      have unchanged : Function.update (fun other => (state other).progress) rank after.progress =
          fun other => (state other).progress := by
        rw [result]
        exact Function.update_eq_self rank _
      rw [unchanged]
      exact inv.informed
  | entered finished result =>
      rw [result]
      exact informed_enter (nRounds size) (fun other => (state other).progress) rank inv.informed finished
  | passed kernel k gpu pc seen result =>
      have executed := polled_executed config state inv rank kernel k gpu pc seen
      have single := (inv.host rank).gpu
      simp only [GpuInv, gpu, KernelInv, pc, Inside] at single
      obtain ⟨_, ⟨_, expected, _, _⟩, _, bound⟩ := single
      obtain ⟨_, positive, _, triggered⟩ := (inv.queue (sender rank k)).executedBound k kernel.expected executed
      have told := triggered_heard config state inv (sender rank k) k kernel.expected bound positive triggered
      rw [sender_behind rank k bound, expected] at told
      rw [result]
      apply informed_pass (nRounds size) (fun other => (state other).progress) rank k inv.informed bound _ told
      simp [Rank.progress, Rank.passedRounds, Kernel.passedRounds, gpu, pc]

theorem move_inv (config : Config size) (state : State size) (inv : Inv config state) (rank : Fin size) (move : Move)
    (after : Rank size) (orderly : Orderly state (.move rank move))
    (taken : rankStep config rank (state rank) move = some after) :
    Inv config (Function.update state rank after) := by
  obtain ⟨signals, executed, advance⟩ := move_advance config rank (state rank) after move (inv.host rank) taken
  have started : ∀ numBarriers, move = .startContinuous numBarriers → 1 ≤ numBarriers ∧ (state rank).monitor = .top := by
    intro numBarriers same
    subst same
    exact orderly
  have signalsSame : ∀ other, (Function.update state rank after other).signals = (state other).signals := by
    intro other
    by_cases same : other = rank
    · subst other
      simpa using signals
    · simp [same]
  have executedSame : ∀ other, (Function.update state rank after other).executed = (state other).executed := by
    intro other
    by_cases same : other = rank
    · subst other
      simpa using executed
    · simp [same]
  have progress : (fun other => (Function.update state rank after other).progress) =
      Function.update (fun other => (state other).progress) rank after.progress := by
    funext other
    by_cases same : other = rank
    · subst other
      simp
    · simp [same]
  refine ⟨?_, ?_, ?_, ?_⟩
  · intro other
    by_cases same : other = rank
    · subst other
      simpa using move_host config rank (state rank) after move (inv.host rank) started taken
    · simpa [same] using inv.host other
  · intro other
    by_cases same : other = rank
    · subst other
      simpa using move_queue config rank (state rank) after move (inv.queue rank) (inv.host rank) taken
    · simpa [same] using inv.queue other
  · intro other k parity bound bit
    rw [signalsSame, executedSame]
    exact inv.slots other k parity bound bit
  · rw [progress]
    exact advance_informed config state inv rank after advance

theorem slot_at_peer (config : Config size) (self : Fin size) (k threshold : Nat) :
    slotAt config (peer self k) (remoteAddr config (peer self k) (sigIdx k threshold * 8)) = sigIdx k threshold := by
  unfold slotAt remoteAddr
  split_ifs <;> omega

theorem sig_idx_bound (k threshold : Nat) (bound : k < nRounds size) :
    sigIdx k threshold < nRounds size * barrierSignalSlots := by
  have bit : threshold % 2 < 2 := Nat.mod_lt _ (by decide)
  simp only [sigIdx, barrierSignalSlots]
  omega

theorem receive_signal (config : Config size) (self : Fin size) (rank : Rank size) (buffer threshold k value : Nat)
    (bound : k < nRounds size) :
    receive config (peer self k) rank ⟨buffer, peer self k, remoteAddr config (peer self k) (sigIdx k threshold * 8),
      config.signalKey (peer self k)⟩ value =
      { rank with signals := Function.update rank.signals (sigIdx k threshold) value } := by
  have inside := sig_idx_bound k threshold bound
  simp only [receive, slot_at_peer, true_and]
  rw [if_pos inside]

theorem slot_write (executed : List (Cntr × Nat)) (k threshold newest : Nat)
    (bounded : ∀ other, (.trigger k, other) ∈ executed → other ≤ newest)
    (recent : threshold ≤ newest) (last : newest ≤ threshold + 1) :
    SlotInv ((.trigger k, threshold) :: executed) k (threshold % barrierSignalSlots) threshold := by
  refine ⟨Or.inr ⟨rfl, List.mem_cons_self⟩, ?_⟩
  intro other member parity
  rcases List.mem_cons.mp member with now | earlier
  · simp only [Prod.mk.injEq, true_and] at now
    omega
  · have below := bounded other earlier
    simp only [barrierSignalSlots] at parity
    omega

theorem slot_other (executed : List (Cntr × Nat)) (j threshold k parity value : Nat)
    (slot : SlotInv executed k parity value) (apart : j ≠ k ∨ threshold % barrierSignalSlots ≠ parity) :
    SlotInv ((.trigger j, threshold) :: executed) k parity value := by
  refine ⟨slot.1.imp id fun ⟨same, member⟩ => ⟨same, List.mem_cons_of_mem _ member⟩, ?_⟩
  intro other member bit
  rcases List.mem_cons.mp member with now | earlier
  · simp only [Prod.mk.injEq, Cntr.trigger.injEq] at now
    obtain ⟨sameRound, sameThreshold⟩ := now
    subst sameRound sameThreshold
    rcases apart with different | different
    · exact absurd rfl different
    · exact absurd bit different
  · exact slot.2 other earlier bit

theorem host_elsewhere (rank : Rank size) (signals : Nat → Nat) (nic : Nic Cntr (RmaWrite size))
    (executed : List (Cntr × Nat)) (inv : HostInv rank) :
    HostInv { rank with signals := signals, nic := nic, executed := executed } :=
  ⟨inv.entered, inv.departed, inv.done, inv.gpu, inv.phase⟩

theorem queue_elsewhere (config : Config size) (self : Fin size) (rank : Rank size) (signals : Nat → Nat)
    (inv : QueueInv config self rank) : QueueInv config self { rank with signals := signals } :=
  ⟨inv.work, inv.settled, inv.values, inv.completions, inv.triggers, inv.executedBound, inv.executedAll⟩

theorem execute_inv (config : Config size) (state : State size) (inv : Inv config state) (rank : Fin size)
    (work : Work Cntr (RmaWrite size)) (nic : Nic Cntr (RmaWrite size)) (fired : Fired (state rank).nic nic work) :
    Inv config (land config
      (Function.update state rank { state rank with
        nic := nic
        executed := (work.triggering, work.threshold) :: (state rank).executed })
      work.op (state rank).signalValues) := by
  obtain ⟨k, threshold, bound, positive, form, below, recent, queue⟩ :=
    fire_queue config rank (state rank) nic work (inv.queue rank) fired
  have value := (inv.queue rank).values (by omega) threshold positive below recent
  subst form
  simp only [land, rmaWork, receive_signal config rank _ _ threshold k _ bound, value]
  simp only [rmaWork] at queue
  have afterAt : ∀ other, Function.update (Function.update state rank { state rank with
        nic := nic, executed := (.trigger k, threshold) :: (state rank).executed }) (peer rank k)
      { Function.update state rank { state rank with
          nic := nic, executed := (.trigger k, threshold) :: (state rank).executed } (peer rank k) with
        signals := Function.update (Function.update state rank { state rank with
          nic := nic, executed := (.trigger k, threshold) :: (state rank).executed } (peer rank k)).signals
          (sigIdx k threshold) threshold } other =
      { state other with
        signals := if other = peer rank k then Function.update (state other).signals (sigIdx k threshold) threshold
          else (state other).signals
        nic := if other = rank then nic else (state other).nic
        executed := if other = rank then (.trigger k, threshold) :: (state other).executed
          else (state other).executed } := by
    intro other
    by_cases target : other = peer rank k
    · subst target
      by_cases own : peer rank k = rank
      · simp [own]
      · simp [own]
    · by_cases own : other = rank
      · subst own
        simp [target]
      · simp [target, own]
  generalize Function.update (Function.update state rank _) (peer rank k) _ = after at afterAt
  refine ⟨?_, ?_, ?_, ?_⟩
  · intro other
    rw [afterAt]
    exact host_elsewhere (state other) _ _ _ (inv.host other)
  · intro other
    rw [afterAt]
    by_cases own : other = rank
    · subst own
      simp only [if_true]
      exact queue_elsewhere config other _ _ queue
    · simp only [if_neg own]
      exact queue_elsewhere config other _ _ (inv.queue other)
  · intro other j parity within bit
    have old := inv.slots other j parity within bit
    rw [afterAt, afterAt]
    by_cases own : sender other j = rank
    · simp only [if_pos own]
      by_cases here : j = k ∧ threshold % barrierSignalSlots = parity
      · obtain ⟨sameRound, sameParity⟩ := here
        subst sameRound sameParity
        have target : other = peer rank j := by rw [← own, peer_sender other j bound]
        rw [if_pos target, ← signal_slot, Function.update_self, own]
        exact slot_write _ j threshold (state rank).readyCounter
          (fun other member => ((inv.queue rank).executedBound j other member).2.2.1) below recent
      · have untouched : (if other = peer rank k then
            Function.update (state other).signals (sigIdx k threshold) threshold else (state other).signals)
            (j * barrierSignalSlots + parity) = (state other).signals (j * barrierSignalSlots + parity) := by
          by_cases target : other = peer rank k
          · rw [if_pos target, Function.update_of_ne]
            simp only [sigIdx, barrierSignalSlots] at here bit ⊢
            omega
          · rw [if_neg target]
        rw [untouched]
        exact slot_other _ k threshold j parity _ old (by omega)
    · have apart : j ≠ k ∨ other ≠ peer rank k := by
        by_contra both
        obtain ⟨sameRound, target⟩ : j = k ∧ other = peer rank k := by simpa [not_or] using both
        subst sameRound target
        exact own (sender_peer rank j bound)
      simp only [if_neg own]
      by_cases target : other = peer rank k
      · have different : j ≠ k := by simpa [target] using apart
        rw [if_pos target, Function.update_of_ne]
        · exact old
        · have small : threshold % 2 < 2 := Nat.mod_lt _ (by decide)
          simp only [sigIdx, barrierSignalSlots] at bit ⊢
          omega
      · rw [if_neg target]
        exact old
  · have progress : (fun other => (after other).progress) = fun other => (state other).progress := by
      funext other
      rw [afterAt]
      rfl
    rw [progress]
    exact inv.informed

theorem step_inv (config : Config size) (before after : State size) (action : Action size) (inv : Inv config before)
    (orderly : Orderly before action) (taken : step config before action = some after) : Inv config after := by
  cases action with
  | move self move =>
      simp only [step, Option.map_eq_some_iff] at taken
      obtain ⟨next, taken, rfl⟩ := taken
      exact move_inv config before inv self move next orderly taken
  | execute self index =>
      simp only [step, Option.map_eq_some_iff, Prod.exists] at taken
      obtain ⟨work, nic, fired, rfl⟩ := taken
      exact execute_inv config before inv self work nic (fire_fired _ nic index work fired)

theorem reachable_inv (config : Config size) (state : State size)
    (reached : Reach (step config) Orderly (initial size) state) : Inv config state :=
  reach_invariant (step config) Orderly (Inv config) (initial size) state (initial_inv config)
    (step_inv config) reached

theorem member_count (count value : Nat) : value ∈ List.range' 1 count ↔ 1 ≤ value ∧ value ≤ count := by
  rw [List.mem_range'_1]
  omega

theorem left_past (rank : Rank size) (host : HostInv rank) (barrier : Nat) (left : barrier ≤ rank.departed.length)
    (round : Nat) (bound : round < nRounds size) : rank.progress.Past barrier round := by
  have gpu := host.gpu
  unfold GpuInv at gpu
  change barrier < rank.entered.length ∨ (barrier = rank.entered.length ∧ round < rank.passedRounds)
  cases now : rank.gpu with
  | none =>
      simp only [now] at gpu
      simp only [Rank.passedRounds, now, Option.map_none, Option.getD_none]
      omega
  | some kernel =>
      simp only [now, KernelInv, Inside] at gpu
      simp only [Rank.passedRounds, Kernel.passedRounds, now, Option.map_some, Option.getD_some]
      cases pc : kernel.pc <;> simp only [pc] at gpu ⊢ <;> omega

theorem left_everyone_entered (config : Config size) (state : State size) (inv : Inv config state)
    (rank other : Fin size) (barrier : Nat) (left : barrier ≤ (state rank).departed.length) :
    barrier ≤ (state other).entered.length := by
  have own : barrier ≤ (state rank).entered.length := by
    have gpu := (inv.host rank).gpu
    unfold GpuInv at gpu
    cases now : (state rank).gpu with
    | none =>
        simp only [now] at gpu
        omega
    | some kernel =>
        simp only [now, KernelInv, Inside] at gpu
        cases pc : kernel.pc <;> simp only [pc] at gpu <;> omega
  exact informed_everyone (nRounds size) (fun other => (state other).progress) inv.informed (rounds_cover size)
    rank other barrier own (left_past (state rank) (inv.host rank) barrier left)

theorem departed_after_everyone_entered (config : Config size) (state : State size)
    (reached : Reach (step config) Orderly (initial size) state) (rank other : Fin size) (barrier : Nat)
    (departed : barrier ∈ (state rank).departed) : barrier ∈ (state other).entered := by
  have inv := reachable_inv config state reached
  rw [(inv.host rank).departed, member_count] at departed
  rw [(inv.host other).entered, member_count]
  exact ⟨departed.1, left_everyone_entered config state inv rank other barrier departed.2⟩

def moves (self : Fin size) (move : Move) (times : Nat) : List (Action size) := List.replicate times (.move self move)

def sampleConfig (size : Nat) : Config size := ⟨true, fun rank => 4096 * (rank.val + 1), fun rank => 7 + rank.val⟩

def bothThrough (first second : Nat) : List (Action 2) :=
  moves 0 .gpu 3 ++ moves 1 .gpu 3 ++ [.execute 0 first, .execute 1 second] ++ moves 0 .gpu 4 ++ moves 1 .gpu 4

-- Rank 0 restarts continuous mode while its monitor is still in the reset() of the
-- run before, so barrier 2 is set up twice. The put left over reads what the
-- setup of barrier 4 put into their common source buffer.
def earlyDeparture : List (Action 2) :=
  List.flatten [
    moves 0 (.startContinuous 1) 1, moves 0 .app 3, moves 1 .single 1, moves 1 .app 1, bothThrough 0 0,
    moves 1 .app 3, moves 0 .monitor 3, moves 0 .app 2,
    moves 0 (.startContinuous 1) 1, moves 0 .app 2, moves 0 .monitor 3, moves 0 .app 1, moves 1 .single 1,
    moves 1 .app 1, bothThrough 0 0, moves 1 .app 3, moves 0 .monitor 6, moves 0 .app 2,
    moves 0 .single 1, moves 0 .app 1, moves 1 .single 1, moves 1 .app 1, bothThrough 1 0, moves 0 .app 3,
    moves 1 .app 3,
    moves 0 .single 1, moves 1 .single 1, moves 1 .app 1, [.execute 0 0], moves 1 .gpu 5]

theorem stale_put_releases_early : ∃ state : State 2, Reach (step (sampleConfig 2)) always (initial 2) state ∧
    4 ∈ (state 1).departed ∧ 4 ∉ (state 0).entered :=
  reach_of_decided (step (sampleConfig 2)) always earlyDeparture (initial 2) _ (by decide +kernel)

def oneBarrier : List (Action 2) :=
  moves 0 (.startContinuous 1) 1 ++ moves 0 .app 3 ++ moves 1 .single 1 ++ moves 1 .app 1 ++ bothThrough 0 0

theorem one_barrier_reached : ∃ state : State 2, Reach (step (sampleConfig 2)) Orderly (initial 2) state ∧
    1 ∈ (state 0).departed :=
  reach_of_decided (step (sampleConfig 2)) Orderly oneBarrier (initial 2) _ (by decide +kernel)

theorem mixed_modes_depart_together : ∃ state : State 2, Reach (step (sampleConfig 2)) Orderly (initial 2) state ∧
    1 ∈ (state 0).departed ∧ ∀ other, 1 ∈ (state other).entered := by
  obtain ⟨state, reached, departed⟩ := one_barrier_reached
  exact ⟨state, reached, departed, fun other => departed_after_everyone_entered _ state reached 0 other 1 departed⟩

end OpenGda.GpuBarrier
