import OpenGda.Ofi.HostBarrierRepost

set_option autoImplicit false

-- One message is held back while everybody else runs ahead into the next call.
namespace OpenGda.HostBarrier

open Dissemination Machine

variable {size : Nat}

structure AtStep (call k : Nat) (pc : Pc) (endpoint : Endpoint size) : Prop where
  calls : endpoint.calls = call
  phase : endpoint.phase = call % 2
  pc : endpoint.pc = pc
  cq : endpoint.cq = []
  deferred : endpoint.pendingRepost.length = k
  posted : endpoint.posted.length + k = recvPoolSize
  clear : ∀ later, k ≤ later → later < steps size → endpoint.arrived endpoint.phase later = false

structure Rested (call : Nat) (endpoint : Endpoint size) : Prop where
  calls : endpoint.calls = call
  phase : endpoint.phase = call % 2
  pc : endpoint.pc = .outside
  cq : endpoint.cq = []
  posted : endpoint.posted.length = recvPoolSize

structure HeldBack (count : Nat) (endpoint : Endpoint size) : Prop where
  phase : endpoint.phase = 1
  pc : endpoint.pc = .waiting (steps size - 1)
  cq : endpoint.cq = []
  deferred : endpoint.pendingRepost.length = count
  posted : endpoint.posted.length + count = recvPoolSize
  clear : endpoint.arrived 1 (steps size - 1) = false

def view (state : State size) (rank : Fin size) : Endpoint size × List (Message size) := (state.ranks rank, state.net rank)

theorem rested_enters (call : Nat) (endpoint : Endpoint size) (several : 2 ≤ size) (rested : Rested call endpoint) :
    AtStep (call + 1) 0 (.sending 0) (enterBarrier endpoint) := by
  obtain ⟨calls, phase, arrived, pc, cq⟩ := enter_barrier_fields endpoint several
  have different : size ≠ 1 := by omega
  have flip : endpoint.phase ^^^ 1 = (call + 1) % 2 := by
    rw [rested.phase]
    rcases Nat.mod_two_eq_zero_or_one call with even | odd
    · rw [even, Nat.add_mod, even]
      rfl
    · rw [odd, Nat.add_mod, odd]
      rfl
  refine ⟨by rw [calls, rested.calls], by rw [phase, flip], pc, by rw [cq, rested.cq], ?_, ?_, ?_⟩
  · simp [enterBarrier, different, loopHead, steps_positive size several]
  · simpa [enterBarrier, different, loopHead, steps_positive size several] using rested.posted
  · intro later _ below
    simp [phase, arrived, clearPhase, below]

theorem enter_moves (call : Nat) (several : 2 ≤ size) (rank : Fin size) (state : State size)
    (rested : Rested call (view state rank).1 ∧ (view state rank).2 = []) :
    ∃ next, Reach step always state next ∧
      (AtStep (call + 1) 0 (.sending 0) (view next rank).1 ∧ (view next rank).2 = []) ∧
      ∀ other, other ≠ rank → view next other = view state other := by
  have taken : step state (.enter rank) = some (setRank state rank (enterBarrier (state.ranks rank))) := by
    have outside : (state.ranks rank).pc = .outside := rested.1.pc
    simp only [step, outside]
  refine ⟨_, .step _ _ _ .start trivial taken, ⟨?_, rested.2⟩, ?_⟩
  · simpa only [view, setRank, Function.update_self] using rested_enters call _ several rested.1
  · intro other different
    simp only [view, setRank, Function.update_of_ne different]

def polledOnce (endpoint : Endpoint size) (message : Message size) : Endpoint size :=
  { endpoint with
    arrived := recordArrival endpoint.arrived message.data
    pendingRepost := endpoint.pendingRepost ++ endpoint.posted.take 1
    posted := endpoint.posted.drop 1 }

theorem poll_moves (state : State size) (rank : Fin size) (k index : Nat) (message : Message size)
    (waiting : (state.ranks rank).pc = .waiting k) (clear : (state.ranks rank).arrived (state.ranks rank).phase k = false)
    (cq : (state.ranks rank).cq = []) (posted : 0 < (state.ranks rank).posted.length)
    (found : (state.net rank)[index]? = some message) :
    Reach step always state
      { ranks := Function.update state.ranks rank (polledOnce (state.ranks rank) message)
        net := Function.update state.net rank ((state.net rank).eraseIdx index) } := by
  obtain ⟨buffer, rest, shape⟩ := List.exists_cons_of_length_pos posted
  have delivered : step state (.deliver rank index) = some
      { ranks := Function.update state.ranks rank { state.ranks rank with
          posted := rest
          cq := [⟨message, buffer⟩] }
        net := Function.update state.net rank ((state.net rank).eraseIdx index) } := by
    simp only [step, found, shape, cq, List.nil_append]
  refine .step _ _ (.wait rank) (.step _ _ _ .start trivial delivered) trivial ?_
  simp only [step, Function.update_self, waiting, waitStep, clear, Bool.false_eq_true, if_false, pollCqDefer, setRank,
    Function.update_idem, polledOnce, shape, List.take_succ_cons, List.take_zero, List.drop_succ_cons, List.drop_zero]
  rw [← cq]

theorem record_own (arrived : Nat → Nat → Bool) (phase k : Nat) (bit : phase < 2) (few : k < maxSteps) :
    recordArrival arrived (immData phase k) phase k = true :=
  (record_arrival_iff arrived phase k phase k bit few).mpr (.inl ⟨rfl, rfl⟩)

theorem record_other (arrived : Nat → Nat → Bool) (phase k p other : Nat) (bit : phase < 2) (few : k < maxSteps)
    (different : ¬ (p = phase ∧ other = k)) (clear : arrived p other = false) :
    recordArrival arrived (immData phase k) p other = false := by
  rw [← Bool.not_eq_true, record_arrival_iff arrived phase k p other bit few]
  simp [different, clear]

def AfterStep (call k : Nat) (endpoint : Endpoint size) : Prop :=
  if k + 1 < steps size then AtStep call (k + 1) (.sending (k + 1)) endpoint else Rested call endpoint

theorem step_passes (call k : Nat) (endpoint : Endpoint size) (message : Message size) (bound : k < steps size)
    (few : steps size ≤ maxSteps) (ready : AtStep call k (.waiting k) endpoint)
    (data : message.data = immData (call % 2) k) :
    AfterStep call k (loopHead (polledOnce endpoint message) (k + 1)) := by
  have bit : call % 2 < 2 := Nat.mod_lt _ (by decide)
  have small : k < maxSteps := Nat.lt_of_lt_of_le bound few
  have total := ready.posted
  have pool : recvPoolSize = 64 := rfl
  have most : maxSteps = 20 := rfl
  have deferred : (endpoint.pendingRepost ++ endpoint.posted.take 1).length = k + 1 := by
    rw [List.length_append, List.length_take, ready.deferred]
    omega
  rw [AfterStep]
  split_ifs with more
  · simp only [loopHead, polledOnce, if_pos more]
    refine ⟨ready.calls, ready.phase, rfl, ready.cq, deferred, ?_, ?_⟩
    · rw [List.length_drop]
      omega
    · intro later past below
      simp only [ready.phase, data]
      refine record_other _ _ _ _ _ bit small (fun same => by omega) ?_
      rw [← ready.phase]
      exact ready.clear later (by omega) below
  · simp only [loopHead, polledOnce, if_neg more]
    refine ⟨ready.calls, ready.phase, rfl, ready.cq, ?_⟩
    rw [List.length_append, deferred, List.length_drop]
    omega

def Waits (call k : Nat) (seen : Endpoint size × List (Message size)) : Prop :=
  AtStep call k (.waiting k) seen.1 ∧ ∃ message, seen.2 = [message] ∧ message.data = immData (call % 2) k

def Passes (call k : Nat) (seen : Endpoint size × List (Message size)) : Prop := AfterStep call k seen.1 ∧ seen.2 = []

theorem receive_moves (call k : Nat) (bound : k < steps size) (few : steps size ≤ maxSteps) (rank : Fin size)
    (state : State size) (ready : Waits call k (view state rank)) :
    ∃ next, Reach step always state next ∧ Passes call k (view next rank) ∧
      ∀ other, other ≠ rank → view next other = view state other := by
  obtain ⟨atStep, message, net, data⟩ := ready
  change AtStep call k (.waiting k) (state.ranks rank) at atStep
  have here : (state.net rank)[0]? = some message := by
    change (view state rank).2[0]? = some message
    rw [net]
    rfl
  have clear : (state.ranks rank).arrived (state.ranks rank).phase k = false := atStep.clear k (Nat.le_refl k) bound
  have stock : 0 < (state.ranks rank).posted.length := by
    have total := atStep.posted
    have pool : recvPoolSize = 64 := rfl
    have most : maxSteps = 20 := rfl
    omega
  have polled := poll_moves state rank k 0 message atStep.pc clear atStep.cq stock here
  generalize middleEq : State.mk (Function.update state.ranks rank (polledOnce (state.ranks rank) message))
    (Function.update state.net rank ((state.net rank).eraseIdx 0)) = middle at polled
  have own : middle.ranks rank = polledOnce (state.ranks rank) message := by simp only [← middleEq, Function.update_self]
  have waits : (polledOnce (state.ranks rank) message).pc = .waiting k := atStep.pc
  have flag : (polledOnce (state.ranks rank) message).arrived (polledOnce (state.ranks rank) message).phase k = true := by
    simp only [polledOnce, data, atStep.phase]
    exact record_own _ _ _ (Nat.mod_lt _ (by decide)) (Nat.lt_of_lt_of_le bound few)
  have passed : step middle (.wait rank) = some
      (setRank middle rank (loopHead (polledOnce (state.ranks rank) message) (k + 1))) := by
    simp only [step, own, waits, waitStep, flag, if_true]
  refine ⟨_, .step _ _ (.wait rank) polled trivial passed, ⟨?_, ?_⟩, ?_⟩
  · simpa only [view, setRank, Function.update_self] using step_passes call k _ message bound few atStep data
  · have alone : state.net rank = [message] := net
    simp [view, setRank, ← middleEq, alone]
  · intro other different
    simp only [view, setRank, ← middleEq, Function.update_of_ne different]

theorem held_takes (count k : Nat) (endpoint : Endpoint size) (message : Message size)
    (few : steps size ≤ maxSteps) (stock : count < recvPoolSize) (held : HeldBack count endpoint)
    (bound : k < steps size) (data : message.data = immData 0 k) : HeldBack (count + 1) (polledOnce endpoint message) := by
  have total := held.posted
  refine ⟨held.phase, held.pc, held.cq, ?_, ?_, ?_⟩
  · rw [polledOnce, List.length_append, List.length_take, held.deferred]
    omega
  · rw [polledOnce, List.length_drop]
    omega
  · simp only [polledOnce, data]
    exact record_other _ _ _ _ _ (by decide) (Nat.lt_of_lt_of_le bound few) (fun same => absurd same.1 (by decide)) held.clear

theorem send_all (k : Nat) (bound : k < steps size) (senders : List (Fin size)) (distinct : senders.Nodup)
    (state : State size) (sending : ∀ rank ∈ senders, (state.ranks rank).pc = .sending k) :
    ∃ next, Reach step always state next ∧
      (∀ rank, next.ranks rank = if rank ∈ senders then { state.ranks rank with pc := .waiting k } else state.ranks rank) ∧
      ∀ rank, next.net rank = state.net rank ++ if peerBwd rank k ∈ senders then
        [stepMessage (peerBwd rank k) (state.ranks (peerBwd rank k)) k] else [] := by
  induction senders generalizing state with
  | nil => exact ⟨state, .start, by simp, by simp⟩
  | cons first rest ih =>
      obtain ⟨absent, distinct⟩ := List.nodup_cons.mp distinct
      have pc := sending first List.mem_cons_self
      let middle : State size :=
        { ranks := Function.update state.ranks first { state.ranks first with pc := .waiting k }
          net := Function.update state.net (peerFwd first k)
            (state.net (peerFwd first k) ++ [stepMessage first (state.ranks first) k]) }
      have taken : step state (.inject first) = some middle := by simp only [step, pc, middle]
      have elsewhere : ∀ rank ∈ rest, middle.ranks rank = state.ranks rank := by
        intro rank member
        have different : rank ≠ first := fun same => absent (same ▸ member)
        exact Function.update_of_ne different _ _
      obtain ⟨next, reached, ranks, net⟩ := ih distinct middle fun rank member => by
        rw [elsewhere rank member]
        exact sending rank (List.mem_cons_of_mem first member)
      refine ⟨next, reach_head step always state middle next _ trivial taken reached, fun rank => ?_, fun rank => ?_⟩
      · by_cases own : rank = first
        · subst own
          rw [ranks, if_neg absent, if_pos List.mem_cons_self]
          exact Function.update_self _ _ _
        · rw [ranks, show middle.ranks rank = state.ranks rank from Function.update_of_ne own _ _]
          simp only [List.mem_cons, own, false_or]
      · rw [net]
        by_cases target : rank = peerFwd first k
        · have source : peerBwd rank k = first := peer_bwd_fwd rank first k bound target.symm
          simp only [source, absent, if_false, List.append_nil, List.mem_cons, true_or, if_true]
          rw [target]
          exact Function.update_self _ _ _
        · have source : peerBwd rank k ≠ first := fun same => target (same ▸ (peer_fwd_bwd rank k bound).symm)
          rw [show middle.net rank = state.net rank from Function.update_of_ne target _ _]
          by_cases member : peerBwd rank k ∈ rest
          · simp only [member, List.mem_cons, or_true, if_true, elsewhere _ member]
          · rw [if_neg member, if_neg fun found => (List.mem_cons.mp found).elim source member]

theorem at_step_waits (call k : Nat) (endpoint : Endpoint size) (ready : AtStep call k (.sending k) endpoint) :
    AtStep call k (.waiting k) { endpoint with pc := .waiting k } :=
  ⟨ready.calls, ready.phase, rfl, ready.cq, ready.deferred, ready.posted, ready.clear⟩

theorem sent_ready (call k : Nat) (senders : List (Fin size)) (before after : State size)
    (ready : ∀ rank ∈ senders, AtStep call k (.sending k) (before.ranks rank))
    (ranks : ∀ rank, after.ranks rank =
      if rank ∈ senders then { before.ranks rank with pc := .waiting k } else before.ranks rank)
    (net : ∀ rank, after.net rank = before.net rank ++ if peerBwd rank k ∈ senders then
      [stepMessage (peerBwd rank k) (before.ranks (peerBwd rank k)) k] else [])
    (rank : Fin size) (member : rank ∈ senders) (source : peerBwd rank k ∈ senders) (empty : before.net rank = []) :
    Waits call k (view after rank) := by
  refine ⟨?_, stepMessage (peerBwd rank k) (before.ranks (peerBwd rank k)) k, ?_, ?_⟩
  · rw [view, ranks, if_pos member]
    exact at_step_waits call k _ (ready rank member)
  · simp only [view, net, empty, source, if_true, List.nil_append]
  · rw [stepMessage, (ready _ source).phase]

def FirstCall (k : Nat) (state : State size) : Prop :=
  ∀ rank, AtStep 1 k (.sending k) (state.ranks rank) ∧ state.net rank = []

theorem first_call_entered (several : 2 ≤ size) : ∃ state, Reach step always (initial size) state ∧ FirstCall 0 state := by
  obtain ⟨state, reached, entered, _⟩ := reach_sweep step always view
    (fun _ seen => Rested 0 seen.1 ∧ seen.2 = []) (fun _ seen => AtStep 1 0 (.sending 0) seen.1 ∧ seen.2 = [])
    (fun rank state rested => enter_moves 0 several rank state rested) (List.finRange size) (List.nodup_finRange size)
    (initial size) (fun _ _ => ⟨⟨rfl, rfl, rfl, rfl, List.length_range⟩, rfl⟩)
  exact ⟨state, reached, fun rank => entered rank (List.mem_finRange rank)⟩

theorem first_call_sent (k : Nat) (bound : k < steps size) (state : State size) (ready : FirstCall k state) :
    ∃ next, Reach step always state next ∧ ∀ rank, Waits 1 k (view next rank) := by
  obtain ⟨next, reached, ranks, net⟩ := send_all k bound (List.finRange size) (List.nodup_finRange size) state
    fun rank _ => (ready rank).1.pc
  refine ⟨next, reached, fun rank => ?_⟩
  exact sent_ready 1 k _ state next (fun other _ => (ready other).1) ranks net rank (List.mem_finRange rank)
    (List.mem_finRange _) (ready rank).2

theorem first_call_next (k : Nat) (more : k + 1 < steps size) (few : steps size ≤ maxSteps) (state : State size)
    (ready : FirstCall k state) : ∃ next, Reach step always state next ∧ FirstCall (k + 1) next := by
  have bound : k < steps size := Nat.lt_of_succ_lt more
  obtain ⟨middle, first, sent⟩ := first_call_sent k bound state ready
  obtain ⟨next, second, received, _⟩ := reach_sweep step always view (fun _ => Waits 1 k) (fun _ => Passes 1 k)
    (fun rank state ready => receive_moves 1 k bound few rank state ready) (List.finRange size)
    (List.nodup_finRange size) middle fun rank _ => sent rank
  refine ⟨next, reach_trans step always state middle next first second, fun rank => ?_⟩
  have here := received rank (List.mem_finRange rank)
  simpa only [Passes, AfterStep, if_pos more, view] using here

theorem first_call_reached (several : 2 ≤ size) (few : steps size ≤ maxSteps) (k : Nat) (bound : k < steps size) :
    ∃ state, Reach step always (initial size) state ∧ FirstCall k state := by
  induction k with
  | zero => exact first_call_entered several
  | succ k ih =>
      obtain ⟨state, reached, ready⟩ := ih (Nat.lt_of_succ_lt bound)
      obtain ⟨next, onward, readyNext⟩ := first_call_next k bound few state ready
      exact ⟨next, reach_trans step always _ state next reached onward, readyNext⟩

structure RunAhead (slow : Fin size) (k : Nat) (state : State size) : Prop where
  ahead : ∀ rank : Fin size, 2 ^ k ≤ rank.val → AtStep 2 k (.sending k) (state.ranks rank) ∧ state.net rank = []
  held : HeldBack (steps size - 1 + k) (state.ranks slow)
  late : ∃ message, state.net slow = [message] ∧ message.data = immData 1 (steps size - 1)

theorem run_ahead_starts (several : 2 ≤ size) (few : steps size ≤ maxSteps) (slow : Fin size) (place : slow.val = 0) :
    ∃ state, Reach step always (initial size) state ∧ RunAhead slow 0 state := by
  have positive := steps_positive size several
  have bound : steps size - 1 < steps size := Nat.sub_lt positive (by decide)
  let others := (List.finRange size).filter (· ≠ slow)
  have distinct : others.Nodup := (List.nodup_finRange size).filter _
  have apart : slow ∉ others := by simp [others]
  obtain ⟨start, reached, ready⟩ := first_call_reached several few (steps size - 1) bound
  obtain ⟨sent, sends, waits⟩ := first_call_sent (steps size - 1) bound start ready
  obtain ⟨back, returns, rested, keptBack⟩ := reach_sweep step always view
    (fun _ => Waits 1 (steps size - 1)) (fun _ => Passes 1 (steps size - 1))
    (fun rank state ready => receive_moves 1 (steps size - 1) bound few rank state ready) others distinct sent
    fun rank _ => waits rank
  have ended : ∀ rank ∈ others, Rested 1 (view back rank).1 ∧ (view back rank).2 = [] := by
    intro rank member
    simpa only [Passes, AfterStep, show ¬ steps size - 1 + 1 < steps size by omega, if_false] using rested rank member
  obtain ⟨state, enters, entered, keptEnter⟩ := reach_sweep step always view
    (fun _ seen => Rested 1 seen.1 ∧ seen.2 = []) (fun _ seen => AtStep 2 0 (.sending 0) seen.1 ∧ seen.2 = [])
    (fun rank state rested => enter_moves 1 several rank state rested) others distinct back ended
  have same : view state slow = view sent slow := (keptEnter slow apart).trans (keptBack slow apart)
  obtain ⟨slowWaits, message, net, data⟩ := waits slow
  refine ⟨state, reach_trans step always _ _ _ reached (reach_trans step always _ _ _ sends
    (reach_trans step always _ _ _ returns enters)), ?_, ?_, message, ?_, data⟩
  · intro rank far
    exact entered rank (by
      have different : rank ≠ slow := fun same => by simp [same, place] at far
      simp [others, different])
  · change HeldBack _ (view state slow).1
    rw [same]
    refine ⟨slowWaits.phase, slowWaits.pc, slowWaits.cq, slowWaits.deferred, slowWaits.posted, ?_⟩
    have clear := slowWaits.clear (steps size - 1) (Nat.le_refl _) bound
    rwa [slowWaits.phase] at clear
  · change (view state slow).2 = [message]
    rw [same, net]

theorem peer_bwd_past (rank : Fin size) (k : Nat) (far : 2 ^ k ≤ rank.val) : (peerBwd rank k).val = rank.val - 2 ^ k := by
  have inside := rank.isLt
  have value : (peerBwd rank k).val = (rank.val + size - 2 ^ k) % size := rfl
  rw [value, show rank.val + size - 2 ^ k = rank.val - 2 ^ k + size by omega, Nat.add_mod_right]
  exact Nat.mod_eq_of_lt (Nat.lt_of_le_of_lt (Nat.sub_le _ _) inside)

theorem peer_bwd_first (slow : Fin size) (place : slow.val = 0) (k : Nat) (bound : k < steps size) :
    (peerBwd slow k).val = size - 2 ^ k := by
  have value : (peerBwd slow k).val = (slow.val + size - 2 ^ k) % size := rfl
  have small := steps_needed size k bound
  have positive := Nat.pow_pos (n := k) (show 0 < 2 by decide)
  rw [value, place, Nat.zero_add]
  exact Nat.mod_eq_of_lt (by omega)

theorem run_ahead_next (few : steps size ≤ maxSteps) (slow : Fin size) (place : slow.val = 0) (k : Nat)
    (more : k + 1 < steps size) (state : State size) (ready : RunAhead slow k state) :
    ∃ next, Reach step always state next ∧ RunAhead slow (k + 1) next := by
  have bound : k < steps size := Nat.lt_of_succ_lt more
  have double : 2 ^ (k + 1) = 2 ^ k + 2 ^ k := by rw [Nat.pow_succ, Nat.mul_two]
  have room := steps_needed size (k + 1) more
  have positive := Nat.pow_pos (n := k) (show 0 < 2 by decide)
  let senders := (List.finRange size).filter fun rank => 2 ^ k ≤ rank.val
  let receivers := (List.finRange size).filter fun rank => 2 ^ (k + 1) ≤ rank.val
  have sender : ∀ rank, rank ∈ senders ↔ 2 ^ k ≤ rank.val := fun rank => by simp [senders]
  have receiver : ∀ rank, rank ∈ receivers ↔ 2 ^ (k + 1) ≤ rank.val := fun rank => by simp [receivers]
  have slowSends : slow ∉ senders := by
    rw [sender]
    omega
  have slowReceives : slow ∉ receivers := by
    rw [receiver]
    omega
  obtain ⟨sent, sends, ranks, net⟩ := send_all k bound senders ((List.nodup_finRange size).filter _) state
    fun rank member => (ready.ahead rank ((sender rank).mp member)).1.pc
  have waits : ∀ rank ∈ receivers, Waits 2 k (view sent rank) := by
    intro rank member
    have far := (receiver rank).mp member
    have source : peerBwd rank k ∈ senders := by
      rw [sender, peer_bwd_past rank k (by omega)]
      omega
    exact sent_ready 2 k senders state sent (fun other among => (ready.ahead other ((sender other).mp among)).1) ranks net
      rank ((sender rank).mpr (by omega)) source (ready.ahead rank (by omega)).2
  obtain ⟨back, receives, passed, kept⟩ := reach_sweep step always view (fun _ => Waits 2 k) (fun _ => Passes 2 k)
    (fun rank state ready => receive_moves 2 k bound few rank state ready) receivers ((List.nodup_finRange size).filter _)
    sent waits
  -- The message of this step for the rank held back arrives behind the late one.
  obtain ⟨late, lateNet, lateData⟩ := ready.late
  let source := peerBwd slow k
  have among : source ∈ senders := by
    rw [sender, peer_bwd_first slow place k bound]
    omega
  let message := stepMessage source (state.ranks source) k
  have data : message.data = immData 0 k := by
    simp only [message, stepMessage, (ready.ahead source ((sender source).mp among)).1.phase]
  have slowView : view back slow = (state.ranks slow, [late, message]) := by
    rw [kept slow slowReceives, view, ranks, if_neg slowSends, net, if_pos among, lateNet]
    rfl
  have slowRank : back.ranks slow = state.ranks slow := congrArg Prod.fst slowView
  have slowNet : back.net slow = [late, message] := congrArg Prod.snd slowView
  have held := ready.held
  rw [← slowRank] at held
  have pool : recvPoolSize = 64 := rfl
  have most : maxSteps = 20 := rfl
  have total := held.posted
  have clear : (back.ranks slow).arrived (back.ranks slow).phase (steps size - 1) = false := by
    rw [held.phase]
    exact held.clear
  have polled := poll_moves back slow (steps size - 1) 1 message held.pc clear held.cq (by omega) (by rw [slowNet]; rfl)
  refine ⟨_, reach_trans step always _ _ _ sends (reach_trans step always _ _ _ receives polled), ?_, ?_, late, ?_, lateData⟩
  · intro rank far
    have different : rank ≠ slow := fun same => by
      rw [same, place] at far
      omega
    have here := passed rank ((receiver rank).mpr far)
    simpa only [Function.update_of_ne different, Passes, AfterStep, if_pos more, view] using here
  · simp only [Function.update_self]
    exact held_takes (steps size - 1 + k) k _ message few (by omega) held bound data
  · simp only [Function.update_self, slowNet, List.eraseIdx_cons_succ, List.eraseIdx_cons_zero]

theorem run_ahead_reached (several : 2 ≤ size) (few : steps size ≤ maxSteps) (slow : Fin size) (place : slow.val = 0)
    (k : Nat) (bound : k < steps size) : ∃ state, Reach step always (initial size) state ∧ RunAhead slow k state := by
  induction k with
  | zero => exact run_ahead_starts several few slow place
  | succ k ih =>
      obtain ⟨state, reached, ready⟩ := ih (Nat.lt_of_succ_lt bound)
      obtain ⟨next, onward, readyNext⟩ := run_ahead_next few slow place k bound state ready
      exact ⟨next, reach_trans step always _ state next reached onward, readyNext⟩

theorem overflow_reached (several : 2 ≤ size) (few : steps size ≤ maxSteps) :
    ∃ state, Reach step always (initial size) state ∧ ∃ rank, (state.ranks rank).pc ≠ .outside ∧
      (state.ranks rank).pendingRepost.length = 2 * steps size - 1 := by
  have positive := steps_positive size several
  let slow : Fin size := ⟨0, Nat.lt_of_lt_of_le (by decide) several⟩
  obtain ⟨state, reached, ready⟩ := run_ahead_reached several few slow rfl (steps size - 1) (Nat.sub_lt positive (by decide))
  obtain ⟨late, lateNet, _⟩ := ready.late
  have held := ready.held
  have pool : recvPoolSize = 64 := rfl
  have most : maxSteps = 20 := rfl
  have total := held.posted
  have clear : (state.ranks slow).arrived (state.ranks slow).phase (steps size - 1) = false := by
    rw [held.phase]
    exact held.clear
  have polled := poll_moves state slow (steps size - 1) 0 late held.pc clear held.cq (by omega) (by rw [lateNet]; rfl)
  refine ⟨_, reach_trans step always _ _ _ reached polled, slow, ?_, ?_⟩
  · simp [polledOnce, held.pc]
  · simp only [Function.update_self]
    rw [polledOnce, List.length_append, List.length_take, held.deferred]
    omega

theorem steps_few_iff (size : Nat) : steps size ≤ 10 ↔ size ≤ 1024 := by
  constructor
  · intro small
    calc size ≤ 2 ^ steps size := steps_cover size
      _ ≤ 2 ^ 10 := Nat.pow_le_pow_right (by decide) small
      _ = 1024 := rfl
  · intro small
    by_contra more
    have needed := steps_needed size 10 (Nat.lt_of_not_le more)
    omega

theorem deferred_reposts_fit_iff (few : steps size ≤ maxSteps) :
    (∀ state, Reach step always (initial size) state → RepostsInBounds state) ↔ size ≤ 1024 := by
  rw [← steps_few_iff size]
  constructor
  · intro holds
    by_contra more
    have several : 2 ≤ size := by
      have needed := steps_needed size 10 (Nat.lt_of_not_le more)
      omega
    obtain ⟨state, reached, rank, inside, many⟩ := overflow_reached several few
    have bound := (holds state reached).inBounds rank inside
    have most : maxSteps = 20 := rfl
    omega
  · intro small state reached
    exact few_ranks_in_bounds small state reached

theorem reposts_fit_thousand :
    (∀ state, Reach step always (initial 1000) state → RepostsInBounds state) ↔ 1000 ≤ 1024 :=
  deferred_reposts_fit_iff (by decide +kernel)

theorem reposts_overflow : steps 1025 ≤ maxSteps ∧ ∃ state : State 1025, Reach step always (initial 1025) state ∧
    ∃ rank, (state.ranks rank).pc ≠ .outside ∧ maxSteps < (state.ranks rank).pendingRepost.length := by
  have exact11 : steps 1025 = 11 := by decide +kernel
  have few : steps 1025 ≤ maxSteps := exact11 ▸ by decide
  obtain ⟨state, reached, rank, inside, many⟩ := overflow_reached (by decide) few
  exact ⟨few, state, reached, rank, inside, by rw [many, exact11]; decide⟩

end OpenGda.HostBarrier
