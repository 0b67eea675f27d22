import OpenGda.Ofi.HostBarrier

set_option autoImplicit false

namespace OpenGda.HostBarrier

open Dissemination Machine

variable {size : Nat}

theorem steps_cover (size : Nat) : size ≤ 2 ^ steps size := by
  simpa only [Nat.one_mul, steps] using doublings_cover size size 1 (by omega) (by omega)

theorem steps_needed (size k : Nat) (bound : k < steps size) : 2 ^ k < size := by
  simpa only [Nat.one_mul] using doublings_needed size size 1 k bound

theorem steps_positive (size : Nat) (several : 2 ≤ size) : 0 < steps size := by
  have cover := steps_cover size
  by_contra none
  rw [show steps size = 0 by omega] at cover
  omega

theorem peer_bwd_behind (rank : Fin size) (k : Nat) (bound : k < steps size) :
    peerBwd rank k = behind rank (2 ^ k) := by
  apply Fin.ext
  simp only [peerBwd, behind, Nat.mod_eq_of_lt (steps_needed size k bound)]

theorem peer_bwd_fwd (rank source : Fin size) (k : Nat) (bound : k < steps size)
    (sent : peerFwd source k = rank) : peerBwd rank k = source := by
  rw [peer_bwd_behind rank k bound, ← sent]
  exact behind_ahead source (2 ^ k)

theorem peer_fwd_bwd (rank : Fin size) (k : Nat) (bound : k < steps size) :
    peerFwd (peerBwd rank k) k = rank := by
  rw [peer_bwd_behind rank k bound]
  exact ahead_behind rank (2 ^ k)

theorem imm_data_decodes (phase k : Nat) (bit : phase < 2) (few : k < maxSteps) :
    (immData phase k >>> 8) &&& 0xFF = phase ∧ immData phase k &&& 0xFF = k := by
  have table : ∀ p < 2, ∀ s < maxSteps, (immData p s >>> 8) &&& 0xFF = p ∧ immData p s &&& 0xFF = s := by decide
  exact table phase bit k few

theorem record_arrival_iff (arrived : Nat → Nat → Bool) (phase k p s : Nat) (bit : phase < 2) (few : k < maxSteps) :
    recordArrival arrived (immData phase k) p s = true ↔ (p = phase ∧ s = k) ∨ arrived p s = true := by
  obtain ⟨phaseEq, stepEq⟩ := imm_data_decodes phase k bit few
  simp only [recordArrival, phaseEq, stepEq, if_pos few]
  by_cases hit : p = phase ∧ s = k <;> simp [hit]

inductive Change (before after : State size) (action : Action size) : Prop where
  | entered (rank : Fin size) (outside : (before.ranks rank).pc = .outside)
      (result : after = setRank before rank (enterBarrier (before.ranks rank)))
  | injected (rank : Fin size) (k : Nat) (sending : (before.ranks rank).pc = .sending k)
      (result : after =
        { ranks := Function.update before.ranks rank { before.ranks rank with pc := .waiting k }
          net := Function.update before.net (peerFwd rank k)
            (before.net (peerFwd rank k) ++ [stepMessage rank (before.ranks rank) k]) })
  | polled (rank : Fin size) (entry : CqEntry size) (rest : List (CqEntry size)) (endpoint : Endpoint size)
      (turn : action = .retry rank ∨ (action = .wait rank ∧ ∀ k, (before.ranks rank).pc = .waiting k →
        (before.ranks rank).arrived (before.ranks rank).phase k ≠ true))
      (inside : (before.ranks rank).pc ≠ .outside) (queue : (before.ranks rank).cq = entry :: rest)
      (calls : endpoint.calls = (before.ranks rank).calls) (phase : endpoint.phase = (before.ranks rank).phase)
      (pc : endpoint.pc = (before.ranks rank).pc) (cq : endpoint.cq = rest)
      (arrived : endpoint.arrived = recordArrival (before.ranks rank).arrived entry.message.data)
      (result : after = setRank before rank endpoint)
  | passed (rank : Fin size) (k : Nat) (waiting : (before.ranks rank).pc = .waiting k)
      (arrived : (before.ranks rank).arrived (before.ranks rank).phase k = true)
      (result : after = setRank before rank (loopHead (before.ranks rank) (k + 1)))
  | delivered (rank : Fin size) (index buffer : Nat) (posted : List Nat) (message : Message size)
      (found : (before.net rank)[index]? = some message)
      (result : after =
        { ranks := Function.update before.ranks rank { before.ranks rank with
            posted := posted
            cq := (before.ranks rank).cq ++ [⟨message, buffer⟩] }
          net := Function.update before.net rank ((before.net rank).eraseIdx index) })
  | unchanged (result : after = before)

theorem step_change (before after : State size) (action : Action size)
    (taken : step before action = some after) : Change before after action := by
  cases action with
  | enter rank =>
      cases pc : (before.ranks rank).pc <;> simp only [step, pc, Option.some.injEq, reduceCtorEq] at taken
      exact .entered rank pc taken.symm
  | inject rank =>
      cases pc : (before.ranks rank).pc <;> simp only [step, pc, Option.some.injEq, reduceCtorEq] at taken
      exact .injected rank _ pc taken.symm
  | retry rank =>
      cases pc : (before.ranks rank).pc <;> simp only [step, pc, Option.some.injEq, reduceCtorEq] at taken
      cases queue : (before.ranks rank).cq with
      | nil => exact .unchanged (by simp [← taken, pollCqNodefer, queue, setRank])
      | cons entry rest =>
          exact .polled rank entry rest (pollCqNodefer (before.ranks rank)) (Or.inl rfl) (by simp [pc]) queue
            (by simp [pollCqNodefer, queue]) (by simp [pollCqNodefer, queue]) (by simp [pollCqNodefer, queue])
            (by simp [pollCqNodefer, queue]) (by simp [pollCqNodefer, queue]) taken.symm
  | wait rank =>
      cases pc : (before.ranks rank).pc <;> simp only [step, pc, Option.some.injEq, reduceCtorEq] at taken
      rename_i k
      by_cases arrived : (before.ranks rank).arrived (before.ranks rank).phase k = true
      · rw [waitStep, if_pos arrived] at taken
        exact .passed rank k pc arrived taken.symm
      · rw [waitStep, if_neg arrived] at taken
        cases queue : (before.ranks rank).cq with
        | nil => exact .unchanged (by simp [← taken, pollCqDefer, queue, setRank])
        | cons entry rest =>
            have turn : ∀ j, (before.ranks rank).pc = .waiting j →
                (before.ranks rank).arrived (before.ranks rank).phase j ≠ true := by
              intro j waiting
              rw [pc, Pc.waiting.injEq] at waiting
              exact waiting ▸ arrived
            exact .polled rank entry rest (pollCqDefer (before.ranks rank)) (Or.inr ⟨rfl, turn⟩) (by simp [pc]) queue
              (by simp [pollCqDefer, queue]) (by simp [pollCqDefer, queue]) (by simp [pollCqDefer, queue])
              (by simp [pollCqDefer, queue]) (by simp [pollCqDefer, queue]) taken.symm
  | deliver rank index =>
      cases found : (before.net rank)[index]? with
      | none => simp [step, found] at taken
      | some message =>
          cases posted : (before.ranks rank).posted with
          | nil => simp [step, found, posted] at taken
          | cons buffer rest =>
              simp only [step, found, posted, Option.some.injEq] at taken
              exact .delivered rank index buffer rest message found taken.symm

def messageKey (message : Message size) : Nat × Nat := (message.call, message.step)

structure Inv (state : State size) : Prop where
  parity : ∀ rank, (state.ranks rank).phase = (state.ranks rank).calls % 2
  inLoop : ∀ rank, (state.ranks rank).pc ≠ .outside → (state.ranks rank).position < steps size
  origin : ∀ rank, ∀ message ∈ unread state rank, peerFwd message.source message.step = rank ∧
    message.step < steps size ∧ message.data = immData (message.call % 2) message.step ∧
    Sent (state.ranks message.source) message.call message.step
  distinct : ∀ rank, ((unread state rank).map messageKey).Nodup
  unpassed : ∀ rank, ∀ message ∈ unread state rank, ¬ Passed (state.ranks rank) message.call message.step
  arrivals : ∀ rank k, (state.ranks rank).pc ≠ .outside → (state.ranks rank).position ≤ k → k < steps size →
    (state.ranks rank).arrived (state.ranks rank).phase k = true →
    Sent (state.ranks (peerBwd rank k)) (state.ranks rank).calls k ∧
      ∀ message ∈ unread state rank, ¬ (message.call = (state.ranks rank).calls ∧ message.step = k)
  received : ∀ rank call k, k < steps size → Passed (state.ranks rank) call k →
    Sent (state.ranks (peerBwd rank k)) call k
  heard : ∀ rank call k, k < steps size → Passed (state.ranks rank) call k →
    Heard (fun other => call ≤ (state.ranks other).calls) rank (2 ^ (k + 1))

theorem initial_inv (size : Nat) : Inv (initial size) where
  parity := fun _ => rfl
  inLoop := fun _ inside => absurd rfl inside
  origin := fun _ message member => absurd member (by simp [unread, initial, initialEndpoint])
  distinct := fun _ => by simp [unread, initial, initialEndpoint]
  unpassed := fun _ message member => absurd member (by simp [unread, initial, initialEndpoint])
  arrivals := fun _ _ inside => absurd rfl inside
  received := by
    intro rank call k bound passed
    have first : call = 0 := by
      rcases passed with less | ⟨same, _⟩
      · exact absurd less (Nat.not_lt_zero call)
      · exact same
    exact Or.inr ⟨first, bound⟩
  heard := by
    intro rank call k bound passed distance near
    rcases passed with less | ⟨same, _⟩
    · exact absurd less (Nat.not_lt_zero call)
    · exact Nat.le_of_eq same

theorem sent_heard (state : State size) (inv : Inv state) (rank : Fin size) (call k : Nat) (bound : k < steps size)
    (sent : Sent (state.ranks rank) call k) :
    Heard (fun other => call ≤ (state.ranks other).calls) rank (2 ^ k) := by
  cases k with
  | zero =>
      refine heard_one _ rank ?_
      rcases sent with less | ⟨same, _⟩
      · exact Nat.le_of_lt less
      · exact Nat.le_of_eq same
  | succ k =>
      refine inv.heard rank call k (by omega) ?_
      rcases sent with less | ⟨same, within⟩
      · exact Or.inl less
      · refine Or.inr ⟨same, ?_⟩
        cases pc : (state.ranks rank).pc <;>
          simp only [Endpoint.sentSteps, Endpoint.position, pc] at within ⊢ <;> omega

-- A rank that starts a call has returned from the one before, so every rank has entered that one.
theorem lead_at_most_one (state : State size) (inv : Inv state) (several : 2 ≤ size) (ahead behind : Fin size) :
    (state.ranks ahead).calls ≤ (state.ranks behind).calls + 1 := by
  cases calls : (state.ranks ahead).calls with
  | zero => omega
  | succ call =>
      have positive := steps_positive size several
      have everyone := inv.heard ahead call (steps size - 1) (by omega) (Or.inl (by omega))
      rw [show steps size - 1 + 1 = steps size by omega] at everyone
      have entered : call ≤ (state.ranks behind).calls := heard_everyone _ ahead _ (steps_cover size) everyone behind
      omega

theorem sent_update (ranks : Fin size → Endpoint size) (rank other : Fin size) (endpoint : Endpoint size)
    (call k : Nat) (grows : Sent (ranks rank) call k → Sent endpoint call k) (sent : Sent (ranks other) call k) :
    Sent (Function.update ranks rank endpoint other) call k := by
  by_cases same : other = rank
  · subst other
    simpa using grows sent
  · simpa [same] using sent

theorem calls_update (ranks : Fin size → Endpoint size) (rank other : Fin size) (endpoint : Endpoint size)
    (grows : (ranks rank).calls ≤ endpoint.calls) :
    (ranks other).calls ≤ (Function.update ranks rank endpoint other).calls := by
  by_cases same : other = rank
  · subst other
    simpa using grows
  · simp [same]

theorem sent_later (before after : Endpoint size) (call k : Nat) (more : before.calls < after.calls)
    (sent : Sent before call k) : Sent after call k := by
  rcases sent with less | ⟨same, _⟩ <;> exact Or.inl (by omega)

theorem sent_same_call (before after : Endpoint size) (call k : Nat) (calls : after.calls = before.calls)
    (more : before.sentSteps ≤ after.sentSteps) (sent : Sent before call k) : Sent after call k := by
  rcases sent with less | ⟨same, within⟩
  · exact Or.inl (by omega)
  · exact Or.inr (by omega)

theorem update_same_call (ranks after : Fin size → Endpoint size) (rank : Fin size) (endpoint : Endpoint size)
    (updated : ∀ other, after other = if other = rank then endpoint else ranks other)
    (calls : endpoint.calls = (ranks rank).calls) (more : (ranks rank).sentSteps ≤ endpoint.sentSteps) (other : Fin size) :
    (after other).calls = (ranks other).calls ∧ ∀ call k, Sent (ranks other) call k → Sent (after other) call k := by
  rw [updated]
  split
  · rename_i same
    rw [same]
    exact ⟨calls, fun call k => sent_same_call _ _ call k calls more⟩
  · exact ⟨rfl, fun _ _ sent => sent⟩

theorem passed_same_call (before after : Endpoint size) (call k : Nat) (calls : after.calls = before.calls)
    (position : after.position = before.position) (passed : Passed after call k) : Passed before call k := by
  simpa only [Passed, calls, position] using passed

theorem enter_barrier_fields (endpoint : Endpoint size) (several : 2 ≤ size) :
    (enterBarrier endpoint).calls = endpoint.calls + 1 ∧ (enterBarrier endpoint).phase = endpoint.phase ^^^ 1 ∧
      (enterBarrier endpoint).arrived = clearPhase endpoint.arrived (endpoint.phase ^^^ 1) (steps size) ∧
      (enterBarrier endpoint).pc = .sending 0 ∧ (enterBarrier endpoint).cq = endpoint.cq := by
  simp [enterBarrier, loopHead, steps_positive size several, show size ≠ 1 by omega]

theorem loop_head_fields (endpoint : Endpoint size) (k : Nat) (bound : k < steps size) :
    (loopHead endpoint (k + 1)).calls = endpoint.calls ∧ (loopHead endpoint (k + 1)).phase = endpoint.phase ∧
      (loopHead endpoint (k + 1)).arrived = endpoint.arrived ∧ (loopHead endpoint (k + 1)).cq = endpoint.cq ∧
      (loopHead endpoint (k + 1)).position = k + 1 ∧ (loopHead endpoint (k + 1)).sentSteps = k + 1 ∧
      ((loopHead endpoint (k + 1)).pc ≠ .outside → k + 1 < steps size) := by
  by_cases more : k + 1 < steps size
  · simp [loopHead, more, Endpoint.position, Endpoint.sentSteps]
  · have last : steps size = k + 1 := by omega
    simp [loopHead, Endpoint.position, Endpoint.sentSteps, last]

theorem entered_inv (state : State size) (inv : Inv state) (several : 2 ≤ size) (rank : Fin size)
    (outside : (state.ranks rank).pc = .outside) :
    Inv (setRank state rank (enterBarrier (state.ranks rank))) := by
  obtain ⟨calls, phase, arrived, pc, cq⟩ := enter_barrier_fields (state.ranks rank) several
  have unreadSame : ∀ other, unread (setRank state rank (enterBarrier (state.ranks rank))) other = unread state other := by
    intro other
    by_cases same : other = rank
    · subst other
      simp [unread, setRank, cq]
    · simp [unread, setRank, same]
  have sentGrows : ∀ other call k, Sent (state.ranks other) call k →
      Sent ((setRank state rank (enterBarrier (state.ranks rank))).ranks other) call k :=
    fun other call k => sent_update _ rank other _ call k (sent_later _ _ call k (by omega))
  have passedBefore : ∀ call k, k < steps size → Passed (enterBarrier (state.ranks rank)) call k →
      Passed (state.ranks rank) call k := by
    intro call k bound passed
    rcases passed with less | ⟨_, within⟩
    · by_cases same : call = (state.ranks rank).calls
      · exact Or.inr ⟨same, by simpa [Endpoint.position, outside] using bound⟩
      · exact Or.inl (by omega)
    · simp [Endpoint.position, pc] at within
  refine ⟨?_, ?_, ?_, ?_, ?_, ?_, ?_, ?_⟩
  · intro other
    by_cases same : other = rank
    · subst other
      have parity := inv.parity rank
      have bit : ∀ p < 2, p ^^^ 1 = (p + 1) % 2 := by decide
      simp only [setRank, Function.update_self, phase, calls]
      rw [bit _ (by omega)]
      omega
    · simpa [setRank, same] using inv.parity other
  · intro other inside
    by_cases same : other = rank
    · subst other
      simpa [setRank, Endpoint.position, pc] using steps_positive size several
    · simpa [setRank, same] using inv.inLoop other (by simpa [setRank, same] using inside)
  · intro other message member
    rw [unreadSame] at member
    obtain ⟨target, bound, data, sent⟩ := inv.origin other message member
    exact ⟨target, bound, data, sentGrows _ _ _ sent⟩
  · intro other
    rw [unreadSame]
    exact inv.distinct other
  · intro other message member passed
    rw [unreadSame] at member
    refine inv.unpassed other message member ?_
    by_cases same : other = rank
    · subst other
      exact passedBefore _ _ (inv.origin rank message member).2.1 (by simpa [setRank] using passed)
    · simpa [setRank, same] using passed
  · intro other k inside position bound flag
    by_cases same : other = rank
    · subst other
      simp [setRank, arrived, phase, clearPhase, bound] at flag
    · rw [unreadSame]
      simp only [setRank, Function.update_of_ne same] at inside position flag ⊢
      obtain ⟨sent, absent⟩ := inv.arrivals other k inside position bound flag
      exact ⟨sentGrows _ _ _ sent, absent⟩
  · intro other call k bound passed
    refine sentGrows _ _ _ (inv.received other call k bound ?_)
    by_cases same : other = rank
    · subst other
      exact passedBefore _ _ bound (by simpa [setRank] using passed)
    · simpa [setRank, same] using passed
  · intro other call k bound passed
    refine heard_mono _ _ other _ (fun q => ?_) (inv.heard other call k bound ?_)
    · exact fun entered => Nat.le_trans entered (calls_update _ rank q _ (by omega))
    · by_cases same : other = rank
      · subst other
        exact passedBefore _ _ bound (by simpa [setRank] using passed)
      · simpa [setRank, same] using passed

def injectStep (state : State size) (rank : Fin size) (k : Nat) : State size where
  ranks := Function.update state.ranks rank { state.ranks rank with pc := .waiting k }
  net := Function.update state.net (peerFwd rank k)
    (state.net (peerFwd rank k) ++ [stepMessage rank (state.ranks rank) k])

structure Injected (before after : State size) (rank : Fin size) (k : Nat) : Prop where
  ranks : ∀ other, after.ranks other =
    if other = rank then { before.ranks rank with pc := .waiting k } else before.ranks other
  calls : ∀ other, (after.ranks other).calls = (before.ranks other).calls
  position : ∀ other, (after.ranks other).position = (before.ranks other).position
  sent : ∀ other call j, Sent (before.ranks other) call j → Sent (after.ranks other) call j
  unreadAt : unread after (peerFwd rank k) =
    unread before (peerFwd rank k) ++ [stepMessage rank (before.ranks rank) k]
  unreadElse : ∀ other, other ≠ peerFwd rank k → unread after other = unread before other

theorem inject_step_injected (state : State size) (rank : Fin size) (k : Nat)
    (sending : (state.ranks rank).pc = .sending k) : Injected state (injectStep state rank k) rank k := by
  have ranks : ∀ other, (injectStep state rank k).ranks other =
      if other = rank then { state.ranks rank with pc := .waiting k } else state.ranks other := by
    intro other
    simp only [injectStep, Function.update_apply]
  have sameCall := update_same_call state.ranks (injectStep state rank k).ranks rank _ ranks rfl
    (by simp [Endpoint.sentSteps, sending])
  refine ⟨ranks, fun other => (sameCall other).1, ?_, fun other => (sameCall other).2, ?_, ?_⟩
  · intro other
    rw [ranks]
    split <;> simp_all [Endpoint.position]
  · simp only [unread, injectStep, Function.update_self, Function.update_apply]
    split <;> simp_all
  · intro other different
    simp only [unread, injectStep, Function.update_of_ne different, Function.update_apply]
    split <;> simp_all

section Injected

variable {state after : State size} {rank : Fin size} {k : Nat}

theorem injected_cases (change : Injected state after rank k) (other : Fin size) (message : Message size)
    (member : message ∈ unread after other) :
    message ∈ unread state other ∨ (other = peerFwd rank k ∧ message = stepMessage rank (state.ranks rank) k) := by
  by_cases same : other = peerFwd rank k
  · subst other
    rw [change.unreadAt] at member
    simpa using member
  · exact Or.inl (by rwa [change.unreadElse other same] at member)

theorem injected_passed (change : Injected state after rank k) (other : Fin size) (call j : Nat)
    (passed : Passed (after.ranks other) call j) : Passed (state.ranks other) call j :=
  passed_same_call _ _ call j (change.calls other) (change.position other) passed

theorem sending_unsent (sending : (state.ranks rank).pc = .sending k) :
    ¬ Sent (state.ranks rank) (state.ranks rank).calls k := by
  simp [Sent, Endpoint.sentSteps, sending]

theorem sending_bound (inv : Inv state) (sending : (state.ranks rank).pc = .sending k) : k < steps size := by
  simpa [Endpoint.position, sending] using inv.inLoop rank (by simp [sending])

theorem injected_origin (inv : Inv state) (change : Injected state after rank k)
    (sending : (state.ranks rank).pc = .sending k) (other : Fin size) (message : Message size)
    (member : message ∈ unread after other) :
    peerFwd message.source message.step = other ∧ message.step < steps size ∧
      message.data = immData (message.call % 2) message.step ∧
      Sent (after.ranks message.source) message.call message.step := by
  rcases injected_cases change other message member with old | ⟨target, fresh⟩
  · obtain ⟨target, within, data, sent⟩ := inv.origin other message old
    exact ⟨target, within, data, change.sent _ _ _ sent⟩
  · subst message
    refine ⟨target.symm, sending_bound inv sending, by simp [stepMessage, inv.parity rank],
      Or.inr ⟨(change.calls rank).symm, ?_⟩⟩
    simp [change.ranks, stepMessage, Endpoint.sentSteps]

theorem injected_distinct (inv : Inv state) (change : Injected state after rank k)
    (sending : (state.ranks rank).pc = .sending k) (other : Fin size) : ((unread after other).map messageKey).Nodup := by
  by_cases same : other = peerFwd rank k
  · subst other
    rw [change.unreadAt, List.map_append, List.nodup_append]
    refine ⟨inv.distinct _, by simp, ?_⟩
    intro key old fresh freshMember collision
    obtain ⟨message, member, rfl⟩ := List.mem_map.mp old
    obtain ⟨target, within, _, sent⟩ := inv.origin _ message member
    simp only [List.map_cons, List.map_nil, List.mem_singleton] at freshMember
    obtain ⟨callSame, stepSame⟩ : message.call = (state.ranks rank).calls ∧ message.step = k :=
      Prod.mk.inj (collision.trans freshMember)
    have source : message.source = rank :=
      ahead_unique _ _ (2 ^ k) (by simpa [peerFwd, ahead, stepSame] using target)
    rw [source, callSame, stepSame] at sent
    exact sending_unsent sending sent
  · rw [change.unreadElse other same]
    exact inv.distinct other

theorem injected_unpassed (inv : Inv state) (change : Injected state after rank k)
    (sending : (state.ranks rank).pc = .sending k) (other : Fin size) (message : Message size)
    (member : message ∈ unread after other) :
    ¬ Passed (after.ranks other) message.call message.step := by
  intro passed
  rcases injected_cases change other message member with old | ⟨target, fresh⟩
  · exact inv.unpassed other message old (injected_passed change other _ _ passed)
  · subst message
    have bound := sending_bound inv sending
    have sent := inv.received other _ k bound (injected_passed change other _ _ passed)
    rw [peer_bwd_fwd other rank k bound target.symm] at sent
    exact sending_unsent sending sent

theorem injected_arrivals (inv : Inv state) (change : Injected state after rank k)
    (sending : (state.ranks rank).pc = .sending k) (other : Fin size) (j : Nat)
    (inside : (after.ranks other).pc ≠ .outside)
    (position : (after.ranks other).position ≤ j) (within : j < steps size)
    (flag : (after.ranks other).arrived (after.ranks other).phase j = true) :
    Sent (after.ranks (peerBwd other j)) (after.ranks other).calls j ∧
      ∀ message ∈ unread after other, ¬ (message.call = (after.ranks other).calls ∧ message.step = j) := by
  rw [change.position] at position
  rw [change.calls]
  have old : (state.ranks other).pc ≠ .outside ∧ (state.ranks other).arrived (state.ranks other).phase j = true := by
    rw [change.ranks] at inside flag
    split at inside <;> simp_all
  obtain ⟨sent, absent⟩ := inv.arrivals other j old.1 position within old.2
  refine ⟨change.sent _ _ _ sent, fun message member same => ?_⟩
  rcases injected_cases change other message member with before | ⟨target, fresh⟩
  · exact absent message before same
  · subst message
    have stepSame : k = j := same.2
    have callSame : (state.ranks rank).calls = (state.ranks other).calls := same.1
    rw [← stepSame, peer_bwd_fwd other rank k (sending_bound inv sending) target.symm, ← callSame] at sent
    exact sending_unsent sending sent

end Injected

theorem injected_inv (state : State size) (inv : Inv state) (rank : Fin size) (k : Nat)
    (sending : (state.ranks rank).pc = .sending k) : Inv (injectStep state rank k) := by
  have change := inject_step_injected state rank k sending
  refine ⟨?_, ?_, injected_origin inv change sending, injected_distinct inv change sending,
    injected_unpassed inv change sending, injected_arrivals inv change sending, ?_, ?_⟩
  · intro other
    have parity := inv.parity other
    rw [change.calls, change.ranks]
    split <;> simp_all
  · intro other inside
    rw [change.position]
    refine inv.inLoop other ?_
    rw [change.ranks] at inside
    split at inside <;> simp_all
  · intro other call j within passed
    exact change.sent _ _ _ (inv.received other call j within (injected_passed change other call j passed))
  · intro other call j within passed
    refine heard_mono _ _ other _ (fun q entered => ?_)
      (inv.heard other call j within (injected_passed change other call j passed))
    rwa [change.calls]

-- The phase bit suffices: an unread message is of the reader's call or of the
-- one after it, and only the former has the reader's phase.
theorem unread_call (state : State size) (inv : Inv state) (several : 2 ≤ size) (rank : Fin size)
    (message : Message size) (member : message ∈ unread state rank) :
    message.call = (state.ranks rank).calls ∨ message.call = (state.ranks rank).calls + 1 := by
  obtain ⟨_, _, _, sent⟩ := inv.origin rank message member
  have lead := lead_at_most_one state inv several message.source rank
  have notBefore : ¬ message.call < (state.ranks rank).calls :=
    fun less => inv.unpassed rank message member (Or.inl less)
  have started : message.call ≤ (state.ranks message.source).calls := by
    rcases sent with less | ⟨same, _⟩ <;> omega
  omega

theorem polled_inv (state : State size) (inv : Inv state) (several : 2 ≤ size) (few : steps size ≤ maxSteps)
    (rank : Fin size) (entry : CqEntry size) (rest : List (CqEntry size)) (endpoint : Endpoint size)
    (inside : (state.ranks rank).pc ≠ .outside) (queue : (state.ranks rank).cq = entry :: rest)
    (calls : endpoint.calls = (state.ranks rank).calls) (phase : endpoint.phase = (state.ranks rank).phase)
    (pc : endpoint.pc = (state.ranks rank).pc) (cq : endpoint.cq = rest)
    (arrived : endpoint.arrived = recordArrival (state.ranks rank).arrived entry.message.data) :
    Inv (setRank state rank endpoint) := by
  generalize stateEq : setRank state rank endpoint = after
  have ranksEq : ∀ other, after.ranks other = if other = rank then endpoint else state.ranks other := by
    intro other
    simp only [← stateEq, setRank, Function.update_apply]
  have position : endpoint.position = (state.ranks rank).position := by simp only [Endpoint.position, pc]
  have sameCall := update_same_call state.ranks after.ranks rank _ ranksEq calls
    (by simp [Endpoint.sentSteps, pc])
  have callsSame : ∀ other, (after.ranks other).calls = (state.ranks other).calls := fun other => (sameCall other).1
  have passedSame : ∀ other call j, Passed (after.ranks other) call j → Passed (state.ranks other) call j := by
    intro other call j
    refine passed_same_call _ _ call j (callsSame other) ?_
    rw [ranksEq]
    split <;> simp_all
  have sentGrows : ∀ other call j, Sent (state.ranks other) call j → Sent (after.ranks other) call j :=
    fun other => (sameCall other).2
  have unreadHere : unread state rank = entry.message :: unread after rank := by
    simp [unread, ← stateEq, setRank, queue, cq]
  have unreadElse : ∀ other, other ≠ rank → unread after other = unread state other := by
    intro other different
    simp [unread, ← stateEq, setRank, different]
  have memberBefore : ∀ other, ∀ message ∈ unread after other, message ∈ unread state other := by
    intro other message member
    by_cases same : other = rank
    · subst other
      rw [unreadHere]
      exact List.mem_cons_of_mem _ member
    · rwa [← unreadElse other same]
  refine ⟨?_, ?_, ?_, ?_, ?_, ?_, ?_, ?_⟩
  · intro other
    have parity := inv.parity other
    rw [callsSame, ranksEq]
    split <;> simp_all
  · intro other active
    have old := inv.inLoop other
    rw [ranksEq] at active ⊢
    split at active <;> simp_all
  · intro other message member
    obtain ⟨target, within, data, sent⟩ := inv.origin other message (memberBefore other message member)
    exact ⟨target, within, data, sentGrows _ _ _ sent⟩
  · intro other
    have distinct := inv.distinct other
    by_cases same : other = rank
    · subst other
      rw [unreadHere, List.map_cons, List.nodup_cons] at distinct
      exact distinct.2
    · rwa [unreadElse other same]
  · exact fun other message member passed =>
      inv.unpassed other message (memberBefore other message member) (passedSame _ _ _ passed)
  · intro other j active before within flag
    rw [callsSame]
    by_cases same : other = rank
    · subst other
      have head : entry.message ∈ unread state rank := by simp [unreadHere]
      obtain ⟨target, fits, data, sent⟩ := inv.origin rank entry.message head
      simp only [ranksEq, if_true, position, phase, arrived, data] at before flag
      rw [record_arrival_iff _ _ _ _ _ (Nat.mod_lt _ (by omega)) (by omega)] at flag
      rcases flag with ⟨phaseSame, stepSame⟩ | flag
      · have parity := inv.parity rank
        have call : entry.message.call = (state.ranks rank).calls := by
          have candidates := unread_call state inv several rank entry.message head
          omega
        have source : peerBwd rank j = entry.message.source :=
          peer_bwd_fwd rank entry.message.source j within (stepSame ▸ target)
        refine ⟨?_, fun message member collision => ?_⟩
        · rw [source, stepSame, ← call]
          exact sentGrows _ _ _ sent
        · have distinct := inv.distinct rank
          rw [unreadHere, List.map_cons, List.nodup_cons] at distinct
          refine distinct.1 (List.mem_map.mpr ⟨message, member, ?_⟩)
          simp [messageKey, collision.1, collision.2, call, stepSame]
      · obtain ⟨sent, absent⟩ := inv.arrivals rank j inside before within flag
        exact ⟨sentGrows _ _ _ sent, fun message member => absent message (memberBefore rank message member)⟩
    · simp only [ranksEq, if_neg same] at active before flag
      obtain ⟨sent, absent⟩ := inv.arrivals other j active before within flag
      exact ⟨sentGrows _ _ _ sent, fun message member => absent message (memberBefore other message member)⟩
  · exact fun other call j within passed =>
      sentGrows _ _ _ (inv.received other call j within (passedSame _ _ _ passed))
  · intro other call j within passed
    refine heard_mono _ _ other _ (fun q entered => ?_) (inv.heard other call j within (passedSame _ _ _ passed))
    rwa [callsSame]

theorem passed_inv (state : State size) (inv : Inv state) (rank : Fin size) (k : Nat)
    (waiting : (state.ranks rank).pc = .waiting k)
    (arrived : (state.ranks rank).arrived (state.ranks rank).phase k = true) :
    Inv (setRank state rank (loopHead (state.ranks rank) (k + 1))) := by
  have here : (state.ranks rank).position = k := by simp [Endpoint.position, waiting]
  have bound : k < steps size := by simpa [here] using inv.inLoop rank (by simp [waiting])
  obtain ⟨sentHere, absentHere⟩ := inv.arrivals rank k (by simp [waiting]) (by omega) bound arrived
  obtain ⟨calls, phase, flags, cq, position, sentSteps, inside⟩ := loop_head_fields (state.ranks rank) k bound
  generalize loopHead (state.ranks rank) (k + 1) = endpoint at *
  generalize stateEq : setRank state rank endpoint = after
  have ranksEq : ∀ other, after.ranks other = if other = rank then endpoint else state.ranks other := by
    intro other
    simp only [← stateEq, setRank, Function.update_apply]
  have sameCall := update_same_call state.ranks after.ranks rank _ ranksEq calls
    (by rw [sentSteps, Endpoint.sentSteps, waiting])
  have callsSame : ∀ other, (after.ranks other).calls = (state.ranks other).calls := fun other => (sameCall other).1
  have sentGrows : ∀ other call j, Sent (state.ranks other) call j → Sent (after.ranks other) call j :=
    fun other => (sameCall other).2
  have unreadSame : ∀ other, unread after other = unread state other := by
    intro other
    simp only [unread, ← stateEq, setRank, Function.update_apply]
    split <;> simp_all
  have passedCases : ∀ other call j, Passed (after.ranks other) call j → Passed (state.ranks other) call j ∨
      (other = rank ∧ call = (state.ranks rank).calls ∧ j = k) := by
    intro other call j passed
    rw [ranksEq] at passed
    split at passed
    · subst other
      rcases passed with less | ⟨same, within⟩
      · exact Or.inl (Or.inl (by omega))
      · by_cases last : j = k
        · exact Or.inr ⟨rfl, by omega, last⟩
        · exact Or.inl (Or.inr ⟨by omega, by omega⟩)
    · exact Or.inl passed
  refine ⟨?_, ?_, ?_, ?_, ?_, ?_, ?_, ?_⟩
  · intro other
    have parity := inv.parity other
    rw [callsSame, ranksEq]
    split <;> simp_all
  · intro other active
    have old := inv.inLoop other
    rw [ranksEq] at active ⊢
    split at active <;> simp_all
  · intro other message member
    rw [unreadSame] at member
    obtain ⟨target, within, data, sent⟩ := inv.origin other message member
    exact ⟨target, within, data, sentGrows _ _ _ sent⟩
  · intro other
    rw [unreadSame]
    exact inv.distinct other
  · intro other message member passed
    rw [unreadSame] at member
    rcases passedCases _ _ _ passed with old | ⟨same, callEq, stepEq⟩
    · exact inv.unpassed other message member old
    · subst other
      exact absentHere message member ⟨callEq, stepEq⟩
  · intro other j active before within flag
    rw [callsSame, unreadSame]
    have old : (state.ranks other).pc ≠ .outside ∧ (state.ranks other).position ≤ j ∧
        (state.ranks other).arrived (state.ranks other).phase j = true := by
      rw [ranksEq] at active before flag
      split at active
      · subst other
        simp only [if_true, position, flags, phase] at before flag
        exact ⟨by simp [waiting], by omega, flag⟩
      · rename_i different
        simp only [if_neg different] at before flag
        exact ⟨active, before, flag⟩
    obtain ⟨sent, absent⟩ := inv.arrivals other j old.1 old.2.1 within old.2.2
    exact ⟨sentGrows _ _ _ sent, absent⟩
  · intro other call j within passed
    rcases passedCases _ _ _ passed with old | ⟨same, callEq, stepEq⟩
    · exact sentGrows _ _ _ (inv.received other call j within old)
    · subst other call j
      exact sentGrows _ _ _ sentHere
  · intro other call j within passed
    refine heard_mono (fun q => call ≤ (state.ranks q).calls) _ other _ (fun q entered => ?_) ?_
    · rwa [callsSame]
    · rcases passedCases _ _ _ passed with old | ⟨same, callEq, stepEq⟩
      · exact inv.heard other call j within old
      · subst other call j
        have own := sent_heard state inv rank (state.ranks rank).calls k bound
          (Or.inr ⟨rfl, by simp [Endpoint.sentSteps, waiting]⟩)
        have told := sent_heard state inv (peerBwd rank k) (state.ranks rank).calls k bound sentHere
        rw [peer_bwd_behind rank k bound] at told
        rw [Nat.pow_succ, Nat.mul_comm]
        exact heard_double _ rank (2 ^ k) own told

theorem unread_delivered_perm (state : State size) (rank : Fin size) (index buffer : Nat) (posted : List Nat)
    (message : Message size) (found : (state.net rank)[index]? = some message) (other : Fin size) :
    (unread { ranks := Function.update state.ranks rank { state.ranks rank with
                posted := posted
                cq := (state.ranks rank).cq ++ [⟨message, buffer⟩] }
              net := Function.update state.net rank ((state.net rank).eraseIdx index) } other).Perm
      (unread state other) := by
  by_cases same : other = rank
  · subst other
    obtain ⟨within, value⟩ := List.getElem?_eq_some_iff.mp found
    have moved := List.getElem_cons_eraseIdx_perm within
    rw [value] at moved
    simp only [unread, Function.update_self, List.map_append, List.map_cons, List.map_nil,
      List.append_assoc, List.singleton_append]
    exact moved.append_left _
  · simp [unread, same]

theorem delivered_fields (state after : State size) (rank : Fin size) (index buffer : Nat) (posted : List Nat)
    (message : Message size) (delivered : State.mk (Function.update state.ranks rank { state.ranks rank with
      posted := posted
      cq := (state.ranks rank).cq ++ [⟨message, buffer⟩] })
    (Function.update state.net rank ((state.net rank).eraseIdx index)) = after) (other : Fin size) :
    (after.ranks other).calls = (state.ranks other).calls ∧ (after.ranks other).phase = (state.ranks other).phase ∧
      (after.ranks other).pc = (state.ranks other).pc ∧ (after.ranks other).arrived = (state.ranks other).arrived := by
  simp only [← delivered, Function.update_apply]
  split <;> simp_all

theorem delivered_inv (state : State size) (inv : Inv state) (rank : Fin size) (index buffer : Nat)
    (posted : List Nat) (message : Message size) (found : (state.net rank)[index]? = some message) :
    Inv { ranks := Function.update state.ranks rank { state.ranks rank with
            posted := posted
            cq := (state.ranks rank).cq ++ [⟨message, buffer⟩] }
          net := Function.update state.net rank ((state.net rank).eraseIdx index) } := by
  generalize stateEq : State.mk (Function.update state.ranks rank { state.ranks rank with
      posted := posted
      cq := (state.ranks rank).cq ++ [⟨message, buffer⟩] })
    (Function.update state.net rank ((state.net rank).eraseIdx index)) = after
  have fields := delivered_fields state after rank index buffer posted message stateEq
  have position : ∀ other, (after.ranks other).position = (state.ranks other).position := by
    intro other
    simp only [Endpoint.position, (fields other).2.2.1]
  have sentSame : ∀ other call j, Sent (after.ranks other) call j ↔ Sent (state.ranks other) call j := by
    intro other call j
    simp only [Sent, Endpoint.sentSteps, (fields other).1, (fields other).2.2.1]
  have passedSame : ∀ other call j, Passed (after.ranks other) call j ↔ Passed (state.ranks other) call j := by
    intro other call j
    simp only [Passed, (fields other).1, position other]
  have unreadPerm : ∀ other, (unread after other).Perm (unread state other) := by
    intro other
    rw [← stateEq]
    exact unread_delivered_perm state rank index buffer posted message found other
  refine ⟨?_, ?_, ?_, ?_, ?_, ?_, ?_, ?_⟩
  · intro other
    rw [(fields other).1, (fields other).2.1]
    exact inv.parity other
  · intro other
    rw [(fields other).2.2.1, position]
    exact inv.inLoop other
  · intro other message member
    rw [sentSame]
    exact inv.origin other message ((unreadPerm other).mem_iff.mp member)
  · intro other
    exact ((unreadPerm other).map messageKey).nodup_iff.mpr (inv.distinct other)
  · intro other message member
    rw [passedSame]
    exact inv.unpassed other message ((unreadPerm other).mem_iff.mp member)
  · intro other j
    rw [(fields other).1, (fields other).2.1, (fields other).2.2.1, (fields other).2.2.2, position, sentSame]
    intro active before within flag
    obtain ⟨sent, absent⟩ := inv.arrivals other j active before within flag
    exact ⟨sent, fun message member => absent message ((unreadPerm other).mem_iff.mp member)⟩
  · intro other call j within
    rw [passedSame, sentSame]
    exact inv.received other call j within
  · intro other call j within
    rw [passedSame]
    intro passed distance near
    simpa only [(fields _).1] using inv.heard other call j within passed distance near

theorem step_inv (several : 2 ≤ size) (few : steps size ≤ maxSteps) (before after : State size)
    (action : Action size) (inv : Inv before) (taken : step before action = some after) : Inv after := by
  cases step_change before after action taken with
  | entered rank outside result => exact result ▸ entered_inv before inv several rank outside
  | injected rank k sending result => exact result ▸ injected_inv before inv rank k sending
  | polled rank entry rest endpoint _ inside queue calls phase pc cq arrived result =>
      exact result ▸ polled_inv before inv several few rank entry rest endpoint inside queue calls phase pc cq arrived
  | passed rank k waiting arrived result => exact result ▸ passed_inv before inv rank k waiting arrived
  | delivered rank index buffer posted message found result =>
      exact result ▸ delivered_inv before inv rank index buffer posted message found
  | unchanged result => exact result ▸ inv

theorem reach_inv (several : 2 ≤ size) (few : steps size ≤ maxSteps)
    (allowed : State size → Action size → Prop) (state : State size)
    (reached : Reach step allowed (initial size) state) : Inv state :=
  reach_invariant step allowed Inv (initial size) state (initial_inv size)
    (fun before after action inv _ taken => step_inv several few before after action inv taken) reached

-- `pendingRepost` has no end here. Runs that put more than MAX_STEPS indices into the
-- code's pending_repost, which there are beyond 1024 ranks, are undefined in the code.
theorem no_return_before_all_enter (several : 2 ≤ size) (few : steps size ≤ maxSteps) (state : State size)
    (reached : Reach step always (initial size) state) (rank other : Fin size) (call : Nat)
    (returned : call ≤ (state.ranks rank).returned) : call ≤ (state.ranks other).calls := by
  have inv := reach_inv several few always state reached
  have positive := steps_positive size several
  by_cases first : call = 0
  · omega
  · have passed : Passed (state.ranks rank) call (steps size - 1) := by
      cases pc : (state.ranks rank).pc <;> simp only [Endpoint.returned, pc] at returned
      case outside =>
        by_cases last : call = (state.ranks rank).calls
        · exact Or.inr ⟨last, by simp only [Endpoint.position, pc]; omega⟩
        · exact Or.inl (by omega)
      all_goals exact Or.inl (by omega)
    have everyone := inv.heard rank call (steps size - 1) (by omega) passed
    rw [show steps size - 1 + 1 = steps size by omega] at everyone
    exact heard_everyone _ rank _ (steps_cover size) everyone other

def firstReturn : List (Action 3) :=
  [.enter 0, .enter 1, .enter 2, .inject 0, .inject 1, .inject 2, .deliver 1 0, .deliver 2 0,
    .wait 1, .wait 1, .wait 2, .wait 2, .inject 2, .deliver 0 0, .wait 0, .wait 0, .inject 0, .deliver 2 0,
    .wait 2, .wait 2]

theorem first_return_all_entered : ∃ state : State 3, Reach step always (initial 3) state ∧
    1 ≤ (state.ranks 2).returned ∧ (state.ranks 0).returned = 0 ∧ 1 ≤ (state.ranks 0).calls := by
  have ran : ∃ state, run (guarded step always) (initial 3) firstReturn = some state ∧
      1 ≤ (state.ranks 2).returned ∧ (state.ranks 0).returned = 0 := by
    refine ⟨(run (guarded step always) (initial 3) firstReturn).get (by decide +kernel), by simp, ?_⟩
    decide +kernel
  obtain ⟨state, ran, returned, waiting⟩ := ran
  have reached := reach_of_run step always firstReturn (initial 3) state ran
  exact ⟨state, reached, returned, waiting,
    no_return_before_all_enter (by decide) (by decide) state reached 2 0 1 returned⟩

end OpenGda.HostBarrier
