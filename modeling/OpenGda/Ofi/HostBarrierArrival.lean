import OpenGda.Ofi.HostBarrierSafety

set_option autoImplicit false

namespace OpenGda.HostBarrier

open Dissemination Machine

variable {size : Nat}

def ArrivalKept (state : State size) : Prop :=
  ∀ rank k, (state.ranks rank).pc ≠ .outside → (state.ranks rank).position ≤ k → k < steps size →
    Sent (state.ranks (peerBwd rank k)) (state.ranks rank).calls k →
    (∃ message ∈ unread state rank, message.source = peerBwd rank k ∧
      message.call = (state.ranks rank).calls ∧ message.step = k) ∨
    (state.ranks rank).arrived (state.ranks rank).phase k = true

def Stranded (state : State size) (rank : Fin size) (k : Nat) : Prop :=
  (∀ other, unread state other = []) ∧ (state.ranks rank).pc = .waiting k ∧
    (state.ranks rank).arrived (state.ranks rank).phase k = false ∧
    Sent (state.ranks (peerBwd rank k)) (state.ranks rank).calls k

def HeadInPhase (endpoint : Endpoint size) : Prop :=
  ∀ entry, endpoint.cq.head? = some entry → (entry.message.data >>> 8) &&& 0xFF = endpoint.phase

-- What a poll takes out of the completion queue carries the phase of the call it is made in.
def PollsOwnPhase (state : State size) : Action size → Prop
  | .retry rank => HeadInPhase (state.ranks rank)
  | .wait rank =>
      (∃ k, (state.ranks rank).pc = .waiting k ∧
        (state.ranks rank).arrived (state.ranks rank).phase k = true) ∨ HeadInPhase (state.ranks rank)
  | _ => True

structure Kept (state : State size) : Prop where
  kept : ∀ rank call k, k < steps size → Sent (state.ranks (peerBwd rank k)) call k →
    ¬ Passed (state.ranks rank) call k →
    (∃ message ∈ unread state rank, message.call = call ∧ message.step = k) ∨
    (call = (state.ranks rank).calls ∧ (state.ranks rank).arrived (state.ranks rank).phase k = true)

theorem initial_kept (size : Nat) : Kept (initial size) := by
  constructor
  intro rank call k bound sent unpassed
  refine absurd ?_ unpassed
  rcases sent with less | ⟨same, _⟩
  · exact absurd less (Nat.not_lt_zero call)
  · exact Or.inr ⟨same, bound⟩

theorem entered_kept (state : State size) (kept : Kept state) (several : 2 ≤ size)
    (rank : Fin size) (outside : (state.ranks rank).pc = .outside) :
    Kept (setRank state rank (enterBarrier (state.ranks rank))) := by
  obtain ⟨calls, phase, arrived, pc, cq⟩ := enter_barrier_fields (state.ranks rank) several
  constructor
  intro other call k bound sent unpassed
  have sentBefore : Sent (state.ranks (peerBwd other k)) call k := by
    by_cases same : peerBwd other k = rank
    · rw [same] at sent ⊢
      simp only [setRank, Function.update_self] at sent
      rcases sent with less | ⟨_, within⟩
      · by_cases last : call = (state.ranks rank).calls
        · exact Or.inr ⟨last, by simpa [Endpoint.sentSteps, outside] using bound⟩
        · exact Or.inl (by omega)
      · simp [Endpoint.sentSteps, pc] at within
    · simpa [setRank, same] using sent
  by_cases same : other = rank
  · subst other
    simp only [setRank, Function.update_self] at unpassed
    have later : (state.ranks rank).calls < call := by
      by_contra early
      exact unpassed (Or.inl (by omega))
    have fresh : ¬ Passed (state.ranks rank) call k := by
      rintro (less | ⟨equal, _⟩) <;> omega
    rcases kept.kept rank call k bound sentBefore fresh with ⟨message, member, found⟩ | ⟨equal, _⟩
    · exact Or.inl ⟨message, by simpa [unread, setRank, cq] using member, found⟩
    · omega
  · simp only [setRank, Function.update_of_ne same] at unpassed
    simpa [unread, setRank, same] using kept.kept other call k bound sentBefore unpassed

theorem injected_kept (state : State size) (kept : Kept state) (rank : Fin size) (k : Nat)
    (sending : (state.ranks rank).pc = .sending k) :
    Kept { ranks := Function.update state.ranks rank { state.ranks rank with pc := .waiting k }
           net := Function.update state.net (peerFwd rank k)
             (state.net (peerFwd rank k) ++ [stepMessage rank (state.ranks rank) k]) } := by
  generalize stateEq : State.mk (Function.update state.ranks rank { state.ranks rank with pc := .waiting k })
    (Function.update state.net (peerFwd rank k)
      (state.net (peerFwd rank k) ++ [stepMessage rank (state.ranks rank) k])) = after
  have ranksEq : ∀ other, after.ranks other =
      if other = rank then { state.ranks rank with pc := .waiting k } else state.ranks other := by
    intro other
    simp only [← stateEq, Function.update_apply]
  have fields : ∀ other, (after.ranks other).calls = (state.ranks other).calls ∧
      (after.ranks other).phase = (state.ranks other).phase ∧
      (after.ranks other).arrived = (state.ranks other).arrived ∧
      (after.ranks other).position = (state.ranks other).position := by
    intro other
    rw [ranksEq]
    split <;> simp_all [Endpoint.position]
  have unreadGrows : ∀ other, ∀ message ∈ unread state other, message ∈ unread after other := by
    intro other message member
    have queueSame : (after.ranks other).cq = (state.ranks other).cq := by
      rw [ranksEq]
      split <;> simp_all
    have netGrows : ∀ m ∈ state.net other, m ∈ after.net other := by
      intro m sentBefore
      simp only [← stateEq, Function.update_apply]
      split
      · rename_i same
        exact List.mem_append_left _ (same ▸ sentBefore)
      · exact sentBefore
    simp only [unread, List.mem_append, queueSame] at member ⊢
    exact member.imp_right (netGrows message)
  constructor
  intro other call j bound sent unpassed
  have unpassedBefore : ¬ Passed (state.ranks other) call j := by
    simpa only [Passed, (fields other).1, (fields other).2.2.2] using unpassed
  by_cases old : Sent (state.ranks (peerBwd other j)) call j
  · rcases kept.kept other call j bound old unpassedBefore with ⟨message, member, found⟩ | flagged
    · exact Or.inl ⟨message, unreadGrows other message member, found⟩
    · exact Or.inr (by simpa only [(fields other).1, (fields other).2.1, (fields other).2.2.1] using flagged)
  · -- Newly sent: this is the injected message, in flight to its receiver.
    have sender : peerBwd other j = rank := by
      by_contra different
      exact old (by simpa [ranksEq, different] using sent)
    rw [sender, ranksEq, if_pos rfl] at sent
    have fresh : call = (state.ranks rank).calls ∧ j = k := by
      rw [sender] at old
      simp only [Sent, Endpoint.sentSteps, sending] at sent old
      omega
    obtain ⟨rfl, rfl⟩ := fresh
    have target : other = peerFwd rank j := by rw [← sender, peer_fwd_bwd other j bound]
    refine Or.inl ⟨stepMessage rank (state.ranks rank) j, ?_, rfl, rfl⟩
    simp [unread, ← stateEq, target]

theorem polled_kept (state : State size) (inv : Inv state) (kept : Kept state) (several : 2 ≤ size)
    (few : steps size ≤ maxSteps) (rank : Fin size) (entry : CqEntry size) (rest : List (CqEntry size))
    (endpoint : Endpoint size) (queue : (state.ranks rank).cq = entry :: rest)
    (calls : endpoint.calls = (state.ranks rank).calls) (phase : endpoint.phase = (state.ranks rank).phase)
    (pc : endpoint.pc = (state.ranks rank).pc) (cq : endpoint.cq = rest)
    (arrived : endpoint.arrived = recordArrival (state.ranks rank).arrived entry.message.data)
    (own : (entry.message.data >>> 8) &&& 0xFF = (state.ranks rank).phase) :
    Kept (setRank state rank endpoint) := by
  have head : entry.message ∈ unread state rank := by simp [unread, queue]
  obtain ⟨_, fits, data, _⟩ := inv.origin rank entry.message head
  have bit : entry.message.call % 2 < 2 := Nat.mod_lt _ (by omega)
  rw [data, (imm_data_decodes _ _ bit (by omega)).1] at own
  have call : entry.message.call = (state.ranks rank).calls := by
    have parity := inv.parity rank
    have candidates := unread_call state inv several rank entry.message head
    omega
  have flagged : ∀ k, recordArrival (state.ranks rank).arrived entry.message.data (state.ranks rank).phase k = true ↔
      k = entry.message.step ∨ (state.ranks rank).arrived (state.ranks rank).phase k = true := by
    intro k
    rw [data, record_arrival_iff _ _ _ _ _ bit (by omega)]
    simp [own]
  constructor
  intro other c k bound sent unpassed
  have sentBefore : Sent (state.ranks (peerBwd other k)) c k := by
    by_cases same : peerBwd other k = rank
    · simpa [setRank, same, Sent, Endpoint.sentSteps, calls, pc] using sent
    · simpa [setRank, same] using sent
  by_cases same : other = rank
  · subst other
    simp only [setRank, Function.update_self, Passed, Endpoint.position, calls, pc] at unpassed
    simp only [setRank, Function.update_self, calls, phase, arrived, flagged]
    rcases kept.kept rank c k bound sentBefore unpassed with ⟨message, member, callEq, stepEq⟩ | ⟨equal, flag⟩
    · simp only [unread, queue, List.map_cons, List.cons_append, List.mem_cons] at member
      rcases member with first | later
      · subst message
        exact Or.inr ⟨by omega, Or.inl stepEq.symm⟩
      · exact Or.inl ⟨message, by simpa [unread, setRank, cq] using later, callEq, stepEq⟩
    · exact Or.inr ⟨equal, Or.inr flag⟩
  · simp only [setRank, Function.update_of_ne same] at unpassed
    simpa [unread, setRank, same] using kept.kept other c k bound sentBefore unpassed

theorem passed_kept (state : State size) (inv : Inv state) (kept : Kept state) (rank : Fin size) (k : Nat)
    (waiting : (state.ranks rank).pc = .waiting k) :
    Kept (setRank state rank (loopHead (state.ranks rank) (k + 1))) := by
  have bound : k < steps size := by simpa [Endpoint.position, waiting] using inv.inLoop rank (by simp [waiting])
  obtain ⟨calls, phase, flags, cq, position, sentSteps, _⟩ := loop_head_fields (state.ranks rank) k bound
  generalize loopHead (state.ranks rank) (k + 1) = endpoint at *
  have sentHere : (state.ranks rank).sentSteps = k + 1 := by simp [Endpoint.sentSteps, waiting]
  have positionHere : (state.ranks rank).position = k := by simp [Endpoint.position, waiting]
  constructor
  intro other c j within sent unpassed
  have sentBefore : Sent (state.ranks (peerBwd other j)) c j := by
    by_cases same : peerBwd other j = rank
    · simpa [setRank, same, Sent, calls, sentSteps, sentHere] using sent
    · simpa [setRank, same] using sent
  by_cases same : other = rank
  · subst other
    simp only [setRank, Function.update_self] at unpassed
    have fresh : ¬ Passed (state.ranks rank) c j := by
      simp only [Passed, calls, position, positionHere] at unpassed ⊢
      omega
    simpa [unread, setRank, calls, phase, flags, cq] using kept.kept rank c j within sentBefore fresh
  · simp only [setRank, Function.update_of_ne same] at unpassed
    simpa [unread, setRank, same] using kept.kept other c j within sentBefore unpassed

theorem delivered_kept (state : State size) (kept : Kept state) (rank : Fin size) (index buffer : Nat)
    (posted : List Nat) (message : Message size) (found : (state.net rank)[index]? = some message) :
    Kept { ranks := Function.update state.ranks rank { state.ranks rank with
             posted := posted
             cq := (state.ranks rank).cq ++ [⟨message, buffer⟩] }
           net := Function.update state.net rank ((state.net rank).eraseIdx index) } := by
  have unreadPerm := unread_delivered_perm state rank index buffer posted message found
  generalize stateEq : State.mk (Function.update state.ranks rank { state.ranks rank with
      posted := posted
      cq := (state.ranks rank).cq ++ [⟨message, buffer⟩] })
    (Function.update state.net rank ((state.net rank).eraseIdx index)) = after at unreadPerm ⊢
  have fields := delivered_fields state after rank index buffer posted message stateEq
  constructor
  intro other call k bound sent unpassed
  simp only [Sent, Passed, Endpoint.sentSteps, Endpoint.position, (fields _).1, (fields _).2.2.1] at sent unpassed
  rcases kept.kept other call k bound sent unpassed with ⟨held, member, found⟩ | flagged
  · exact Or.inl ⟨held, (unreadPerm other).mem_iff.mpr member, found⟩
  · exact Or.inr (by simpa only [(fields other).1, (fields other).2.1, (fields other).2.2.2] using flagged)

theorem step_kept (several : 2 ≤ size) (few : steps size ≤ maxSteps) (before after : State size)
    (action : Action size) (inv : Inv before) (kept : Kept before) (permitted : PollsOwnPhase before action)
    (taken : step before action = some after) : Kept after := by
  cases step_change before after action taken with
  | entered rank outside result => exact result ▸ entered_kept before kept several rank outside
  | injected rank k sending result => exact result ▸ injected_kept before kept rank k sending
  | polled rank entry rest endpoint turn _ queue calls phase pc cq arrived result =>
      have own : HeadInPhase (before.ranks rank) := by
        rcases turn with rfl | ⟨rfl, unset⟩
        · exact permitted
        · rcases permitted with ⟨k, waiting, flag⟩ | own
          · exact absurd flag (unset k waiting)
          · exact own
      exact result ▸ polled_kept before inv kept several few rank entry rest endpoint queue calls phase pc cq
        arrived (own entry (by simp [queue]))
  | passed rank k waiting arrived result => exact result ▸ passed_kept before inv kept rank k waiting
  | delivered rank index buffer posted message found result =>
      exact result ▸ delivered_kept before kept rank index buffer posted message found
  | unchanged result => exact result ▸ kept

theorem kept_arrivals (state : State size) (inv : Inv state) (kept : Kept state) : ArrivalKept state := by
  intro rank k inside before bound sent
  have unpassed : ¬ Passed (state.ranks rank) (state.ranks rank).calls k := by
    rintro (less | ⟨_, within⟩) <;> omega
  rcases kept.kept rank _ k bound sent unpassed with ⟨message, member, call, stepEq⟩ | ⟨_, flag⟩
  · obtain ⟨target, _, _, _⟩ := inv.origin rank message member
    rw [stepEq] at target
    exact Or.inl ⟨message, member, (peer_bwd_fwd rank message.source k bound target).symm, call, stepEq⟩
  · exact Or.inr flag

theorem arrival_kept_not_stranded (state : State size) (inv : Inv state) (kept : ArrivalKept state)
    (rank : Fin size) (k : Nat) : ¬ Stranded state rank k := by
  rintro ⟨drained, waiting, clear, sent⟩
  have here : (state.ranks rank).position = k := by simp [Endpoint.position, waiting]
  have bound : k < steps size := by simpa [here] using inv.inLoop rank (by simp [waiting])
  rcases kept rank k (by simp [waiting]) (by omega) bound sent with ⟨message, member, _⟩ | flag
  · simp [drained rank] at member
  · simp [clear] at flag

theorem arrivals_kept_when_polls_own_phase (several : 2 ≤ size) (few : steps size ≤ maxSteps) (state : State size)
    (reached : Reach step PollsOwnPhase (initial size) state) :
    ArrivalKept state ∧ ∀ rank k, ¬ Stranded state rank k := by
  have both : Inv state ∧ Kept state := by
    refine reach_invariant step PollsOwnPhase (fun state => Inv state ∧ Kept state) (initial size) state
      ⟨initial_inv size, initial_kept size⟩ ?_ reached
    intro before after action ⟨inv, kept⟩ permitted taken
    exact ⟨step_inv several few before after action inv taken,
      step_kept several few before after action inv kept permitted taken⟩
  have arrivals := kept_arrivals state both.1 both.2
  exact ⟨arrivals, arrival_kept_not_stranded state both.1 arrivals⟩

-- Rank 2 finishes its first call early; rank 0 takes rank 2's next message out of its
-- queue while still in the first call, and its second call wipes the flag.
def lostArrival : List (Action 3) :=
  [.enter 0, .enter 1, .enter 2, .inject 0, .inject 1, .inject 2, .deliver 1 0, .deliver 2 0, .deliver 0 0,
    .wait 0, .wait 0, .wait 1, .wait 1, .wait 2, .wait 2, .inject 0, .inject 1, .inject 2, .deliver 2 0,
    .wait 2, .wait 2, .enter 2, .inject 2, .deliver 0 1, .wait 0, .deliver 0 0, .wait 0, .wait 0, .enter 0,
    .inject 0, .deliver 1 0, .wait 1, .wait 1, .enter 1, .inject 1, .deliver 1 0, .wait 1, .wait 1, .inject 1,
    .deliver 2 0, .wait 2, .wait 2, .inject 2, .deliver 1 0, .wait 1, .wait 1, .deliver 0 0, .wait 0]

theorem arrival_lost : ∃ state : State 3, Reach step Fifo (initial 3) state ∧ ¬ ArrivalKept state ∧
    Stranded state 0 0 := by
  have ran : ∃ state, run (guarded step Fifo) (initial 3) lostArrival = some state ∧ Stranded state 0 0 := by
    refine ⟨(run (guarded step Fifo) (initial 3) lostArrival).get (by decide +kernel), by simp, ?_⟩
    unfold Stranded Sent
    decide +kernel
  obtain ⟨state, ran, stranded⟩ := ran
  have reached := reach_of_run step Fifo lostArrival (initial 3) state ran
  have inv := reach_inv (by decide) (by decide) Fifo state reached
  exact ⟨state, reached, fun kept => arrival_kept_not_stranded state inv kept 0 0 stranded, stranded⟩

instance (endpoint : Endpoint size) : Decidable (HeadInPhase endpoint) := by
  cases queue : endpoint.cq.head? with
  | none => exact isTrue (by simp [HeadInPhase, queue])
  | some entry =>
      exact decidable_of_iff ((entry.message.data >>> 8) &&& 0xFF = endpoint.phase) (by simp [HeadInPhase, queue])

def arrivedNow (endpoint : Endpoint size) : Bool :=
  match endpoint.pc with
  | .waiting k => endpoint.arrived endpoint.phase k
  | _ => false

theorem polls_own_phase_wait (state : State size) (rank : Fin size) :
    (arrivedNow (state.ranks rank) = true ∨ HeadInPhase (state.ranks rank)) ↔ PollsOwnPhase state (.wait rank) := by
  cases pc : (state.ranks rank).pc <;> simp [arrivedNow, PollsOwnPhase, pc]

instance (state : State size) : (action : Action size) → Decidable (PollsOwnPhase state action)
  | .retry rank => inferInstanceAs (Decidable (HeadInPhase (state.ranks rank)))
  | .wait rank => decidable_of_iff _ (polls_own_phase_wait state rank)
  | .enter _ | .inject _ | .deliver _ _ => isTrue trivial

theorem first_return_arrivals_kept : ∃ state : State 3, Reach step PollsOwnPhase (initial 3) state ∧
    1 ≤ (state.ranks 2).returned ∧ ArrivalKept state ∧ ∀ rank k, ¬ Stranded state rank k := by
  have ran : ∃ state, run (guarded step PollsOwnPhase) (initial 3) firstReturn = some state ∧
      1 ≤ (state.ranks 2).returned := by
    refine ⟨(run (guarded step PollsOwnPhase) (initial 3) firstReturn).get (by decide +kernel), by simp, ?_⟩
    decide +kernel
  obtain ⟨state, ran, returned⟩ := ran
  have reached := reach_of_run step PollsOwnPhase firstReturn (initial 3) state ran
  exact ⟨state, reached, returned, arrivals_kept_when_polls_own_phase (by decide) (by decide) state reached⟩

end OpenGda.HostBarrier
