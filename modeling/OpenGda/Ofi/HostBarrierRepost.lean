import OpenGda.Ofi.HostBarrierSafety

set_option autoImplicit false

namespace OpenGda.HostBarrier

open Dissemination Machine

variable {size : Nat}

def Endpoint.buffers (endpoint : Endpoint size) : List Nat :=
  endpoint.posted ++ endpoint.cq.map CqEntry.opContext ++
    (if endpoint.pc = .outside then [] else endpoint.pendingRepost)

-- `pendingRepost` is as long as num_pending, the index the next write would use.
structure RepostsInBounds (state : State size) : Prop where
  inBounds : ∀ rank, (state.ranks rank).pc ≠ .outside → (state.ranks rank).pendingRepost.length ≤ maxSteps
  reposted : ∀ rank, (state.ranks rank).pc = .outside →
    ((state.ranks rank).posted ++ (state.ranks rank).cq.map CqEntry.opContext).Perm (List.range recvPoolSize)

theorem loop_head_buffers (endpoint : Endpoint size) (k : Nat) (inside : endpoint.pc ≠ .outside) :
    (loopHead endpoint k).buffers.Perm endpoint.buffers := by
  by_cases more : k < steps size
  · simp [loopHead, more, Endpoint.buffers, inside]
  · simp only [loopHead, more, if_false, Endpoint.buffers, if_true, List.append_nil, inside, List.append_assoc]
    exact List.perm_append_comm.append_left _

theorem enter_barrier_buffers (endpoint : Endpoint size) (outside : endpoint.pc = .outside) :
    (enterBarrier endpoint).buffers.Perm endpoint.buffers := by
  by_cases alone : size = 1
  · simp [enterBarrier, alone, Endpoint.buffers]
  · by_cases more : 0 < steps size <;> simp [enterBarrier, alone, loopHead, more, Endpoint.buffers, outside]

theorem poll_cq_defer_buffers (endpoint : Endpoint size) (inside : endpoint.pc ≠ .outside) :
    (pollCqDefer endpoint).buffers.Perm endpoint.buffers := by
  cases queue : endpoint.cq with
  | nil => simp [pollCqDefer, queue]
  | cons entry rest =>
      simp only [pollCqDefer, queue, Endpoint.buffers, inside, if_false, List.map_cons, List.append_assoc]
      apply List.Perm.append_left
      rw [List.cons_append, ← List.append_assoc]
      exact List.perm_append_comm

theorem poll_cq_nodefer_buffers (endpoint : Endpoint size) : (pollCqNodefer endpoint).buffers.Perm endpoint.buffers := by
  cases queue : endpoint.cq with
  | nil => simp [pollCqNodefer, queue]
  | cons entry rest => simp [pollCqNodefer, queue, Endpoint.buffers]

theorem wait_step_buffers (endpoint : Endpoint size) (k : Nat) (inside : endpoint.pc ≠ .outside) :
    (waitStep endpoint k).buffers.Perm endpoint.buffers := by
  by_cases arrived : endpoint.arrived endpoint.phase k = true
  · simpa only [waitStep, if_pos arrived] using loop_head_buffers endpoint (k + 1) inside
  · simpa only [waitStep, if_neg arrived] using poll_cq_defer_buffers endpoint inside

theorem delivered_buffers (endpoint : Endpoint size) (buffer : Nat) (rest : List Nat) (message : Message size)
    (posted : endpoint.posted = buffer :: rest) :
    Endpoint.buffers { endpoint with posted := rest, cq := endpoint.cq ++ [⟨message, buffer⟩] } |>.Perm endpoint.buffers := by
  simp only [Endpoint.buffers, posted, List.map_append, List.map_cons, List.map_nil]
  apply List.Perm.append_right
  rw [← List.append_assoc]
  exact List.perm_append_singleton buffer _

def Buffers (state : State size) : Prop := ∀ rank, (state.ranks rank).buffers.Perm (List.range recvPoolSize)

theorem initial_buffers (size : Nat) : Buffers (initial size) := fun _ => by
  simp [initial, initialEndpoint, Endpoint.buffers]

theorem set_rank_buffers (state : State size) (rank : Fin size) (endpoint : Endpoint size) (net : Fin size → List (Message size))
    (buffers : Buffers state) (same : endpoint.buffers.Perm (state.ranks rank).buffers) :
    Buffers ⟨Function.update state.ranks rank endpoint, net⟩ := by
  intro other
  by_cases own : other = rank
  · subst own
    simpa only [Function.update_self] using same.trans (buffers other)
  · simpa only [Function.update_of_ne own] using buffers other

theorem step_buffers (before after : State size) (action : Action size) (buffers : Buffers before)
    (taken : step before action = some after) : Buffers after := by
  cases action with
  | enter rank =>
      cases pc : (before.ranks rank).pc with
      | outside =>
          simp only [step, pc, Option.some.injEq] at taken
          exact taken ▸ set_rank_buffers before rank _ before.net buffers (enter_barrier_buffers _ pc)
      | sending | waiting => simp [step, pc] at taken
  | inject rank =>
      cases pc : (before.ranks rank).pc with
      | sending k =>
          simp only [step, pc, Option.some.injEq] at taken
          exact taken ▸ set_rank_buffers before rank _ _ buffers (by simp [Endpoint.buffers, pc])
      | outside | waiting => simp [step, pc] at taken
  | retry rank =>
      cases pc : (before.ranks rank).pc with
      | sending k =>
          simp only [step, pc, Option.some.injEq] at taken
          exact taken ▸ set_rank_buffers before rank _ before.net buffers (poll_cq_nodefer_buffers _)
      | outside | waiting => simp [step, pc] at taken
  | wait rank =>
      cases pc : (before.ranks rank).pc with
      | waiting k =>
          simp only [step, pc, Option.some.injEq] at taken
          exact taken ▸ set_rank_buffers before rank _ before.net buffers (wait_step_buffers _ k (by simp [pc]))
      | outside | sending => simp [step, pc] at taken
  | deliver rank index =>
      cases found : (before.net rank)[index]? with
      | none => simp [step, found] at taken
      | some message =>
          cases posted : (before.ranks rank).posted with
          | nil => simp [step, found, posted] at taken
          | cons buffer rest =>
              simp only [step, found, posted, Option.some.injEq] at taken
              exact taken ▸ set_rank_buffers before rank _ _ buffers (delivered_buffers _ buffer rest message posted)

structure Taken (state : State size) (rank : Fin size) (taken : List (Nat × Nat)) : Prop where
  count : taken.length = (state.ranks rank).pendingRepost.length
  distinct : (taken ++ (unread state rank).map messageKey).Nodup
  sent : ∀ key ∈ taken, key.2 < steps size ∧ Sent (state.ranks (peerBwd rank key.2)) key.1 key.2 ∧
    (key.1 = (state.ranks rank).calls ∨ key.1 = (state.ranks rank).calls + 1)

theorem taken_bound (state : State size) (rank : Fin size) (taken : List (Nat × Nat)) (facts : Taken state rank taken) :
    (state.ranks rank).pendingRepost.length ≤ 2 * steps size := by
  let calls := (state.ranks rank).calls
  have inside : taken.toFinset ⊆ {calls, calls + 1} ×ˢ Finset.range (steps size) := by
    intro key member
    obtain ⟨bound, _, call⟩ := facts.sent key (List.mem_toFinset.mp member)
    simpa [calls] using ⟨call, bound⟩
  have card := Finset.card_le_card inside
  rw [List.toFinset_card_of_nodup (List.Nodup.of_append_left facts.distinct), facts.count, Finset.card_product,
    Finset.card_range, Finset.card_pair (Nat.ne_of_lt (Nat.lt_succ_self calls))] at card
  exact card

theorem taken_kept (before after : State size) (rank : Fin size) (taken : List (Nat × Nat)) (facts : Taken before rank taken)
    (inv : Inv after) (calls : (after.ranks rank).calls = (before.ranks rank).calls)
    (pending : (after.ranks rank).pendingRepost = (before.ranks rank).pendingRepost)
    (grows : ∀ other call k, Sent (before.ranks other) call k → Sent (after.ranks other) call k)
    (fresh : ∀ message ∈ unread after rank, message ∈ unread before rank ∨
      ¬ Sent (before.ranks (peerBwd rank message.step)) message.call message.step) :
    Taken after rank taken := by
  refine ⟨pending ▸ facts.count, ?_, ?_⟩
  · apply List.nodup_append.mpr
    refine ⟨List.Nodup.of_append_left facts.distinct, inv.distinct rank, ?_⟩
    intro key taken' other unread' same
    obtain ⟨message, member, rfl⟩ := List.mem_map.mp unread'
    rcases fresh message member with already | unsent
    · exact (List.nodup_append.mp facts.distinct).2.2 key taken' _ (List.mem_map.mpr ⟨message, already, rfl⟩) same
    · rw [same] at taken'
      exact unsent (facts.sent _ taken').2.1
  · intro key member
    obtain ⟨bound, sent, call⟩ := facts.sent key member
    exact ⟨bound, grows _ _ _ sent, calls ▸ call⟩

theorem taken_polled (before after : State size) (rank : Fin size) (entry : CqEntry size) (rest : List (CqEntry size))
    (taken : List (Nat × Nat)) (facts : Taken before rank taken) (inv : Inv before) (several : 2 ≤ size)
    (queue : (before.ranks rank).cq = entry :: rest) (left : (after.ranks rank).cq = rest)
    (net : after.net rank = before.net rank) (calls : (after.ranks rank).calls = (before.ranks rank).calls)
    (pending : (after.ranks rank).pendingRepost = (before.ranks rank).pendingRepost ++ [entry.opContext])
    (grows : ∀ other call k, Sent (before.ranks other) call k → Sent (after.ranks other) call k) :
    Taken after rank (taken ++ [messageKey entry.message]) := by
  have member : entry.message ∈ unread before rank := by simp [unread, queue]
  obtain ⟨target, bound, _, sent⟩ := inv.origin rank entry.message member
  refine ⟨by simp [pending, facts.count], ?_, ?_⟩
  · have whole := facts.distinct
    simp only [unread, queue, List.map_cons, List.map_append, List.cons_append] at whole
    simpa only [unread, left, net, List.append_assoc, List.singleton_append, List.map_append] using whole
  · intro key found
    rw [calls]
    rcases List.mem_append.mp found with earlier | last
    · obtain ⟨small, sentKey, call⟩ := facts.sent key earlier
      exact ⟨small, grows _ _ _ sentKey, call⟩
    · rw [List.mem_singleton.mp last]
      refine ⟨bound, grows _ _ _ ?_, unread_call before inv several rank entry.message member⟩
      exact (peer_bwd_fwd rank entry.message.source entry.message.step bound target).symm ▸ sent

def Counted (state : State size) : Prop :=
  ∀ rank, (state.ranks rank).pc ≠ .outside → ∃ taken, Taken state rank taken

theorem counted_kept (before after : State size) (counted : Counted before) (inv : Inv after)
    (started : ∀ rank, (after.ranks rank).pc ≠ .outside → (before.ranks rank).pc ≠ .outside)
    (calls : ∀ rank, (after.ranks rank).calls = (before.ranks rank).calls)
    (pending : ∀ rank, (after.ranks rank).pendingRepost = (before.ranks rank).pendingRepost)
    (grows : ∀ other call k, Sent (before.ranks other) call k → Sent (after.ranks other) call k)
    (fresh : ∀ rank, ∀ message ∈ unread after rank, message ∈ unread before rank ∨
      ¬ Sent (before.ranks (peerBwd rank message.step)) message.call message.step) : Counted after := by
  intro rank inside
  obtain ⟨taken, facts⟩ := counted rank (started rank inside)
  exact ⟨taken, taken_kept before after rank taken facts inv (calls rank) (pending rank) grows (fresh rank)⟩

theorem sent_set_rank (ranks : Fin size → Endpoint size) (rank : Fin size) (endpoint : Endpoint size)
    (grows : ∀ call k, Sent (ranks rank) call k → Sent endpoint call k) (other : Fin size) (call k : Nat)
    (sent : Sent (ranks other) call k) : Sent (Function.update ranks rank endpoint other) call k :=
  sent_update ranks rank other endpoint call k (grows call k) sent

theorem entered_counted (state : State size) (counted : Counted state) (inv : Inv state) (several : 2 ≤ size)
    (rank : Fin size) (outside : (state.ranks rank).pc = .outside) :
    Counted (setRank state rank (enterBarrier (state.ranks rank))) := by
  have invAfter := entered_inv state inv several rank outside
  obtain ⟨calls, _, _, _, cq⟩ := enter_barrier_fields (state.ranks rank) several
  have pending : (enterBarrier (state.ranks rank)).pendingRepost = [] := by
    simp [enterBarrier, loopHead, steps_positive size several, show size ≠ 1 by omega]
  intro other inside
  by_cases own : other = rank
  · subst own
    refine ⟨[], ?_, invAfter.distinct other, fun key member => absurd member List.not_mem_nil⟩
    simp [setRank, pending]
  · have same : (setRank state rank (enterBarrier (state.ranks rank))).ranks other = state.ranks other :=
      Function.update_of_ne own _ _
    obtain ⟨taken, facts⟩ := counted other (same ▸ inside)
    refine ⟨taken, taken_kept state _ other taken facts invAfter (by rw [same]) (by rw [same]) ?_ ?_⟩
    · apply sent_set_rank
      intro call k sent
      exact sent_later _ _ call k (by omega) sent
    · intro message member
      rw [unread, same] at member
      exact .inl member

theorem injected_counted (state : State size) (counted : Counted state) (inv : Inv state) (rank : Fin size) (k : Nat)
    (sending : (state.ranks rank).pc = .sending k) : Counted (injectStep state rank k) := by
  have change := inject_step_injected state rank k sending
  apply counted_kept state _ counted (injected_inv state inv rank k sending)
  · intro other inside
    rw [change.ranks] at inside
    split at inside <;> simp_all
  · exact change.calls
  · intro other
    rw [change.ranks]
    split <;> simp_all
  · exact change.sent
  · intro other message member
    rcases injected_cases change other message member with old | ⟨rfl, rfl⟩
    · exact .inl old
    · refine .inr ?_
      rw [stepMessage, peer_bwd_fwd (peerFwd rank k) rank k (sending_bound inv sending) rfl]
      simp [Sent, Endpoint.sentSteps, sending]

theorem moved_counted (state : State size) (counted : Counted state) (rank : Fin size) (endpoint : Endpoint size)
    (invAfter : Inv (setRank state rank endpoint)) (inside : (state.ranks rank).pc ≠ .outside)
    (calls : endpoint.calls = (state.ranks rank).calls) (sent : (state.ranks rank).sentSteps ≤ endpoint.sentSteps)
    (pending : endpoint.pendingRepost = (state.ranks rank).pendingRepost)
    (queue : ∀ entry ∈ endpoint.cq, entry ∈ (state.ranks rank).cq) : Counted (setRank state rank endpoint) := by
  apply counted_kept state _ counted invAfter
  · intro other still
    by_cases own : other = rank
    · exact own ▸ inside
    · simpa only [setRank, Function.update_of_ne own] using still
  · intro other
    by_cases own : other = rank
    · subst own
      simpa only [setRank, Function.update_self] using calls
    · simp only [setRank, Function.update_of_ne own]
  · intro other
    by_cases own : other = rank
    · subst own
      simpa only [setRank, Function.update_self] using pending
    · simp only [setRank, Function.update_of_ne own]
  · apply sent_set_rank
    intro call k
    exact sent_same_call _ _ call k calls sent
  · intro other message member
    by_cases own : other = rank
    · subst own
      simp only [unread, setRank, Function.update_self, List.mem_append, List.mem_map] at member ⊢
      rcases member with ⟨entry, found, same⟩ | flying
      · exact .inl (.inl ⟨entry, queue entry found, same⟩)
      · exact .inl (.inr flying)
    · simp only [unread, setRank, Function.update_of_ne own] at member
      exact .inl member

theorem polled_counted (state : State size) (counted : Counted state) (inv : Inv state) (several : 2 ≤ size)
    (rank : Fin size) (k : Nat) (waiting : (state.ranks rank).pc = .waiting k)
    (invAfter : Inv (setRank state rank (pollCqDefer (state.ranks rank)))) :
    Counted (setRank state rank (pollCqDefer (state.ranks rank))) := by
  have inside : (state.ranks rank).pc ≠ .outside := by simp [waiting]
  cases queue : (state.ranks rank).cq with
  | nil =>
      have same : pollCqDefer (state.ranks rank) = state.ranks rank := by simp [pollCqDefer, queue]
      rw [same] at invAfter ⊢
      exact moved_counted state counted rank _ invAfter inside rfl (Nat.le_refl _) rfl fun _ member => member
  | cons entry rest =>
      have polled : pollCqDefer (state.ranks rank) = { state.ranks rank with
          arrived := recordArrival (state.ranks rank).arrived entry.message.data
          pendingRepost := (state.ranks rank).pendingRepost ++ [entry.opContext]
          cq := rest } := by simp [pollCqDefer, queue]
      have grows : ∀ other call j, Sent (state.ranks other) call j →
          Sent ((setRank state rank (pollCqDefer (state.ranks rank))).ranks other) call j := by
        apply sent_set_rank
        intro call j
        exact sent_same_call _ _ call j (by rw [polled]) (by rw [polled]; exact Nat.le_refl _)
      intro other still
      by_cases own : other = rank
      · subst own
        obtain ⟨taken, facts⟩ := counted other inside
        refine ⟨_, taken_polled state _ other entry rest taken facts inv several queue ?_ rfl ?_ ?_ grows⟩
        · simp only [setRank, Function.update_self, polled]
        · simp only [setRank, Function.update_self, polled]
        · simp only [setRank, Function.update_self, polled]
      · have same : (setRank state rank (pollCqDefer (state.ranks rank))).ranks other = state.ranks other :=
          Function.update_of_ne own _ _
        obtain ⟨taken, facts⟩ := counted other (same ▸ still)
        refine ⟨taken, taken_kept state _ other taken facts invAfter (by rw [same]) (by rw [same]) grows ?_⟩
        intro message member
        rw [unread, same] at member
        exact .inl member

theorem delivered_counted (state : State size) (counted : Counted state) (rank : Fin size) (index buffer : Nat)
    (posted : List Nat) (message : Message size) (found : (state.net rank)[index]? = some message)
    (inv : Inv state) :
    Counted { ranks := Function.update state.ranks rank { state.ranks rank with
                posted := posted
                cq := (state.ranks rank).cq ++ [⟨message, buffer⟩] }
              net := Function.update state.net rank ((state.net rank).eraseIdx index) } := by
  have invAfter := delivered_inv state inv rank index buffer posted message found
  have unreadPerm := unread_delivered_perm state rank index buffer posted message found
  generalize stateEq : State.mk (Function.update state.ranks rank { state.ranks rank with
    posted := posted, cq := (state.ranks rank).cq ++ [⟨message, buffer⟩] })
    (Function.update state.net rank ((state.net rank).eraseIdx index)) = after at *
  have ranksEq : ∀ other, after.ranks other = if other = rank then { state.ranks rank with
      posted := posted, cq := (state.ranks rank).cq ++ [⟨message, buffer⟩] } else state.ranks other := by
    intro other
    simp only [← stateEq, Function.update_apply]
  have sameCall := update_same_call state.ranks after.ranks rank _ ranksEq rfl (Nat.le_refl _)
  apply counted_kept state after counted invAfter
  · intro other inside
    rw [ranksEq] at inside
    split at inside <;> simp_all
  · exact fun other => (sameCall other).1
  · intro other
    rw [ranksEq]
    split <;> simp_all
  · exact fun other => (sameCall other).2
  · intro other message' member
    exact .inl ((unreadPerm other).mem_iff.mp member)

theorem step_counted (several : 2 ≤ size) (few : steps size ≤ maxSteps) (before after : State size)
    (action : Action size) (inv : Inv before) (counted : Counted before) (taken : step before action = some after) :
    Counted after := by
  have invAfter := step_inv several few before after action inv taken
  cases action with
  | enter rank =>
      cases pc : (before.ranks rank).pc with
      | outside =>
          simp only [step, pc, Option.some.injEq] at taken
          exact taken ▸ entered_counted before counted inv several rank pc
      | sending | waiting => simp [step, pc] at taken
  | inject rank =>
      cases pc : (before.ranks rank).pc with
      | sending k =>
          simp only [step, pc, Option.some.injEq] at taken
          exact taken ▸ injected_counted before counted inv rank k pc
      | outside | waiting => simp [step, pc] at taken
  | retry rank =>
      cases pc : (before.ranks rank).pc with
      | sending k =>
          simp only [step, pc, Option.some.injEq] at taken
          rw [← taken] at invAfter ⊢
          apply moved_counted before counted rank _ invAfter (by simp [pc])
          all_goals cases queue : (before.ranks rank).cq <;> simp_all [pollCqNodefer, Endpoint.sentSteps]
      | outside | waiting => simp [step, pc] at taken
  | wait rank =>
      cases pc : (before.ranks rank).pc with
      | waiting k =>
          simp only [step, pc, Option.some.injEq] at taken
          rw [← taken] at invAfter ⊢
          by_cases arrived : (before.ranks rank).arrived (before.ranks rank).phase k = true
          · rw [waitStep, if_pos arrived] at invAfter ⊢
            have bound : k < steps size := by simpa [Endpoint.position, pc] using inv.inLoop rank (by simp [pc])
            obtain ⟨calls, _, _, cq, _, sent, _⟩ := loop_head_fields (before.ranks rank) k bound
            apply moved_counted before counted rank _ invAfter (by simp [pc]) calls
            · rw [sent]
              simp [Endpoint.sentSteps, pc]
            · by_cases more : k + 1 < steps size <;> simp [loopHead, more]
            · exact fun entry member => cq ▸ member
          · rw [waitStep, if_neg arrived] at invAfter ⊢
            exact polled_counted before counted inv several rank k pc invAfter
      | outside | sending => simp [step, pc] at taken
  | deliver rank index =>
      cases found : (before.net rank)[index]? with
      | none => simp [step, found] at taken
      | some message =>
          cases posted : (before.ranks rank).posted with
          | nil => simp [step, found, posted] at taken
          | cons buffer rest =>
              simp only [step, found, posted, Option.some.injEq] at taken
              exact taken ▸ delivered_counted before counted rank index buffer rest message found inv

theorem reach_deferred (several : 2 ≤ size) (few : steps size ≤ maxSteps) (state : State size)
    (reached : Reach step always (initial size) state) (rank : Fin size) (inside : (state.ranks rank).pc ≠ .outside) :
    (state.ranks rank).pendingRepost.length ≤ 2 * steps size := by
  have both : Inv state ∧ Counted state := by
    refine reach_invariant step always (fun state => Inv state ∧ Counted state) (initial size) state
      ⟨initial_inv size, fun _ inside => absurd rfl inside⟩ ?_ reached
    intro before after action ⟨inv, counted⟩ _ taken
    exact ⟨step_inv several few before after action inv taken, step_counted several few before after action inv counted taken⟩
  obtain ⟨taken, facts⟩ := both.2 rank inside
  exact taken_bound state rank taken facts

theorem reach_buffers (state : State size) (reached : Reach step always (initial size) state) : Buffers state :=
  reach_invariant step always Buffers (initial size) state (initial_buffers size)
    (fun before after action buffers _ taken => step_buffers before after action buffers taken) reached

theorem alone_outside (state : State 1) (reached : Reach step always (initial 1) state) (rank : Fin 1) :
    (state.ranks rank).pc = .outside := by
  refine reach_invariant step always (fun state => ∀ rank, (state.ranks rank).pc = .outside) (initial 1) state
    (fun _ => rfl) ?_ reached rank
  intro before after action outside _ taken rank
  cases step_change before after action taken with
  | entered other _ result =>
      rw [result, Subsingleton.elim other rank]
      simpa [setRank, enterBarrier] using outside rank
  | injected other k sending => simp [outside other] at sending
  | polled other _ _ _ _ inside => exact absurd (outside other) inside
  | passed other k waiting => simp [outside other] at waiting
  | delivered other index buffer posted message _ result =>
      rw [result, Subsingleton.elim other rank]
      simpa using outside rank
  | unchanged result => exact result ▸ outside rank

theorem few_ranks_in_bounds (few : steps size ≤ 10) (state : State size)
    (reached : Reach step always (initial size) state) : RepostsInBounds state := by
  have buffers := reach_buffers state reached
  refine ⟨fun rank inside => ?_, fun rank outside => ?_⟩
  · by_cases several : 2 ≤ size
    · have deferred := reach_deferred several (Nat.le_trans few (by decide)) state reached rank inside
      exact Nat.le_trans deferred (Nat.le_trans (Nat.mul_le_mul_left 2 few) (by decide))
    · obtain rfl : size = 1 := by
        have positive := rank.pos
        omega
      exact absurd (alone_outside state reached rank) inside
  · simpa only [Endpoint.buffers, outside, if_true, List.append_nil] using buffers rank

end OpenGda.HostBarrier
