import OpenGda.Mlx5.PersistentSignals

set_option autoImplicit false

-- The run in which a stray completion is taken for that of a later command.
namespace OpenGda.Persistent

open Machine OpenGda.Mlx5 PhaseRing

structure At (config : Config) (commands : List Command) (number : Nat) (state : State) : Prop where
  todo : state.todo = commands.drop number
  head : state.head = number
  tail : state.tail = number
  localTail : state.localTail = number
  pc : state.pc = .look
  served : Served config state
  numbers : ∀ posted ∈ state.posted, posted.number < number

structure Issued (config : Config) (commands : List Command) (number : Nat) (cmd : Command) (before after : State) :
    Prop where
  todo : after.todo = commands.drop (number + 1)
  head : after.head = number + 1
  localTail : after.localTail = number
  pc : after.pc = if cmd.awaited = true then .poll else .advance
  current : currentCommand config after = cmd
  posted : ∃ more, after.posted = before.posted ++ more ∧ (∀ posted ∈ more, posted.number = number) ∧
    more.countP Posted.signaled = (if cmd.type = cmdRdmaWrite ∧ cmd.signaled = true then 1 else 0) ∧
      more.length = if cmd.type = cmdRdmaWrite then 1 else 0
  completed : after.completed = before.completed
  cqes : after.cqes = before.cqes
  cqe : after.cqe = before.cqe
  cqConsIdx : after.cqConsIdx = before.cqConsIdx

theorem start_at (config : Config) (prodIdx : Nat) (opsPosted opsCompleted : Option Nat) (commands : List Command) :
    At config commands 0 (start prodIdx opsPosted opsCompleted commands) :=
  ⟨rfl, rfl, rfl, rfl, rfl, (start_inv config prodIdx opsPosted opsCompleted commands).served,
    fun posted member => by cases member⟩

theorem issue (config : Config) (commands : List Command) (number : Nat) (cmd : Command) (before : State)
    (there : At config commands number before) (found : commands[number]? = some cmd) (goes : cmd.type ≠ cmdExit) :
    ∃ after, Reach (step config) (Roomy config) before after ∧ Issued config commands number cmd before after := by
  obtain ⟨inside, rfl⟩ := List.getElem?_eq_some_iff.mp found
  have todo : before.todo = commands[number] :: commands.drop (number + 1) := by
    rw [there.todo, List.drop_eq_getElem_cons inside]
  let submitted : State := { before with
    todo := commands.drop (number + 1)
    commands := Function.update before.commands (number &&& (config.ringSize - 1)) commands[number]
    head := number + 1 }
  have free : number - before.tail < config.ringSize := by
    rw [there.tail, Nat.sub_self]
    exact Nat.two_pow_pos _
  have submits : step config before .submit = some submitted := by
    simp only [step, submit, todo, there.head, if_pos free, submitted]
  have current : ∀ pc, currentCommand config { submitted with pc := pc } = commands[number] := by
    intro pc
    simp only [currentCommand, submitted, there.localTail, Function.update_self]
  have looks : step config submitted .kernel = some { submitted with pc := .process } := by
    have more : before.localTail ≠ number + 1 := by
      rw [there.localTail]
      exact Nat.ne_of_lt (Nat.lt_succ_self _)
    simp only [step, kernel, submitted, there.pc, if_neg more]
  have begun : Reach (step config) (Roomy config) before { submitted with pc := .process } :=
    .step _ _ .kernel (.step _ _ .submit .start trivial submits) trivial looks
  by_cases writes : commands[number].type = cmdRdmaWrite
  · have processes : step config { submitted with pc := .process } .kernel = some { submitted with pc := .post } := by
      simp only [step, kernel, current, if_neg goes, if_pos writes]
    have posts : step config { submitted with pc := .post } .kernel =
        some (postWrite config { submitted with pc := .post } commands[number]) := by
      simp only [step, kernel, current]
    refine ⟨_, .step _ _ .kernel (.step _ _ .kernel begun trivial processes) trivial posts,
      ⟨rfl, rfl, there.localTail, ?_, current .post, ⟨[postedWqe config { submitted with pc := .post } commands[number]],
        post_posted config _ _, ?_, ?_, ?_⟩, rfl, rfl, rfl, rfl⟩⟩
    · simp only [postWrite, Command.awaited, writes, beq_self_eq_true, Bool.true_and, Bool.and_eq_true]
    · intro posted member
      rw [List.mem_singleton.mp member]
      exact there.localTail
    · simp only [List.countP_singleton, posted_signaled, writes, true_and]
    · rw [if_pos writes, List.length_singleton]
  · have processes : step config { submitted with pc := .process } .kernel = some { submitted with pc := .advance } := by
      simp only [step, kernel, current, if_neg goes, if_neg writes]
    refine ⟨_, .step _ _ .kernel begun trivial processes,
      ⟨rfl, rfl, there.localTail, ?_, current .advance, ⟨[], (List.append_nil _).symm, ?_, ?_, ?_⟩, rfl, rfl, rfl, rfl⟩⟩
    · simp only [Command.awaited, beq_eq_false_iff_ne.mpr writes, Bool.false_and, Bool.false_eq_true, if_false]
    · intro posted member
      cases member
    · rw [if_neg fun both => writes both.1, List.countP_nil]
    · rw [if_neg writes, List.length_nil]

theorem issued_served (config : Config) (commands : List Command) (number : Nat) (cmd : Command) (before after : State)
    (there : At config commands number before) (issued : Issued config commands number cmd before after) :
    Served config after ∧ ∀ posted ∈ after.posted, posted.number < number + 1 := by
  obtain ⟨more, same, numbered, _, _⟩ := issued.posted
  have served := there.served
  refine ⟨⟨?_, ?_, ?_, ?_, ?_⟩, ?_⟩
  · rw [issued.completed, same, List.length_append]
    exact Nat.le_add_right_of_le served.completed
  · rw [issued.cqes, issued.completed, same, List.take_append_of_le_length served.completed]
    exact served.cqes
  · rw [issued.cqe, issued.cqes]
    exact served.tracks
  · rw [issued.cqes, issued.cqConsIdx]
    exact served.consumed
  · rw [issued.cqes, issued.cqConsIdx]
    exact served.window
  · intro posted member
    rw [same] at member
    rcases List.mem_append.mp member with earlier | now
    · exact Nat.lt_succ_of_lt (there.numbers posted earlier)
    · rw [numbered posted now]
      exact Nat.lt_succ_self _

theorem finish (config : Config) (commands : List Command) (number : Nat) (state : State)
    (todo : state.todo = commands.drop (number + 1)) (head : state.head = number + 1) (localTail : state.localTail = number)
    (pc : state.pc = .advance) (served : Served config state)
    (numbers : ∀ posted ∈ state.posted, posted.number < number + 1) :
    ∃ after, Reach (step config) (Roomy config) state after ∧ At config commands (number + 1) after ∧
      after.posted.length = state.posted.length ∧ after.completed = state.completed ∧ after.cqes = state.cqes ∧
        after.cqConsIdx = state.cqConsIdx := by
  have advances : step config state .kernel =
      some { state with localTail := state.localTail + 1, tail := state.localTail + 1, pc := .look } := by
    simp only [step, kernel, pc]
  refine ⟨_, .step _ _ .kernel .start trivial advances, ⟨todo, head, ?_, ?_, rfl,
    ⟨served.completed, served.cqes, served.tracks, served.consumed, served.window⟩, numbers⟩, rfl, rfl, rfl, rfl⟩
  · rw [localTail]
  · rw [localTail]

def Clean (config : Config) (commands : List Command) (number : Nat) (state : State) : Prop :=
  At config commands number state ∧ state.completed = state.posted.length ∧ state.cqConsIdx = state.cqes

def Ahead (config : Config) (commands : List Command) (number : Nat) (state : State) : Prop :=
  At config commands number state ∧ state.cqConsIdx < state.cqes

structure Completes (config : Config) (last : Posted) (before after : State) : Prop where
  served : Served config after
  todo : after.todo = before.todo
  head : after.head = before.head
  localTail : after.localTail = before.localTail
  pc : after.pc = before.pc
  posted : after.posted = before.posted
  completed : after.completed = after.posted.length
  cqes : after.cqes = before.cqes + if last.signaled = true then 1 else 0
  cqConsIdx : after.cqConsIdx = before.cqConsIdx

theorem complete_last (config : Config) (state : State) (earlier : List Posted) (last : Posted)
    (served : Served config state) (ends : state.posted = earlier ++ [last]) (old : state.completed = earlier.length)
    (quiet : state.cqConsIdx = state.cqes) :
    ∃ after, Reach (step config) (Roomy config) state after ∧ Completes config last state after := by
  have found : state.posted[state.completed]? = some last := by rw [ends, old, List.getElem?_concat_length]
  have whole : state.completed + 1 = state.posted.length := by rw [old, ends, List.length_append, List.length_singleton]
  have roomy : Roomy config state .complete := by
    intro _ _ _
    rw [quiet]
    exact Nat.lt_add_of_pos_right (Nat.two_pow_pos _)
  cases taken : complete config state with
  | none =>
      simp only [complete, found] at taken
      split_ifs at taken
  | some after =>
      have after_served := complete_served config state after served roomy taken
      obtain ⟨posted, cqe, also, rfl⟩ := complete_cases config state after taken
      rw [found] at also
      cases also
      exact ⟨_, .step _ _ .complete .start roomy taken, after_served, rfl, rfl, rfl, rfl, rfl, whole, rfl, rfl⟩

theorem poll_and_signal (config : Config) (number : Nat) (state : State) (served : Served config state)
    (pc : state.pc = .poll) (localTail : state.localTail = number) (ready : state.cqConsIdx < state.cqes) :
    ∃ after, Reach (step config) (Roomy config) state after ∧ after.pc = .advance ∧ after.localTail = number ∧
      after.todo = state.todo ∧ after.head = state.head ∧ after.posted = state.posted ∧
        after.completed = state.completed ∧ after.cqes = state.cqes ∧ after.cqConsIdx = state.cqConsIdx + 1 ∧
          number ∈ after.signalled ∧ Served config after := by
  have polls : step config state .kernel = some { state with
      cqConsIdx := state.cqConsIdx + 1
      opsCompleted := state.opsCompleted.map (· + 1)
      pc := .signal } := by
    simp only [step, kernel, pc, poll_once config state served, if_pos ready, Option.map_some]
  refine ⟨_, .step _ _ .kernel (.step _ _ .kernel .start trivial polls) trivial rfl, rfl, localTail, rfl, rfl, rfl, rfl,
    rfl, rfl, ?_, ⟨served.completed, served.cqes, served.tracks, ready, ?_⟩⟩
  · rw [← localTail]
    exact List.mem_append_right _ (List.mem_singleton_self _)
  · exact Nat.le_trans served.window (Nat.add_le_add_right (Nat.le_succ _) _)

theorem clean_next (config : Config) (commands : List Command) (number : Nat) (cmd : Command) (before : State)
    (clean : Clean config commands number before) (found : commands[number]? = some cmd) (goes : cmd.type ≠ cmdExit)
    (not_stray : cmd.stray = false) :
    ∃ after, Reach (step config) (Roomy config) before after ∧ Clean config commands (number + 1) after := by
  obtain ⟨there, all, quiet⟩ := clean
  obtain ⟨issued, reached, facts⟩ := issue config commands number cmd before there found goes
  obtain ⟨served, numbers⟩ := issued_served config commands number cmd before issued there facts
  obtain ⟨more, posted, _, signaled, one⟩ := facts.posted
  have still : issued.cqConsIdx = issued.cqes := by rw [facts.cqConsIdx, facts.cqes, quiet]
  by_cases writes : cmd.type = cmdRdmaWrite
  · rw [if_pos writes] at one
    obtain ⟨last, rfl⟩ := List.length_eq_one_iff.mp one
    have flag : last.signaled = cmd.signaled := by
      simp only [List.countP_singleton, writes, true_and] at signaled
      cases mine : last.signaled <;> cases his : cmd.signaled <;> simp [mine, his] at signaled ⊢
    have old : issued.completed = before.posted.length := by rw [facts.completed, all]
    obtain ⟨done, completes, nic⟩ := complete_last config issued before.posted last served posted old still
    by_cases awaited : cmd.awaited = true
    · obtain ⟨_, cmd_signaled, _, _⟩ := awaited_kind cmd awaited
      have cqes : done.cqes = done.cqConsIdx + 1 := by
        rw [nic.cqes, nic.cqConsIdx, flag, if_pos cmd_signaled, still]
      have pc : done.pc = .poll := by rw [nic.pc, facts.pc, if_pos awaited]
      obtain ⟨signalled, polled, now, tail, todo, head, same, completed, cqes', cons, _, last_served⟩ :=
        poll_and_signal config number done nic.served pc (nic.localTail.trans facts.localTail) (cqes ▸ Nat.lt_succ_self _)
      obtain ⟨after, finishes, next, length, completed', cqes'', cons'⟩ := finish config commands number signalled
        (todo.trans (nic.todo.trans facts.todo)) (head.trans (nic.head.trans facts.head)) tail now last_served
        (by rwa [same, nic.posted])
      refine ⟨after, reach_trans _ _ _ _ _ reached (reach_trans _ _ _ _ _ completes (reach_trans _ _ _ _ _ polled finishes)),
        next, ?_, ?_⟩
      · rw [completed', completed, length, same]
        exact nic.completed
      · rw [cons', cons, cqes'', cqes', cqes]
    · -- A write that nobody asked a CQE for.
      have unsignaled : ¬ cmd.signaled = true := by
        intro flagged
        cases given : cmd.completion <;>
          simp [Command.awaited, Command.stray, writes, flagged, given] at awaited not_stray
      have pc : done.pc = .advance := by rw [nic.pc, facts.pc, if_neg awaited]
      obtain ⟨after, finishes, next, length, completed', cqes', cons'⟩ := finish config commands number done
        (nic.todo.trans facts.todo) (nic.head.trans facts.head) (nic.localTail.trans facts.localTail) pc nic.served
        (by rwa [nic.posted])
      refine ⟨after, reach_trans _ _ _ _ _ reached (reach_trans _ _ _ _ _ completes finishes), next, ?_, ?_⟩
      · rw [completed', length]
        exact nic.completed
      · rw [cons', cqes', nic.cqConsIdx, nic.cqes, flag, if_neg unsignaled, Nat.add_zero, still]
  · have not_awaited : ¬ cmd.awaited = true := fun awaited => writes (awaited_kind cmd awaited).1
    have pc : issued.pc = .advance := by rw [facts.pc, if_neg not_awaited]
    obtain ⟨after, finishes, next, length, completed', cqes', cons'⟩ := finish config commands number issued
      facts.todo facts.head facts.localTail pc served numbers
    rw [if_neg writes] at one
    rw [List.length_eq_zero_iff.mp one, List.append_nil] at posted
    refine ⟨after, reach_trans _ _ _ _ _ reached finishes, next, ?_, ?_⟩
    · rw [completed', length, facts.completed, all, posted]
    · rw [cons', cqes', still]

theorem stray_kind (cmd : Command) (stray : cmd.stray = true) :
    cmd.type = cmdRdmaWrite ∧ cmd.signaled = true ∧ ¬ cmd.awaited = true := by
  have kinds := stray
  simp only [Command.stray, Bool.and_eq_true, beq_iff_eq] at kinds
  refine ⟨kinds.1.1, kinds.1.2, fun awaited => ?_⟩
  rw [(awaited_kind cmd awaited).2.2.2] at stray
  cases stray

theorem stray_next (config : Config) (commands : List Command) (number : Nat) (cmd : Command) (before : State)
    (clean : Clean config commands number before) (found : commands[number]? = some cmd) (stray : cmd.stray = true) :
    ∃ after, Reach (step config) (Roomy config) before after ∧ Ahead config commands (number + 1) after := by
  obtain ⟨there, all, quiet⟩ := clean
  obtain ⟨writes, cmd_signaled, not_awaited⟩ := stray_kind cmd stray
  obtain ⟨issued, reached, facts⟩ := issue config commands number cmd before there found (by rw [writes]; decide)
  obtain ⟨served, numbers⟩ := issued_served config commands number cmd before issued there facts
  obtain ⟨more, posted, _, signaled, one⟩ := facts.posted
  rw [if_pos writes] at one
  obtain ⟨last, rfl⟩ := List.length_eq_one_iff.mp one
  have flag : last.signaled = true := by
    rw [if_pos ⟨writes, cmd_signaled⟩, List.countP_singleton] at signaled
    by_contra off
    rw [if_neg off] at signaled
    cases signaled
  obtain ⟨done, completes, nic⟩ := complete_last config issued before.posted last served posted
    (by rw [facts.completed, all]) (by rw [facts.cqConsIdx, facts.cqes, quiet])
  obtain ⟨after, finishes, next, _, _, cqes, cons⟩ := finish config commands number done (nic.todo.trans facts.todo)
    (nic.head.trans facts.head) (nic.localTail.trans facts.localTail) (by rw [nic.pc, facts.pc, if_neg not_awaited])
    nic.served (by rwa [nic.posted])
  refine ⟨after, reach_trans _ _ _ _ _ reached (reach_trans _ _ _ _ _ completes finishes), next, ?_⟩
  rw [cons, cqes, nic.cqConsIdx, nic.cqes, if_pos flag, facts.cqConsIdx, facts.cqes, quiet]
  exact Nat.lt_succ_self _

theorem ahead_next (config : Config) (commands : List Command) (number : Nat) (cmd : Command) (before : State)
    (ahead : Ahead config commands number before) (found : commands[number]? = some cmd) (goes : cmd.type ≠ cmdExit)
    (not_awaited : ¬ cmd.awaited = true) :
    ∃ after, Reach (step config) (Roomy config) before after ∧ Ahead config commands (number + 1) after := by
  obtain ⟨there, more⟩ := ahead
  obtain ⟨issued, reached, facts⟩ := issue config commands number cmd before there found goes
  obtain ⟨served, numbers⟩ := issued_served config commands number cmd before issued there facts
  obtain ⟨after, finishes, next, _, _, cqes, cons⟩ := finish config commands number issued facts.todo facts.head
    facts.localTail (by rw [facts.pc, if_neg not_awaited]) served numbers
  refine ⟨after, reach_trans _ _ _ _ _ reached finishes, next, ?_⟩
  rw [cons, cqes, facts.cqConsIdx, facts.cqes]
  exact more

theorem ahead_lies (config : Config) (commands : List Command) (number : Nat) (cmd : Command) (before : State)
    (ahead : Ahead config commands number before) (found : commands[number]? = some cmd) (awaited : cmd.awaited = true) :
    ∃ after, Reach (step config) (Roomy config) before after ∧ ¬ Honest after := by
  obtain ⟨there, more⟩ := ahead
  obtain ⟨writes, _⟩ := awaited_kind cmd awaited
  obtain ⟨issued, reached, facts⟩ := issue config commands number cmd before there found (by rw [writes]; decide)
  obtain ⟨served, _⟩ := issued_served config commands number cmd before issued there facts
  obtain ⟨after, signals, _, _, _, _, same, completed, _, _, signalled, _⟩ := poll_and_signal config number issued served
    (by rw [facts.pc, if_pos awaited]) facts.localTail (by rw [facts.cqConsIdx, facts.cqes]; exact more)
  refine ⟨after, reach_trans _ _ _ _ _ reached signals, ?_⟩
  intro honest
  obtain ⟨posted, member, number_same⟩ := honest number signalled
  obtain ⟨last, ends, _⟩ := facts.posted
  rw [same, completed, facts.completed, ends, List.take_append_of_le_length there.served.completed] at member
  exact absurd number_same (Nat.ne_of_lt (there.numbers posted (List.mem_of_mem_take member)))

theorem processed_commands (commands : List Command) (number : Nat) (cmd : Command)
    (found : (processed commands)[number]? = some cmd) : commands[number]? = some cmd ∧ cmd.type ≠ cmdExit := by
  obtain ⟨rest, whole⟩ := List.takeWhile_prefix (l := commands) fun cmd : Command => cmd.type != cmdExit
  have inside := (List.getElem?_eq_some_iff.mp found).1
  have goes := List.mem_takeWhile_imp (List.mem_of_getElem? found)
  refine ⟨?_, by simpa using goes⟩
  rw [← whole]
  exact (List.getElem?_append_left inside).trans found

theorem ahead_to (config : Config) (commands : List Command) (gap number : Nat) (state : State) (cmd : Command)
    (ahead : Ahead config commands number state) (found : (processed commands)[number + gap]? = some cmd)
    (awaited : cmd.awaited = true) : ∃ after, Reach (step config) (Roomy config) state after ∧ ¬ Honest after := by
  induction gap generalizing number state with
  | zero => exact ahead_lies config commands number cmd state ahead (processed_commands commands number cmd found).1 awaited
  | succ gap ih =>
      have inside : number < (processed commands).length := by
        have bound := (List.getElem?_eq_some_iff.mp found).1
        omega
      obtain ⟨there, goes⟩ := processed_commands commands number _ (List.getElem?_eq_getElem inside)
      by_cases now : (processed commands)[number].awaited = true
      · exact ahead_lies config commands number _ state ahead there now
      · obtain ⟨next, reached, still⟩ := ahead_next config commands number _ state ahead there goes now
        obtain ⟨after, later, lies⟩ := ih (number + 1) next still (by rwa [Nat.add_assoc, Nat.add_comm 1])
        exact ⟨after, reach_trans _ _ _ _ _ reached later, lies⟩

theorem clean_to (config : Config) (commands : List Command) (gap number place : Nat) (state : State)
    (first second : Command) (clean : Clean config commands number state)
    (found : (processed commands)[number + gap]? = some first) (stray : first.stray = true)
    (later : number + gap < place) (also : (processed commands)[place]? = some second) (awaited : second.awaited = true) :
    ∃ after, Reach (step config) (Roomy config) state after ∧ ¬ Honest after := by
  induction gap generalizing number state with
  | zero =>
      obtain ⟨there, _⟩ := processed_commands commands number first found
      obtain ⟨next, reached, ahead⟩ := stray_next config commands number first state clean there stray
      obtain ⟨more, rfl⟩ := Nat.exists_eq_add_of_le (show number + 1 ≤ place from later)
      obtain ⟨after, lying, lies⟩ := ahead_to config commands more (number + 1) next second ahead also awaited
      exact ⟨after, reach_trans _ _ _ _ _ reached lying, lies⟩
  | succ gap ih =>
      have inside : number < (processed commands).length := by
        have bound := (List.getElem?_eq_some_iff.mp found).1
        omega
      obtain ⟨there, goes⟩ := processed_commands commands number _ (List.getElem?_eq_getElem inside)
      cases now : (processed commands)[number].stray with
      | true =>
          obtain ⟨next, reached, ahead⟩ := stray_next config commands number _ state clean there now
          obtain ⟨more, rfl⟩ := Nat.exists_eq_add_of_le (show number + 1 ≤ place by omega)
          obtain ⟨after, lying, lies⟩ := ahead_to config commands more (number + 1) next second ahead also awaited
          exact ⟨after, reach_trans _ _ _ _ _ reached lying, lies⟩
      | false =>
          obtain ⟨next, reached, still⟩ := clean_next config commands number _ state clean there goes now
          obtain ⟨after, lying, lies⟩ := ih (number + 1) next still (by rwa [Nat.add_assoc, Nat.add_comm 1]) (by omega)
          exact ⟨after, reach_trans _ _ _ _ _ reached lying, lies⟩

theorem mixed_lies (config : Config) (prodIdx : Nat) (opsPosted opsCompleted : Option Nat) (commands : List Command)
    (mixed : ¬ Unmixed commands) : ∃ state,
      Reach (step config) (Roomy config) (start prodIdx opsPosted opsCompleted commands) state ∧ ¬ Honest state := by
  rw [Unmixed, List.pairwise_iff_getElem] at mixed
  push Not at mixed
  obtain ⟨first, second, inside, within, earlier, stray, awaited⟩ := mixed
  apply clean_to config commands first 0 second _ (processed commands)[first] (processed commands)[second]
    ⟨start_at config prodIdx opsPosted opsCompleted commands, rfl, rfl⟩ _ stray (by omega) _ awaited
  · rw [Nat.zero_add]
    exact List.getElem?_eq_getElem inside
  · exact List.getElem?_eq_getElem within

-- Whatever the host and the NIC do when, a completion is written only when the write of
-- its own command is complete: exactly if no awaited write comes after a stray one.
theorem signals_honest_iff (config : Config) (prodIdx : Nat) (opsPosted opsCompleted : Option Nat)
    (commands : List Command) : (∀ state,
      Reach (step config) (Roomy config) (start prodIdx opsPosted opsCompleted commands) state → Honest state) ↔
        Unmixed commands := by
  constructor
  · intro always_honest
    by_contra mixed
    obtain ⟨state, reached, lies⟩ := mixed_lies config prodIdx opsPosted opsCompleted commands mixed
    exact lies (always_honest state reached)
  · intro unmixed state reached
    exact (reachable_inv config prodIdx opsPosted opsCompleted commands unmixed state reached).counted.honest

structure Slots (config : Config) (prodIdx : Nat) (state : State) : Prop where
  prod : state.prodIdx % 2 ^ 16 = (prodIdx + state.posted.length) % 2 ^ 16
  wqes : ∀ index posted, state.posted[index]? = some posted → state.posted.length ≤ index + config.nwqes →
    state.wqeBuf ((prodIdx + index) % config.nwqes) = posted.wqe

theorem wqe_slot (config : Config) (index : Nat) : pGetWqe config (index &&& 0xFFFF) = index % config.nwqes := by
  have few : config.nwqes ∣ 2 ^ 16 := Nat.pow_dvd_pow 2 (Nat.le_of_lt config.fewWqes)
  rw [pGetWqe, and_ffff, Config.nwqes, slot_of_mask]
  exact Nat.mod_mod_of_dvd index few

theorem post_slots (config : Config) (prodIdx : Nat) (state : State) (cmd : Command) (slots : Slots config prodIdx state) :
    Slots config prodIdx (postWrite config state cmd) := by
  have few : config.nwqes ∣ 2 ^ 16 := Nat.pow_dvd_pow 2 (Nat.le_of_lt config.fewWqes)
  have prod := slots.prod
  have slot : pGetWqe config (state.prodIdx &&& 0xFFFF) = (prodIdx + state.posted.length) % config.nwqes := by
    rw [wqe_slot, ← Nat.mod_mod_of_dvd _ few, prod, Nat.mod_mod_of_dvd _ few]
  have buf : (postWrite config state cmd).wqeBuf = Function.update state.wqeBuf
      ((prodIdx + state.posted.length) % config.nwqes) (postedWqe config state cmd).wqe := by
    rw [← slot]
    rfl
  constructor
  · have next : (postWrite config state cmd).prodIdx = (state.prodIdx + 1) &&& 0xFFFF := rfl
    rw [next, and_ffff, post_posted, List.length_append, List.length_singleton]
    omega
  · intro index posted found near
    rw [post_posted] at found near
    rw [List.length_append, List.length_singleton] at near
    rw [buf]
    by_cases last : index = state.posted.length
    · rw [last, List.getElem?_concat_length, Option.some.injEq] at found
      rw [last, Function.update_self, found]
    · have inside : index < state.posted.length := by
        have bound := (List.getElem?_eq_some_iff.mp found).1
        rw [List.length_append, List.length_singleton] at bound
        omega
      rw [List.getElem?_append_left inside] at found
      rw [Function.update_of_ne (slots_distinct config.nwqes _ _ (by omega) (by omega))]
      exact slots.wqes index posted found (by omega)

theorem reachable_slots (config : Config) (prodIdx : Nat) (opsPosted opsCompleted : Option Nat) (commands : List Command)
    (state : State)
    (reached : Reach (step config) (Roomy config) (start prodIdx opsPosted opsCompleted commands) state) :
    Slots config prodIdx state := by
  apply reach_invariant (step config) (Roomy config) (Slots config prodIdx) _ state _ _ reached
  · exact ⟨rfl, fun index posted found => by simp [start] at found⟩
  · intro before after action slots _ taken
    cases action with
    | submit =>
        cases left : before.todo with
        | nil => simp [step, submit, left] at taken
        | cons cmd rest =>
            simp only [step, submit, left] at taken
            split_ifs at taken
            cases taken
            exact ⟨slots.prod, slots.wqes⟩
    | kernel =>
        cases pc : before.pc with
        | post =>
            simp only [step, kernel, pc, Option.some.injEq] at taken
            rw [← taken]
            exact post_slots config prodIdx before _ slots
        | poll =>
            simp only [step, kernel, pc, pPollCqOnce, Option.map_eq_some_iff] at taken
            obtain ⟨polled, found, rfl⟩ := taken
            split_ifs at found
            cases found
            exact ⟨slots.prod, slots.wqes⟩
        | look | process =>
            simp only [step, kernel, pc] at taken
            split_ifs at taken
            all_goals
              cases taken
              exact ⟨slots.prod, slots.wqes⟩
        | signal | advance =>
            simp only [step, kernel, pc] at taken
            cases taken
            exact ⟨slots.prod, slots.wqes⟩
        | exited => simp [step, kernel, pc] at taken
    | complete =>
        obtain ⟨posted, cqe, _, rfl⟩ := complete_cases config before after taken
        exact ⟨slots.prod, slots.wqes⟩

def smallConfig : Config := ⟨7, true, 2, 1, 1, by decide, by decide, by decide⟩

def writeCommand (flags : BitVec 32) (completion : Option Nat) : Command :=
  ⟨cmdRdmaWrite, flags, 0x1000, 1, 64, 0x2000, 2, completion, 99⟩

theorem stray_cqe_signals : ∃ state,
    Reach (step smallConfig) (Roomy smallConfig) (start 0 none none [writeCommand 1 none, writeCommand 1 (some 0)]) state ∧
      ¬ Honest state := by
  obtain ⟨state, reached, dishonest⟩ := reach_of_decided (step smallConfig) (Roomy smallConfig)
    [.submit, .submit, .kernel, .kernel, .kernel, .complete, .kernel, .kernel, .kernel, .kernel, .kernel, .kernel]
    (start 0 none none [writeCommand 1 none, writeCommand 1 (some 0)]) (fun state => ¬ Honest state) (by decide +kernel)
  exact ⟨state, reached, dishonest⟩

end OpenGda.Persistent
