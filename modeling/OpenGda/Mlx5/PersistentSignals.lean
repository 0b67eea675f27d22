import OpenGda.Mlx5.Persistent

set_option autoImplicit false

namespace OpenGda.Persistent

open Machine OpenGda.Mlx5 PhaseRing

theorem slot_of_mask (log index : Nat) : index &&& (2 ^ log - 1) = index % 2 ^ log :=
  Nat.and_two_pow_sub_one_eq_mod index log

theorem built_signaled (config : Config) (put : Put) (wqeIdx number : Nat) :
    (⟨number, pBuildWriteWqe config put wqeIdx⟩ : Posted).signaled = put.signaled := by
  have flag : ∀ signaled : Bool,
      ((if signaled then ctrlCqUpdate else 0) <<< 24 >>> 24 &&& ctrlCqUpdate != 0) = signaled := by decide
  exact flag put.signaled

structure Fed (config : Config) (commands : List Command) (state : State) : Prop where
  todo : state.todo = commands.drop state.head
  within : state.head ≤ commands.length
  slots : ∀ index, state.tail ≤ index → index < state.head →
    commands[index]? = some (state.commands (index % config.ringSize))
  room : state.head ≤ state.tail + config.ringSize
  tails : state.localTail = state.tail
  behind : state.tail ≤ state.head
  busy : state.pc ≠ .look → state.tail < state.head

structure Served (config : Config) (state : State) : Prop where
  completed : state.completed ≤ state.posted.length
  cqes : state.cqes = (state.posted.take state.completed).countP Posted.signaled
  tracks : Tracks state.cqe config.ncqes state.cqes
  consumed : state.cqConsIdx ≤ state.cqes
  window : state.cqes ≤ state.cqConsIdx + config.ncqes

def During (cmd : Command) : Pc → Prop
  | .post => cmd.type = cmdRdmaWrite
  | .poll => cmd.awaited = true
  | .signal => cmd.awaited = true
  | .advance => cmd.type ≠ cmdExit
  | _ => True

def due (cmd : Command) : Pc → Nat
  | .poll => 1
  | .advance => if cmd.stray = true then 1 else 0
  | _ => 0

structure Counted (config : Config) (commands : List Command) (state : State) : Prop where
  during : During (currentCommand config state) state.pc
  passed : ∀ cmd ∈ commands.take state.tail, cmd.type ≠ cmdExit
  count : state.posted.countP Posted.signaled =
    state.cqConsIdx + (commands.take state.tail).countP Command.stray + due (currentCommand config state) state.pc
  last : state.pc = .poll → ∃ earlier posted, state.posted = earlier ++ [posted] ∧ posted.number = state.localTail ∧
    posted.signaled = true
  done : state.pc = .signal → ∃ posted ∈ state.posted.take state.completed, posted.number = state.localTail
  honest : Honest state

structure Inv (config : Config) (commands : List Command) (state : State) : Prop where
  fed : Fed config commands state
  served : Served config state
  counted : Counted config commands state

theorem start_inv (config : Config) (prodIdx : Nat) (opsPosted opsCompleted : Option Nat) (commands : List Command) :
    Inv config commands (start prodIdx opsPosted opsCompleted commands) where
  fed := ⟨rfl, Nat.zero_le _, fun _ _ late => absurd late (Nat.not_lt_zero _), Nat.zero_le _, rfl, Nat.le_refl _,
    fun busy => absurd rfl busy⟩
  served := ⟨Nat.zero_le _, rfl, initial_tracks (fun _ => 0xFF) _ fun _ _ => rfl, Nat.le_refl _, Nat.zero_le _⟩
  counted := ⟨trivial, by simp [start], rfl, (fun polling => by cases polling), (fun signalling => by cases signalling),
    fun number member => by cases member⟩

theorem current_command (config : Config) (commands : List Command) (state : State) (fed : Fed config commands state)
    (busy : state.tail < state.head) : commands[state.tail]? = some (currentCommand config state) := by
  rw [currentCommand, fed.tails, Config.ringSize, slot_of_mask]
  exact fed.slots state.tail (Nat.le_refl _) busy

theorem poll_once (config : Config) (state : State) (served : Served config state) :
    pPollCqOnce config state =
      if state.cqConsIdx < state.cqes then
        some { state with cqConsIdx := state.cqConsIdx + 1, opsCompleted := state.opsCompleted.map (· + 1) }
      else none := by
  have ready := ready_iff state.cqe config.ncqes state.cqConsIdx state.cqes (Nat.two_pow_pos _) served.tracks
    served.consumed served.window
  simp only [pPollCqOnce, Nat.and_one_is_mod, Config.ncqes, slot_of_mask] at ready ⊢
  rw [if_congr ready rfl rfl]

theorem during_same (pc : Pc) (one two : Command) (same : pc ≠ .look → two = one) (during : During one pc) :
    During two pc := by
  by_cases looking : pc = .look
  · rw [looking]
    trivial
  · rwa [same looking]

theorem due_same (pc : Pc) (one two : Command) (same : pc ≠ .look → two = one) : due two pc = due one pc := by
  by_cases looking : pc = .look
  · rw [looking]
    rfl
  · rw [same looking]

theorem submit_inv (config : Config) (commands : List Command) (before after : State) (inv : Inv config commands before)
    (taken : submit config before = some after) : Inv config commands after := by
  obtain ⟨fed, served, counted⟩ := inv
  cases left : before.todo with
  | nil => simp [submit, left] at taken
  | cons cmd rest =>
      simp only [submit, left] at taken
      split_ifs at taken with free
      cases taken
      have there := fed.todo
      rw [left] at there
      have inside : before.head < commands.length := by
        by_contra past
        rw [List.drop_eq_nil_of_le (Nat.le_of_not_lt past)] at there
        cases there
      have next := List.drop_eq_getElem_cons inside
      rw [← there] at next
      obtain ⟨same, rest_same⟩ := List.cons.inj next
      have behind := fed.behind
      have room := fed.room
      have other : ∀ index, before.tail ≤ index → index < before.head →
          index % config.ringSize ≠ before.head % config.ringSize := by
        intro index late early
        exact slots_distinct config.ringSize index before.head early (by omega)
      have kept : before.pc ≠ .look → Function.update before.commands (before.head &&& (config.ringSize - 1)) cmd
          (before.localTail &&& (config.ringSize - 1)) = currentCommand config before := by
        intro busy
        rw [currentCommand, fed.tails]
        apply Function.update_of_ne
        rw [Config.ringSize, slot_of_mask, slot_of_mask]
        exact other before.tail (Nat.le_refl _) (fed.busy busy)
      refine ⟨⟨rest_same, inside, ?_, ?_, fed.tails, Nat.le_succ_of_le behind, fun busy => Nat.lt_succ_of_lt (fed.busy busy)⟩,
        ⟨served.completed, served.cqes, served.tracks, served.consumed, served.window⟩, ?_⟩
      · intro index late early
        simp only [Config.ringSize, slot_of_mask] at other ⊢
        rcases Nat.lt_succ_iff_lt_or_eq.mp early with before_it | rfl
        · rw [Function.update_of_ne (other index late before_it)]
          exact fed.slots index late before_it
        · rw [Function.update_self, List.getElem?_eq_getElem inside, same]
      · simp only
        omega
      · refine ⟨during_same _ _ _ kept counted.during, counted.passed, ?_, counted.last, counted.done, counted.honest⟩
        exact counted.count.trans (congrArg _ (due_same _ _ _ kept).symm)

theorem complete_cases (config : Config) (before after : State) (taken : complete config before = some after) :
    ∃ posted cqe, before.posted[before.completed]? = some posted ∧ after =
      { before with
        completed := before.completed + 1
        cqe := cqe
        cqes := before.cqes + if posted.signaled = true then 1 else 0 } := by
  cases found : before.posted[before.completed]? with
  | none => simp [complete, found] at taken
  | some posted =>
      simp only [complete, found] at taken
      split_ifs at taken with signaled
      · cases taken
        exact ⟨posted, _, rfl, by rw [if_pos signaled]⟩
      · cases taken
        exact ⟨posted, before.cqe, rfl, by simp only [if_neg signaled, Nat.add_zero]⟩

theorem complete_served (config : Config) (before after : State) (served : Served config before)
    (roomy : Roomy config before .complete) (taken : complete config before = some after) : Served config after := by
  cases found : before.posted[before.completed]? with
  | none => simp [complete, found] at taken
  | some posted =>
      have inside : before.completed < before.posted.length := (List.getElem?_eq_some_iff.mp found).1
      have taken_more : before.posted.take (before.completed + 1) = before.posted.take before.completed ++ [posted] := by
        rw [List.take_add_one, found, Option.toList_some]
      have window := served.window
      have consumed := served.consumed
      cases signaled : posted.signaled with
      | true =>
          have free := roomy posted found signaled
          simp only [complete, found, signaled, if_true, Option.some.injEq] at taken
          subst taken
          refine ⟨inside, ?_, push_tracks _ _ _ _ served.tracks (Nat.mod_mod _ _), Nat.le_succ_of_le consumed, free⟩
          simp only [taken_more, List.countP_append, List.countP_singleton, signaled, if_true, served.cqes]
      | false =>
          simp only [complete, found, signaled, Bool.false_eq_true, if_false, Option.some.injEq] at taken
          subst taken
          refine ⟨inside, ?_, served.tracks, consumed, window⟩
          simp only [taken_more, List.countP_append, List.countP_singleton, signaled, Bool.false_eq_true, if_false,
            Nat.add_zero, served.cqes]

theorem complete_inv (config : Config) (commands : List Command) (before after : State)
    (inv : Inv config commands before) (roomy : Roomy config before .complete)
    (taken : complete config before = some after) : Inv config commands after := by
  have served := complete_served config before after inv.served roomy taken
  obtain ⟨posted, cqe, found, rfl⟩ := complete_cases config before after taken
  have more : ∀ other ∈ before.posted.take before.completed, other ∈ before.posted.take (before.completed + 1) := by
    intro other member
    rw [List.take_add_one]
    exact List.mem_append_left _ member
  have fed := inv.fed
  have counted := inv.counted
  refine ⟨⟨fed.todo, fed.within, fed.slots, fed.room, fed.tails, fed.behind, fed.busy⟩, served,
    ⟨counted.during, counted.passed, counted.count, counted.last, ?_, ?_⟩⟩
  · intro signalling
    obtain ⟨other, earlier, same⟩ := counted.done signalling
    exact ⟨other, more other earlier, same⟩
  · intro number member
    obtain ⟨other, earlier, same⟩ := counted.honest number member
    exact ⟨other, more other earlier, same⟩

theorem last_completed (posted earlier : List Posted) (last : Posted) (completed : Nat)
    (ends : posted = earlier ++ [last]) (signaled : last.signaled = true) (within : completed ≤ posted.length)
    (all : posted.countP Posted.signaled ≤ (posted.take completed).countP Posted.signaled) :
    last ∈ posted.take completed := by
  by_cases whole : completed = posted.length
  · rw [whole, List.take_length, ends]
    exact List.mem_append_right _ (List.mem_singleton_self _)
  · have short : completed ≤ earlier.length := by
      rw [ends, List.length_append, List.length_singleton] at within whole
      omega
    rw [ends, List.take_append_of_le_length short, List.countP_append, List.countP_singleton, if_pos signaled] at all
    have few : (earlier.take completed).countP Posted.signaled ≤ earlier.countP Posted.signaled :=
      (List.take_sublist completed earlier).countP_le
    omega

theorem stray_free (commands : List Command) (unmixed : Unmixed commands) (number : Nat) (cmd : Command)
    (found : commands[number]? = some cmd) (awaited : cmd.awaited = true)
    (passed : ∀ earlier ∈ commands.take number, earlier.type ≠ cmdExit) :
    (commands.take number).countP Command.stray = 0 := by
  have inside : number < commands.length := (List.getElem?_eq_some_iff.mp found).1
  have write : cmd.type ≠ cmdExit := by
    have kind : cmd.type = cmdRdmaWrite := by
      simp only [Command.awaited, Bool.and_eq_true, beq_iff_eq] at awaited
      exact awaited.1.1
    rw [kind]
    decide
  have split : commands = commands.take number ++ cmd :: commands.drop (number + 1) := by
    have rest := List.drop_eq_getElem_cons inside
    rw [List.getElem?_eq_getElem inside, Option.some.injEq] at found
    rw [← found, ← rest, List.take_append_drop]
  have early : processed commands = commands.take number ++ processed (cmd :: commands.drop (number + 1)) := by
    conv_lhs => rw [split]
    exact List.takeWhile_append_of_pos fun earlier member => by simpa using passed earlier member
  have later : cmd ∈ processed (cmd :: commands.drop (number + 1)) := by
    rw [processed, List.takeWhile_cons_of_pos (by simpa using write)]
    exact List.mem_cons_self
  rw [Unmixed, early, List.pairwise_append] at unmixed
  rw [List.countP_eq_zero]
  intro earlier member stray
  exact unmixed.2.2 earlier member cmd later ⟨stray, awaited⟩

theorem awaited_kind (cmd : Command) (awaited : cmd.awaited = true) :
    cmd.type = cmdRdmaWrite ∧ cmd.signaled = true ∧ cmd.completion.isSome = true ∧ cmd.stray = false := by
  simp only [Command.awaited, Bool.and_eq_true, beq_iff_eq] at awaited
  obtain ⟨⟨kind, signaled⟩, some_completion⟩ := awaited
  refine ⟨kind, signaled, some_completion, ?_⟩
  rw [Command.stray, Option.isNone_eq_false_iff.mpr some_completion, Bool.and_false]

def postedWqe (config : Config) (state : State) (cmd : Command) : Posted :=
  ⟨state.localTail, pBuildWriteWqe config cmd.put (state.prodIdx &&& 0xFFFF)⟩

theorem post_posted (config : Config) (state : State) (cmd : Command) :
    (postWrite config state cmd).posted = state.posted ++ [postedWqe config state cmd] := rfl

theorem posted_signaled (config : Config) (state : State) (cmd : Command) :
    (postedWqe config state cmd).signaled = cmd.signaled := built_signaled config cmd.put _ _

theorem post_inv (config : Config) (commands : List Command) (before : State) (inv : Inv config commands before)
    (posting : before.pc = .post) : Inv config commands (postWrite config before (currentCommand config before)) := by
  obtain ⟨fed, served, counted⟩ := inv
  have during := counted.during
  have count := counted.count
  rw [posting] at during count
  have busy := fed.busy (by simp [posting])
  have kept : (postWrite config before (currentCommand config before)).posted.take before.completed =
      before.posted.take before.completed := by
    rw [post_posted, List.take_append_of_le_length served.completed]
  have counts : (postWrite config before (currentCommand config before)).posted.countP Posted.signaled =
      before.posted.countP Posted.signaled + if (currentCommand config before).signaled = true then 1 else 0 := by
    rw [post_posted, List.countP_append, List.countP_singleton, posted_signaled]
  refine ⟨⟨fed.todo, fed.within, fed.slots, fed.room, fed.tails, fed.behind, fun _ => busy⟩,
    ⟨?_, ?_, served.tracks, served.consumed, served.window⟩, ?_⟩
  · rw [post_posted, List.length_append]
    exact Nat.le_succ_of_le served.completed
  · exact served.cqes.trans (congrArg (List.countP Posted.signaled) kept.symm)
  · have honest : Honest (postWrite config before (currentCommand config before)) := by
      intro number member
      obtain ⟨posted, earlier, same⟩ := counted.honest number member
      exact ⟨posted, kept.symm ▸ earlier, same⟩
    by_cases waits : (currentCommand config before).signaled = true ∧
        (currentCommand config before).completion.isSome = true
    · have pc : (postWrite config before (currentCommand config before)).pc = .poll := if_pos waits
      have awaited : (currentCommand config before).awaited = true := by
        simp only [Command.awaited, show (currentCommand config before).type = cmdRdmaWrite from during, waits.1, waits.2,
          beq_self_eq_true, Bool.and_self]
      refine ⟨?_, counted.passed, ?_, fun _ => ⟨before.posted, _, post_posted config before _, rfl, ?_⟩, ?_,
        honest⟩
      · rw [pc]
        exact awaited
      · rw [pc, counts, count, if_pos waits.1]
        rfl
      · rw [posted_signaled]
        exact waits.1
      · rw [pc]
        intro signalling
        cases signalling
    · have pc : (postWrite config before (currentCommand config before)).pc = .advance := if_neg waits
      refine ⟨?_, counted.passed, ?_, ?_, ?_, honest⟩
      · rw [pc]
        show (currentCommand config before).type ≠ cmdExit
        rw [show (currentCommand config before).type = cmdRdmaWrite from during]
        decide
      · rw [pc]
        have stray : (currentCommand config before).stray = (currentCommand config before).signaled := by
          rw [Command.stray, show (currentCommand config before).type = cmdRdmaWrite from during, beq_self_eq_true,
            Bool.true_and]
          cases flagged : (currentCommand config before).signaled with
          | false => rfl
          | true =>
              have none : ¬ (currentCommand config before).completion.isSome = true := fun given => waits ⟨flagged, given⟩
              rw [Bool.true_and, Option.isNone_iff_eq_none, ← Option.not_isSome_iff_eq_none]
              exact none
        have same : due (currentCommand config (postWrite config before (currentCommand config before))) .advance =
            if (currentCommand config before).stray = true then 1 else 0 := rfl
        rw [same, stray, counts, count]
        rfl
      · rw [pc]
        intro polling
        cases polling
      · rw [pc]
        intro signalling
        cases signalling

theorem poll_inv (config : Config) (commands : List Command) (unmixed : Unmixed commands) (before polled : State)
    (inv : Inv config commands before) (polling : before.pc = .poll) (taken : pPollCqOnce config before = some polled) :
    Inv config commands { polled with pc := .signal } := by
  obtain ⟨fed, served, counted⟩ := inv
  have during := counted.during
  have count := counted.count
  rw [polling] at during count
  have busy := fed.busy (by simp [polling])
  rw [poll_once config before served] at taken
  split_ifs at taken with ready
  cases taken
  obtain ⟨earlier, last, ends, number, signaled⟩ := counted.last polling
  have none_stray := stray_free commands unmixed before.tail _ (current_command config commands before fed busy) during
    counted.passed
  have all : before.posted.countP Posted.signaled ≤ (before.posted.take before.completed).countP Posted.signaled := by
    rw [count, none_stray, ← served.cqes]
    exact ready
  refine ⟨⟨fed.todo, fed.within, fed.slots, fed.room, fed.tails, fed.behind, fun _ => busy⟩,
    ⟨served.completed, served.cqes, served.tracks, ready, ?_⟩,
    ⟨during, counted.passed, ?_, (fun polling => by cases polling), fun _ => ⟨last, ?_, number⟩, counted.honest⟩⟩
  · exact Nat.le_trans served.window (Nat.add_le_add_right (Nat.le_succ _) _)
  · simp only [due, Nat.add_zero] at count ⊢
    rw [count]
    omega
  · exact last_completed before.posted earlier last before.completed ends signaled served.completed all

theorem signal_inv (config : Config) (commands : List Command) (before : State) (inv : Inv config commands before)
    (signalling : before.pc = .signal) (memory : Nat → BitVec 64) : Inv config commands
      { before with memory := memory, signalled := before.signalled ++ [before.localTail], pc := .advance } := by
  obtain ⟨fed, served, counted⟩ := inv
  have during := counted.during
  have count := counted.count
  rw [signalling] at during count
  obtain ⟨kind, _, _, not_stray⟩ := awaited_kind _ during
  refine ⟨⟨fed.todo, fed.within, fed.slots, fed.room, fed.tails, fed.behind, fun _ => fed.busy (by simp [signalling])⟩,
    ⟨served.completed, served.cqes, served.tracks, served.consumed, served.window⟩,
    ⟨?_, counted.passed, ?_, (fun polling => by cases polling), (fun signalling => by cases signalling), ?_⟩⟩
  · show (currentCommand config before).type ≠ cmdExit
    rw [kind]
    decide
  · have same : due (currentCommand config before) .advance = 0 := by rw [due, not_stray, if_neg (by decide)]
    exact count.trans (congrArg _ same.symm)
  · intro number member
    rcases List.mem_append.mp member with earlier | now
    · exact counted.honest number earlier
    · rw [List.mem_singleton.mp now]
      exact counted.done signalling

theorem advance_inv (config : Config) (commands : List Command) (before : State) (inv : Inv config commands before)
    (advancing : before.pc = .advance) : Inv config commands
      { before with localTail := before.localTail + 1, tail := before.localTail + 1, pc := .look } := by
  obtain ⟨fed, served, counted⟩ := inv
  have during := counted.during
  have count := counted.count
  rw [advancing] at during count
  have busy := fed.busy (by simp [advancing])
  have current := current_command config commands before fed busy
  have taken_more : commands.take (before.tail + 1) = commands.take before.tail ++ [currentCommand config before] := by
    rw [List.take_add_one, current, Option.toList_some]
  have room := fed.room
  refine ⟨⟨fed.todo, fed.within, ?_, ?_, rfl, ?_, fun busy => absurd rfl busy⟩,
    ⟨served.completed, served.cqes, served.tracks, served.consumed, served.window⟩,
    ⟨trivial, ?_, ?_, (fun polling => by cases polling), (fun signalling => by cases signalling), counted.honest⟩⟩
  · intro index late early
    rw [fed.tails] at late
    exact fed.slots index (Nat.le_of_succ_le late) early
  · simp only [fed.tails]
    omega
  · simp only [fed.tails]
    exact busy
  · intro cmd member
    simp only [fed.tails, taken_more] at member
    rcases List.mem_append.mp member with earlier | now
    · exact counted.passed cmd earlier
    · rw [List.mem_singleton.mp now]
      exact during
  · simp only [fed.tails, taken_more, List.countP_append, List.countP_singleton, due, Nat.add_zero] at count ⊢
    rw [count, Nat.add_assoc]

theorem kernel_inv (config : Config) (commands : List Command) (unmixed : Unmixed commands) (before after : State)
    (inv : Inv config commands before) (taken : kernel config before = some after) : Inv config commands after := by
  have fed := inv.fed
  have served := inv.served
  have counted := inv.counted
  have during := counted.during
  have count := counted.count
  cases pc : before.pc with
  | look =>
      simp only [kernel, pc] at taken
      split_ifs at taken with idle
      cases taken
      have behind := fed.behind
      have busy : before.tail < before.head := by
        rw [fed.tails] at idle
        omega
      rw [pc] at count
      exact ⟨⟨fed.todo, fed.within, fed.slots, fed.room, fed.tails, behind, fun _ => busy⟩,
        ⟨served.completed, served.cqes, served.tracks, served.consumed, served.window⟩,
        ⟨trivial, counted.passed, count, (fun polling => by cases polling), (fun signalling => by cases signalling),
          counted.honest⟩⟩
  | process =>
      have busy := fed.busy (by simp [pc])
      rw [pc] at count
      have still : ∀ next : Pc, (During (currentCommand config before) next) → due (currentCommand config before) next = 0 →
          next ≠ .poll → next ≠ .signal → Inv config commands { before with pc := next } := by
        intro next during none not_poll not_signal
        exact ⟨⟨fed.todo, fed.within, fed.slots, fed.room, fed.tails, fed.behind, fun _ => busy⟩,
          ⟨served.completed, served.cqes, served.tracks, served.consumed, served.window⟩,
          ⟨during, counted.passed, count.trans (congrArg _ none.symm), (fun polling => absurd polling not_poll),
            (fun signalling => absurd signalling not_signal), counted.honest⟩⟩
      simp only [kernel, pc] at taken
      split_ifs at taken with exits writes
      · cases taken
        exact still .exited trivial rfl (by decide) (by decide)
      · cases taken
        exact still .post writes rfl (by decide) (by decide)
      · cases taken
        have not_stray : (currentCommand config before).stray = false := by
          rw [Command.stray, beq_eq_false_iff_ne.mpr writes, Bool.false_and, Bool.false_and]
        exact still .advance exits (by rw [due, not_stray, if_neg (by decide)]) (by decide) (by decide)
  | post =>
      simp only [kernel, pc, Option.some.injEq] at taken
      rw [← taken]
      exact post_inv config commands before inv pc
  | poll =>
      simp only [kernel, pc, Option.map_eq_some_iff] at taken
      obtain ⟨polled, found, rfl⟩ := taken
      exact poll_inv config commands unmixed before polled inv pc found
  | signal =>
      simp only [kernel, pc, Option.some.injEq] at taken
      rw [← taken]
      exact signal_inv config commands before inv pc _
  | advance =>
      simp only [kernel, pc, Option.some.injEq] at taken
      rw [← taken]
      exact advance_inv config commands before inv pc
  | exited =>
      simp only [kernel, pc] at taken
      cases taken

theorem reachable_inv (config : Config) (prodIdx : Nat) (opsPosted opsCompleted : Option Nat) (commands : List Command)
    (unmixed : Unmixed commands) (state : State)
    (reached : Reach (step config) (Roomy config) (start prodIdx opsPosted opsCompleted commands) state) :
    Inv config commands state := by
  apply reach_invariant (step config) (Roomy config) (Inv config commands) _ state
    (start_inv config prodIdx opsPosted opsCompleted commands) _ reached
  intro before after action inv roomy taken
  cases action with
  | submit => exact submit_inv config commands before after inv taken
  | kernel => exact kernel_inv config commands unmixed before after inv taken
  | complete => exact complete_inv config commands before after inv roomy taken

end OpenGda.Persistent
