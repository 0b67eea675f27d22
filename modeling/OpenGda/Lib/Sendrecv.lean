import OpenGda.Lib.Exchanges

set_option autoImplicit false

-- Parties that run programs of blocking exchanges: a sendrecv posts its message at once
-- and returns when the peer has posted one to it. What such a program does apart from
-- that is what its orders of peers decide.
namespace Sendrecv

open Machine

variable {Party Payload Result : Type}

inductive Prog (Party Payload Result : Type) where
  | done (result : Result)
  | exit (error : String)
  | sendrecv (data : Payload) (peer : Party) (next : Payload → Prog Party Payload Result)

def Prog.bind {Next : Type} (prog : Prog Party Payload Result) (rest : Result → Prog Party Payload Next) :
    Prog Party Payload Next :=
  match prog with
  | .done result => rest result
  | .exit error => .exit error
  | .sendrecv data peer next => .sendrecv data peer fun reply => (next reply).bind rest

instance : Monad (Prog Party Payload) where
  pure := .done
  bind := Prog.bind

@[simp] theorem pure_eq (result : Result) : (pure result : Prog Party Payload Result) = .done result := rfl

@[simp] theorem bind_eq {Next : Type} (prog : Prog Party Payload Result)
    (rest : Result → Prog Party Payload Next) : prog >>= rest = prog.bind rest := rfl

theorem bind_done (prog : Prog Party Payload Result) : prog.bind .done = prog := by
  induction prog with
  | done result => rfl
  | exit error => rfl
  | sendrecv data peer next ih => exact congrArg (Prog.sendrecv data peer) (funext ih)

def Prog.waits : Prog Party Payload Result → Bool
  | .sendrecv _ _ _ => true
  | _ => false

structure State (Party Payload Result : Type) where
  progs : Party → Prog Party Payload Result
  posted : Party → Bool
  messages : Party → Party → List Payload

def start (progs : Party → Prog Party Payload Result) : State Party Payload Result :=
  ⟨progs, fun _ => false, fun _ _ => []⟩

def Follows (offer : Party → Payload) : Prog Party Payload Result → List Party → Prop
  | .done _, [] => True
  | .sendrecv data peer next, other :: rest =>
      other = peer ∧ data = offer peer ∧ ∀ reply, Follows offer (next reply) rest
  | _, _ => False

def Prog.accept (prog : Prog Party Payload Result) : Option Payload → Prog Party Payload Result
  | none => prog
  | some reply =>
      match prog with
      | .sendrecv _ _ next => next reply
      | other => other

def Prog.fed (prog : Prog Party Payload Result) (replies : List (Option Payload)) : Prog Party Payload Result :=
  replies.foldl Prog.accept prog

theorem follows_fed (offer : Party → Payload) (prog : Prog Party Payload Result) (peers : List Party)
    (replies : List (Option Payload)) (follows : Follows offer prog peers) (within : replies.length ≤ peers.length)
    (given : ∀ reply ∈ replies, ∃ payload, reply = some payload) :
    Follows offer (prog.fed replies) (peers.drop replies.length) := by
  induction replies generalizing prog peers with
  | nil => exact follows
  | cons reply rest ih =>
      obtain ⟨payload, rfl⟩ := given reply List.mem_cons_self
      cases peers with
      | nil => simp at within
      | cons peer others =>
          cases prog with
          | done | exit => exact absurd follows id
          | sendrecv data other next =>
              obtain ⟨_, _, later⟩ := follows
              exact ih (next payload) others (later payload) (Nat.le_of_succ_le_succ within)
                fun reply member => given reply (List.mem_cons_of_mem _ member)

theorem fed_concat (prog : Prog Party Payload Result) (replies : List (Option Payload)) (reply : Option Payload) :
    prog.fed (replies ++ [reply]) = (prog.fed replies).accept reply := List.foldl_concat _ _ _ _

variable [DecidableEq Party]

def State.setMessages (state : State Party Payload Result) (src dst : Party) (queue : List Payload) :
    State Party Payload Result :=
  { state with messages := fun src' dst' => if src' = src ∧ dst' = dst then queue else state.messages src' dst' }

def step (state : State Party Payload Result) (party : Party) : Option (State Party Payload Result) :=
  match state.progs party with
  | .done _ | .exit _ => none
  | .sendrecv data peer next =>
      if state.posted party then
        match state.messages peer party with
        | [] => none
        | reply :: more =>
            some { state.setMessages peer party more with
              progs := Function.update state.progs party (next reply)
              posted := Function.update state.posted party false }
      else
        some { state.setMessages party peer (state.messages party peer ++ [data]) with
          posted := Function.update state.posted party true }

def Blocked (state : State Party Payload Result) (party : Party) : Prop := (state.progs party).waits = true

instance (state : State Party Payload Result) (party : Party) : Decidable (Blocked state party) :=
  inferInstanceAs (Decidable (_ = true))

def Deadlocked (state : State Party Payload Result) : Prop := Stuck step state ∧ ∃ party, Blocked state party

structure Completes (start : State Party Payload Result) (results : Party → Result) : Prop where
  ends : ∃ bound, ∀ actions state, run step start actions = some state → actions.length ≤ bound
  free : ∀ state, Reach step always start state → ¬ Deadlocked state
  results : ∀ state, Reach step always start state → Stuck step state → ∀ party, state.progs party = .done (results party)

variable (progs : Party → Prog Party Payload Result) (peers : Party → List Party) (offer : Party → Party → Payload)

def image (state : Channels.State Party Unit Payload) : State Party Payload Result :=
  ⟨fun party => (progs party).fed (state.replies party), state.entered, fun src dst => state.channels src dst ()⟩

theorem image_follows (follows : ∀ party, Follows (offer party) (progs party) (peers party))
    (state : Channels.State Party Unit Payload)
    (flow : Channels.Flow (Channels.exchanges () offer peers) state) (party : Party) :
    Follows (offer party) ((progs party).fed (state.replies party)) ((peers party).drop (state.returned party)) := by
  have within := flow.within party
  rw [Channels.exchanges, List.length_map] at within
  apply follows_fed (offer party) (progs party) (peers party) (state.replies party) (follows party) within
  intro reply member
  obtain ⟨index, replied⟩ := List.mem_iff_getElem?.mp member
  have inside : index < (peers party).length := Nat.lt_of_lt_of_le (List.getElem?_eq_some_iff.mp replied).1 within
  have called : (Channels.exchanges () offer peers party)[index]? =
      some (Channels.exchange () (offer party ((peers party)[index])) ((peers party)[index])) := by
    rw [Channels.exchanges, List.getElem?_map, List.getElem?_eq_getElem inside, Option.map_some]
  obtain ⟨_, payload, _, _, same⟩ := flow.replies party index _ reply called replied
  exact ⟨payload, same⟩

theorem image_place (follows : ∀ party, Follows (offer party) (progs party) (peers party))
    (state : Channels.State Party Unit Payload)
    (flow : Channels.Flow (Channels.exchanges () offer peers) state) (party : Party) :
    state.todo party = [] ∧ (∃ result, (image progs state).progs party = .done result) ∨
      ∃ peer rest next, state.todo party = Channels.exchange () (offer party peer) peer :: rest ∧
        (image progs state).progs party = .sendrecv (offer party peer) peer next := by
  have here := image_follows progs peers offer follows state flow party
  have todo := flow.todo party
  rw [Channels.exchanges, ← List.map_drop] at todo
  cases left : (peers party).drop (state.returned party) with
  | nil =>
      rw [left] at here todo
      cases prog : (progs party).fed (state.replies party) with
      | done result => exact .inl ⟨todo, result, prog⟩
      | exit | sendrecv =>
          rw [prog] at here
          exact absurd here id
  | cons peer rest =>
      rw [left] at here todo
      cases prog : (progs party).fed (state.replies party) with
      | done | exit =>
          rw [prog] at here
          exact absurd here id
      | sendrecv data other next =>
          rw [prog] at here
          obtain ⟨rfl, rfl, _⟩ := here
          exact .inr ⟨peer, _, next, todo, prog⟩

theorem image_step (follows : ∀ party, Follows (offer party) (progs party) (peers party))
    (state : Channels.State Party Unit Payload)
    (flow : Channels.Flow (Channels.exchanges () offer peers) state) (party : Party) :
    step (image progs state) party = (Channels.step state party).map (image progs) := by
  rcases image_place progs peers offer follows state flow party with ⟨todo, result, prog⟩ | ⟨peer, rest, next, todo, prog⟩
  · simp [step, prog, Channels.step, todo]
  · simp only [step, prog, Channels.step, todo]
    cases entered : state.entered party with
    | false =>
        simp [image, entered, State.setMessages, Channels.exchange, Channels.State.announce, Channels.State.setChannel]
    | true =>
        cases queue : state.channels peer party () with
        | nil => simp [image, entered, queue, Channels.exchange]
        | cons reply more =>
            have next_progs : Function.update (image progs state).progs party (next reply) = fun other =>
                (progs other).fed (Function.update state.replies party (state.replies party ++ [some reply]) other) := by
              funext other
              by_cases own : other = party
              · subst own
                rw [Function.update_self, Function.update_self, fed_concat]
                simp only [image] at prog
                rw [prog, Prog.accept]
              · rw [Function.update_of_ne own, Function.update_of_ne own, image]
            simp [image, entered, queue, Channels.exchange, State.setMessages, Channels.State.setChannel,
              Channels.State.finish]
            exact next_progs

theorem image_reach (follows : ∀ party, Follows (offer party) (progs party) (peers party))
    (state : State Party Payload Result) : Reach step always (start progs) state ↔
      ∃ below, Reach Channels.step always (Channels.start (Channels.exchanges () offer peers)) below ∧
        state = image progs below := by
  constructor
  · intro reached
    induction reached with
    | start => exact ⟨_, .start, rfl⟩
    | step before after party _ permitted taken ih =>
        obtain ⟨below, reached, rfl⟩ := ih
        rw [image_step progs peers offer follows below (Channels.reachable_flow _ below reached),
          Option.map_eq_some_iff] at taken
        obtain ⟨next, moved, rfl⟩ := taken
        exact ⟨next, .step below next party reached trivial moved, rfl⟩
  · rintro ⟨below, reached, rfl⟩
    induction reached with
    | start => exact .start
    | step before after party reached permitted taken ih =>
        apply Reach.step _ _ party ih trivial
        rw [image_step progs peers offer follows before (Channels.reachable_flow _ before reached), taken,
          Option.map_some]

theorem image_run (follows : ∀ party, Follows (offer party) (progs party) (peers party)) (actions : List Party)
    (below : Channels.State Party Unit Payload)
    (flow : Channels.Flow (Channels.exchanges () offer peers) below) :
    run step (image progs below) actions = (run Channels.step below actions).map (image progs) := by
  induction actions generalizing below with
  | nil => rfl
  | cons party rest ih =>
      rw [run, run, image_step progs peers offer follows below flow party]
      cases taken : Channels.step below party with
      | none => rfl
      | some next => exact ih next (Channels.step_flow _ below next party flow taken)

theorem image_stuck (follows : ∀ party, Follows (offer party) (progs party) (peers party))
    (below : Channels.State Party Unit Payload)
    (flow : Channels.Flow (Channels.exchanges () offer peers) below) :
    Stuck step (image progs below) ↔ Stuck Channels.step below := by
  apply forall_congr'
  intro party
  rw [image_step progs peers offer follows below flow party, Option.map_eq_none_iff]

theorem image_blocked (follows : ∀ party, Follows (offer party) (progs party) (peers party))
    (below : Channels.State Party Unit Payload)
    (flow : Channels.Flow (Channels.exchanges () offer peers) below) (party : Party) :
    Blocked (image progs below) party ↔ below.todo party ≠ [] := by
  rcases image_place progs peers offer follows below flow party with ⟨todo, result, prog⟩ | ⟨peer, rest, next, todo, prog⟩
  · simp [Blocked, todo, prog, Prog.waits]
  · simp [Blocked, todo, prog, Prog.waits]

theorem image_deadlocked (follows : ∀ party, Follows (offer party) (progs party) (peers party))
    (below : Channels.State Party Unit Payload)
    (flow : Channels.Flow (Channels.exchanges () offer peers) below) :
    Deadlocked (image progs below) ↔ Channels.Deadlocked below := by
  rw [Deadlocked, Channels.Deadlocked, image_stuck progs peers offer follows below flow, Channels.Finished, not_forall]
  simp only [image_blocked progs peers offer follows below flow, ne_eq]

variable [Fintype Party]

theorem free_iff (follows : ∀ party, Follows (offer party) (progs party) (peers party))
    (paired : Channels.Paired peers) : (∀ state, Reach step always (start progs) state → ¬ Deadlocked state) ↔
      ∃ time, Channels.Consistent peers time := by
  rw [← Channels.exchanges_free_iff () offer peers paired]
  constructor
  · intro free below reached
    rw [← image_deadlocked progs peers offer follows below (Channels.reachable_flow _ below reached)]
    exact free _ ((image_reach progs peers offer follows _).mpr ⟨below, reached, rfl⟩)
  · intro free state reached
    obtain ⟨below, also, rfl⟩ := (image_reach progs peers offer follows state).mp reached
    rw [image_deadlocked progs peers offer follows below (Channels.reachable_flow _ below also)]
    exact free below also

theorem completes_iff (follows : ∀ party, Follows (offer party) (progs party) (peers party))
    (paired : Channels.Paired peers) (results : Party → Result)
    (made : ∀ party, (progs party).fed (Channels.received offer peers party) = .done (results party)) :
    Completes (start progs) results ↔ ∃ time, Channels.Consistent peers time := by
  rw [← free_iff progs peers offer follows paired]
  constructor
  · exact fun completes => completes.free
  · intro free
    refine ⟨?_, free, ?_⟩
    · obtain ⟨bound, ends⟩ := Channels.runs_end (Channels.start (Channels.exchanges () offer peers))
      refine ⟨bound, fun actions state ran => ?_⟩
      have below := image_run progs peers offer follows actions _ (Channels.start_flow (Channels.exchanges () offer peers))
      rw [show image progs (Channels.start (Channels.exchanges () offer peers)) = start progs from rfl, ran] at below
      obtain ⟨last, taken, _⟩ := Option.map_eq_some_iff.mp below.symm
      exact ends actions last taken
    · intro state reached stuck party
      have unblocked : ∀ other, ¬ Blocked state other := fun other blocked => free state reached ⟨stuck, other, blocked⟩
      obtain ⟨below, also, rfl⟩ := (image_reach progs peers offer follows state).mp reached
      have flow := Channels.reachable_flow _ below also
      have finished : Channels.Finished below := by
        intro other
        by_contra waiting
        exact unblocked other ((image_blocked progs peers offer follows below flow other).mpr waiting)
      have replies := Channels.exchanges_received () offer peers paired below also finished
      rw [image, replies]
      exact made party

end Sendrecv
