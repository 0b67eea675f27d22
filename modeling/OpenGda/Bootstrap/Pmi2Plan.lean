import OpenGda.Bootstrap.Pmi2Blob
import OpenGda.Lib.FencedStoreRuns

set_option autoImplicit false

-- A rank's sequence of calls on its BootstrapPMI2, and what it puts, call by call:
-- under keys that nobody ever uses again.
namespace OpenGda.Pmi2

open FencedStore Machine

variable {size : Nat}

inductive P2p (size : Nat) where
  | send (data : Blob) (dest : Fin size) (tag : Int)
  | recv (len : Nat) (src : Fin size) (tag : Int)
  | sendrecv (data : Blob) (peer : Fin size) (tag : Int)
deriving DecidableEq, Repr

inductive Call (size : Nat) where
  | allgather (data : Blob)
  | allgatherFixed (value : Blob)
  | broadcast (value : Blob) (root : Fin size)
  | barrier
  | p2p (call : P2p size)
deriving DecidableEq, Repr

inductive Reply where
  | nothing
  | blobs (out : List Blob)
  | blob (bytes : Blob)
deriving DecidableEq, Repr

def callP2p (counted : NulCounted) (boot : Bootstrap size) : P2p size → Pmi (Reply × Bootstrap size)
  | .send data dest tag => do
      let boot ← send boot data dest tag
      return (.nothing, boot)
  | .recv len src tag => do
      let (bytes, boot) ← recv counted boot len src tag
      return (.blob bytes, boot)
  | .sendrecv data peer tag => do
      let (bytes, boot) ← sendrecv counted boot data peer tag
      return (.blob bytes, boot)

def callProg (counted : NulCounted) (boot : Bootstrap size) : Call size → Pmi (Reply × Bootstrap size)
  | .allgather data => do
      let (out, boot) ← allgather counted boot data
      return (.blobs out, boot)
  | .allgatherFixed value => do
      let (out, boot) ← allgatherFixed counted boot value
      return (.blobs out, boot)
  | .broadcast value root => do
      let (bytes, boot) ← broadcast counted boot value root
      return (.blob bytes, boot)
  | .barrier => do
      barrier
      return (.nothing, boot)
  | .p2p call => callP2p counted boot call

def runCalls (counted : NulCounted) : Bootstrap size → List (Call size) → Pmi (List Reply)
  | _, [] => .done []
  | boot, call :: rest => do
      let (reply, boot) ← callProg counted boot call
      let replies ← runCalls counted boot rest
      return reply :: replies

def advance (boot : Bootstrap size) : Call size → Bootstrap size
  | .allgather _ | .allgatherFixed _ | .broadcast _ _ => nextCollEpoch boot
  | .barrier => boot
  | .p2p (.send _ dest tag) => (nextP2pSeq boot boot.rank dest tag).2
  | .p2p (.recv _ src tag) => (nextP2pSeq boot src boot.rank tag).2
  | .p2p (.sendrecv _ peer tag) =>
      let boot1 := (nextP2pSeq boot boot.rank peer tag).2
      (nextP2pSeq boot1 peer boot.rank tag).2

def callPut (boot : Bootstrap size) : Call size → Option (Text × Blob)
  | .allgather data | .allgatherFixed data => some (agKey boot.collEpoch boot.rank, data)
  | .broadcast value root => if boot.rank = root then some (bcKey boot.collEpoch root, value) else none
  | .barrier | .p2p (.recv _ _ _) => none
  | .p2p (.send data dest tag) => some (p2pKey (boot.p2pSeq boot.rank dest tag) boot.rank dest tag, data)
  | .p2p (.sendrecv data peer tag) => some (p2pKey (boot.p2pSeq boot.rank peer tag) boot.rank peer tag, data)

def callGets (boot : Bootstrap size) : Call size → List Text
  | .allgather _ | .allgatherFixed _ => (List.finRange size).map (agKey boot.collEpoch)
  | .broadcast _ root => if boot.rank = root then [] else [bcKey boot.collEpoch root]
  | .barrier | .p2p (.send _ _ _) => []
  | .p2p (.recv _ src tag) => [p2pKey (boot.p2pSeq src boot.rank tag) src boot.rank tag]
  | .p2p (.sendrecv _ peer tag) =>
      let boot1 := (nextP2pSeq boot boot.rank peer tag).2
      [p2pKey (boot1.p2pSeq peer boot.rank tag) peer boot.rank tag]

def putEntry (phase : Nat) (put : Text × Blob) : Entry Text Text := ⟨put.1, hexEncode put.2, phase⟩

def plan : Bootstrap size → Nat → List (Call size) → List (Entry Text Text)
  | _, _, [] => []
  | boot, phase, call :: rest =>
      (callPut boot call).toList.map (putEntry phase) ++ plan (advance boot call) (phase + 1) rest

def bootAfter (boot : Bootstrap size) (calls : List (Call size)) : Bootstrap size := calls.foldl advance boot

structure Fetches (answers : Text → Option Text) {Result : Type} (prog : Pmi Result) (keys : List Text) : Prop where
  only : ∀ event ∈ events answers prog, ∃ key ∈ keys, event = .get key
  all : ∀ result, outcome answers prog = .ok result → ∀ key ∈ keys, Event.get key ∈ events answers prog
  strict : Strict prog

theorem gets_quiet (list : List (Event Text Text)) (only : ∀ event ∈ list, ∃ key, event = .get key) (phase : Nat) :
    fences list = 0 ∧ entries phase list = [] := by
  induction list with
  | nil => exact ⟨rfl, rfl⟩
  | cons event rest ih =>
      obtain ⟨key, rfl⟩ := only event List.mem_cons_self
      exact ih fun event member => only event (List.mem_cons_of_mem _ member)

theorem gets_demands (list : List (Event Text Text)) (only : ∀ event ∈ list, ∃ key, event = .get key) (phase : Nat)
    (demand : Text × Nat) : demand ∈ demands phase list ↔ Event.get demand.1 ∈ list ∧ demand.2 = phase := by
  induction list with
  | nil => simp [demands]
  | cons event rest ih =>
      obtain ⟨key, rfl⟩ := only event List.mem_cons_self
      rw [demands, List.mem_cons, ih fun event member => only event (List.mem_cons_of_mem _ member), List.mem_cons]
      constructor
      · rintro (rfl | ⟨later, same⟩)
        · exact ⟨.inl rfl, rfl⟩
        · exact ⟨.inr later, same⟩
      · rintro ⟨first | later, same⟩
        · cases first
          exact .inl (Prod.ext rfl same)
        · exact .inr ⟨later, same⟩

theorem fetch_blob_fetches (counted : NulCounted) (rank : Nat) (key : Text) (answers : Text → Option Text) :
    Fetches answers (fetchBlob counted rank key) [key] := by
  obtain ⟨more, same, some_get⟩ := fetch_attempts_events counted rank key answers 4 (List.replicate (16 * 1024) nul)
  refine ⟨?_, ?_, fetch_attempts_strict counted rank key 4 _⟩
  · intro event member
    rw [fetchBlob, same] at member
    exact ⟨key, by simp, List.eq_of_mem_replicate member⟩
  · intro result _ other member
    rw [fetchBlob, same, List.mem_singleton.mp member]
    exact List.mem_replicate.mpr ⟨Nat.pos_iff_ne_zero.mp (some_get (by decide)), rfl⟩

theorem fetches_done {Result : Type} (answers : Text → Option Text) (result : Result) :
    Fetches answers (.done result : Pmi Result) [] := ⟨by simp [events], by simp, trivial⟩

theorem fetches_throw {Result : Type} (answers : Text → Option Text) (error : String) :
    Fetches answers (.throw error : Pmi Result) [] := ⟨by simp [events], by simp, trivial⟩

theorem fetches_bind {First Second : Type} (answers : Text → Option Text) (prog : Pmi First) (rest : First → Pmi Second)
    (keys later : List Text) (first : Fetches answers prog keys) (second : ∀ result, Fetches answers (rest result) later) :
    Fetches answers (prog.bind rest) (keys ++ later) := by
  refine ⟨?_, ?_, strict_bind prog rest first.strict fun result => (second result).strict⟩
  · intro event member
    cases ends : outcome answers prog with
    | ok result =>
        rw [events_bind answers prog rest result ends] at member
        rcases List.mem_append.mp member with early | late
        · obtain ⟨key, inside, same⟩ := first.only event early
          exact ⟨key, List.mem_append_left _ inside, same⟩
        · obtain ⟨key, inside, same⟩ := (second result).only event late
          exact ⟨key, List.mem_append_right _ inside, same⟩
    | error error =>
        rw [events_bind_error answers prog rest error ends] at member
        obtain ⟨key, inside, same⟩ := first.only event member
        exact ⟨key, List.mem_append_left _ inside, same⟩
  · intro result ends key member
    rw [outcome_bind] at ends
    cases middle : outcome answers prog with
    | ok value =>
        rw [middle] at ends
        rw [events_bind answers prog rest value middle]
        rcases List.mem_append.mp member with early | late
        · exact List.mem_append_left _ (first.all value middle key early)
        · exact List.mem_append_right _ ((second value).all result ends key late)
    | error error =>
        rw [middle] at ends
        cases ends

theorem fetches_then {First Second : Type} (answers : Text → Option Text) (prog : Pmi First) (rest : First → Pmi Second)
    (keys : List Text) (first : Fetches answers prog keys) (second : ∀ result, Fetches answers (rest result) []) :
    Fetches answers (prog.bind rest) keys := by
  simpa only [List.append_nil] using fetches_bind answers prog rest keys [] first second

theorem fetch_all_fetches (counted : NulCounted) (rank : Nat) (keys : List Text) (answers : Text → Option Text) :
    Fetches answers (fetchAll counted rank keys) keys := by
  induction keys with
  | nil => exact fetches_done answers []
  | cons key rest ih =>
      apply fetches_bind answers _ _ [key] rest (fetch_blob_fetches counted rank key answers)
      intro blob
      exact fetches_then answers _ _ rest ih fun blobs => fetches_done answers (blob :: blobs)

def callReply (counted : NulCounted) (boot : Bootstrap size) : Call size → Pmi Reply
  | .allgather _ =>
      (fetchAll counted boot.rank ((List.finRange size).map (agKey boot.collEpoch))).bind fun out => .done (.blobs out)
  | .allgatherFixed value =>
      (fetchAll counted boot.rank ((List.finRange size).map (agKey boot.collEpoch))).bind fun out =>
        if out.all (·.length = value.length) then .done (.blobs out)
        else .throw "BootstrapPMI2::allgather_fixed: size mismatch"
  | .broadcast value root =>
      if boot.rank = root then .done (.blob value)
      else (fetchBlob counted boot.rank (bcKey boot.collEpoch root)).bind fun bytes =>
        if bytes.length = value.length then .done (.blob bytes) else .throw "BootstrapPMI2::broadcast: size mismatch"
  | .barrier | .p2p (.send _ _ _) => .done .nothing
  | .p2p (.recv len src tag) =>
      (fetchBlob counted boot.rank (p2pKey (boot.p2pSeq src boot.rank tag) src boot.rank tag)).bind fun bytes =>
        if bytes.length = len then .done (.blob bytes) else .throw "BootstrapPMI2::recv: size mismatch"
  | .p2p (.sendrecv data peer tag) =>
      let boot1 := (nextP2pSeq boot boot.rank peer tag).2
      (fetchBlob counted boot.rank (p2pKey (boot1.p2pSeq peer boot.rank tag) peer boot.rank tag)).bind fun bytes =>
        if bytes.length = data.length then .done (.blob bytes) else .throw "BootstrapPMI2::sendrecv: size mismatch"

def announce {Result : Type} (put : Option (Text × Blob)) (next : Pmi Result) : Pmi Result :=
  match put with
  | some (key, data) => .put key (hexEncode data) next
  | none => next

theorem ite_bind {First Second : Type} (test : Prop) [Decidable test] (one other : Pmi First) (rest : First → Pmi Second) :
    (if test then one else other).bind rest = if test then one.bind rest else other.bind rest := by
  split <;> rfl

theorem call_shape (counted : NulCounted) (boot : Bootstrap size) (call : Call size) :
    callProg counted boot call = announce (callPut boot call)
      (.fence ((callReply counted boot call).bind fun reply => .done (reply, advance boot call))) := by
  cases call with
  | allgather data =>
      simp [callProg, allgather, publishBlob, barrier, announce, callPut, callReply, advance, Prog.bind,
        FencedStore.bind_assoc]
  | allgatherFixed value =>
      simp [callProg, allgatherFixed, allgather, publishBlob, barrier, announce, callPut, callReply, advance, Prog.bind,
        FencedStore.bind_assoc, ite_bind]
  | broadcast value root =>
      by_cases own : boot.rank = root <;>
        simp [callProg, broadcast, publishBlob, barrier, announce, callPut, callReply, advance, own, Prog.bind,
          FencedStore.bind_assoc, ite_bind]
  | barrier => rfl
  | p2p call =>
      cases call with
      | send data dest tag => rfl
      | recv len src tag =>
          simp [callProg, callP2p, recv, barrier, announce, callPut, callReply, advance, nextP2pSeq, Prog.bind,
            FencedStore.bind_assoc, ite_bind]
      | sendrecv data peer tag =>
          simp [callProg, callP2p, sendrecv, publishBlob, barrier, announce, callPut, callReply, advance, nextP2pSeq,
            Prog.bind, FencedStore.bind_assoc, ite_bind]

theorem fetches_check {Result : Type} (answers : Text → Option Text) (test : Prop) [Decidable test] (result : Result)
    (error : String) : Fetches answers (if test then .done result else .throw error : Pmi Result) [] := by
  split
  · exact fetches_done answers result
  · exact fetches_throw answers error

theorem call_fetches (counted : NulCounted) (boot : Bootstrap size) (call : Call size) (answers : Text → Option Text) :
    Fetches answers (callReply counted boot call) (callGets boot call) := by
  have one := fun key => fetch_blob_fetches counted boot.rank key answers
  have all := fetch_all_fetches counted boot.rank ((List.finRange size).map (agKey boot.collEpoch)) answers
  cases call with
  | allgather data => exact fetches_then answers _ _ _ all fun out => fetches_done answers _
  | allgatherFixed value => exact fetches_then answers _ _ _ all fun out => fetches_check answers _ _ _
  | broadcast value root =>
      by_cases own : boot.rank = root
      · simp only [callReply, callGets, if_pos own]
        exact fetches_done answers _
      · simp only [callReply, callGets, if_neg own]
        exact fetches_then answers _ _ _ (one _) fun bytes => fetches_check answers _ _ _
  | barrier => exact fetches_done answers _
  | p2p call =>
      cases call with
      | send data dest tag => exact fetches_done answers _
      | recv len src tag => exact fetches_then answers _ _ _ (one _) fun bytes => fetches_check answers _ _ _
      | sendrecv data peer tag => exact fetches_then answers _ _ _ (one _) fun bytes => fetches_check answers _ _ _

theorem announce_bind {First Second : Type} (put : Option (Text × Blob)) (next : Pmi First) (rest : First → Pmi Second) :
    (announce put next).bind rest = announce put (next.bind rest) := by
  cases put <;> rfl

def runRest (counted : NulCounted) (boot : Bootstrap size) (call : Call size) (rest : List (Call size)) : Pmi (List Reply) :=
  (callReply counted boot call).bind fun reply =>
    (runCalls counted (advance boot call) rest).bind fun replies => .done (reply :: replies)

theorem run_calls_cons (counted : NulCounted) (boot : Bootstrap size) (call : Call size) (rest : List (Call size)) :
    runCalls counted boot (call :: rest) = announce (callPut boot call) (.fence (runRest counted boot call rest)) := by
  simp [runCalls, call_shape, announce_bind, Prog.bind, FencedStore.bind_assoc, runRest]

theorem outcome_announce {Result : Type} (answers : Text → Option Text) (put : Option (Text × Blob)) (next : Pmi Result) :
    outcome answers (announce put (.fence next)) = outcome answers next := by
  cases put <;> rfl

def putEvents (put : Option (Text × Blob)) : List (Event Text Text) :=
  put.toList.map fun (key, data) => .put key (hexEncode data)

theorem events_announce {Result : Type} (answers : Text → Option Text) (put : Option (Text × Blob)) (next : Pmi Result) :
    events answers (announce put (.fence next)) = putEvents put ++ .fence :: events answers next := by
  cases put <;> rfl

theorem run_strict (counted : NulCounted) (boot : Bootstrap size) (calls : List (Call size)) :
    Strict (runCalls counted boot calls) := by
  induction calls generalizing boot with
  | nil => trivial
  | cons call rest ih =>
      rw [run_calls_cons]
      have later : Strict (runRest counted boot call rest) :=
        strict_bind _ _ (call_fetches counted boot call fun _ => none).strict fun reply =>
          strict_bind _ _ (ih (advance boot call)) fun replies => trivial
      cases callPut boot call <;> exact later

theorem run_rest_outcome (counted : NulCounted) (boot : Bootstrap size) (call : Call size) (rest : List (Call size))
    (answers : Text → Option Text) (replies : List Reply) :
    outcome answers (runRest counted boot call rest) = .ok replies ↔ ∃ reply later, replies = reply :: later ∧
      outcome answers (callReply counted boot call) = .ok reply ∧
        outcome answers (runCalls counted (advance boot call) rest) = .ok later := by
  rw [runRest, outcome_bind]
  cases outcome answers (callReply counted boot call) with
  | error error => simp [Except.bind]
  | ok reply =>
      simp only [Except.bind, outcome_bind]
      cases outcome answers (runCalls counted (advance boot call) rest) with
      | error error => simp
      | ok later => simp [outcome, eq_comm]

theorem run_outcome (counted : NulCounted) (boot : Bootstrap size) (calls : List (Call size))
    (answers : Text → Option Text) (replies : List Reply) :
    outcome answers (runCalls counted boot calls) = .ok replies ↔ replies.length = calls.length ∧
      ∀ index call reply, calls[index]? = some call → replies[index]? = some reply →
        outcome answers (callReply counted (bootAfter boot (calls.take index)) call) = .ok reply := by
  induction calls generalizing boot replies with
  | nil =>
      constructor
      · rintro ⟨⟩
        exact ⟨rfl, by simp⟩
      · rintro ⟨length, _⟩
        rw [List.eq_nil_of_length_eq_zero length]
        rfl
  | cons call rest ih =>
      rw [run_calls_cons, outcome_announce, run_rest_outcome]
      constructor
      · rintro ⟨reply, later, rfl, first, ends⟩
        obtain ⟨length, each⟩ := (ih (advance boot call) later).mp ends
        refine ⟨by rw [List.length_cons, List.length_cons, length], ?_⟩
        intro index other answer found replied
        cases index with
        | zero =>
            cases found
            cases replied
            exact first
        | succ index => exact each index other answer found replied
      · rintro ⟨length, each⟩
        cases replies with
        | nil => simp at length
        | cons reply later =>
            refine ⟨reply, later, rfl, each 0 call reply rfl rfl, ?_⟩
            apply (ih (advance boot call) later).mpr
            refine ⟨Nat.succ.inj length, ?_⟩
            exact fun index other answer found replied => each (index + 1) other answer found replied

theorem mem_plan (boot : Bootstrap size) (phase : Nat) (calls : List (Call size)) (entry : Entry Text Text) :
    entry ∈ plan boot phase calls ↔ ∃ index call put, calls[index]? = some call ∧
      callPut (bootAfter boot (calls.take index)) call = some put ∧ entry = putEntry (phase + index) put := by
  induction calls generalizing boot phase with
  | nil => simp [plan]
  | cons call rest ih =>
      rw [plan, List.mem_append, ih, List.mem_map]
      constructor
      · rintro (⟨put, member, rfl⟩ | ⟨index, other, put, found, puts, rfl⟩)
        · exact ⟨0, call, put, rfl, by simpa [bootAfter] using member, rfl⟩
        · exact ⟨index + 1, other, put, found, puts, by rw [Nat.add_right_comm]; rfl⟩
      · rintro ⟨index, other, put, found, puts, rfl⟩
        cases index with
        | zero =>
            cases found
            exact .inl ⟨put, by simpa [bootAfter] using puts, rfl⟩
        | succ index => exact .inr ⟨index, other, put, found, puts, by rw [Nat.add_right_comm]; rfl⟩

theorem put_entries (put : Option (Text × Blob)) (phase : Nat) (rest : List (Event Text Text)) :
    entries phase (putEvents put ++ .fence :: rest) = put.toList.map (putEntry phase) ++ entries (phase + 1) rest := by
  cases put <;> rfl

theorem put_fences (put : Option (Text × Blob)) (rest : List (Event Text Text)) :
    fences (putEvents put ++ .fence :: rest) = fences rest + 1 := by
  cases put <;> rfl

theorem put_demands (put : Option (Text × Blob)) (phase : Nat) (rest : List (Event Text Text)) :
    demands phase (putEvents put ++ .fence :: rest) = demands (phase + 1) rest := by
  cases put <;> rfl

theorem events_finish {First Second : Type} (answers : Text → Option Text) (prog : Pmi First) (finish : First → Second) :
    events answers (prog.bind fun result => .done (finish result)) = events answers prog := by
  cases ends : outcome answers prog with
  | ok result => rw [events_bind answers prog _ result ends, events, List.append_nil]
  | error error => exact events_bind_error answers prog _ error ends

theorem run_rest_events (counted : NulCounted) (boot : Bootstrap size) (call : Call size) (rest : List (Call size))
    (answers : Text → Option Text) :
    events answers (runRest counted boot call rest) = events answers (callReply counted boot call) ++
      match outcome answers (callReply counted boot call) with
      | .ok _ => events answers (runCalls counted (advance boot call) rest)
      | .error _ => [] := by
  cases ends : outcome answers (callReply counted boot call) with
  | ok reply => rw [runRest, events_bind answers _ _ reply ends, events_finish]
  | error error => rw [runRest, events_bind_error answers _ _ error ends, List.append_nil]

theorem reply_quiet (counted : NulCounted) (boot : Bootstrap size) (call : Call size) (answers : Text → Option Text) :
    ∀ event ∈ events answers (callReply counted boot call), ∃ key, event = .get key := by
  intro event member
  obtain ⟨key, _, same⟩ := (call_fetches counted boot call answers).only event member
  exact ⟨key, same⟩

theorem run_entries (counted : NulCounted) (boot : Bootstrap size) (calls : List (Call size)) (phase : Nat)
    (answers : Text → Option Text) (entry : Entry Text Text)
    (member : entry ∈ entries phase (events answers (runCalls counted boot calls))) : entry ∈ plan boot phase calls := by
  induction calls generalizing boot phase with
  | nil => simp [runCalls, events, entries] at member
  | cons call rest ih =>
      obtain ⟨silent, empty⟩ := gets_quiet _ (reply_quiet counted boot call answers) (phase + 1)
      rw [run_calls_cons, events_announce, put_entries, run_rest_events, entries_append, empty, silent,
        List.nil_append, Nat.add_zero] at member
      rcases List.mem_append.mp member with own | later
      · exact List.mem_append_left _ own
      · apply List.mem_append_right
        cases ends : outcome answers (callReply counted boot call) with
        | ok reply =>
            rw [ends] at later
            exact ih (advance boot call) (phase + 1) later
        | error error =>
            rw [ends] at later
            cases later

theorem run_whole (counted : NulCounted) (boot : Bootstrap size) (calls : List (Call size)) (phase : Nat)
    (answers : Text → Option Text) (replies : List Reply)
    (ends : outcome answers (runCalls counted boot calls) = .ok replies) :
    fences (events answers (runCalls counted boot calls)) = calls.length ∧
      entries phase (events answers (runCalls counted boot calls)) = plan boot phase calls ∧
      ∀ demand, demand ∈ demands phase (events answers (runCalls counted boot calls)) ↔ ∃ index call,
        calls[index]? = some call ∧ demand.1 ∈ callGets (bootAfter boot (calls.take index)) call ∧
          demand.2 = phase + index + 1 := by
  induction calls generalizing boot phase replies with
  | nil => simp [runCalls, events, fences, entries, demands, plan]
  | cons call rest ih =>
      rw [run_calls_cons, outcome_announce, run_rest_outcome] at ends
      obtain ⟨reply, later, rfl, first, ends⟩ := ends
      obtain ⟨count, puts, gets⟩ := ih (advance boot call) (phase + 1) later ends
      have quiet := reply_quiet counted boot call answers
      obtain ⟨silent, empty⟩ := gets_quiet _ quiet (phase + 1)
      have fetches := call_fetches counted boot call answers
      rw [run_calls_cons, events_announce, run_rest_events, first, put_fences, put_entries, put_demands, fences_append,
        entries_append, demands_append, silent, empty]
      simp only [Nat.zero_add, Nat.add_zero, List.nil_append]
      refine ⟨by rw [count]; rfl, by rw [puts]; rfl, ?_⟩
      intro demand
      rw [List.mem_append, gets_demands _ quiet, gets]
      constructor
      · rintro (⟨own, time⟩ | ⟨index, other, found, wanted, time⟩)
        · obtain ⟨key, inside, same⟩ := fetches.only _ own
          cases same
          exact ⟨0, call, rfl, inside, time⟩
        · exact ⟨index + 1, other, found, wanted, by omega⟩
      · rintro ⟨index, other, found, wanted, time⟩
        cases index with
        | zero =>
            cases found
            exact .inl ⟨fetches.all reply first _ wanted, time⟩
        | succ index => exact .inr ⟨index, other, found, wanted, by omega⟩

end OpenGda.Pmi2
