import OpenGda.Bootstrap.Pmi2Collectives

set_option autoImplicit false

-- Ranks whose next call on the bootstrap depends on what the earlier ones returned.
namespace OpenGda.Pmi2

open FencedStore Machine

variable {size : Nat} {Result : Type}

inductive Script (size : Nat) (Result : Type) where
  | finish (result : Result)
  | call (call : Call size) (next : Reply → Script size Result)

def runScript (counted : NulCounted) : Bootstrap size → Script size Result → Pmi Result
  | _, .finish result => .done result
  | boot, .call call next => do
      let (reply, boot) ← callProg counted boot call
      runScript counted boot (next reply)

def Follows : Script size Result → List (Call size × Reply) → Result → Prop
  | .finish result, [], ending => result = ending
  | .call call next, (made, reply) :: rest, ending => call = made ∧ Follows (next reply) rest ending
  | _, _, _ => False

theorem announce_strict {First : Type} (put : Option (Text × Blob)) (next : Pmi First) (strict : Strict next) :
    Strict (announce put (.fence next)) := by
  cases put <;> exact strict

theorem script_strict (counted : NulCounted) (boot : Bootstrap size) (script : Script size Result) :
    Strict (runScript counted boot script) := by
  induction script generalizing boot with
  | finish result => trivial
  | call call next ih =>
      rw [runScript, bind_eq, call_shape]
      refine strict_bind _ _ (announce_strict _ _ ?_) fun (reply, boot) => ih reply boot
      exact strict_bind _ _ (call_fetches counted boot call fun _ => none).strict fun _ => trivial

theorem script_same (counted : NulCounted) (answers : Text → Option Text) (boot : Bootstrap size)
    (script : Script size Result) (path : List (Call size × Reply)) (ending : Result)
    (follows : Follows script path ending)
    (ends : outcome answers (runCalls counted boot (path.map Prod.fst)) = .ok (path.map Prod.snd)) :
    outcome answers (runScript counted boot script) = .ok ending ∧
      events answers (runScript counted boot script) = events answers (runCalls counted boot (path.map Prod.fst)) := by
  induction script generalizing boot path with
  | finish result =>
      cases path with
      | nil =>
          obtain rfl : result = ending := follows
          exact ⟨rfl, rfl⟩
      | cons _ _ => exact follows.elim
  | call call next ih =>
      cases path with
      | nil => exact follows.elim
      | cons made rest =>
          obtain ⟨other, reply⟩ := made
          obtain ⟨rfl, later⟩ := follows
          simp only [List.map_cons, runCalls, bind_eq, pure_eq, outcome_bind] at ends
          cases first : outcome answers (callProg counted boot call) with
          | error error => simp [first, Except.bind] at ends
          | ok answer =>
              obtain ⟨given, after⟩ := answer
              simp only [first, Except.bind] at ends
              cases remaining : outcome answers (runCalls counted after (rest.map Prod.fst)) with
              | error error => simp [remaining] at ends
              | ok replies =>
                  simp only [remaining, outcome, Except.ok.injEq, List.cons.injEq] at ends
                  obtain ⟨rfl, rfl⟩ := ends
                  obtain ⟨finishes, traced⟩ := ih given after rest later remaining
                  have calls := events_bind answers (callProg counted boot call) (fun (reply, boot) =>
                    (runCalls counted boot (rest.map Prod.fst)).bind fun replies => .done (reply :: replies)) (given, after) first
                  have scripts := events_bind answers (callProg counted boot call) (fun (reply, boot) =>
                    runScript counted boot (next reply)) (given, after) first
                  refine ⟨?_, ?_⟩
                  · simp only [runScript, bind_eq, outcome_bind, first, Except.bind, finishes]
                  · simp only [runScript, List.map_cons, runCalls, bind_eq, pure_eq]
                    exact (scripts.trans (congrArg _ (traced.trans (events_finish _ _ _).symm))).trans calls.symm

def scripts (counted : NulCounted) (hosts : Fin size → Text) (paths : Fin size → List (Call size × Reply))
    (each : Fin size → Script size Result) : Setting size Text Text String Result where
  puts := hostEntries hosts
  base := 1
  progs := fun rank => runScript counted (construct rank) (each rank)
  answers := answersOf (allEntries hosts fun rank => (paths rank).map Prod.fst)

theorem scripts_complete (counted : NulCounted) (hosts : Fin size → Text) (paths : Fin size → List (Call size × Reply))
    (each : Fin size → Script size Result) (results : Fin size → Result)
    (follow : ∀ rank, Follows (each rank) (paths rank) (results rank))
    (complete : Completes (family counted hosts fun rank => (paths rank).map Prod.fst).start
      fun rank => (paths rank).map Prod.snd) : Completes (scripts counted hosts paths each).start results := by
  let calls := family counted hosts fun rank => (paths rank).map Prod.fst
  have sound : Sound calls := family_sound counted hosts _
  obtain ⟨level, visible, ends⟩ := (completes_iff calls sound _).mp complete
  have same := fun rank => script_same counted calls.answers (construct rank) (each rank) (paths rank) (results rank)
    (follow rank) (ends rank)
  have traced : (scripts counted hosts paths each).trace = calls.trace := funext fun rank => (same rank).2
  have puts : (scripts counted hosts paths each).Puts = calls.Puts := by
    funext entry
    simp only [Setting.Puts, traced]
    rfl
  apply (completes_iff (scripts counted hosts paths each)
    ⟨sound.before, ?_, fun rank => script_strict counted _ _⟩ results).mpr
  · refine ⟨?_, ?_, fun rank => (same rank).1⟩
    · simp only [Level, traced]
      exact level
    · simp only [Visible, traced, puts]
      exact visible
  · simp only [puts]
    exact sound.truthful

def pathOf (collectives : List (Collective size)) (rank : Fin size) : List (Call size × Reply) :=
  collectives.map fun collective => (collective.call rank, collective.reply)

theorem collective_scripts_complete (counted : NulCounted) (hosts : Fin size → Text)
    (collectives : List (Collective size)) (small : ∀ collective ∈ collectives, collective.Small)
    (each : Fin size → Script size Result) (results : Fin size → Result)
    (follow : ∀ rank, Follows (each rank) (pathOf collectives rank) (results rank)) :
    Completes (scripts counted hosts (pathOf collectives) each).start results := by
  apply scripts_complete counted hosts (pathOf collectives) each results follow
  have calls : (fun rank => (pathOf collectives rank).map Prod.fst) = callsOf collectives := by
    funext rank
    simp [pathOf, callsOf]
  have replies : (fun rank => (pathOf collectives rank).map Prod.snd) = fun _ : Fin size => collectives.map Collective.reply := by
    funext rank
    simp [pathOf]
  rw [calls, replies]
  apply (family_completes_iff counted hosts (callsOf collectives) _).mpr
  refine ⟨fun rank other => by rw [callsOf, callsOf, List.length_map, List.length_map], ?_⟩
  intro rank
  refine ⟨by rw [callsOf, List.length_map, List.length_map], ?_⟩
  intro index call reply found replied
  rw [callsOf, List.getElem?_map, Option.map_eq_some_iff] at found
  obtain ⟨collective, there, rfl⟩ := found
  rw [List.getElem?_map, there] at replied
  cases replied
  exact collective_served counted hosts collectives rank index collective there
    (small collective (List.mem_of_getElem? there))

end OpenGda.Pmi2
