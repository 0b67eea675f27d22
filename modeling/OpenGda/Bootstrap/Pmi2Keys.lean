import OpenGda.Bootstrap.Pmi2PointToPoint

set_option autoImplicit false

-- The keys of pairwise messages: those that a rank publishes for another, in order, are
-- those that the other fetches, as long as nobody writes to itself.
namespace OpenGda.Pmi2

open FencedStore

variable {size : Nat}

def putKey : Event Text Text → Option Text
  | .put key _ => some key
  | .fence | .get _ => none

def getKey : Event Text Text → Option Text
  | .get key => some key
  | .fence | .put _ _ => none

def putKeys (list : List (Event Text Text)) : List Text := list.filterMap putKey

def getKeys (list : List (Event Text Text)) : List Text := (list.filterMap getKey).dedup

def callEvents (counted : NulCounted) (answers : Text → Option Text) (boot : Bootstrap size) (call : P2p size) :
    List (Event Text Text) := events answers (callP2p counted boot call)

-- The keys under which a rank publishes its messages to `dst` with this tag, in order. A
-- call has moved the counters even if its fetch throws.
def publishedKeys (counted : NulCounted) (answers : Text → Option Text) (dst : Fin size) (tag : Int) :
    Bootstrap size → List (P2p size) → List Text
  | _, [] => []
  | boot, call :: rest =>
      (if (call.sends dst tag).isSome then putKeys (callEvents counted answers boot call) else []) ++
        publishedKeys counted answers dst tag (advance boot (.p2p call)) rest

def fetchedKeys (counted : NulCounted) (answers : Text → Option Text) (src : Fin size) (tag : Int) :
    Bootstrap size → List (P2p size) → List Text
  | _, [] => []
  | boot, call :: rest =>
      (if call.receivesFrom src tag then getKeys (callEvents counted answers boot call) else []) ++
        fetchedKeys counted answers src tag (advance boot (.p2p call)) rest

def allPublished (counted : NulCounted) (answers : Text → Option Text) : Bootstrap size → List (P2p size) → List Text
  | _, [] => []
  | boot, call :: rest =>
      putKeys (callEvents counted answers boot call) ++ allPublished counted answers (advance boot (.p2p call)) rest

structure KeysAgree (counted : NulCounted) (answers : Text → Option Text) (programs : Fin size → List (P2p size)) :
    Prop where
  agree : ∀ src dst tag, publishedKeys counted answers dst tag (construct src) (programs src) =
    fetchedKeys counted answers src tag (construct dst) (programs dst)
  unique : ((List.finRange size).flatMap fun rank => allPublished counted answers (construct rank) (programs rank)).Nodup

def EachMatched (programs : Fin size → List (P2p size)) : Prop :=
  ∀ src dst tag, (sent dst tag (programs src)).length = received src tag (programs dst)

def SendsToOthers (programs : Fin size → List (P2p size)) : Prop :=
  ∀ rank, ∀ call ∈ programs rank, ∀ tag, call.sends rank tag = none

theorem reply_gets (counted : NulCounted) (answers : Text → Option Text) (boot : Bootstrap size) (call : P2p size) :
    ∃ more, events answers (callReply counted boot (.p2p call)) =
      (callGets boot (.p2p call)).flatMap fun key => List.replicate (more + 1) (.get key) := by
  have one : ∀ key (check : Blob → Pmi Reply), (∀ bytes, events answers (check bytes) = []) → ∃ more,
      events answers ((fetchBlob counted boot.rank key).bind check) = List.replicate (more + 1) (.get key) := by
    intro key check silent
    obtain ⟨more, gets, some⟩ := fetch_attempts_events counted boot.rank key answers 4 (List.replicate (16 * 1024) nul)
    have whole : events answers ((fetchBlob counted boot.rank key).bind check) =
        events answers (fetchBlob counted boot.rank key) := by
      cases ends : outcome answers (fetchBlob counted boot.rank key) with
      | ok bytes => rw [events_bind answers _ _ bytes ends, silent, List.append_nil]
      | error error => exact events_bind_error answers _ _ error ends
    refine ⟨more - 1, ?_⟩
    rw [whole, fetchBlob, gets, Nat.sub_add_cancel (some (by decide))]
  have checked : ∀ (test : Prop) [Decidable test] (reply : Reply) (error : String),
      events answers (if test then .done reply else .throw error : Pmi Reply) = [] := by
    intro test _ reply error
    split <;> rfl
  cases call with
  | send data dest tag => exact ⟨0, rfl⟩
  | recv len src tag =>
      obtain ⟨more, gets⟩ := one _ _ fun bytes => checked (bytes.length = len) (.blob bytes) _
      exact ⟨more, by rw [callReply, gets, callGets, List.flatMap_cons, List.flatMap_nil, List.append_nil]⟩
  | sendrecv data peer tag =>
      obtain ⟨more, gets⟩ := one _ _ fun bytes => checked (bytes.length = data.length) (.blob bytes) _
      exact ⟨more, by rw [callReply, gets, callGets, List.flatMap_cons, List.flatMap_nil, List.append_nil]⟩

theorem call_events (counted : NulCounted) (answers : Text → Option Text) (boot : Bootstrap size) (call : P2p size) :
    ∃ more, callEvents counted answers boot call = putEvents (callPut boot (.p2p call)) ++
      .fence :: (callGets boot (.p2p call)).flatMap fun key => List.replicate (more + 1) (.get key) := by
  obtain ⟨more, gets⟩ := reply_gets counted answers boot call
  refine ⟨more, ?_⟩
  have shape := call_shape counted boot (.p2p call)
  rw [callProg] at shape
  rw [callEvents, shape, events_announce, events_finish, gets]

theorem put_keys (counted : NulCounted) (answers : Text → Option Text) (boot : Bootstrap size) (call : P2p size) :
    putKeys (callEvents counted answers boot call) = (callPut boot (.p2p call)).toList.map Prod.fst := by
  obtain ⟨more, whole⟩ := call_events counted answers boot call
  rw [whole, putKeys, List.filterMap_append, List.filterMap_cons_none rfl, List.filterMap_flatMap]
  cases callPut boot (.p2p call) <;> simp [putEvents, putKey]

theorem gets_once (put : Option (Text × Blob)) (key : Text) (more : Nat) :
    getKeys (putEvents put ++ .fence :: List.replicate (more + 1) (.get key)) = [key] := by
  have silent : (putEvents put).filterMap getKey = [] := by
    cases put <;> rfl
  rw [getKeys, List.filterMap_append, silent, List.nil_append, List.filterMap_cons_none rfl,
    List.filterMap_replicate_of_some (show getKey (.get key) = some key from rfl)]
  exact List.replicate_dedup (Nat.succ_ne_zero more)

theorem get_keys (counted : NulCounted) (answers : Text → Option Text) (boot : Bootstrap size) (call : P2p size) :
    getKeys (callEvents counted answers boot call) = callGets boot (.p2p call) := by
  obtain ⟨more, whole⟩ := call_events counted answers boot call
  rw [whole]
  cases call with
  | send data dest tag => rfl
  | recv len src tag | sendrecv data peer tag =>
      simp only [callGets, List.flatMap_cons, List.flatMap_nil, List.append_nil]
      exact gets_once _ _ more

theorem sent_key (counted : NulCounted) (answers : Text → Option Text) (boot : Bootstrap size) (call : P2p size)
    (dst : Fin size) (tag : Int) (sends : (call.sends dst tag).isSome = true) :
    putKeys (callEvents counted answers boot call) = [p2pKey (boot.p2pSeq boot.rank dst tag) boot.rank dst tag] := by
  obtain ⟨data, sends⟩ := Option.isSome_iff_exists.mp sends
  rw [put_keys, (call_put_p2p boot call _ boot.rank dst tag data).mpr ⟨rfl, sends, rfl⟩]
  rfl

theorem receives_from (call : P2p size) (src : Fin size) (tag : Int) :
    call.receivesFrom src tag = true ↔ ∃ len, call.receives = some (len, src, tag) := by
  rw [P2p.receivesFrom, Option.any_eq_true]
  constructor
  · rintro ⟨⟨len, sender, label⟩, receives, same⟩
    obtain ⟨rfl, rfl⟩ := of_decide_eq_true same
    exact ⟨len, receives⟩
  · rintro ⟨len, receives⟩
    exact ⟨(len, src, tag), receives, decide_eq_true ⟨rfl, rfl⟩⟩

theorem received_key (counted : NulCounted) (answers : Text → Option Text) (boot : Bootstrap size) (call : P2p size)
    (src : Fin size) (tag : Int) (receives : call.receivesFrom src tag = true) (apart : src ≠ boot.rank) :
    getKeys (callEvents counted answers boot call) = [p2pKey (boot.p2pSeq src boot.rank tag) src boot.rank tag] := by
  obtain ⟨len, receives⟩ := (receives_from call src tag).mp receives
  rw [get_keys, (receive_call counted boot call len src tag receives apart).1]

theorem published_keys (counted : NulCounted) (answers : Text → Option Text) (boot : Bootstrap size)
    (program : List (P2p size)) (dst : Fin size) (tag : Int) (apart : dst ≠ boot.rank) :
    publishedKeys counted answers dst tag boot program =
      (List.range' (boot.p2pSeq boot.rank dst tag) (sent dst tag program).length).map fun seq =>
        p2pKey seq boot.rank dst tag := by
  induction program generalizing boot with
  | nil => rfl
  | cons call rest ih =>
      have same := (advance_grows boot (.p2p call)).1
      have later := ih (advance boot (.p2p call)) (same.symm ▸ apart)
      rw [same, advance_sent boot call dst tag apart] at later
      rw [publishedKeys, later, sent_cons]
      cases sends : (call.sends dst tag).isSome with
      | false => simp
      | true =>
          rw [if_pos rfl, sent_key counted answers boot call dst tag sends, Bool.toNat_true, Nat.add_comm 1,
            List.range'_succ, List.map_cons]
          rfl

theorem fetched_keys (counted : NulCounted) (answers : Text → Option Text) (boot : Bootstrap size)
    (program : List (P2p size)) (src : Fin size) (tag : Int) (apart : src ≠ boot.rank) :
    fetchedKeys counted answers src tag boot program =
      (List.range' (boot.p2pSeq src boot.rank tag) (received src tag program)).map fun seq =>
        p2pKey seq src boot.rank tag := by
  induction program generalizing boot with
  | nil => rfl
  | cons call rest ih =>
      have same := (advance_grows boot (.p2p call)).1
      have later := ih (advance boot (.p2p call)) (same.symm ▸ apart)
      rw [same, advance_received boot call src tag apart] at later
      rw [fetchedKeys, later, received_cons]
      cases receives : call.receivesFrom src tag with
      | false => simp
      | true =>
          rw [if_pos rfl, received_key counted answers boot call src tag receives apart, Bool.toNat_true, Nat.add_comm 1,
            List.range'_succ, List.map_cons]
          rfl

theorem published_own (counted : NulCounted) (answers : Text → Option Text) (boot : Bootstrap size)
    (program : List (P2p size)) (dst : Fin size) (tag : Int) (key : Text)
    (member : key ∈ publishedKeys counted answers dst tag boot program) : OwnKey boot key := by
  induction program generalizing boot with
  | nil => cases member
  | cons call rest ih =>
      rcases List.mem_append.mp member with first | later
      · split_ifs at first with sends
        · rw [sent_key counted answers boot call dst tag sends, List.mem_singleton] at first
          exact first ▸ .p2p _ dst tag (Nat.le_refl _)
        · cases first
      · exact own_advance boot (.p2p call) key (ih (advance boot (.p2p call)) later)

theorem fetched_own (counted : NulCounted) (answers : Text → Option Text) (boot : Bootstrap size)
    (program : List (P2p size)) (tag : Int) (key : Text)
    (member : key ∈ fetchedKeys counted answers boot.rank tag boot program) : OwnKey boot key := by
  induction program generalizing boot with
  | nil => cases member
  | cons call rest ih =>
      rcases List.mem_append.mp member with first | later
      · split_ifs at first with receives
        · obtain ⟨len, receives⟩ := (receives_from call boot.rank tag).mp receives
          obtain ⟨name, gets, own, _⟩ := self_receive_key boot call len tag receives
          rw [get_keys, gets, List.mem_singleton] at first
          exact first ▸ own
        · cases first
      · rw [← (advance_grows boot (.p2p call)).1] at later
        exact own_advance boot (.p2p call) key (ih (advance boot (.p2p call)) later)

theorem self_apart (counted : NulCounted) (answers : Text → Option Text) (boot : Bootstrap size)
    (program : List (P2p size)) (tag : Int) (key : Text)
    (published : key ∈ publishedKeys counted answers boot.rank tag boot program) :
    key ∉ fetchedKeys counted answers boot.rank tag boot program := by
  induction program generalizing boot with
  | nil => cases published
  | cons call rest ih =>
      have same := (advance_grows boot (.p2p call)).1
      intro fetched
      rcases List.mem_append.mp published with put | publishedLater
      · split_ifs at put with sends
        · rw [put_keys] at put
          obtain ⟨⟨name, data⟩, puts, rfl⟩ := List.mem_map.mp put
          have puts := Option.mem_toList.mp puts
          rcases List.mem_append.mp fetched with got | fetchedLater
          · split_ifs at got with receives
            · obtain ⟨len, receives⟩ := (receives_from call boot.rank tag).mp receives
              obtain ⟨other, gets, _, _, unput⟩ := self_receive_key boot call len tag receives
              rw [get_keys, gets, List.mem_singleton] at got
              exact unput data (got ▸ puts)
            · cases got
          · rw [← same] at fetchedLater
            exact (call_put_own boot (.p2p call) _ puts).2 (fetched_own counted answers _ rest tag _ fetchedLater)
        · cases put
      · rcases List.mem_append.mp fetched with got | fetchedLater
        · split_ifs at got with receives
          · obtain ⟨len, receives⟩ := (receives_from call boot.rank tag).mp receives
            obtain ⟨other, gets, _, used, _⟩ := self_receive_key boot call len tag receives
            rw [get_keys, gets, List.mem_singleton] at got
            exact used (got ▸ published_own counted answers _ rest boot.rank tag key publishedLater)
          · cases got
        · rw [← same] at publishedLater fetchedLater
          exact ih (advance boot (.p2p call)) publishedLater fetchedLater

theorem published_length (counted : NulCounted) (answers : Text → Option Text) (boot : Bootstrap size)
    (program : List (P2p size)) (dst : Fin size) (tag : Int) :
    (publishedKeys counted answers dst tag boot program).length = (sent dst tag program).length := by
  induction program generalizing boot with
  | nil => rfl
  | cons call rest ih =>
      rw [publishedKeys, List.length_append, ih, sent_cons]
      congr 1
      cases sends : (call.sends dst tag).isSome with
      | false => rfl
      | true => rw [if_pos rfl, sent_key counted answers boot call dst tag sends]; rfl

theorem fetched_length (counted : NulCounted) (answers : Text → Option Text) (boot : Bootstrap size)
    (program : List (P2p size)) (src : Fin size) (tag : Int) :
    (fetchedKeys counted answers src tag boot program).length = received src tag program := by
  induction program generalizing boot with
  | nil => rfl
  | cons call rest ih =>
      rw [fetchedKeys, List.length_append, ih, received_cons]
      congr 1
      cases receives : call.receivesFrom src tag with
      | false => rfl
      | true =>
          rw [if_pos rfl, get_keys]
          cases call with
          | send data dest label => cases receives
          | recv len sender label | sendrecv data peer label => rfl

theorem all_published_own (counted : NulCounted) (answers : Text → Option Text) (boot : Bootstrap size)
    (program : List (P2p size)) (key : Text) (member : key ∈ allPublished counted answers boot program) :
    OwnKey boot key := by
  induction program generalizing boot with
  | nil => cases member
  | cons call rest ih =>
      rcases List.mem_append.mp member with first | later
      · rw [put_keys] at first
        obtain ⟨put, puts, rfl⟩ := List.mem_map.mp first
        exact (call_put_own boot (.p2p call) put (Option.mem_toList.mp puts)).1
      · exact own_advance boot (.p2p call) key (ih (advance boot (.p2p call)) later)

theorem all_published_nodup (counted : NulCounted) (answers : Text → Option Text) (boot : Bootstrap size)
    (program : List (P2p size)) : (allPublished counted answers boot program).Nodup := by
  induction program generalizing boot with
  | nil => exact List.nodup_nil
  | cons call rest ih =>
      rw [allPublished, put_keys]
      refine List.nodup_append.mpr ⟨?_, ih (advance boot (.p2p call)), ?_⟩
      · cases callPut boot (.p2p call) with
        | none => exact List.nodup_nil
        | some put => exact List.nodup_singleton put.1
      · rintro key first other later rfl
        obtain ⟨put, puts, rfl⟩ := List.mem_map.mp first
        exact (call_put_own boot (.p2p call) put (Option.mem_toList.mp puts)).2
          (all_published_own counted answers (advance boot (.p2p call)) rest _ later)

theorem messages_unique (counted : NulCounted) (answers : Text → Option Text) (programs : Fin size → List (P2p size)) :
    ((List.finRange size).flatMap fun rank => allPublished counted answers (construct rank) (programs rank)).Nodup := by
  refine List.nodup_flatMap.mpr ⟨fun rank _ => all_published_nodup counted answers _ _, ?_⟩
  refine (List.nodup_finRange size).imp ?_
  intro rank other apart key one two
  exact apart (own_rank (construct rank) (construct other) key (all_published_own counted answers _ _ key one)
    (all_published_own counted answers _ _ key two))

theorem keys_agree_iff (counted : NulCounted) (answers : Text → Option Text) (programs : Fin size → List (P2p size))
    (matched : EachMatched programs) : KeysAgree counted answers programs ↔ SendsToOthers programs := by
  constructor
  · intro agree rank call member tag
    by_contra sends
    have some : 0 < (sent rank tag (programs rank)).length := by
      obtain ⟨data, sends⟩ := Option.ne_none_iff_exists'.mp sends
      exact List.length_pos_of_mem (List.mem_filterMap.mpr ⟨call, member, sends⟩)
    rw [← published_length counted answers (construct rank) (programs rank) rank tag] at some
    obtain ⟨key, published⟩ := List.exists_mem_of_length_pos some
    have fetched := published
    rw [agree.agree rank rank tag] at fetched
    exact self_apart counted answers (construct rank) (programs rank) tag key published fetched
  · intro others
    refine ⟨?_, messages_unique counted answers programs⟩
    intro src dst tag
    by_cases own : dst = src
    · -- Nothing is sent on this channel, so nothing is received.
      subst own
      have none : sent dst tag (programs dst) = [] :=
        List.filterMap_eq_nil_iff.mpr fun call member => others dst call member tag
      have published := published_length counted answers (construct dst) (programs dst) dst tag
      have fetched := fetched_length counted answers (construct dst) (programs dst) dst tag
      rw [none, List.length_nil] at published
      rw [← matched, none, List.length_nil] at fetched
      rw [List.eq_nil_of_length_eq_zero published, List.eq_nil_of_length_eq_zero fetched]
    · rw [published_keys counted answers (construct src) (programs src) dst tag own,
        fetched_keys counted answers (construct dst) (programs dst) src tag (Ne.symm own), matched src dst tag]
      rfl

theorem gather_keys_agree : KeysAgree (fun _ _ => true) (fun _ => none) gatherPrograms := by
  refine (keys_agree_iff (fun _ _ => true) (fun _ => none) gatherPrograms ?_).mpr ?_
  · intro src dst tag
    by_cases zero : 0 = tag <;> fin_cases src <;> fin_cases dst <;>
      simp [gatherPrograms, sent, received, P2p.sends, P2p.receivesFrom, P2p.receives, zero]
  · intro rank call member tag
    fin_cases rank <;> simp [gatherPrograms] at member <;> rcases member with rfl | rfl <;> simp [P2p.sends]

def selfPrograms : Fin 1 → List (P2p 1) := fun _ => [.send [7] 0 0, .recv 1 0 0]

theorem self_message_key_differs : EachMatched selfPrograms ∧ ¬ KeysAgree (fun _ _ => true) (fun _ => none) selfPrograms := by
  refine ⟨?_, fun agree => ?_⟩
  · intro src dst tag
    fin_cases src
    fin_cases dst
    by_cases zero : 0 = tag <;>
      simp [selfPrograms, sent, received, P2p.sends, P2p.receivesFrom, P2p.receives, zero]
  · exact absurd (agree.agree 0 0 0) (by decide +kernel)

end OpenGda.Pmi2
