import OpenGda.Bootstrap.Pmi2Family
import OpenGda.Lib.ChannelSchedules

set_option autoImplicit false

-- gicc::detail::BootstrapMPI of bootstrap_mpi.hpp, its pairwise messages. MPI_Send
-- buffers, messages of one sender and tag do not overtake each other, and one that is
-- longer than the buffer of its receive is an error. No tag here is MPI_ANY_TAG.
namespace OpenGda.Mpi

open OpenGda.Pmi2

variable {size : Nat}

abbrev Call (size : Nat) := Channels.Call (Fin size) Int Blob

def send (data : Blob) (dest : Fin size) (tag : Int) : Call size := ⟨some ⟨dest, tag, data⟩, none⟩

def recv (len : Nat) (src : Fin size) (tag : Int) : Call size :=
  ⟨none, some ⟨src, tag, fun bytes => decide (bytes.length ≤ len)⟩⟩

def sendrecv (data : Blob) (peer : Fin size) (tag : Int) : Call size :=
  ⟨some ⟨peer, tag, data⟩, some ⟨peer, tag, fun bytes => decide (bytes.length ≤ data.length)⟩⟩

def callP2p : P2p size → Call size
  | .send data dest tag => send data dest tag
  | .recv len src tag => recv len src tag
  | .sendrecv data peer tag => sendrecv data peer tag

def family (programs : Fin size → List (P2p size)) (rank : Fin size) : List (Call size) :=
  (programs rank).map callP2p

def reply : Option Blob → Reply
  | none => .nothing
  | some bytes => .blob bytes

end OpenGda.Mpi

-- Pairwise messages over PMI2, where each of them is a fence of the whole job: when a
-- family of programs that completes under MPI completes there too.
namespace OpenGda.Pmi2

open FencedStore Machine

variable {size : Nat}

def P2p.sends (call : P2p size) (dst : Fin size) (tag : Int) : Option Blob :=
  match call with
  | .recv _ _ _ => none
  | .send data dest label | .sendrecv data dest label => if dest = dst ∧ label = tag then some data else none

def P2p.receives : P2p size → Option (Nat × Fin size × Int)
  | .send _ _ _ => none
  | .recv len src tag => some (len, src, tag)
  | .sendrecv data peer tag => some (data.length, peer, tag)

def P2p.receivesFrom (call : P2p size) (src : Fin size) (tag : Int) : Bool :=
  call.receives.any fun (_, sender, label) => decide (sender = src ∧ label = tag)

def sent (dst : Fin size) (tag : Int) (program : List (P2p size)) : List Blob := program.filterMap (·.sends dst tag)

def received (src : Fin size) (tag : Int) (program : List (P2p size)) : Nat := program.countP (·.receivesFrom src tag)

structure Matched (programs : Fin size → List (P2p size)) (rank : Fin size) (index : Nat) (src : Fin size) (tag : Int)
    (place : Nat) (data : Blob) : Prop where
  sends : ∃ call, (programs src)[place]? = some call ∧ call.sends rank tag = some data
  turn : (sent rank tag ((programs src).take place)).length = received src tag ((programs rank).take index)

-- Everybody makes as many calls, and receives in no call what a later one sends, nor
-- from itself, nor in another length or one that fetch_blob has no buffer for.
def InStep (programs : Fin size → List (P2p size)) : Prop :=
  (∀ rank other, (programs rank).length = (programs other).length) ∧
    ∀ rank index call len src tag, (programs rank)[index]? = some call → call.receives = some (len, src, tag) →
      src ≠ rank ∧ ∃ place data, Matched programs rank index src tag place data ∧ place ≤ index ∧
        data.length = len ∧ data.length < maxBlob

theorem sent_cons (dst : Fin size) (tag : Int) (call : P2p size) (rest : List (P2p size)) :
    (sent dst tag (call :: rest)).length = (call.sends dst tag).isSome.toNat + (sent dst tag rest).length := by
  cases sends : call.sends dst tag with
  | none => simp [sent, sends]
  | some data =>
      simp [sent, sends]
      omega

theorem received_cons (src : Fin size) (tag : Int) (call : P2p size) (rest : List (P2p size)) :
    received src tag (call :: rest) = (call.receivesFrom src tag).toNat + received src tag rest := by
  rw [received, List.countP_cons, received]
  cases call.receivesFrom src tag <;> simp [Nat.add_comm]

theorem advance_sent (boot : Bootstrap size) (call : P2p size) (dst : Fin size) (tag : Int) (apart : dst ≠ boot.rank) :
    (advance boot (.p2p call)).p2pSeq boot.rank dst tag =
      boot.p2pSeq boot.rank dst tag + (call.sends dst tag).isSome.toNat := by
  cases call with
  | send data dest label =>
      by_cases here : dst = dest ∧ tag = label
      · obtain ⟨rfl, rfl⟩ := here
        simp [advance, nextP2pSeq, P2p.sends]
      · have there : ¬ (dest = dst ∧ label = tag) := fun same => here ⟨same.1.symm, same.2.symm⟩
        simp [advance, nextP2pSeq, P2p.sends, here, there]
  | recv len src label => simp [advance, nextP2pSeq, P2p.sends, apart]
  | sendrecv data peer label =>
      by_cases here : dst = peer ∧ tag = label
      · obtain ⟨rfl, rfl⟩ := here
        simp [advance, nextP2pSeq, P2p.sends, apart]
      · have there : ¬ (peer = dst ∧ label = tag) := fun same => here ⟨same.1.symm, same.2.symm⟩
        simp [advance, nextP2pSeq, P2p.sends, here, there, apart]

theorem advance_received (boot : Bootstrap size) (call : P2p size) (src : Fin size) (tag : Int)
    (apart : src ≠ boot.rank) : (advance boot (.p2p call)).p2pSeq src boot.rank tag =
      boot.p2pSeq src boot.rank tag + (call.receivesFrom src tag).toNat := by
  cases call with
  | send data dest label => simp [advance, nextP2pSeq, P2p.receivesFrom, P2p.receives, apart]
  | recv len sender label =>
      by_cases here : src = sender ∧ tag = label
      · obtain ⟨rfl, rfl⟩ := here
        simp [advance, nextP2pSeq, P2p.receivesFrom, P2p.receives]
      · have there : sender = src → ¬ label = tag := fun one two => here ⟨one.symm, two.symm⟩
        simpa [advance, nextP2pSeq, P2p.receivesFrom, P2p.receives, here] using there
  | sendrecv data peer label =>
      by_cases here : src = peer ∧ tag = label
      · obtain ⟨rfl, rfl⟩ := here
        simp [advance, nextP2pSeq, P2p.receivesFrom, P2p.receives, apart]
      · have there : peer = src → ¬ label = tag := fun one two => here ⟨one.symm, two.symm⟩
        simpa [advance, nextP2pSeq, P2p.receivesFrom, P2p.receives, here, apart] using there

theorem after_program (boot : Bootstrap size) (program : List (P2p size)) :
    (bootAfter boot (program.map .p2p)).rank = boot.rank ∧ ∀ other tag, other ≠ boot.rank →
      (bootAfter boot (program.map .p2p)).p2pSeq boot.rank other tag =
          boot.p2pSeq boot.rank other tag + (sent other tag program).length ∧
        (bootAfter boot (program.map .p2p)).p2pSeq other boot.rank tag =
          boot.p2pSeq other boot.rank tag + received other tag program := by
  induction program generalizing boot with
  | nil => exact ⟨rfl, fun _ _ _ => ⟨rfl, rfl⟩⟩
  | cons call rest ih =>
      have same := (advance_grows boot (.p2p call)).1
      obtain ⟨rank, seqs⟩ := ih (advance boot (.p2p call))
      rw [List.map_cons, bootAfter, List.foldl_cons]
      refine ⟨rank.trans same, ?_⟩
      intro other tag apart
      obtain ⟨toward, back⟩ := seqs other tag (same.symm ▸ apart)
      rw [same, advance_sent boot call other tag apart] at toward
      rw [same, advance_received boot call other tag apart] at back
      rw [sent_cons, received_cons, ← Nat.add_assoc, ← Nat.add_assoc]
      exact ⟨toward, back⟩

def p2pCalls (programs : Fin size → List (P2p size)) (rank : Fin size) : List (Call size) := (programs rank).map .p2p

def bootAt (programs : Fin size → List (P2p size)) (rank : Fin size) (index : Nat) : Bootstrap size :=
  bootAfter (construct rank) ((p2pCalls programs rank).take index)

theorem boot_at (programs : Fin size → List (P2p size)) (rank : Fin size) (index : Nat) :
    (bootAt programs rank index).rank = rank ∧ ∀ other tag, other ≠ rank →
      (bootAt programs rank index).p2pSeq rank other tag = (sent other tag ((programs rank).take index)).length ∧
        (bootAt programs rank index).p2pSeq other rank tag = received other tag ((programs rank).take index) := by
  have after := after_program (construct rank) ((programs rank).take index)
  rw [List.map_take] at after
  simpa [bootAt, p2pCalls, construct] using after

theorem call_put_p2p (boot : Bootstrap size) (call : P2p size) (seq : Nat) (src dst : Fin size) (tag : Int) (data : Blob) :
    callPut boot (.p2p call) = some (p2pKey seq src dst tag, data) ↔
      boot.rank = src ∧ call.sends dst tag = some data ∧ boot.p2pSeq src dst tag = seq := by
  have puts : ∀ message dest label, (some (p2pKey (boot.p2pSeq boot.rank dest label) boot.rank dest label, message) =
      some (p2pKey seq src dst tag, data) ↔ boot.rank = src ∧ (if dest = dst ∧ label = tag then some message else none) =
        some data ∧ boot.p2pSeq src dst tag = seq) := by
    intro message dest label
    constructor
    · intro same
      obtain ⟨key, rfl⟩ := Prod.mk.inj (Option.some.inj same)
      obtain ⟨rfl, rfl, rfl, rfl⟩ := p2p_key_injective _ _ _ _ _ _ _ _ key
      simp
    · rintro ⟨rfl, sends, rfl⟩
      split_ifs at sends with same
      obtain ⟨rfl, rfl⟩ := same
      rw [Option.some.inj sends]
  cases call with
  | send message dest label | sendrecv message dest label => exact puts message dest label
  | recv len sender label => simp [callPut, P2p.sends]

theorem put_by_p2p (programs : Fin size → List (P2p size)) (seq : Nat) (src dst : Fin size) (tag : Int) (data : Blob)
    (owner : Fin size) (place : Nat) (apart : src ≠ dst) :
    PutBy (p2pCalls programs) (p2pKey seq src dst tag) data owner place ↔ owner = src ∧
      (∃ call, (programs src)[place]? = some call ∧ call.sends dst tag = some data) ∧
        (sent dst tag ((programs src).take place)).length = seq := by
  obtain ⟨rank, seqs⟩ := boot_at programs owner place
  constructor
  · rintro ⟨call, found, puts⟩
    rw [p2pCalls, List.getElem?_map, Option.map_eq_some_iff] at found
    obtain ⟨message, there, rfl⟩ := found
    obtain ⟨same, sends, turn⟩ := (call_put_p2p (bootAt programs owner place) message seq src dst tag data).mp puts
    rw [rank] at same
    subst same
    rw [(seqs dst tag apart.symm).1] at turn
    exact ⟨rfl, ⟨message, there, sends⟩, turn⟩
  · rintro ⟨rfl, ⟨message, there, sends⟩, turn⟩
    refine ⟨.p2p message, by rw [p2pCalls, List.getElem?_map, there, Option.map_some], ?_⟩
    apply (call_put_p2p (bootAt programs owner place) message seq owner dst tag data).mpr
    exact ⟨rank, sends, by rw [(seqs dst tag apart.symm).1, turn]⟩

theorem receive_call (counted : NulCounted) (boot : Bootstrap size) (call : P2p size) (len : Nat) (src : Fin size)
    (tag : Int) (receives : call.receives = some (len, src, tag)) (apart : src ≠ boot.rank) :
    callGets boot (.p2p call) = [p2pKey (boot.p2pSeq src boot.rank tag) src boot.rank tag] ∧
      ∃ error, callReply counted boot (.p2p call) =
        (fetchBlob counted boot.rank (p2pKey (boot.p2pSeq src boot.rank tag) src boot.rank tag)).bind fun bytes =>
          if bytes.length = len then .done (.blob bytes) else .throw error := by
  cases call with
  | send data dest label => cases receives
  | recv length sender label =>
      cases receives
      exact ⟨rfl, _, rfl⟩
  | sendrecv data peer label =>
      cases receives
      have same : (nextP2pSeq boot boot.rank src tag).2.p2pSeq src boot.rank tag = boot.p2pSeq src boot.rank tag := by
        simp [nextP2pSeq, apart]
      refine ⟨congrArg (fun seq => [p2pKey seq src boot.rank tag]) same,
        "BootstrapPMI2::sendrecv: size mismatch", ?_⟩
      simp only [callReply, same]

theorem receive_served (hosts : Fin size → Text) (counted : NulCounted) (programs : Fin size → List (P2p size))
    (rank : Fin size) (index : Nat) (call : P2p size) (len : Nat) (src : Fin size) (tag : Int) (reply : Reply)
    (receives : call.receives = some (len, src, tag)) (apart : src ≠ rank) :
    Served hosts counted (p2pCalls programs) rank index (.p2p call) reply ↔ ∃ place data,
      Matched programs rank index src tag place data ∧ place ≤ index ∧ data.length = len ∧ data.length < maxBlob ∧
        reply = .blob data := by
  obtain ⟨same, seqs⟩ := boot_at programs rank index
  obtain ⟨gets, error, replies⟩ := receive_call counted (bootAt programs rank index) call len src tag receives
    (same.symm ▸ apart)
  rw [same, (seqs src tag apart).2] at gets replies
  have answered : ∀ data owner place, PutBy (p2pCalls programs)
      (p2pKey (received src tag ((programs rank).take index)) src rank tag) data owner place →
        (outcome (answersOf (allEntries hosts (p2pCalls programs)))
          (callReply counted (bootAt programs rank index) (.p2p call)) = .ok reply ↔
            data.length = len ∧ data.length < maxBlob ∧ reply = .blob data) := by
    intro data owner place puts
    have fetched := fetch_blob_outcome counted rank.val _ _ data (put_by_entry hosts _ _ _ _ _ puts)
    rw [replies, outcome_bind]
    by_cases small : data.length < maxBlob
    · rw [(fetched data).mpr ⟨rfl, small⟩]
      simp only [Except.bind]
      split_ifs with fits
      · simp [outcome, ← fits, small, eq_comm]
      · simp [outcome, fits]
    · cases ends : outcome (answersOf (allEntries hosts (p2pCalls programs))) (fetchBlob counted rank.val
          (p2pKey (received src tag ((programs rank).take index)) src rank tag)) with
      | ok blob => exact absurd ((fetched blob).mp ends).2 small
      | error error => simp [Except.bind, small]
  constructor
  · rintro ⟨ends, timely⟩
    obtain ⟨owner, place, data, puts, early⟩ := timely _ (by rw [← bootAt, gets]; exact List.mem_singleton_self _)
    obtain ⟨rfl, sends, turn⟩ := (put_by_p2p programs _ src rank tag data owner place apart).mp puts
    exact ⟨place, data, ⟨sends, turn⟩, early, (answered data owner place puts).mp ends⟩
  · rintro ⟨place, data, ⟨sends, turn⟩, early, fits⟩
    have puts := (put_by_p2p programs _ src rank tag data src place apart).mpr ⟨rfl, sends, turn⟩
    refine ⟨(answered data src place puts).mpr fits, ?_⟩
    intro key wanted
    rw [← bootAt, gets] at wanted
    rw [List.mem_singleton.mp wanted]
    exact ⟨src, place, data, puts, early⟩

theorem own_later (boot : Bootstrap size) (calls : List (Call size)) (key : Text) (early late : Nat)
    (before : early ≤ late) (own : OwnKey (bootAfter boot (calls.take late)) key) :
    OwnKey (bootAfter boot (calls.take early)) key := by
  induction late, before using Nat.le_induction with
  | base => exact own
  | succ late before ih =>
      apply ih
      rw [List.take_add_one, bootAfter, List.foldl_append] at own
      cases found : calls[late]? with
      | none =>
          rw [found] at own
          exact own
      | some call =>
          rw [found] at own
          exact own_advance _ call key own

theorem own_key_not_put (calls : Fin size → List (Call size)) (rank : Fin size) (index : Nat) (call : Call size)
    (key : Text) (found : (calls rank)[index]? = some call)
    (own : OwnKey (bootAfter (construct rank) ((calls rank).take index)) key)
    (used : ¬ OwnKey (advance (bootAfter (construct rank) ((calls rank).take index)) call) key)
    (unput : ∀ data, callPut (bootAfter (construct rank) ((calls rank).take index)) call ≠ some (key, data))
    (data : Blob) (owner : Fin size) (place : Nat) : ¬ PutBy calls key data owner place := by
  have next : ∀ party number (other : Call size), (calls party)[number]? = some other →
      bootAfter (construct party) ((calls party).take (number + 1)) =
        advance (bootAfter (construct party) ((calls party).take number)) other := by
    intro party number other there
    rw [List.take_add_one, there, bootAfter, List.foldl_append]
    rfl
  rintro ⟨other, there, puts⟩
  obtain ⟨mine, never⟩ := call_put_own _ other (key, data) puts
  have early := own_later (construct rank) (calls rank) key 0 index (Nat.zero_le index) own
  have also := own_later (construct owner) (calls owner) key 0 place (Nat.zero_le place) mine
  have same : rank = owner := own_rank (construct rank) (construct owner) key early also
  subst same
  rcases Nat.lt_trichotomy place index with before | rfl | after
  · apply never
    rw [← next rank place other there]
    exact own_later _ _ key _ _ before own
  · rw [found] at there
    cases there
    exact unput data puts
  · apply used
    rw [← next rank index call found]
    exact own_later _ _ key _ _ after mine

theorem self_receive_key (boot : Bootstrap size) (call : P2p size) (len : Nat) (tag : Int)
    (receives : call.receives = some (len, boot.rank, tag)) : ∃ key, callGets boot (.p2p call) = [key] ∧
      OwnKey boot key ∧ ¬ OwnKey (advance boot (.p2p call)) key ∧ ∀ data, callPut boot (.p2p call) ≠ some (key, data) := by
  cases call with
  | send data dest label => cases receives
  | recv length sender label =>
      cases receives
      refine ⟨_, rfl, .p2p _ boot.rank tag (Nat.le_refl _), not_own_p2p _ _ _ _ _ ?_, ?_⟩
      · rw [advance, next_seq_own]
        exact Nat.lt_succ_self _
      · intro data puts
        cases puts
  | sendrecv data peer label =>
      cases receives
      refine ⟨_, rfl, .p2p _ boot.rank tag (next_seq_grows _ _ _ _ _ _ _), not_own_p2p _ _ _ _ _ ?_, ?_⟩
      · simp only [advance]
        exact Nat.lt_of_lt_of_eq (Nat.lt_succ_self _) (next_seq_own _ boot.rank boot.rank tag).symm
      · intro data puts
        have key := (Prod.mk.inj (Option.some.inj puts)).1
        rw [next_seq_own] at key
        exact Nat.succ_ne_self _ (p2p_key_injective _ _ _ _ _ _ _ _ key).1.symm

theorem self_receive_unserved (hosts : Fin size → Text) (counted : NulCounted) (programs : Fin size → List (P2p size))
    (rank : Fin size) (index : Nat) (call : P2p size) (len : Nat) (tag : Int) (reply : Reply)
    (found : (programs rank)[index]? = some call) (receives : call.receives = some (len, rank, tag)) :
    ¬ Served hosts counted (p2pCalls programs) rank index (.p2p call) reply := by
  rintro ⟨_, timely⟩
  have there : (p2pCalls programs rank)[index]? = some (.p2p call) := by
    rw [p2pCalls, List.getElem?_map, found, Option.map_some]
  obtain ⟨key, gets, own, used, unput⟩ := self_receive_key (bootAt programs rank index) call len tag
    ((boot_at programs rank index).1.symm ▸ receives)
  obtain ⟨owner, place, data, puts, _⟩ := timely key (by rw [← bootAt, gets]; exact List.mem_singleton_self _)
  exact own_key_not_put (p2pCalls programs) rank index _ key there own used unput data owner place puts

theorem send_served (hosts : Fin size → Text) (counted : NulCounted) (programs : Fin size → List (P2p size))
    (rank : Fin size) (index : Nat) (call : P2p size) (reply : Reply) (silent : call.receives = none) :
    Served hosts counted (p2pCalls programs) rank index (.p2p call) reply ↔ reply = .nothing := by
  cases call with
  | send data dest tag =>
      constructor
      · rintro ⟨ends, _⟩
        cases ends
        rfl
      · rintro rfl
        exact ⟨rfl, by simp [callGets]⟩
  | recv len src tag => cases silent
  | sendrecv data peer tag => cases silent

theorem posted_sent (dst : Fin size) (tag : Int) (program : List (P2p size)) :
    Channels.posted dst tag (program.map Mpi.callP2p) = sent dst tag program := by
  rw [Channels.posted, List.filterMap_map, sent]
  congr 1
  funext call
  cases call <;> rfl

theorem taken_received (src : Fin size) (tag : Int) (program : List (P2p size)) :
    Channels.taken src tag (program.map Mpi.callP2p) = received src tag program := by
  rw [Channels.taken, List.countP_map, received]
  congr 1
  funext call
  cases call <;> rfl

theorem mpi_matched (programs : Fin size → List (P2p size)) (rank : Fin size) (index : Nat) (call : P2p size) (len : Nat)
    (src : Fin size) (tag : Int) (place : Nat) (data : Blob) (receives : call.receives = some (len, src, tag))
    (found : (programs rank)[index]? = some call) (matched : Matched programs rank index src tag place data)
    (reply : Option Blob) (answers : Channels.Answers (Mpi.family programs) rank index (Mpi.callP2p call) reply) :
    reply = some data := by
  obtain ⟨take, wants, rfl, rfl⟩ : ∃ take, (Mpi.callP2p call).take = some take ∧ take.src = src ∧ take.label = tag := by
    cases call with
    | send data dest label => cases receives
    | recv length sender label | sendrecv data peer label =>
        cases receives
        exact ⟨_, rfl, rfl, rfl⟩
  simp only [Channels.Answers, wants] at answers
  obtain ⟨another, payload, awaits, _, rfl⟩ := answers
  obtain ⟨other, there, sends⟩ := matched.sends
  have also : Channels.Awaits (Mpi.family programs) rank index take place data := by
    refine ⟨awaits.call, ⟨Mpi.callP2p other, ?_, ?_⟩, ?_⟩
    · rw [Mpi.family, List.getElem?_map, there, Option.map_some]
    · rw [← sends]
      cases other <;> rfl
    · have turn := matched.turn
      rwa [← posted_sent, ← taken_received, List.map_take, List.map_take] at turn
  rw [(Channels.awaits_unique _ rank index take another place payload data awaits also).2]

-- A family of programs that completes under MPI completes over PMI2, with the same
-- bytes received, exactly when it is in step.
theorem completes_as_mpi_iff (counted : NulCounted) (hosts : Fin size → Text) (programs : Fin size → List (P2p size))
    (replies : Fin size → List (Option Blob))
    (completes : Channels.Completes (Channels.start (Mpi.family programs)) replies) :
    Completes (family counted hosts (p2pCalls programs)).start (fun rank => (replies rank).map Mpi.reply) ↔
      InStep programs := by
  rw [family_completes_iff]
  have answered := ((Channels.completes_iff _ replies).mp completes).1
  have lengths : ∀ rank, (replies rank).length = (programs rank).length := by
    intro rank
    rw [(answered rank).1, Mpi.family, List.length_map]
  have counts : ∀ rank, (p2pCalls programs rank).length = (programs rank).length := fun rank => List.length_map _
  constructor
  · rintro ⟨level, served⟩
    refine ⟨fun rank other => by rw [← counts, ← counts, level rank other], ?_⟩
    intro rank index call len src tag found receives
    have inside : index < ((replies rank).map Mpi.reply).length := by
      rw [List.length_map, lengths]
      exact (List.getElem?_eq_some_iff.mp found).1
    have here := (served rank).2 index (.p2p call) _ (by rw [p2pCalls, List.getElem?_map, found, Option.map_some])
      (List.getElem?_eq_getElem inside)
    by_cases own : src = rank
    · subst own
      exact absurd here (self_receive_unserved hosts counted programs src index call len tag _ found receives)
    · obtain ⟨place, data, matched, early, length, small, _⟩ :=
        (receive_served hosts counted programs rank index call len src tag _ receives own).mp here
      exact ⟨own, place, data, matched, early, length, small⟩
  · rintro ⟨level, each⟩
    refine ⟨fun rank other => by rw [counts, counts, level rank other], ?_⟩
    intro rank
    refine ⟨by rw [List.length_map, lengths, counts], ?_⟩
    intro index call reply found replied
    rw [p2pCalls, List.getElem?_map, Option.map_eq_some_iff] at found
    obtain ⟨message, there, rfl⟩ := found
    rw [List.getElem?_map, Option.map_eq_some_iff] at replied
    obtain ⟨answer, given, rfl⟩ := replied
    have answers := (answered rank).2 index (Mpi.callP2p message) answer
      (by rw [Mpi.family, List.getElem?_map, there, Option.map_some]) given
    cases receives : message.receives with
    | none =>
        apply (send_served hosts counted programs rank index message _ receives).mpr
        cases message with
        | send data dest tag =>
            cases answers
            rfl
        | recv len src tag => cases receives
        | sendrecv data peer tag => cases receives
    | some wanted =>
        obtain ⟨len, src, tag⟩ := wanted
        obtain ⟨apart, place, data, matched, early, length, small⟩ := each rank index message len src tag there receives
        apply (receive_served hosts counted programs rank index message len src tag _ receives apart).mpr
        refine ⟨place, data, matched, early, length, small, ?_⟩
        rw [mpi_matched programs rank index message len src tag place data receives there matched answer answers]
        rfl

def pairPrograms : Fin 2 → List (P2p 2)
  | 0 => [.sendrecv [7] 1 0]
  | 1 => [.sendrecv [8] 0 0]

theorem pair_completes_as_mpi : Completes (family (fun _ _ => true) (fun _ => ['n', '0']) (p2pCalls pairPrograms)).start
    (fun rank => ((![[some [8]], [some [7]]] : Fin 2 → List (Option Blob)) rank).map Mpi.reply) := by
  apply (completes_as_mpi_iff (fun _ _ => true) (fun _ => ['n', '0']) pairPrograms _ ?_).mpr
  · refine ⟨by decide, ?_⟩
    intro rank index call len src tag found receives
    cases index with
    | succ index => fin_cases rank <;> simp [pairPrograms] at found
    | zero =>
        fin_cases rank <;> cases found <;> cases receives
        · exact ⟨by decide, 0, [8], ⟨⟨_, rfl, rfl⟩, rfl⟩, Nat.le_refl 0, rfl, by decide⟩
        · exact ⟨by decide, 0, [7], ⟨⟨_, rfl, rfl⟩, rfl⟩, Nat.le_refl 0, rfl, by decide⟩
  · exact Channels.completes_of_run _ _ [0, 1, 0, 1] (by decide +kernel)

def gatherPrograms : Fin 3 → List (P2p 3)
  | 0 => [.recv 1 1 0, .recv 1 2 0]
  | 1 => [.send [1] 0 0]
  | 2 => [.send [2] 0 0]

def ascendingPrograms : Fin 3 → List (P2p 3)
  | 0 => [.sendrecv [1] 1 0, .sendrecv [2] 2 0]
  | 1 => [.sendrecv [10] 0 0, .sendrecv [12] 2 0]
  | 2 => [.sendrecv [20] 0 0, .sendrecv [21] 1 0]

theorem gather_and_exchange_fail :
    (∃ replies, Channels.Completes (Channels.start (Mpi.family gatherPrograms)) replies ∧
      ¬ Completes (family (fun _ _ => true) (fun _ => ['n', '0']) (p2pCalls gatherPrograms)).start
        fun rank => (replies rank).map Mpi.reply) ∧
    ∃ replies, Channels.Completes (Channels.start (Mpi.family ascendingPrograms)) replies ∧
      ¬ Completes (family (fun _ _ => true) (fun _ => ['n', '0']) (p2pCalls ascendingPrograms)).start
        fun rank => (replies rank).map Mpi.reply := by
  constructor
  · refine ⟨![[some [1], some [2]], [none], [none]],
      Channels.completes_of_run _ _ [1, 1, 2, 2, 0, 0, 0, 0] (by decide +kernel), ?_⟩
    intro completes
    have level := ((family_completes_iff _ _ _ _).mp completes).1 0 1
    exact absurd level (by decide)
  · refine ⟨![[some [10], some [20]], [some [1], some [21]], [some [2], some [12]]],
      Channels.completes_of_run _ _ [0, 1, 2, 0, 0, 1, 1, 2, 2, 0, 1, 2] (by decide +kernel), ?_⟩
    intro completes
    have served := (((family_completes_iff _ _ _ _).mp completes).2 2).2 0 _ _ rfl rfl
    obtain ⟨place, data, matched, early, _⟩ := (receive_served _ _ ascendingPrograms 2 0 _ _ 0 0 _ rfl (by decide)).mp served
    obtain ⟨call, found, sends⟩ := matched.sends
    rw [Nat.le_zero.mp early] at found
    cases found
    cases sends

end OpenGda.Pmi2
