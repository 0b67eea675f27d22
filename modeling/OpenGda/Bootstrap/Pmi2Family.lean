import OpenGda.Bootstrap.Pmi2Plan

set_option autoImplicit false

-- A family of call sequences, one for each rank, on the store they share: no key is
-- put twice, and exactly when the family completes.
namespace OpenGda.Pmi2

open FencedStore Machine

variable {size : Nat}

theorem ag_key_injective (epoch other : Nat) (rank another : Fin size) (same : agKey epoch rank = agKey other another) :
    epoch = other ∧ rank = another := by
  have parts := (kvs_key_injective _ _ _ _ same).2
  simp only [List.cons.injEq, Nat.cast_inj, and_true] at parts
  exact ⟨parts.1, Fin.ext parts.2⟩

theorem bc_key_injective (epoch other : Nat) (rank another : Fin size) (same : bcKey epoch rank = bcKey other another) :
    epoch = other ∧ rank = another := by
  have parts := (kvs_key_injective _ _ _ _ same).2
  simp only [List.cons.injEq, Nat.cast_inj, and_true] at parts
  exact ⟨parts.1, Fin.ext parts.2⟩

theorem p2p_key_injective (seq other : Nat) (src dst sender receiver : Fin size) (tag label : Int)
    (same : p2pKey seq src dst tag = p2pKey other sender receiver label) :
    seq = other ∧ src = sender ∧ dst = receiver ∧ tag = label := by
  have parts := (kvs_key_injective _ _ _ _ same).2
  simp only [List.cons.injEq, Nat.cast_inj, and_true] at parts
  exact ⟨parts.1, Fin.ext parts.2.1, Fin.ext parts.2.2.1, parts.2.2.2⟩

theorem tags_apart (tag other : Tag) (parts others : List Int) (different : tag ≠ other) :
    kvsKey tag parts ≠ kvsKey other others := fun same => different (kvs_key_injective _ _ _ _ same).1

inductive OwnKey (boot : Bootstrap size) : Text → Prop where
  | ag (epoch : Nat) (later : boot.collEpoch ≤ epoch) : OwnKey boot (agKey epoch boot.rank)
  | bc (epoch : Nat) (later : boot.collEpoch ≤ epoch) : OwnKey boot (bcKey epoch boot.rank)
  | p2p (seq : Nat) (dst : Fin size) (tag : Int) (later : boot.p2pSeq boot.rank dst tag ≤ seq) :
      OwnKey boot (p2pKey seq boot.rank dst tag)

theorem own_rank (boot other : Bootstrap size) (key : Text) (own : OwnKey boot key) (also : OwnKey other key) :
    boot.rank = other.rank := by
  generalize named : key = name at also
  cases own with
  | ag epoch later =>
      cases also with
      | ag => exact (ag_key_injective _ _ _ _ named).2
      | bc => exact absurd named (tags_apart _ _ _ _ (by decide))
      | p2p => exact absurd named (tags_apart _ _ _ _ (by decide))
  | bc epoch later =>
      cases also with
      | ag => exact absurd named (tags_apart _ _ _ _ (by decide))
      | bc => exact (bc_key_injective _ _ _ _ named).2
      | p2p => exact absurd named (tags_apart _ _ _ _ (by decide))
  | p2p seq dst tag later =>
      cases also with
      | ag => exact absurd named (tags_apart _ _ _ _ (by decide))
      | bc => exact absurd named (tags_apart _ _ _ _ (by decide))
      | p2p => exact (p2p_key_injective _ _ _ _ _ _ _ _ named).2.1

theorem next_seq_grows (boot : Bootstrap size) (src dst : Fin size) (tag : Int) (src' dst' : Fin size) (tag' : Int) :
    boot.p2pSeq src' dst' tag' ≤ (nextP2pSeq boot src dst tag).2.p2pSeq src' dst' tag' := by
  simp only [nextP2pSeq]
  split
  · rename_i same
    rw [same.1, same.2.1, same.2.2]
    exact Nat.le_succ _
  · exact Nat.le_refl _

theorem next_seq_own (boot : Bootstrap size) (src dst : Fin size) (tag : Int) :
    (nextP2pSeq boot src dst tag).2.p2pSeq src dst tag = boot.p2pSeq src dst tag + 1 := by
  simp [nextP2pSeq]

theorem advance_grows (boot : Bootstrap size) (call : Call size) :
    (advance boot call).rank = boot.rank ∧ boot.collEpoch ≤ (advance boot call).collEpoch ∧
      ∀ src dst tag, boot.p2pSeq src dst tag ≤ (advance boot call).p2pSeq src dst tag := by
  cases call with
  | allgather | allgatherFixed | broadcast => exact ⟨rfl, Nat.le_succ _, fun _ _ _ => Nat.le_refl _⟩
  | barrier => exact ⟨rfl, Nat.le_refl _, fun _ _ _ => Nat.le_refl _⟩
  | p2p call =>
      cases call with
      | send data dest tag => exact ⟨rfl, Nat.le_refl _, next_seq_grows boot boot.rank dest tag⟩
      | recv len src tag => exact ⟨rfl, Nat.le_refl _, next_seq_grows boot src boot.rank tag⟩
      | sendrecv data peer tag =>
          refine ⟨rfl, Nat.le_refl _, ?_⟩
          intro src dst label
          exact Nat.le_trans (next_seq_grows boot boot.rank peer tag src dst label) (next_seq_grows _ peer boot.rank tag _ _ _)

theorem own_advance (boot : Bootstrap size) (call : Call size) (key : Text) (own : OwnKey (advance boot call) key) :
    OwnKey boot key := by
  obtain ⟨rank, epoch, seq⟩ := advance_grows boot call
  cases own with
  | ag number later => exact rank ▸ .ag number (Nat.le_trans epoch later)
  | bc number later => exact rank ▸ .bc number (Nat.le_trans epoch later)
  | p2p number dst tag later =>
      rw [rank] at later ⊢
      exact .p2p number dst tag (Nat.le_trans (seq boot.rank dst tag) later)

theorem not_own_ag (boot : Bootstrap size) (epoch : Nat) (rank : Fin size) (used : epoch < boot.collEpoch) :
    ¬ OwnKey boot (agKey epoch rank) := by
  intro own
  generalize named : agKey epoch rank = key at own
  cases own with
  | ag number later =>
      rw [(ag_key_injective _ _ _ _ named).1] at used
      exact absurd later (Nat.not_le.mpr used)
  | bc => exact absurd named (tags_apart _ _ _ _ (by decide))
  | p2p => exact absurd named (tags_apart _ _ _ _ (by decide))

theorem not_own_bc (boot : Bootstrap size) (epoch : Nat) (rank : Fin size) (used : epoch < boot.collEpoch) :
    ¬ OwnKey boot (bcKey epoch rank) := by
  intro own
  generalize named : bcKey epoch rank = key at own
  cases own with
  | ag => exact absurd named (tags_apart _ _ _ _ (by decide))
  | bc number later =>
      rw [(bc_key_injective _ _ _ _ named).1] at used
      exact absurd later (Nat.not_le.mpr used)
  | p2p => exact absurd named (tags_apart _ _ _ _ (by decide))

theorem not_own_p2p (boot : Bootstrap size) (seq : Nat) (src dst : Fin size) (tag : Int)
    (used : seq < boot.p2pSeq src dst tag) : ¬ OwnKey boot (p2pKey seq src dst tag) := by
  intro own
  generalize named : p2pKey seq src dst tag = key at own
  cases own with
  | ag => exact absurd named (tags_apart _ _ _ _ (by decide))
  | bc => exact absurd named (tags_apart _ _ _ _ (by decide))
  | p2p number receiver label later =>
      obtain ⟨rfl, rfl, rfl, rfl⟩ := p2p_key_injective _ _ _ _ _ _ _ _ named
      exact absurd later (Nat.not_le.mpr used)

theorem call_put_own (boot : Bootstrap size) (call : Call size) (put : Text × Blob) (puts : callPut boot call = some put) :
    OwnKey boot put.1 ∧ ¬ OwnKey (advance boot call) put.1 := by
  cases call with
  | allgather data | allgatherFixed data =>
      cases puts
      exact ⟨.ag _ (Nat.le_refl _), not_own_ag _ _ _ (Nat.lt_succ_self _)⟩
  | broadcast value root =>
      simp only [callPut] at puts
      split_ifs at puts with root
      cases puts
      rw [← root]
      exact ⟨.bc _ (Nat.le_refl _), not_own_bc _ _ _ (Nat.lt_succ_self _)⟩
  | barrier => cases puts
  | p2p call =>
      cases call with
      | send data dest tag =>
          cases puts
          refine ⟨.p2p _ dest tag (Nat.le_refl _), not_own_p2p _ _ _ _ _ ?_⟩
          rw [advance, next_seq_own]
          exact Nat.lt_succ_self _
      | recv len src tag => cases puts
      | sendrecv data peer tag =>
          cases puts
          refine ⟨.p2p _ peer tag (Nat.le_refl _), not_own_p2p _ _ _ _ _ ?_⟩
          have after := next_seq_grows (nextP2pSeq boot boot.rank peer tag).2 peer boot.rank tag boot.rank peer tag
          rw [next_seq_own] at after
          exact after

theorem plan_own (boot : Bootstrap size) (phase : Nat) (calls : List (Call size)) (entry : Entry Text Text)
    (member : entry ∈ plan boot phase calls) : OwnKey boot entry.key := by
  induction calls generalizing boot phase with
  | nil => cases member
  | cons call rest ih =>
      rcases List.mem_append.mp member with own | later
      · obtain ⟨put, puts, rfl⟩ := List.mem_map.mp own
        exact (call_put_own boot call put (Option.mem_toList.mp puts)).1
      · exact own_advance boot call _ (ih (advance boot call) (phase + 1) later)

theorem plan_unique (boot : Bootstrap size) (phase : Nat) (calls : List (Call size)) (entry other : Entry Text Text)
    (one : entry ∈ plan boot phase calls) (two : other ∈ plan boot phase calls) (same : entry.key = other.key) :
    entry = other := by
  induction calls generalizing boot phase with
  | nil => cases one
  | cons call rest ih =>
      have apart : ∀ put ∈ (callPut boot call).toList, ∀ late ∈ plan (advance boot call) (phase + 1) rest,
          (putEntry phase put).key ≠ late.key := by
        intro put puts late member equal
        apply (call_put_own boot call put (Option.mem_toList.mp puts)).2
        have own := plan_own _ _ _ late member
        rwa [← equal] at own
      rcases List.mem_append.mp one with first | later
      · obtain ⟨put, puts, rfl⟩ := List.mem_map.mp first
        rcases List.mem_append.mp two with second | late
        · obtain ⟨another, also, rfl⟩ := List.mem_map.mp second
          rw [Option.mem_toList.mp puts] at also
          rw [Option.mem_toList.mp also |> Option.some.inj |> Eq.symm]
        · exact absurd same (apart put puts other late)
      · rcases List.mem_append.mp two with second | late
        · obtain ⟨another, also, rfl⟩ := List.mem_map.mp second
          exact absurd same.symm (apart another also entry later)
        · exact ih (advance boot call) (phase + 1) later late

def hostEntries (hosts : Fin size → Text) : List (Entry Text Text) :=
  (List.finRange size).map fun rank => ⟨kvsKey .host [rank.val], hosts rank, 0⟩

def allEntries (hosts : Fin size → Text) (calls : Fin size → List (Call size)) : List (Entry Text Text) :=
  hostEntries hosts ++ (List.finRange size).flatMap fun rank => plan (construct rank) 1 (calls rank)

def answersOf (entries : List (Entry Text Text)) (key : Text) : Option Text :=
  (entries.find? fun entry => decide (entry.key = key)).map Entry.value

def family (counted : NulCounted) (hosts : Fin size → Text) (calls : Fin size → List (Call size)) :
    Setting size Text Text String (List Reply) where
  puts := hostEntries hosts
  base := 1
  progs := fun rank => runCalls counted (construct rank) (calls rank)
  answers := answersOf (allEntries hosts calls)

theorem own_not_host (boot : Bootstrap size) (key : Text) (own : OwnKey boot key) (parts : List Int) :
    key ≠ kvsKey .host parts := by
  cases own <;> exact tags_apart _ _ _ _ (by decide)

theorem entries_unique (hosts : Fin size → Text) (calls : Fin size → List (Call size)) (entry other : Entry Text Text)
    (one : entry ∈ allEntries hosts calls) (two : other ∈ allEntries hosts calls) (same : entry.key = other.key) :
    entry = other := by
  rcases List.mem_append.mp one with first | first
  · obtain ⟨rank, _, rfl⟩ := List.mem_map.mp first
    rcases List.mem_append.mp two with second | second
    · obtain ⟨another, _, rfl⟩ := List.mem_map.mp second
      have parts := (kvs_key_injective _ _ _ _ same).2
      simp only [List.cons.injEq, Nat.cast_inj, and_true] at parts
      rw [Fin.ext parts]
    · obtain ⟨another, _, member⟩ := List.mem_flatMap.mp second
      exact absurd same.symm (own_not_host _ _ (plan_own _ _ _ other member) _)
  · obtain ⟨rank, _, member⟩ := List.mem_flatMap.mp first
    have own := plan_own _ _ _ entry member
    rcases List.mem_append.mp two with second | second
    · obtain ⟨another, _, rfl⟩ := List.mem_map.mp second
      exact absurd same (own_not_host _ _ own _)
    · obtain ⟨another, _, also⟩ := List.mem_flatMap.mp second
      have ranks : rank = another :=
        own_rank (construct rank) (construct another) _ own (same ▸ plan_own _ _ _ other also)
      subst ranks
      exact plan_unique _ _ _ entry other member also same

theorem answers_of_member (hosts : Fin size → Text) (calls : Fin size → List (Call size)) (entry : Entry Text Text)
    (member : entry ∈ allEntries hosts calls) : answersOf (allEntries hosts calls) entry.key = some entry.value := by
  cases found : (allEntries hosts calls).find? (fun other => decide (other.key = entry.key)) with
  | none =>
      have missing := List.find?_eq_none.mp found entry member
      simp at missing
  | some first =>
      have same := List.find?_some found
      simp only [decide_eq_true_eq] at same
      rw [answersOf, found, Option.map_some,
        entries_unique hosts calls first entry (List.mem_of_find?_eq_some found) member same]

theorem family_puts (counted : NulCounted) (hosts : Fin size → Text) (calls : Fin size → List (Call size))
    (entry : Entry Text Text) (puts : (family counted hosts calls).Puts entry) : entry ∈ allEntries hosts calls := by
  rcases puts with host | ⟨rank, member⟩
  · exact List.mem_append_left _ host
  · apply List.mem_append_right
    exact List.mem_flatMap.mpr ⟨rank, List.mem_finRange rank, run_entries counted _ _ 1 _ entry member⟩

theorem family_sound (counted : NulCounted) (hosts : Fin size → Text) (calls : Fin size → List (Call size)) :
    Sound (family counted hosts calls) where
  before := by
    intro entry member
    obtain ⟨rank, _, rfl⟩ := List.mem_map.mp member
    exact Nat.one_pos
  truthful := fun entry puts => answers_of_member hosts calls entry (family_puts counted hosts calls entry puts)
  strict := fun rank => run_strict counted (construct rank) (calls rank)

theorem call_gets_not_host (boot : Bootstrap size) (call : Call size) (key : Text) (wanted : key ∈ callGets boot call)
    (parts : List Int) : key ≠ kvsKey .host parts := by
  cases call with
  | allgather | allgatherFixed =>
      obtain ⟨rank, _, rfl⟩ := List.mem_map.mp wanted
      exact tags_apart _ _ _ _ (by decide)
  | broadcast value root =>
      simp only [callGets] at wanted
      split_ifs at wanted with own
      · cases wanted
      · rw [List.mem_singleton.mp wanted]
        exact tags_apart _ _ _ _ (by decide)
  | barrier => cases wanted
  | p2p call =>
      cases call with
      | send => cases wanted
      | recv | sendrecv =>
          rw [List.mem_singleton.mp wanted]
          exact tags_apart _ _ _ _ (by decide)

def PutBy (calls : Fin size → List (Call size)) (key : Text) (data : Blob) (owner : Fin size) (place : Nat) : Prop :=
  ∃ call, (calls owner)[place]? = some call ∧
    callPut (bootAfter (construct owner) ((calls owner).take place)) call = some (key, data)

theorem put_by_entry (hosts : Fin size → Text) (calls : Fin size → List (Call size)) (key : Text) (data : Blob)
    (owner : Fin size) (place : Nat) (puts : PutBy calls key data owner place) :
    answersOf (allEntries hosts calls) key = some (hexEncode data) := by
  obtain ⟨call, found, put⟩ := puts
  apply answers_of_member hosts calls (putEntry (1 + place) (key, data))
  apply List.mem_append_right
  refine List.mem_flatMap.mpr ⟨owner, List.mem_finRange owner, ?_⟩
  exact (mem_plan _ _ _ _).mpr ⟨place, call, (key, data), found, put, rfl⟩

structure Served (hosts : Fin size → Text) (counted : NulCounted) (calls : Fin size → List (Call size)) (rank : Fin size)
    (index : Nat) (call : Call size) (reply : Reply) : Prop where
  replies : outcome (answersOf (allEntries hosts calls))
    (callReply counted (bootAfter (construct rank) ((calls rank).take index)) call) = .ok reply
  timely : ∀ key ∈ callGets (bootAfter (construct rank) ((calls rank).take index)) call,
    ∃ owner place data, PutBy calls key data owner place ∧ place ≤ index

theorem family_completes_iff (counted : NulCounted) (hosts : Fin size → Text) (calls : Fin size → List (Call size))
    (replies : Fin size → List Reply) :
    Completes (family counted hosts calls).start replies ↔
      (∀ rank other, (calls rank).length = (calls other).length) ∧
        ∀ rank, (replies rank).length = (calls rank).length ∧
          ∀ index call reply, (calls rank)[index]? = some call → (replies rank)[index]? = some reply →
            Served hosts counted calls rank index call reply := by
  have sound := family_sound counted hosts calls
  rw [completes_iff (family counted hosts calls) sound replies]
  have whole := fun rank => run_whole counted (construct rank) (calls rank) 1 (answersOf (allEntries hosts calls))
    (replies rank)
  constructor
  · rintro ⟨level, visible, ends⟩
    refine ⟨?_, ?_⟩
    · intro rank other
      rw [← (whole rank (ends rank)).1, ← (whole other (ends other)).1]
      exact level rank other
    · intro rank
      obtain ⟨length, each⟩ := (run_outcome counted _ _ _ _).mp (ends rank)
      refine ⟨length, fun index call reply found replied => ⟨each index call reply found replied, ?_⟩⟩
      intro key wanted
      obtain ⟨entry, puts, rfl, before⟩ := visible rank (key, 1 + index + 1)
        (((whole rank (ends rank)).2.2 _).mpr ⟨index, call, found, wanted, rfl⟩)
      rcases puts with host | ⟨owner, member⟩
      · obtain ⟨other, _, rfl⟩ := List.mem_map.mp host
        exact absurd rfl (call_gets_not_host _ _ _ wanted _)
      · rw [Setting.trace, family, (whole owner (ends owner)).2.1, mem_plan] at member
        obtain ⟨place, other, ⟨name, data⟩, there, put, rfl⟩ := member
        refine ⟨owner, place, data, ⟨other, there, put⟩, ?_⟩
        simp only [putEntry] at before
        omega
  · rintro ⟨lengths, served⟩
    have ends : ∀ rank, outcome (answersOf (allEntries hosts calls))
        (runCalls counted (construct rank) (calls rank)) = .ok (replies rank) := by
      intro rank
      obtain ⟨length, each⟩ := served rank
      exact (run_outcome counted _ _ _ _).mpr ⟨length, fun index call reply found replied =>
        (each index call reply found replied).replies⟩
    refine ⟨?_, ?_, ends⟩
    · intro rank other
      rw [Setting.trace, Setting.trace, family, (whole rank (ends rank)).1, (whole other (ends other)).1]
      exact lengths rank other
    · intro rank demand member
      obtain ⟨index, call, found, wanted, time⟩ := ((whole rank (ends rank)).2.2 demand).mp member
      obtain ⟨length, each⟩ := served rank
      have inside : index < (replies rank).length := length ▸ (List.getElem?_eq_some_iff.mp found).1
      obtain ⟨owner, place, data, ⟨other, there, put⟩, early⟩ :=
        (each index call _ found (List.getElem?_eq_getElem inside)).timely demand.1 wanted
      refine ⟨putEntry (1 + place) (demand.1, data), .inr ⟨owner, ?_⟩, rfl, ?_⟩
      · rw [Setting.trace, family, (whole owner (ends owner)).2.1, mem_plan]
        exact ⟨place, other, (demand.1, data), there, put, rfl⟩
      · simp only [putEntry, time]
        omega

theorem family_keys (counted : NulCounted) (hosts : Fin size → Text) (calls : Fin size → List (Call size))
    (state : State size Text Text String (List Reply))
    (reached : Reach step always (family counted hosts calls).start state) (entry other : Entry Text Text)
    (one : entry ∈ state.puts) (two : other ∈ state.puts) (same : entry.key = other.key) : entry = other := by
  have inv := reachable_tracking _ (family_sound counted hosts calls) state reached
  exact entries_unique hosts calls entry other (family_puts counted hosts calls entry (inv.puts entry one))
    (family_puts counted hosts calls other (inv.puts other two)) same

end OpenGda.Pmi2
