import OpenGda.Bootstrap.Pmi2Family

set_option autoImplicit false

-- The collectives of BootstrapPMI2, called alike on all ranks: everybody gets what
-- the ranks passed to that very call.
namespace OpenGda.Pmi2

open FencedStore Machine

variable {size : Nat}

-- One call on all ranks, with what each of them passes; a T has the same size everywhere.
inductive Collective (size : Nat) where
  | allgather (data : Fin size → Blob)
  | allgatherFixed (sizeofT : Nat) (value : Fin size → Blob) (sized : ∀ rank, (value rank).length = sizeofT)
  | broadcast (root : Fin size) (sizeofT : Nat) (value : Fin size → Blob) (sized : ∀ rank, (value rank).length = sizeofT)
  | barrier

def Collective.call (collective : Collective size) (rank : Fin size) : Call size :=
  match collective with
  | .allgather data => .allgather (data rank)
  | .allgatherFixed _ value _ => .allgatherFixed (value rank)
  | .broadcast root _ value _ => .broadcast (value rank) root
  | .barrier => .barrier

def Collective.reply : Collective size → Reply
  | .allgather data => .blobs ((List.finRange size).map data)
  | .allgatherFixed _ value _ => .blobs ((List.finRange size).map value)
  | .broadcast root _ value _ => .blob (value root)
  | .barrier => .nothing

def Collective.Small : Collective size → Prop
  | .allgather data => ∀ rank, (data rank).length < maxBlob
  | .allgatherFixed sizeofT _ _ | .broadcast _ sizeofT _ _ => sizeofT < maxBlob
  | .barrier => True

def Collective.counts : Collective size → Bool
  | .barrier => false
  | _ => true

def callsOf (collectives : List (Collective size)) (rank : Fin size) : List (Call size) := collectives.map (·.call rank)

theorem after_collectives (boot : Bootstrap size) (rank : Fin size) (collectives : List (Collective size)) :
    (bootAfter boot (callsOf collectives rank)).rank = boot.rank ∧
      (bootAfter boot (callsOf collectives rank)).collEpoch = boot.collEpoch + collectives.countP Collective.counts := by
  induction collectives generalizing boot with
  | nil => exact ⟨rfl, rfl⟩
  | cons collective rest ih =>
      obtain ⟨same, epoch⟩ := ih (advance boot (collective.call rank))
      rw [callsOf, List.map_cons, bootAfter, List.foldl_cons]
      refine ⟨same.trans (advance_grows boot _).1, epoch.trans ?_⟩
      rw [List.countP_cons]
      cases collective <;> simp only [Collective.call, advance, nextCollEpoch, Collective.counts] <;> simp <;> omega

theorem fetch_all_ok (counted : NulCounted) (rank : Nat) (answers : Text → Option Text) (ranks : List (Fin size))
    (key : Fin size → Text) (data : Fin size → Blob) (answered : ∀ other, answers (key other) = some (hexEncode (data other)))
    (small : ∀ other, (data other).length < maxBlob) :
    outcome answers (fetchAll counted rank (ranks.map key)) = .ok (ranks.map data) := by
  induction ranks with
  | nil => rfl
  | cons other rest ih =>
      have first : outcome answers (fetchBlob counted rank (key other)) = .ok (data other) :=
        (fetch_blob_outcome counted rank (key other) answers (data other) (answered other) _).mpr ⟨rfl, small other⟩
      simp only [List.map_cons, fetchAll, bind_eq, pure_eq, outcome_bind, first, ih, Except.bind, outcome]

theorem collective_served (counted : NulCounted) (hosts : Fin size → Text) (collectives : List (Collective size))
    (rank : Fin size) (index : Nat) (collective : Collective size) (found : collectives[index]? = some collective)
    (small : collective.Small) :
    Served hosts counted (callsOf collectives) rank index (collective.call rank) collective.reply := by
  have boots : ∀ other, (bootAfter (construct other) ((callsOf collectives other).take index)).rank = other ∧
      (bootAfter (construct other) ((callsOf collectives other).take index)).collEpoch =
        (collectives.take index).countP Collective.counts := by
    intro other
    have after := after_collectives (construct other) other (collectives.take index)
    rw [callsOf, List.map_take] at after
    simpa [construct, callsOf] using after
  have called : ∀ other, (callsOf collectives other)[index]? = some (collective.call other) := by
    intro other
    rw [callsOf, List.getElem?_map, found, Option.map_some]
  have gathers : ∀ data : Fin size → Blob, (∀ other, callPut
      (bootAfter (construct other) ((callsOf collectives other).take index)) (collective.call other) =
        some (agKey ((collectives.take index).countP Collective.counts) other, data other)) →
      ∀ other, PutBy (callsOf collectives) (agKey ((collectives.take index).countP Collective.counts) other) (data other)
        other index := fun data puts other => ⟨collective.call other, called other, puts other⟩
  cases collective with
  | allgather data =>
      have put := gathers data fun other => by
        simp only [Collective.call, callPut, (boots other).1, (boots other).2]
      refine ⟨?_, ?_⟩
      · simp only [Collective.call, callReply, (boots rank).2, outcome_bind]
        rw [fetch_all_ok counted _ _ _ _ data (fun other => put_by_entry hosts _ _ _ _ _ (put other)) small]
        rfl
      · intro key wanted
        simp only [Collective.call, callGets, (boots rank).2] at wanted
        obtain ⟨other, _, rfl⟩ := List.mem_map.mp wanted
        exact ⟨other, index, data other, put other, Nat.le_refl index⟩
  | allgatherFixed sizeofT value sized =>
      have put := gathers value fun other => by
        simp only [Collective.call, callPut, (boots other).1, (boots other).2]
      refine ⟨?_, ?_⟩
      · simp only [Collective.call, callReply, (boots rank).2, outcome_bind]
        rw [fetch_all_ok counted _ _ _ _ value (fun other => put_by_entry hosts _ _ _ _ _ (put other))
          fun other => (sized other).trans_lt small]
        simp [Except.bind, sized, outcome, Collective.reply]
      · intro key wanted
        simp only [Collective.call, callGets, (boots rank).2] at wanted
        obtain ⟨other, _, rfl⟩ := List.mem_map.mp wanted
        exact ⟨other, index, value other, put other, Nat.le_refl index⟩
  | broadcast root sizeofT value sized =>
      have put : PutBy (callsOf collectives) (bcKey ((collectives.take index).countP Collective.counts) root) (value root)
          root index := by
        refine ⟨_, called root, ?_⟩
        simp only [Collective.call, callPut, (boots root).1, (boots root).2, if_true]
      refine ⟨?_, ?_⟩
      · simp only [Collective.call, callReply, (boots rank).1, (boots rank).2]
        by_cases own : rank = root
        · rw [if_pos own, own]
          rfl
        · have fetched := (fetch_blob_outcome counted rank _ _ (value root) (put_by_entry hosts _ _ _ _ _ put) _).mpr
            ⟨rfl, (sized root).trans_lt small⟩
          rw [if_neg own, outcome_bind, fetched]
          simp [Except.bind, sized, outcome, Collective.reply]
      · intro key wanted
        simp only [Collective.call, callGets, (boots rank).1, (boots rank).2] at wanted
        split_ifs at wanted with own
        · cases wanted
        · rw [List.mem_singleton.mp wanted]
          exact ⟨root, index, value root, put, Nat.le_refl index⟩
  | barrier => exact ⟨rfl, by simp [Collective.call, callGets]⟩

theorem collectives_return_what_was_passed (counted : NulCounted) (hosts : Fin size → Text)
    (collectives : List (Collective size)) (small : ∀ collective ∈ collectives, collective.Small) :
    Completes (family counted hosts (callsOf collectives)).start (fun _ => collectives.map Collective.reply) ∧
      ∀ state, Reach step always (family counted hosts (callsOf collectives)).start state →
        ∀ entry ∈ state.puts, ∀ other ∈ state.puts, entry.key = other.key → entry.value = other.value := by
  refine ⟨?_, ?_⟩
  · apply (family_completes_iff counted hosts (callsOf collectives) _).mpr
    refine ⟨fun rank other => by rw [callsOf, callsOf, List.length_map, List.length_map], ?_⟩
    intro rank
    refine ⟨by rw [callsOf, List.length_map, List.length_map], ?_⟩
    intro index call reply found replied
    rw [callsOf, List.getElem?_map, Option.map_eq_some_iff] at found
    obtain ⟨collective, there, rfl⟩ := found
    rw [List.getElem?_map, there] at replied
    cases replied
    exact collective_served counted hosts collectives rank index collective there
      (small collective (List.mem_of_getElem? there))
  · intro state reached entry one other two same
    rw [family_keys counted hosts (callsOf collectives) state reached entry other one two same]

def sampleCollectives : List (Collective 3) :=
  [.allgather fun _ => [], .barrier, .broadcast 1 2 (fun rank => [0, UInt8.ofNat rank.val]) (fun _ => rfl),
    .allgather fun rank => [UInt8.ofNat rank.val, 7]]

theorem sample_collectives_return : Completes
    (family (fun _ _ => true) (fun _ => ['n', '0']) (callsOf sampleCollectives)).start
    (fun _ => [.blobs [[], [], []], .nothing, .blob [0, 1], .blobs [[0, 7], [1, 7], [2, 7]]]) := by
  apply (collectives_return_what_was_passed (fun _ _ => true) (fun _ => ['n', '0']) sampleCollectives ?_).1
  intro collective member
  simp only [sampleCollectives, List.mem_cons, List.not_mem_nil, or_false] at member
  rcases member with rfl | rfl | rfl | rfl <;> simp [Collective.Small, maxBlob]

end OpenGda.Pmi2
