import OpenGda.Bootstrap.Pmi2Family
import OpenGda.Lib.Tables

set_option autoImplicit false

-- The constructor of BootstrapPMI2: every rank publishes its host name, passes a fence
-- and takes its place among the ranks of its host from what all have published.
namespace OpenGda.Pmi2

open FencedStore Machine

variable {size : Nat}

abbrev Environment := String → Option Text

-- isspace of the C locale
def isSpace (c : Char) : Bool := decide (c = ' ' ∨ 9 ≤ c.toNat ∧ c.toNat ≤ 13)

def readDigits (text : Text) : Int :=
  (text.takeWhile Char.isDigit).foldl (fun value c => value * 10 + (c.toNat - '0'.toNat : Nat)) 0

-- std::atoi, which is strtol cut to an int.
def atoi (text : Text) : Int :=
  let value :=
    match text.dropWhile isSpace with
    | '-' :: rest => -readDigits rest
    | '+' :: rest => readDigits rest
    | rest => readDigits rest
  (max (-2 ^ 63) (min value (2 ^ 63 - 1))).bmod (2 ^ 32)

def lrVars : List String := ["SLURM_LOCALID", "FLUX_TASK_LOCAL_ID", "OMPI_COMM_WORLD_LOCAL_RANK", "MPI_LOCALRANKID"]
def lsVars : List String := ["SLURM_NTASKS_PER_NODE", "FLUX_LOCAL_RANKS"]

-- The loops over lr_vars and ls_vars, which go on while the value is negative.
def readVars (getenv : Environment) : List String → Int → Int
  | [], env => env
  | var :: rest, env => if env < 0 then readVars getenv rest (((getenv var).map atoi).getD env) else env

def disagrees (rank : Fin size) (what : String) (env : Int) (derived : Nat) : String :=
  "BootstrapPMI2 rank " ++ toString rank.val ++ ": env " ++ what ++ "=" ++ toString env ++
    " disagrees with hostname-derived " ++ toString derived ++ "; using derived.\n"

-- A std::string made from, or compared with, a char array.
def cString (buf : Text) : Text := buf.takeWhile fun c => decide (c ≠ nul)

def publishHostnameAndFence (rank : Fin size) (hostname : Text) : Pmi Unit := do
  .put (kvsKey .host [rank.val]) hostname (.done ())
  barrier

-- The loop of locality_map, with its one buffer for all the host names.
def localityLoop (counted : NulCounted) (rank : Fin size) (hostname : Text) :
    List (Fin size) → Text → (Fin size → Bool) → Pmi (Fin size → Bool)
  | [], _, same => .done same
  | i :: rest, val, same =>
      (kvsGet counted rank (kvsKey .host [i.val]) val).bind fun found =>
        match found with
        | none => .throw ("BootstrapPMI2::locality_map: KVS_Get failed for " ++ String.ofList (kvsKey .host [i.val]))
        | some (val, _) =>
            localityLoop counted rank hostname rest val (Function.update same i (decide (hostname = cString val)))

-- `val` is what is in char val[256] before anything is written there.
def localityMap (counted : NulCounted) (rank : Fin size) (hostname val : Text) : Pmi (Fin size → Bool) :=
  localityLoop counted rank hostname (List.finRange size) val fun _ => false

def derive (rank : Fin size) (same : Fin size → Bool) : List (Fin size) → Nat → Nat → Nat × Nat
  | [], lr, ls => (lr, ls)
  | i :: rest, lr, ls =>
      if same i then derive rank same rest (if i < rank then lr + 1 else lr) (ls + 1) else derive rank same rest lr ls

structure Identity (size : Nat) where
  boot : Bootstrap size
  hostname : Text
  localRank : Nat
  localSize : Nat
  stderr : List String

def identify (rank : Fin size) (hostname : Text) (getenv : Environment) (same : Fin size → Bool) : Identity size :=
  let envLr := readVars getenv lrVars (-1)
  let envLs := readVars getenv lsVars (-1)
  let derived := derive rank same (List.finRange size) 0 0
  { boot := construct rank
    hostname := hostname
    localRank := derived.1
    localSize := derived.2
    stderr := (if 0 ≤ envLr ∧ envLr ≠ derived.1 then [disagrees rank "local_rank" envLr derived.1] else []) ++
      (if 0 < envLs ∧ envLs ≠ derived.2 then [disagrees rank "local_size" envLs derived.2] else []) }

def resolveLocalIdentity (counted : NulCounted) (rank : Fin size) (hostname : Text) (getenv : Environment) (val : Text) :
    Pmi (Identity size) := do
  let same ← localityMap counted rank hostname val
  return identify rank hostname getenv same

def hostBuffer (name : Text) : Text := fillBuffer (List.replicate 255 nul) name ++ [nul]

-- PMI2_Init has given the rank and the size, and puts and fences succeed. gethostname gives
-- a name, or fails.
def bootstrapPMI2 (counted : NulCounted) (rank : Fin size) (gethostname : Option Text) (getenv : Environment)
    (val : Text) : Pmi (Identity size) :=
  match gethostname with
  | none => .throw "BootstrapPMI2: gethostname failed"
  | some name =>
      let host := hostBuffer name
      if host.getD 0 nul = nul then .throw "BootstrapPMI2: gethostname returned empty string"
      else do
        publishHostnameAndFence rank (cString host)
        resolveLocalIdentity counted rank (cString host) getenv val

structure Host where
  name : Text
  nonempty : name ≠ []
  short : name.length ≤ 255
  plain : nul ∉ name

structure Launch (size : Nat) where
  hosts : Fin size → Host
  getenv : Fin size → Environment
  val : Fin size → Text
  sized : ∀ rank, (val rank).length = 256

def Launch.names (launch : Launch size) (rank : Fin size) : Text := (launch.hosts rank).name

def constructors (counted : NulCounted) (launch : Launch size) : Setting size Text Text String (Identity size) where
  puts := []
  base := 0
  progs := fun rank => bootstrapPMI2 counted rank (some (launch.names rank)) (launch.getenv rank) (launch.val rank)
  answers := answersOf (hostEntries launch.names)

theorem c_string_append (value rest : Text) (plain : nul ∉ value) : cString (value ++ nul :: rest) = value := by
  have kept : ∀ c ∈ value, decide (c ≠ nul) = true := by
    intro c member
    refine decide_eq_true ?_
    rintro rfl
    exact plain member
  rw [cString, List.takeWhile_append_of_pos kept, List.takeWhile_cons_of_neg (by simp), List.append_nil]

theorem host_buffer (host : Host) : ∃ rest, hostBuffer host.name = host.name ++ nul :: rest := by
  have short := host.short
  rcases Nat.lt_or_eq_of_le short with less | full
  · refine ⟨(List.replicate 255 nul).drop (host.name.length + 1) ++ [nul], ?_⟩
    rw [hostBuffer, fill_buffer _ _ (by rwa [List.length_replicate]), List.append_assoc]
    rfl
  · have filled : (List.replicate 255 nul).length ≤ host.name.length + 1 := by
      rw [List.length_replicate, full]
      exact Nat.le_succ 255
    refine ⟨[], ?_⟩
    rw [hostBuffer, fillBuffer, List.drop_eq_nil_of_le filled, List.append_nil, List.length_replicate, List.take_left' full]

theorem bootstrap_of_host (counted : NulCounted) (rank : Fin size) (host : Host) (getenv : Environment) (val : Text) :
    bootstrapPMI2 counted rank (some host.name) getenv val =
      .put (kvsKey .host [rank.val]) host.name (.fence (resolveLocalIdentity counted rank host.name getenv val)) := by
  obtain ⟨rest, buffer⟩ := host_buffer host
  have first : (host.name ++ nul :: rest).getD 0 nul ≠ nul := by
    cases name : host.name with
    | nil => exact absurd name host.nonempty
    | cons c later =>
        rintro rfl
        exact host.plain (name ▸ List.mem_cons_self)
  simp only [bootstrapPMI2, buffer, c_string_append _ _ host.plain, if_neg first]
  rfl

theorem locality_turn (counted : NulCounted) (rank i : Fin size) (hostname : Text) (rest : List (Fin size)) (val : Text)
    (same : Fin size → Bool) : localityLoop counted rank hostname (i :: rest) val same =
      .get (kvsKey .host [i.val]) fun found =>
        match found with
        | none => .throw ("BootstrapPMI2::locality_map: KVS_Get failed for " ++ String.ofList (kvsKey .host [i.val]))
        | some value => localityLoop counted rank hostname rest (fillBuffer val value)
            (Function.update same i (decide (hostname = cString (fillBuffer val value)))) := by
  rw [localityLoop, kvsGet, Prog.bind]
  congr 1
  funext found
  cases found <;> rfl

theorem locality_strict (counted : NulCounted) (rank : Fin size) (hostname : Text) (ranks : List (Fin size)) (val : Text)
    (same : Fin size → Bool) : Strict (localityLoop counted rank hostname ranks val same) := by
  induction ranks generalizing val same with
  | nil => trivial
  | cons i rest ih =>
      rw [locality_turn]
      exact ⟨⟨_, rfl⟩, fun value => ih _ _⟩

theorem locality_outcome (counted : NulCounted) (rank : Fin size) (hostname : Text) (hosts : Fin size → Host)
    (answers : Text → Option Text) (answered : ∀ i : Fin size, answers (kvsKey .host [i.val]) = some (hosts i).name)
    (ranks : List (Fin size)) (val : Text) (sized : val.length = 256) (same : Fin size → Bool) :
    outcome answers (localityLoop counted rank hostname ranks val same) =
        .ok (fun i => if i ∈ ranks then decide (hostname = (hosts i).name) else same i) ∧
      events answers (localityLoop counted rank hostname ranks val same) =
        ranks.map fun i => Event.get (kvsKey .host [i.val]) := by
  induction ranks generalizing val same with
  | nil => exact ⟨by simp [localityLoop, outcome], rfl⟩
  | cons i rest ih =>
      have short := (hosts i).short
      have read : cString (fillBuffer val (hosts i).name) = (hosts i).name := by
        rw [fill_buffer val _ (by omega), c_string_append _ _ (hosts i).plain]
      obtain ⟨marks, asks⟩ := ih (fillBuffer val (hosts i).name) (by rw [fill_buffer_length, sized])
        (Function.update same i (decide (hostname = (hosts i).name)))
      rw [locality_turn, outcome, events, answered i]
      simp only [read, marks, asks, List.map_cons, and_true]
      congr 1
      funext other
      by_cases own : other = i
      · subst own
        simp
      · simp [own]

theorem derive_counts (rank : Fin size) (same : Fin size → Bool) (ranks : List (Fin size)) (lr ls : Nat) :
    derive rank same ranks lr ls =
      (lr + ranks.countP (fun i => same i && decide (i < rank)), ls + ranks.countP same) := by
  induction ranks generalizing lr ls with
  | nil => rfl
  | cons i rest ih =>
      rw [derive, List.countP_cons, List.countP_cons]
      cases marked : same i with
      | false => simp [ih]
      | true =>
          by_cases before : i < rank <;> simp [ih, before] <;> omega

example : (List.finRange 5).map (fun rank => derive rank (fun i => decide (i.val % 2 = rank.val % 2)) (List.finRange 5) 0 0) =
    [(0, 3), (0, 2), (1, 3), (1, 2), (2, 3)] := by decide

def Launch.identity (launch : Launch size) (rank : Fin size) : Identity size :=
  identify rank (launch.names rank) (launch.getenv rank) fun i => decide (launch.names rank = launch.names i)

theorem host_answer (names : Fin size → Text) (i : Fin size) :
    answersOf (hostEntries names) (kvsKey .host [i.val]) = some (names i) := by
  have none_called : allEntries names (fun _ => []) = hostEntries names := by simp [allEntries, plan]
  rw [← none_called]
  exact answers_of_member names (fun _ => []) ⟨kvsKey .host [i.val], names i, 0⟩
    (List.mem_append_left _ (List.mem_map.mpr ⟨i, List.mem_finRange i, rfl⟩))

theorem constructor_prog (counted : NulCounted) (launch : Launch size) (rank : Fin size) :
    (constructors counted launch).progs rank = .put (kvsKey .host [rank.val]) (launch.names rank)
      (.fence (resolveLocalIdentity counted rank (launch.names rank) (launch.getenv rank) (launch.val rank))) := by
  simp only [constructors, Launch.names]
  exact bootstrap_of_host counted rank (launch.hosts rank) (launch.getenv rank) (launch.val rank)

theorem constructor_run (counted : NulCounted) (launch : Launch size) (rank : Fin size) :
    outcome (constructors counted launch).answers ((constructors counted launch).progs rank) = .ok (launch.identity rank) ∧
      (constructors counted launch).trace rank = .put (kvsKey .host [rank.val]) (launch.names rank) :: .fence ::
        (List.finRange size).map fun i => Event.get (kvsKey .host [i.val]) := by
  obtain ⟨marks, asks⟩ := locality_outcome counted rank (launch.names rank) launch.hosts
    (answersOf (hostEntries launch.names)) (host_answer launch.names) (List.finRange size) (launch.val rank)
    (launch.sized rank) fun _ => false
  simp only [List.mem_finRange, if_true] at marks
  rw [Setting.trace, constructor_prog]
  constructor
  · simp only [outcome, resolveLocalIdentity, localityMap, bind_eq, pure_eq, constructors, outcome_bind, marks]
    rfl
  · simp only [events, resolveLocalIdentity, localityMap, bind_eq, pure_eq, constructors]
    rw [events_bind _ _ _ _ marks, asks, events, List.append_nil]

theorem constructor_entries (counted : NulCounted) (launch : Launch size) (rank : Fin size) :
    fences ((constructors counted launch).trace rank) = 1 ∧
      entries 0 ((constructors counted launch).trace rank) = [⟨kvsKey .host [rank.val], launch.names rank, 0⟩] ∧
        ∀ demand, demand ∈ demands 0 ((constructors counted launch).trace rank) →
          demand.2 = 1 ∧ ∃ i : Fin size, demand.1 = kvsKey .host [i.val] := by
  have only : ∀ event ∈ (List.finRange size).map fun i => (Event.get (kvsKey .host [i.val]) : Event Text Text),
      ∃ key, event = .get key := by
    intro event member
    obtain ⟨i, _, rfl⟩ := List.mem_map.mp member
    exact ⟨_, rfl⟩
  obtain ⟨still, nothing⟩ := gets_quiet _ only 1
  rw [(constructor_run counted launch rank).2]
  refine ⟨by simp only [fences, still], by rw [entries, entries, nothing], ?_⟩
  intro demand member
  rw [demands, demands, gets_demands _ only] at member
  obtain ⟨i, _, same⟩ := List.mem_map.mp member.1
  exact ⟨member.2, i, (Event.get.inj same).symm⟩

theorem constructors_puts (counted : NulCounted) (launch : Launch size) (entry : Entry Text Text) :
    (constructors counted launch).Puts entry ↔ entry ∈ hostEntries launch.names := by
  have each := fun rank => (constructor_entries counted launch rank).2.1
  constructor
  · rintro (before | ⟨rank, member⟩)
    · cases before
    · rw [show (constructors counted launch).base = 0 from rfl, each, List.mem_singleton] at member
      exact List.mem_map.mpr ⟨rank, List.mem_finRange rank, member.symm⟩
  · intro member
    obtain ⟨rank, _, rfl⟩ := List.mem_map.mp member
    refine .inr ⟨rank, ?_⟩
    rw [show (constructors counted launch).base = 0 from rfl, each]
    exact List.mem_cons_self

theorem constructors_sound (counted : NulCounted) (launch : Launch size) : Sound (constructors counted launch) where
  before := fun _ member => absurd member List.not_mem_nil
  truthful := by
    intro entry puts
    obtain ⟨rank, _, rfl⟩ := List.mem_map.mp ((constructors_puts counted launch entry).mp puts)
    exact host_answer launch.names rank
  strict := by
    intro rank
    rw [constructor_prog]
    exact strict_bind _ _ (locality_strict counted rank _ _ _ _) fun _ => trivial

theorem constructors_complete (counted : NulCounted) (launch : Launch size) :
    Completes (constructors counted launch).start launch.identity := by
  refine (completes_iff _ (constructors_sound counted launch) _).mpr ⟨?_, ?_, fun rank => (constructor_run counted launch rank).1⟩
  · intro rank other
    rw [(constructor_entries counted launch rank).1, (constructor_entries counted launch other).1]
  · intro rank demand member
    obtain ⟨phase, i, key⟩ := (constructor_entries counted launch rank).2.2 demand member
    refine ⟨⟨kvsKey .host [i.val], launch.names i, 0⟩, (constructors_puts counted launch _).mpr ?_, key.symm, ?_⟩
    · exact List.mem_map.mpr ⟨i, List.mem_finRange i, rfl⟩
    · rw [phase]
      exact Nat.one_pos

theorem constructors_leave_hosts (counted : NulCounted) (launch : Launch size)
    (state : State size Text Text String (Identity size))
    (reached : Reach step always (constructors counted launch).start state) (stuck : Stuck step state) :
    (∀ entry, entry ∈ state.puts ↔ entry ∈ hostEntries launch.names) ∧
      ∀ rank, state.called rank = 1 ∧ state.returned rank = 1 := by
  have inv := reachable_tracking _ (constructors_sound counted launch) state reached
  have done := (constructors_complete counted launch).2 state reached stuck
  have whole : ∀ rank, Tracks (constructors counted launch) state rank ((constructors counted launch).trace rank) := by
    intro rank
    obtain ⟨past, tracks⟩ := (inv.tracks rank).resolve_left (by simp [Failed, done rank])
    have trace := tracks.trace
    rw [done rank, events, List.append_nil] at trace
    exact trace ▸ tracks
  refine ⟨fun entry => ⟨fun member => (constructors_puts counted launch entry).mp (inv.puts entry member), ?_⟩, ?_⟩
  · intro member
    rcases (constructors_puts counted launch entry).mpr member with before | ⟨rank, own⟩
    · cases before
    · exact (whole rank).entries entry own
  · intro rank
    have returned : state.returned rank = 0 + 1 := by
      rw [(whole rank).returned, (constructor_entries counted launch rank).1]
      rfl
    have outside : state.called rank = state.returned rank := by simpa [done rank] using inv.fencing rank
    exact ⟨outside.trans returned, returned⟩

structure Consistent (names : Fin size → Text) (identity : Fin size → Identity size) : Prop where
  sizes : ∀ rank other, names rank = names other → (identity rank).localSize = (identity other).localSize
  numbered : ∀ rank, ((List.finRange size).filter fun other => decide (names other = names rank)).map
    (fun other => (identity other).localRank) = List.range (identity rank).localSize
  total : ∀ leaders : Finset (Fin size), (∀ rank, ∃! leader, leader ∈ leaders ∧ names leader = names rank) →
    ∑ leader ∈ leaders, (identity leader).localSize = size

theorem identity_place (launch : Launch size) (rank : Fin size) :
    (launch.identity rank).localRank =
        Grouping.place (Grouping.group launch.names (List.finRange size) (launch.names rank)) rank ∧
      (launch.identity rank).localSize =
        (Grouping.group launch.names (List.finRange size) (launch.names rank)).length := by
  have sameHost : ∀ i, decide (launch.names rank = launch.names i) = decide (launch.names i = launch.names rank) :=
    fun i => decide_eq_decide.mpr eq_comm
  rw [Launch.identity, funext sameHost, identify, derive_counts, Nat.zero_add, Nat.zero_add, Grouping.group_place,
    Grouping.group, ← List.countP_eq_length_filter]
  exact ⟨rfl, rfl⟩

theorem identity_consistent (launch : Launch size) : Consistent launch.names launch.identity where
  sizes := by
    intro rank other same
    rw [(identity_place launch rank).2, (identity_place launch other).2, same]
  numbered := by
    intro rank
    have sorted : (Grouping.group launch.names (List.finRange size) (launch.names rank)).Pairwise (· < ·) :=
      (List.pairwise_lt_finRange size).filter _
    rw [(identity_place launch rank).2, ← Grouping.places_range _ sorted]
    refine List.map_congr_left fun other member => ?_
    rw [(identity_place launch other).1, of_decide_eq_true (List.mem_filter.mp member).2]
  total := by
    intro leaders once
    have sum := Grouping.sizes_sum launch.names leaders (List.finRange size) fun rank _ => once rank
    rw [List.length_finRange] at sum
    exact (Finset.sum_congr rfl fun leader _ => (identity_place launch leader).2).trans sum

theorem local_identity_consistent (counted : NulCounted) (launch : Launch size) :
    ∃ identity : Fin size → Identity size, Completes (constructors counted launch).start identity ∧
      (∀ state, Reach step always (constructors counted launch).start state →
        ∀ rank constructed, state.progs rank = .done constructed → constructed = identity rank) ∧
      Consistent launch.names identity := by
  refine ⟨launch.identity, constructors_complete counted launch, ?_, identity_consistent launch⟩
  intro state reached rank constructed done
  obtain ⟨_, visible, ends⟩ :=
    (completes_iff _ (constructors_sound counted launch) _).mp (constructors_complete counted launch)
  have outcomes := (reachable_outcome _ (constructors_sound counted launch) visible _ ends state reached).2 rank
  rw [done] at outcomes
  exact Except.ok.inj outcomes

def firstHost : Host := ⟨['n', 'i', 'd', '1'], by decide, by decide, by decide⟩

def secondHost : Host := ⟨['n', 'i', 'd', '2'], by decide, by decide, by decide⟩

def twoHosts : Launch 3 where
  hosts := fun rank => if rank = 1 then secondHost else firstHost
  getenv := fun rank var => if rank = 2 ∧ var = "SLURM_LOCALID" then some ['1'] else none
  val := fun _ => List.replicate 256 '#'
  sized := fun _ => List.length_replicate

theorem local_identity_two_hosts : twoHosts.names 0 = twoHosts.names 2 ∧ twoHosts.names 0 ≠ twoHosts.names 1 ∧
    ∃ identity : Fin 3 → Identity 3, Completes (constructors (fun _ _ => true) twoHosts).start identity ∧
      (∀ state, Reach step always (constructors (fun _ _ => true) twoHosts).start state →
        ∀ rank constructed, state.progs rank = .done constructed → constructed = identity rank) ∧
      Consistent twoHosts.names identity :=
  ⟨rfl, by decide, local_identity_consistent (fun _ _ => true) twoHosts⟩

end OpenGda.Pmi2
