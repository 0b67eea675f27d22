import OpenGda.Mlx5.GiccApi

set_option autoImplicit false

-- The registry keeps every registration, freed or not, and a lookup takes the first that
-- has the address: an allocation is found exactly while no older range covers a part of it.
namespace OpenGda.GiccApi

open Machine

variable {ranks : Nat}

def MemoryRegion.covers (mr : MemoryRegion) (addr : Nat) : Bool := decide (mr.buf ≤ addr ∧ addr < mr.buf + mr.size)

def Apart (one two : MemoryRegion) : Prop := one.buf + one.size ≤ two.buf ∨ two.buf + two.size ≤ one.buf

instance (one two : MemoryRegion) : Decidable (Apart one two) := inferInstanceAs (Decidable (_ ∨ _))

-- All ranks in step. `history` has what each gicc::malloc was given, on every rank, and
-- `live` which of them have not been freed.
structure State (ranks : Nat) where
  states : Fin ranks → GlobalState ranks
  history : List (Fin ranks → MemoryRegion)
  live : List Nat

inductive Op (ranks : Nat) where
  | malloc (given : Fin ranks → MemoryRegion)
  | free (ptr : Fin ranks → Nat)
  | context

def start : State ranks := ⟨init, [], []⟩

def State.ptr (state : State ranks) (number : Nat) (rank : Fin ranks) : Nat :=
  match state.history[number]? with
  | none => 0
  | some given => (given rank).buf

def step (state : State ranks) : Op ranks → Option (State ranks)
  | .malloc given =>
      (malloc state.states given).map fun states =>
        ⟨states, state.history ++ [given], state.live ++ [state.history.length]⟩
  | .free ptr =>
      some { state with
        states := fun rank => free (state.states rank) (ptr rank)
        live := state.live.filter fun number => ¬ ∀ rank, state.ptr number rank = ptr rank }
  | .context =>
      if ∀ rank, (context (state.states rank)).isSome = true then
        some { state with
          states := fun rank => ((context (state.states rank)).map Prod.fst).getD (state.states rank) }
      else none

-- The allocator hands out what no live allocation has, and a new registration has keys of
-- its own: none of the others is ever given up.
structure Handed (state : State ranks) (given : Fin ranks → MemoryRegion) : Prop where
  few : state.history.length < giccMaxBufs
  alike : ∀ rank peer, (given rank).size = (given peer).size
  within : ∀ rank, 0 < (given rank).size ∧ (given rank).buf + (given rank).size < 2 ^ 64
  apart : ∀ rank, ∀ number ∈ state.live, ∀ other ∈ state.history[number]?, Apart (other rank) (given rank)
  fresh : ∀ rank, ∀ other ∈ state.history,
    (other rank).lkey ≠ (given rank).lkey ∧ (other rank).rkey ≠ (given rank).rkey

def FreesAlike (state : State ranks) (ptr : Fin ranks → Nat) : Prop :=
  (∃ number ∈ state.live, ∀ rank, state.ptr number rank = ptr rank) ∨
    ∀ number ∈ state.live, ∀ rank, state.ptr number rank ≠ ptr rank

def alike (state : State ranks) : Op ranks → Prop
  | .malloc given => Handed state given
  | .free ptr => FreesAlike state ptr
  | .context => True

-- What the lookups promise: an address in a live allocation has the keys that the malloc
-- of this allocation got.
def LooksUp (state : State ranks) : Prop :=
  ∀ number ∈ state.live, ∀ given, state.history[number]? = some given → ∀ rank,
    ∃ after ctx, context (state.states rank) = some (after, ctx) ∧
      (∀ addr, (given rank).covers addr = true → findLkey ctx addr = some (given rank).lkey) ∧
        ∀ peer addr, (given peer).covers addr = true → findRkey ctx peer.val addr = some (given peer).rkey

-- No live allocation lies over what an older one had.
def Unhidden (state : State ranks) : Prop :=
  ∀ number ∈ state.live, ∀ given, state.history[number]? = some given → ∀ rank,
    ∀ earlier < number, ∀ other, state.history[earlier]? = some other → Apart (other rank) (given rank)

theorem covers_iff (mr : MemoryRegion) (addr : Nat) : mr.covers addr = true ↔ mr.buf ≤ addr ∧ addr < mr.buf + mr.size :=
  decide_eq_true_iff

theorem apart_iff (one two : MemoryRegion) (some_one : 0 < one.size) (some_two : 0 < two.size) :
    Apart one two ↔ ∀ addr, one.covers addr = true → two.covers addr = true → False := by
  simp only [Apart, covers_iff]
  constructor
  · intro apart addr first second
    omega
  · intro none
    by_contra overlap
    exact none (max one.buf two.buf) (by omega) (by omega)

theorem scan_entries (range : Nat → Option (Nat × Nat × UInt32)) (addr : Nat) (entries : List (Nat × Nat × UInt32))
    (first : Nat) (known : ∀ i entry, entries[i]? = some entry → range (first + i) = some entry) :
    scan range addr (List.range' first entries.length) =
      some (((entries.find? fun entry => decide (entry.1 ≤ addr ∧ addr < (entry.1 + entry.2.1) % 2 ^ 64)).map
        fun entry => entry.2.2).getD 0) := by
  induction entries generalizing first with
  | nil => rfl
  | cons entry rest ih =>
      have here := known 0 entry rfl
      rw [Nat.add_zero] at here
      have later := ih (first + 1) fun i other found => by
        rw [Nat.add_assoc, Nat.add_comm 1]
        exact known (i + 1) other found
      rw [List.length_cons, List.range'_succ, scan, here]
      by_cases hit : entry.1 ≤ addr ∧ addr < (entry.1 + entry.2.1) % 2 ^ 64
      · simp only [if_pos hit, List.find?_cons, decide_eq_true hit, Option.map_some, Option.getD_some]
      · simp only [if_neg hit, List.find?_cons, decide_eq_false hit]
        exact later

def remoteOf (history : List (Fin ranks → MemoryRegion)) (peer : Fin ranks) : List RemoteBufferInfo :=
  history.map fun given => ⟨(given peer).buf, (given peer).rkey⟩

structure Mirrors (state : State ranks) (rank : Fin ranks) : Prop where
  own : (state.states rank).rt.rank = rank
  bufs : (state.states rank).rt.localBufs = state.history.map fun given => given rank
  remote : (state.states rank).rt.remoteBufs = if state.history = [] then none else some (remoteOf state.history)
  allocs : (state.states rank).allocs = state.live.map fun number => state.ptr number rank
  indices : (state.states rank).bufIndices = state.live
  current : (state.states rank).ctxDirty = false →
    ∃ ctx, (state.states rank).dCtx = some ctx ∧ buildContext (state.states rank).rt = some ctx

structure Sound (state : State ranks) : Prop where
  mirrors : ∀ rank, Mirrors state rank
  few : state.history.length ≤ giccMaxBufs
  known : ∀ number ∈ state.live, number < state.history.length
  once : state.live.Nodup
  sizes : ∀ given ∈ state.history, (∀ rank peer, (given rank).size = (given peer).size) ∧
    ∀ rank, 0 < (given rank).size ∧ (given rank).buf + (given rank).size < 2 ^ 64
  apart : ∀ rank, ∀ number ∈ state.live, ∀ other ∈ state.live, number ≠ other → ∀ one two,
    state.history[number]? = some one → state.history[other]? = some two → Apart (one rank) (two rank)
  lkeys : ∀ rank, (state.history.map fun given => (given rank).lkey).Nodup
  rkeys : ∀ rank, (state.history.map fun given => (given rank).rkey).Nodup

theorem start_sound : Sound (start : State ranks) where
  mirrors := fun rank => ⟨rfl, rfl, rfl, rfl, rfl, fun clean => by cases clean⟩
  few := Nat.zero_le _
  known := fun number member => by cases member
  once := List.nodup_nil
  sizes := fun given member => by cases member
  apart := fun rank number member => by cases member
  lkeys := fun rank => List.nodup_nil
  rkeys := fun rank => List.nodup_nil

def mallocked (state : State ranks) (given : Fin ranks → MemoryRegion) (rank : Fin ranks) : GlobalState ranks :=
  { (state.states rank) with
    rt := { (state.states rank).rt with
      localBufs := (state.history ++ [given]).map fun given => given rank
      remoteBufs := some (remoteOf (state.history ++ [given])) }
    allocs := (state.states rank).allocs ++ [(given rank).buf]
    bufIndices := (state.states rank).bufIndices ++ [state.history.length]
    ctxDirty := true }

theorem malloc_states (state : State ranks) (given : Fin ranks → MemoryRegion)
    (mirrors : ∀ rank, Mirrors state rank) : malloc state.states given = some (mallocked state given) := by
  have lengths : ∀ rank, (state.states rank).rt.localBufs.length = state.history.length := by
    intro rank
    rw [(mirrors rank).bufs, List.length_map]
  have remote : (fun rank => ((state.states rank).rt.localBufs ++ [given rank]).map fun mr =>
      (⟨mr.buf, mr.rkey⟩ : RemoteBufferInfo)) = remoteOf (state.history ++ [given]) := by
    funext rank
    rw [(mirrors rank).bufs, remoteOf]
    simp
  have exchanged : ∀ rank, exchange (fun peer => (mallocBefore (state.states peer) (given peer)).1.rt)
      (mallocBefore (state.states rank) (given rank)).1.rt = some (mallocked state given rank).rt := by
    intro rank
    simp only [exchange, mallocBefore, registerBuffer, List.length_append, lengths, List.length_singleton, implies_true,
      if_true, mallocked, remote]
    simp [(mirrors rank).bufs]
  simp only [malloc, exchanged, Option.isSome_some, implies_true, if_true, Option.getD_some]
  congr 1
  funext rank
  simp [mallocAfter, mallocBefore, registerBuffer, mallocked, lengths]

theorem nodup_concat {Value : Type} (values : List Value) (value : Value) (once : values.Nodup)
    (new : ∀ other ∈ values, other ≠ value) : (values ++ [value]).Nodup := by
  refine List.nodup_append.mpr ⟨once, List.nodup_singleton value, ?_⟩
  intro other member last also
  rw [List.mem_singleton.mp also]
  exact new other member

theorem malloc_sound (before after : State ranks) (given : Fin ranks → MemoryRegion) (sound : Sound before)
    (handed : Handed before given) (taken : step before (.malloc given) = some after) : Sound after := by
  rw [step, malloc_states before given sound.mirrors, Option.map_some, Option.some.injEq] at taken
  subst taken
  have older : ∀ number ∈ before.live, (before.history ++ [given])[number]? = before.history[number]? :=
    fun number member => List.getElem?_append_left (sound.known number member)
  have newest : (before.history ++ [given])[before.history.length]? = some given := List.getElem?_concat_length
  refine ⟨?_, ?_, ?_, ?_, ?_, ?_, ?_, ?_⟩
  · intro rank
    have mirrors := sound.mirrors rank
    refine ⟨mirrors.own, rfl, by simp [mallocked], ?_, ?_, fun clean => by cases clean⟩
    · have kept : ∀ number ∈ before.live, before.ptr number rank =
          (⟨mallocked before given, before.history ++ [given], before.live ++ [before.history.length]⟩ :
            State ranks).ptr number rank := by
        intro number member
        simp only [State.ptr, older number member]
      simp only [mallocked, mirrors.allocs, List.map_append, List.map_congr_left kept]
      simp [State.ptr]
    · simp [mallocked, mirrors.indices]
  · simpa using handed.few
  · intro number member
    rw [List.length_append]
    rcases List.mem_append.mp member with old | new
    · exact Nat.lt_succ_of_lt (sound.known number old)
    · rw [List.mem_singleton.mp new]
      exact Nat.lt_succ_self _
  · exact nodup_concat _ _ sound.once fun number member => Nat.ne_of_lt (sound.known number member)
  · intro other member
    rcases List.mem_append.mp member with old | new
    · exact sound.sizes other old
    · rw [List.mem_singleton.mp new]
      exact ⟨handed.alike, handed.within⟩
  · intro rank number member other also different one two found there
    rcases List.mem_append.mp member with old | new <;> rcases List.mem_append.mp also with old' | new'
    · rw [older number old] at found
      rw [older other old'] at there
      exact sound.apart rank number old other old' different one two found there
    · rw [older number old] at found
      rw [List.mem_singleton.mp new', newest] at there
      cases there
      exact handed.apart rank number old one found
    · rw [List.mem_singleton.mp new, newest] at found
      rw [older other old'] at there
      cases found
      exact (handed.apart rank other old' two there).symm
    · exact absurd ((List.mem_singleton.mp new).trans (List.mem_singleton.mp new').symm) different
  · intro rank
    rw [List.map_append]
    apply nodup_concat _ _ (sound.lkeys rank)
    intro key member
    obtain ⟨other, there, rfl⟩ := List.mem_map.mp member
    exact (handed.fresh rank other there).1
  · intro rank
    rw [List.map_append]
    apply nodup_concat _ _ (sound.rkeys rank)
    intro key member
    obtain ⟨other, there, rfl⟩ := List.mem_map.mp member
    exact (handed.fresh rank other there).2

theorem ptr_injective (state : State ranks) (sound : Sound state) (rank : Fin ranks) (number other : Nat)
    (member : number ∈ state.live) (also : other ∈ state.live)
    (same : state.ptr number rank = state.ptr other rank) : number = other := by
  by_contra different
  have found := List.getElem?_eq_getElem (sound.known number member)
  have there := List.getElem?_eq_getElem (sound.known other also)
  have apart := sound.apart rank number member other also different _ _ found there
  have first := (sound.sizes _ (List.mem_of_getElem? found)).2 rank
  have second := (sound.sizes _ (List.mem_of_getElem? there)).2 rank
  simp only [State.ptr, found, there] at same
  simp only [Apart] at apart
  omega

theorem idx_of_map (values : List Nat) (view : Nat → Nat) (value : Nat) (member : value ∈ values)
    (injective : ∀ other ∈ values, view other = view value → other = value) :
    (values.map view).idxOf (view value) = values.idxOf value := by
  induction values with
  | nil => cases member
  | cons first rest ih =>
      by_cases here : first = value
      · rw [here, List.map_cons, List.idxOf_cons_self, List.idxOf_cons_self]
      · have apart : view first ≠ view value := fun same => here (injective first List.mem_cons_self same)
        have later : value ∈ rest := (List.mem_cons.mp member).resolve_left fun same => here same.symm
        rw [List.map_cons, List.idxOf_cons_ne _ apart, List.idxOf_cons_ne _ here,
          ih later fun other also => injective other (List.mem_cons_of_mem first also)]

theorem freed_live (state : State ranks) (sound : Sound state) (ptr : Fin ranks → Nat) (rank : Fin ranks)
    (number : Nat) (member : number ∈ state.live) (same : ∀ rank, state.ptr number rank = ptr rank) :
    (state.live.filter fun other => ¬ ∀ rank, state.ptr other rank = ptr rank) =
      state.live.eraseIdx (state.live.idxOf number) := by
  rw [List.eraseIdx_idxOf_eq_erase, sound.once.erase_eq_filter]
  apply List.filter_congr
  intro other also
  have iff : (∀ rank, state.ptr other rank = ptr rank) ↔ other = number :=
    ⟨fun equal => ptr_injective state sound rank other number also member ((equal rank).trans (same rank).symm),
      fun equal => equal ▸ same⟩
  simp only [iff]
  by_cases own : other = number <;> simp [own]

theorem free_sound (before after : State ranks) (ptr : Fin ranks → Nat) (sound : Sound before)
    (frees : FreesAlike before ptr) (taken : step before (.free ptr) = some after) : Sound after := by
  rw [step, Option.some.injEq] at taken
  subst taken
  have kept : ∀ number, number ∈ before.live.filter (fun number => ¬ ∀ rank, before.ptr number rank = ptr rank) →
      number ∈ before.live := fun number member => (List.mem_filter.mp member).1
  refine ⟨?_, sound.few, ?_, sound.once.filter _, sound.sizes, ?_, sound.lkeys, sound.rkeys⟩
  · intro rank
    have mirrors := sound.mirrors rank
    rcases frees with ⟨number, member, same⟩ | none
    · have place : (before.states rank).allocs.idxOf (ptr rank) = before.live.idxOf number := by
        rw [mirrors.allocs, ← same rank]
        exact idx_of_map before.live _ number member fun other also equal =>
          ptr_injective before sound rank other number also member equal
      have inside : before.live.idxOf number < (before.states rank).allocs.length := by
        rw [mirrors.allocs, List.length_map]
        exact List.idxOf_lt_length_of_mem member
      have left := freed_live before sound ptr rank number member same
      refine ⟨?_, ?_, ?_, ?_, ?_, ?_⟩ <;> simp only [free, place, inside, if_true]
      · exact mirrors.own
      · exact mirrors.bufs
      · exact mirrors.remote
      · rw [mirrors.allocs, List.eraseIdx_map, ← left]
        rfl
      · rw [mirrors.indices, ← left]
      · intro clean
        cases clean
    · have absent : ¬ (before.states rank).allocs.idxOf (ptr rank) < (before.states rank).allocs.length := by
        rw [List.idxOf_lt_length_iff, mirrors.allocs, List.mem_map]
        rintro ⟨number, member, same⟩
        exact none number member rank same
      have all : (before.live.filter fun number => ¬ ∀ rank, before.ptr number rank = ptr rank) = before.live := by
        rw [List.filter_eq_self]
        intro number member
        simp only [not_forall, decide_eq_true_eq]
        exact ⟨rank, none number member rank⟩
      refine ⟨?_, ?_, ?_, ?_, ?_, ?_⟩ <;> simp only [free, absent, if_false]
      · exact mirrors.own
      · exact mirrors.bufs
      · exact mirrors.remote
      · rw [all]
        exact mirrors.allocs
      · rw [all]
        exact mirrors.indices
      · exact mirrors.current
  · exact fun number member => sound.known number (kept number member)
  · exact fun rank number member other also => sound.apart rank number (kept number member) other (kept other also)

theorem context_cases (state after : GlobalState ranks) (ctx : GiccContext)
    (taken : context state = some (after, ctx)) :
    after = state ∧ state.ctxDirty = false ∧ state.dCtx = some ctx ∨
      buildContext state.rt = some ctx ∧ after = { state with dCtx := some ctx, ctxDirty := false } := by
  cases dirty : state.ctxDirty <;> cases built : state.dCtx <;>
    simp only [context, dirty, built, Option.map_eq_some_iff, Prod.mk.injEq, Option.some.injEq] at taken
  · obtain ⟨ctx', made, rfl, rfl⟩ := taken
    exact .inr ⟨made, rfl⟩
  · obtain ⟨rfl, rfl⟩ := taken
    exact .inl ⟨rfl, rfl, rfl⟩
  · obtain ⟨ctx', made, rfl, rfl⟩ := taken
    exact .inr ⟨made, rfl⟩
  · obtain ⟨ctx', made, rfl, rfl⟩ := taken
    exact .inr ⟨made, rfl⟩

theorem context_current (state : State ranks) (rank : Fin ranks) (mirrors : Mirrors state rank) :
    (context (state.states rank)).map Prod.snd = buildContext (state.states rank).rt := by
  cases taken : context (state.states rank) with
  | none =>
      cases dirty : (state.states rank).ctxDirty with
      | false =>
          obtain ⟨ctx, cached, _⟩ := mirrors.current dirty
          simp [context, dirty, cached] at taken
      | true =>
          have missing : buildContext (state.states rank).rt = none := by simpa [context, dirty] using taken
          rw [missing, Option.map_none]
  | some pair =>
      obtain ⟨after, ctx⟩ := pair
      rcases context_cases _ after ctx taken with ⟨_, clean, cached⟩ | ⟨built, _⟩
      · obtain ⟨ctx', cached', built⟩ := mirrors.current clean
        rw [cached] at cached'
        cases cached'
        exact built.symm
      · exact built.symm

theorem context_sound (before after : State ranks) (sound : Sound before) (taken : step before .context = some after) :
    Sound after := by
  simp only [step] at taken
  split_ifs at taken with built
  rw [Option.some.injEq] at taken
  subst taken
  refine ⟨?_, sound.few, sound.known, sound.once, sound.sizes, sound.apart, sound.lkeys, sound.rkeys⟩
  intro rank
  have mirrors := sound.mirrors rank
  obtain ⟨⟨next, ctx⟩, taken⟩ := Option.isSome_iff_exists.mp (built rank)
  have now : ((context (before.states rank)).map Prod.fst).getD (before.states rank) = next := by
    rw [taken, Option.map_some, Option.getD_some]
  rcases context_cases _ next ctx taken with ⟨same, _⟩ | ⟨made, rfl⟩
  · refine ⟨?_, ?_, ?_, ?_, ?_, ?_⟩ <;> simp only [now, same]
    · exact mirrors.own
    · exact mirrors.bufs
    · exact mirrors.remote
    · exact mirrors.allocs
    · exact mirrors.indices
    · exact mirrors.current
  · refine ⟨?_, ?_, ?_, ?_, ?_, ?_⟩ <;> simp only [now]
    · exact mirrors.own
    · exact mirrors.bufs
    · exact mirrors.remote
    · exact mirrors.allocs
    · exact mirrors.indices
    · exact fun _ => ⟨ctx, rfl, made⟩

theorem reachable_sound (state : State ranks) (reached : Reach step alike start state) : Sound state := by
  apply reach_invariant step alike Sound start state start_sound _ reached
  intro before after op sound permitted taken
  cases op with
  | malloc given => exact malloc_sound before after given sound permitted taken
  | free ptr => exact free_sound before after ptr sound permitted taken
  | context => exact context_sound before after sound taken

def contextOf (history : List (Fin ranks → MemoryRegion)) (rank : Fin ranks) : GiccContext :=
  ⟨rank.val, ranks,
    fun i =>
      match history[i.val]? with
      | none => noEntry
      | some given => ⟨(given rank).buf, (given rank).size, (given rank).lkey, (given rank).rkey⟩,
    history.length,
    fun peer i => if inside : peer.val < ranks then ((remoteOf history ⟨peer.val, inside⟩)[i.val]?).getD noRemote else noRemote⟩

theorem build_context (state : State ranks) (rank : Fin ranks) (mirrors : Mirrors state rank)
    (some_malloc : state.history ≠ []) :
    buildContext (state.states rank).rt = some (contextOf state.history rank) := by
  have entry : ∀ i : Nat, (state.history.map fun given => given rank)[i]? = state.history[i]?.map fun given => given rank :=
    fun i => List.getElem?_map
  simp only [buildContext, mirrors.bufs, mirrors.remote, if_neg some_malloc, mirrors.own, contextOf, List.length_map,
    Option.some.injEq, GiccContext.mk.injEq, true_and, and_true, entry]
  funext i
  cases state.history[i.val]? <;> rfl

def firstOf (history : List (Fin ranks → MemoryRegion)) (rank : Fin ranks) (addr : Nat) :
    Option (Fin ranks → MemoryRegion) :=
  history.find? fun given => (given rank).covers addr

theorem covered_unwrapped (state : State ranks) (sound : Sound state) (given : Fin ranks → MemoryRegion)
    (member : given ∈ state.history) (rank peer : Fin ranks) (addr : Nat) :
    decide ((given peer).buf ≤ addr ∧ addr < ((given peer).buf + (given rank).size) % 2 ^ 64) =
      (given peer).covers addr := by
  obtain ⟨alike, within⟩ := sound.sizes given member
  rw [MemoryRegion.covers, alike rank peer, Nat.mod_eq_of_lt (within peer).2]

theorem entry_of_first (state : State ranks) (sound : Sound state) (key : MemoryRegion → UInt32) (rank peer : Fin ranks)
    (addr : Nat) :
    (((state.history.map fun given => ((given peer).buf, (given rank).size, key (given peer))).find? fun entry =>
      decide (entry.1 ≤ addr ∧ addr < (entry.1 + entry.2.1) % 2 ^ 64)).map fun entry => entry.2.2) =
        (firstOf state.history peer addr).map fun given => key (given peer) := by
  rw [List.find?_map, Option.map_map, firstOf]
  congr 1
  apply List.find?_congr
  intro given member
  exact covered_unwrapped state sound given member rank peer addr

theorem find_lkey (state : State ranks) (sound : Sound state) (rank : Fin ranks) (addr : Nat) :
    findLkey (contextOf state.history rank) addr =
      some (((firstOf state.history rank addr).map fun given => (given rank).lkey).getD 0) := by
  rw [← entry_of_first state sound MemoryRegion.lkey rank rank addr]
  have scanned := scan_entries (fun i => if inside : i < giccMaxBufs then
    some (((contextOf state.history rank).localBufs ⟨i, inside⟩).addr, ((contextOf state.history rank).localBufs ⟨i, inside⟩).size,
      ((contextOf state.history rank).localBufs ⟨i, inside⟩).lkey) else none) addr
    (state.history.map fun given => ((given rank).buf, (given rank).size, (given rank).lkey)) 0 ?_
  · rw [List.length_map, ← List.range_eq_range'] at scanned
    exact scanned
  · intro i entry found
    rw [List.getElem?_map, Option.map_eq_some_iff] at found
    obtain ⟨given, found, rfl⟩ := found
    have inside : i < giccMaxBufs := Nat.lt_of_lt_of_le (List.getElem?_eq_some_iff.mp found).1 sound.few
    rw [Nat.zero_add, dif_pos inside]
    simp only [contextOf, found]

theorem find_rkey (state : State ranks) (sound : Sound state) (rank peer : Fin ranks) (addr : Nat)
    (known : peer.val < giccMaxPeers) : findRkey (contextOf state.history rank) peer.val addr =
      some (((firstOf state.history peer addr).map fun given => (given peer).rkey).getD 0) := by
  rw [← entry_of_first state sound MemoryRegion.rkey rank peer addr]
  have scanned := scan_entries (fun i => if inside : i < giccMaxBufs then
    if known : peer.val < giccMaxPeers then
      some (((contextOf state.history rank).remoteBufs ⟨peer.val, known⟩ ⟨i, inside⟩).addr,
        ((contextOf state.history rank).localBufs ⟨i, inside⟩).size,
        ((contextOf state.history rank).remoteBufs ⟨peer.val, known⟩ ⟨i, inside⟩).rkey) else none else none) addr
    (state.history.map fun given => ((given peer).buf, (given rank).size, (given peer).rkey)) 0 ?_
  · rw [List.length_map, ← List.range_eq_range'] at scanned
    exact scanned
  · intro i entry found
    rw [List.getElem?_map, Option.map_eq_some_iff] at found
    obtain ⟨given, found, rfl⟩ := found
    have inside : i < giccMaxBufs := Nat.lt_of_lt_of_le (List.getElem?_eq_some_iff.mp found).1 sound.few
    rw [Nat.zero_add, dif_pos inside, dif_pos known]
    simp only [contextOf, found, dif_pos peer.isLt, remoteOf, List.getElem?_map, Option.map_some, Option.getD_some]

def Hidden (history : List (Fin ranks → MemoryRegion)) (rank : Fin ranks) (number addr : Nat) : Prop :=
  FirstMatch.Hidden (fun given addr => (given rank).covers addr) history number addr

theorem first_key_iff (history : List (Fin ranks → MemoryRegion)) (rank : Fin ranks) (key : MemoryRegion → UInt32)
    (distinct : (history.map fun given => key (given rank)).Nodup) (number : Nat) (given : Fin ranks → MemoryRegion)
    (found : history[number]? = some given) (addr : Nat) (covered : (given rank).covers addr = true) :
    ((firstOf history rank addr).map fun given => key (given rank)).getD 0 = key (given rank) ↔
      ¬ Hidden history rank number addr := by
  have seen : (firstOf history rank addr).isSome = true :=
    List.find?_isSome.mpr ⟨given, List.mem_of_getElem? found, covered⟩
  obtain ⟨first, finds⟩ := Option.isSome_iff_exists.mp seen
  have iff := FirstMatch.find_key_iff (fun given addr => (given rank).covers addr) (fun given => key (given rank)) history
    distinct number given addr found covered
  rw [firstOf] at finds
  rw [finds, Option.map_some, Option.some.injEq] at iff
  rw [firstOf, finds, Option.map_some, Option.getD_some]
  exact iff

theorem unhidden_iff (state : State ranks) (sound : Sound state) : Unhidden state ↔
    ∀ number ∈ state.live, ∀ given, state.history[number]? = some given → ∀ rank addr,
      (given rank).covers addr = true → ¬ Hidden state.history rank number addr := by
  have sizes : ∀ (number : Nat) (given : Fin ranks → MemoryRegion), state.history[number]? = some given → ∀ rank, 0 < (given rank).size :=
    fun number given found rank => ((sound.sizes given (List.mem_of_getElem? found)).2 rank).1
  constructor
  · rintro unhidden number member given found rank addr covered ⟨earlier, other, before, there, covering⟩
    have apart := unhidden number member given found rank earlier before other there
    exact (apart_iff _ _ (sizes earlier other there rank) (sizes number given found rank)).mp apart addr covering covered
  · intro none number member given found rank earlier before other there
    apply (apart_iff _ _ (sizes earlier other there rank) (sizes number given found rank)).mpr
    intro addr covering covered
    exact none number member given found rank addr covered ⟨earlier, other, before, there, covering⟩

theorem find_rkey_unknown (history : List (Fin ranks → MemoryRegion)) (rank : Fin ranks) (peer addr : Nat)
    (some_malloc : history ≠ []) (unknown : ¬ peer < giccMaxPeers) : findRkey (contextOf history rank) peer addr = none := by
  obtain ⟨given, rest, rfl⟩ := List.exists_cons_of_ne_nil some_malloc
  simp only [findRkey, contextOf, List.length_cons, List.range_succ_eq_map, scan, dif_neg unknown, dite_eq_ite, ite_self]

-- The lookups on the current contexts are right in a state exactly when no live allocation
-- overlaps an older one that has been freed, and every rank has a place in the contexts.
theorem lookups_iff (state : State ranks) (reached : Reach step alike start state) :
    LooksUp state ↔ Unhidden state ∧ (state.live = [] ∨ ranks ≤ giccMaxPeers) := by
  have sound := reachable_sound state reached
  have current : ∀ rank after ctx, state.history ≠ [] → context (state.states rank) = some (after, ctx) →
      ctx = contextOf state.history rank := by
    intro rank after ctx some_malloc taken
    have built := context_current state rank (sound.mirrors rank)
    rw [build_context state rank (sound.mirrors rank) some_malloc, taken] at built
    exact Option.some.inj built
  have mallocs : ∀ (number : Nat) (given : Fin ranks → MemoryRegion), state.history[number]? = some given → state.history ≠ [] := by
    intro number given found none
    rw [none] at found
    cases found
  constructor
  · intro looks
    refine ⟨(unhidden_iff state sound).mpr ?_, ?_⟩
    · intro number member given found rank addr covered
      obtain ⟨after, ctx, taken, lkeys, _⟩ := looks number member given found rank
      have result := lkeys addr covered
      rw [current rank after ctx (mallocs number given found) taken, find_lkey state sound rank addr,
        Option.some.injEq] at result
      exact (first_key_iff state.history rank MemoryRegion.lkey (sound.lkeys rank) number given found addr covered).mp result
    · by_contra many
      obtain ⟨some_live, beyond⟩ := not_or.mp many
      obtain ⟨number, member⟩ := List.exists_mem_of_ne_nil state.live some_live
      have found := List.getElem?_eq_getElem (sound.known number member)
      have known : giccMaxPeers < ranks := Nat.lt_of_not_le beyond
      let peer : Fin ranks := ⟨giccMaxPeers, known⟩
      obtain ⟨after, ctx, taken, _, rkeys⟩ := looks number member _ found peer
      have size := ((sound.sizes _ (List.mem_of_getElem? found)).2 peer).1
      have result := rkeys peer _ ((covers_iff _ _).mpr ⟨Nat.le_refl _, Nat.lt_add_of_pos_right size⟩)
      rw [current peer after ctx (mallocs number _ found) taken,
        find_rkey_unknown state.history peer _ _ (mallocs number _ found) (Nat.lt_irrefl _)] at result
      cases result
  · rintro ⟨unhidden, few⟩ number member given found rank
    have seen := (unhidden_iff state sound).mp unhidden number member given found
    have built := context_current state rank (sound.mirrors rank)
    rw [build_context state rank (sound.mirrors rank) (mallocs number given found)] at built
    obtain ⟨⟨after, ctx⟩, taken, _⟩ := Option.map_eq_some_iff.mp built
    have ranks_known : ranks ≤ giccMaxPeers := few.resolve_left fun none => by
      rw [none] at member
      cases member
    refine ⟨after, ctx, taken, ?_, ?_⟩
    · intro addr covered
      rw [current rank after ctx (mallocs number given found) taken, find_lkey state sound rank addr, Option.some.injEq]
      exact (first_key_iff state.history rank MemoryRegion.lkey (sound.lkeys rank) number given found addr covered).mpr
        (seen rank addr covered)
    · intro peer addr covered
      rw [current rank after ctx (mallocs number given found) taken,
        find_rkey state sound rank peer addr (Nat.lt_of_lt_of_le peer.isLt ranks_known), Option.some.injEq]
      exact (first_key_iff state.history peer MemoryRegion.rkey (sound.rkeys peer) number given found addr covered).mpr
        (seen peer addr covered)

theorem remote_ptr (state : State ranks) (reached : Reach step alike start state) (number : Nat)
    (member : number ∈ state.live) (rank peer : Fin ranks) :
    remotePtr (state.states rank) (state.ptr number rank) peer = some (some (state.ptr number peer)) := by
  have sound := reachable_sound state reached
  have mirrors := sound.mirrors rank
  have found := List.getElem?_eq_getElem (sound.known number member)
  have some_malloc : state.history ≠ [] :=
    List.ne_nil_of_length_pos (Nat.zero_lt_of_lt (sound.known number member))
  have place : (state.live.map fun number => state.ptr number rank).idxOf (state.ptr number rank) =
      state.live.idxOf number :=
    idx_of_map state.live (fun number => state.ptr number rank) number member fun other also equal =>
      ptr_injective state sound rank other number also member equal
  have index : state.live[state.live.idxOf number]? = some number := List.getElem?_idxOf member
  simp only [remotePtr, mirrors.allocs, mirrors.indices, place, index, mirrors.remote, if_neg some_malloc,
    Option.bind_some, remoteOf, List.getElem?_map, found, Option.map_some]
  simp only [State.ptr, found]

instance (state : State ranks) (given : Fin ranks → MemoryRegion) : Decidable (Handed state given) :=
  decidable_of_iff (state.history.length < giccMaxBufs ∧ (∀ rank peer, (given rank).size = (given peer).size) ∧
    (∀ rank, 0 < (given rank).size ∧ (given rank).buf + (given rank).size < 2 ^ 64) ∧
    (∀ rank, ∀ number ∈ state.live, ∀ other ∈ state.history[number]?, Apart (other rank) (given rank)) ∧
    ∀ rank, ∀ other ∈ state.history, (other rank).lkey ≠ (given rank).lkey ∧ (other rank).rkey ≠ (given rank).rkey)
    ⟨fun ⟨few, alike, within, apart, fresh⟩ => ⟨few, alike, within, apart, fresh⟩,
      fun ⟨few, alike, within, apart, fresh⟩ => ⟨few, alike, within, apart, fresh⟩⟩

instance (state : State ranks) (ptr : Fin ranks → Nat) : Decidable (FreesAlike state ptr) :=
  inferInstanceAs (Decidable (_ ∨ _))

instance (state : State ranks) (op : Op ranks) : Decidable (alike state op) :=
  match op with
  | .malloc given => inferInstanceAs (Decidable (Handed state given))
  | .free ptr => inferInstanceAs (Decidable (FreesAlike state ptr))
  | .context => isTrue trivial

def region (addr : Nat) (key : UInt32) (rank : Fin 2) : MemoryRegion :=
  ⟨addr + 4096 * rank.val, 256, key + UInt32.ofNat rank.val, key + 100 + UInt32.ofNat rank.val⟩

def reallocates (addr : Nat) : List (Op 2) :=
  [.malloc (region 65536 10), .context, .free fun rank => (region 65536 10 rank).buf, .malloc (region addr 20), .context]

theorem distinct_buffers_looked_up : ∃ state : State 2, Reach step alike start state ∧ state.live = [1] ∧ LooksUp state := by
  obtain ⟨state, reached, live, apart⟩ := reach_of_decided step alike (reallocates 131072) start
    (fun state => state.live = [1] ∧
      ∀ one ∈ state.history[0]?, ∀ two ∈ state.history[1]?, ∀ rank, Apart (one rank) (two rank)) (by decide +kernel)
  refine ⟨state, reached, live, (lookups_iff state reached).mpr ⟨?_, .inr (by decide)⟩⟩
  intro number member given found rank earlier before other there
  rw [live, List.mem_singleton] at member
  subst member
  rw [Nat.lt_one_iff.mp before] at there
  exact apart other there given found rank

theorem reused_address_stale : ∃ state : State 2, Reach step alike start state ∧ ¬ LooksUp state := by
  obtain ⟨state, reached, live, ⟨given, found, covered, key⟩, stale⟩ :=
    reach_of_decided step alike (reallocates 65536) start (fun state => state.live = [1] ∧
      (∃ given ∈ state.history[1]?, (given 0).covers 65536 = true ∧ (given 0).lkey = 20) ∧
        (context (state.states 0)).bind (fun pair => findLkey pair.2 65536) = some 10) (by decide +kernel)
  refine ⟨state, reached, ?_⟩
  intro looks
  obtain ⟨after, ctx, taken, lkeys, _⟩ := looks 1 (by simp [live]) given found 0
  have right := lkeys 65536 covered
  rw [taken, Option.bind_some, right, key] at stale
  exact absurd (Option.some.inj stale) (by decide)

end OpenGda.GiccApi
