import OpenGda.Ofi.RuntimeTarget

set_option autoImplicit false

-- What jacobi.cpp and mm_minimal.cpp have in common: every rank registers two buffers of one size and
-- exchanges them, and its puts move floats out of one of them to one of a peer's.
namespace OpenGda.Examples.OfiBuffers

open Ofi (RmaWrite)

-- What the allocators, the fabric and the address vectors give the ranks, by rank and buffer:
-- `avAddrs rank` are the addresses of all ranks in the rank's address vector.
structure Memory where
  virtAddrMode : Bool
  avAddrs : Nat → Nat → Nat
  ptr : Nat → Nat → Nat
  desc : Nat → Nat → Nat
  key : Nat → Nat → UInt64

variable (memory : Memory) (size bufSize : Nat)

section SetUp

def registered (rank : Nat) : Rt.Buffer × Rt.Buffer × Rt.Runtime :=
  let (gbuf0, rt) := Rt.registerBuffer (Rt.openRuntime (memory.avAddrs rank) memory.virtAddrMode)
    (memory.ptr rank 0) bufSize (memory.desc rank 0) (memory.key rank 0)
  let (gbuf1, rt) := Rt.registerBuffer rt (memory.ptr rank 1) bufSize (memory.desc rank 1) (memory.key rank 1)
  (gbuf0, gbuf1, rt)

def gbuf (rank which : Nat) : Rt.Buffer :=
  if which = 0 then (registered memory bufSize rank).1 else (registered memory bufSize rank).2.1

def raw : List (List Rt.BufMeta) :=
  (List.range size).map fun rank => (registered memory bufSize rank).2.2.localBufs.map fun ob => ⟨ob.addr, ob.key⟩

def exchanged (rank : Nat) : Option Rt.Runtime :=
  Rt.exchange (registered memory bufSize rank).2.2 (raw memory size bufSize)

def regions (rank : Nat) : List Rt.Region :=
  [⟨memory.ptr rank 0, bufSize, memory.key rank 0⟩, ⟨memory.ptr rank 1, bufSize, memory.key rank 1⟩]

-- What the ranks rely on the allocator, the keys and the address vector for, and a table key has room for.
structure Placed : Prop where
  few : size ≤ 2 ^ 16
  fits : bufSize < 2 ^ 64
  mapped : ∀ rank < size, ∀ which < 2, 0 < memory.ptr rank which ∧ memory.ptr rank which < 2 ^ 64
  apart : ∀ rank < size, Rt.Apart (regions memory bufSize rank)
  distinct : ∀ rank (one other : Fin size), memory.avAddrs rank one = memory.avAddrs rank other → one = other

structure Opened (rank : Nat) (rt : Rt.Runtime) : Prop where
  buffers : ∀ which < 2, rt.localBufs[which]? = some ⟨memory.ptr rank which, memory.desc rank which,
    memory.key rank which, UInt64.ofNat (memory.ptr rank which)⟩
  peers : ∀ other < size, ∀ which < 2, Rt.getRemoteInfo rt.fabric other which =
    Rt.metaInfo (memory.avAddrs rank other) ⟨UInt64.ofNat (memory.ptr other which), memory.key other which⟩
  addresses : rt.fabric.avAddrs = memory.avAddrs rank
  mode : rt.fabric.virtAddrMode = memory.virtAddrMode

variable {memory} {size} {bufSize}

theorem opened_same (rank : Nat) (before after : Rt.Runtime) (opened : Opened memory size rank before)
    (buffers : after.localBufs = before.localBufs) (remoteInfo : after.fabric.remoteInfo = before.fabric.remoteInfo)
    (addresses : after.fabric.avAddrs = before.fabric.avAddrs)
    (mode : after.fabric.virtAddrMode = before.fabric.virtAddrMode) : Opened memory size rank after := by
  refine ⟨?_, ?_, addresses.trans opened.addresses, mode.trans opened.mode⟩
  · rw [buffers]
    exact opened.buffers
  · simp only [Rt.getRemoteInfo, remoteInfo]
    exact opened.peers

theorem gbuf_index (rank which : Nat) (below : which < 2) : (gbuf memory bufSize rank which).index = which := by
  unfold gbuf
  split
  case isTrue first => exact first.symm
  case isFalse second =>
    rw [show which = 1 by omega]
    rfl

theorem raw_entry (rank which : Nat) (inside : rank < size) (below : which < 2) : ∃ metas,
    (raw memory size bufSize)[rank]? = some metas ∧
      metas[which]? = some ⟨UInt64.ofNat (memory.ptr rank which), memory.key rank which⟩ := by
  refine ⟨[⟨UInt64.ofNat (memory.ptr rank 0), memory.key rank 0⟩, ⟨UInt64.ofNat (memory.ptr rank 1), memory.key rank 1⟩],
    ?_, ?_⟩
  · simp [raw, inside, registered, Rt.registerBuffer, Rt.openRuntime]
  · rcases Nat.lt_succ_iff_lt_or_eq.mp below with first | rfl
    · rw [Nat.lt_one_iff.mp first]
      rfl
    · rfl

theorem raw_fits (few : size ≤ 2 ^ 16) : Rt.Fits (raw memory size bufSize) := by
  refine ⟨by simpa [raw] using few, ?_⟩
  intro metas member
  obtain ⟨rank, _, rfl⟩ := List.mem_map.mp member
  simp [registered, Rt.registerBuffer, Rt.openRuntime]

theorem exchange_opens (memory : Memory) (size bufSize rank : Nat) : ∃ rt, exchanged memory size bufSize rank = some rt := by
  unfold exchanged Rt.exchange
  rw [if_pos]
  · exact ⟨_, rfl⟩
  · intro metas member
    obtain ⟨other, _, rfl⟩ := List.mem_map.mp member
    simp [registered, Rt.registerBuffer, Rt.openRuntime]

theorem exchanged_opened (placed : Placed memory size bufSize) (rank : Nat) (rt : Rt.Runtime)
    (taken : exchanged memory size bufSize rank = some rt) :
    Opened memory size rank rt ∧ Rt.BatchInv rt ∧ rt.nOps = 0 ∧ rt.fabric.nic.counters .trigger = 0 := by
  have shown := taken
  obtain ⟨remoteInfo, rfl⟩ := Rt.exchange_result _ rt _ taken
  refine ⟨⟨?_, ?_, rfl, rfl⟩, ?_, rfl, rfl⟩
  · intro which below
    rcases Nat.lt_succ_iff_lt_or_eq.mp below with first | rfl
    · rw [Nat.lt_one_iff.mp first]
      rfl
    · rfl
  · intro other inside which below
    obtain ⟨metas, here, found⟩ := raw_entry other which inside below
    exact Rt.exchange_table _ _ (raw memory size bufSize) shown (raw_fits placed.few) other which metas _ here found
  · exact Rt.batch_frame (Rt.openRuntime (memory.avAddrs rank) memory.virtAddrMode) _ (Rt.open_batch _ _)
      ⟨⟨rfl, rfl⟩, rfl, ⟨rfl, rfl⟩, ⟨rfl, rfl⟩, rfl, rfl⟩

theorem region_entry (rank which : Nat) (below : which < 2) : (regions memory bufSize rank)[which]? =
    some ⟨memory.ptr rank which, bufSize, memory.key rank which⟩ := by
  rcases Nat.lt_succ_iff_lt_or_eq.mp below with first | rfl
  · rw [Nat.lt_one_iff.mp first]
    rfl
  · rfl

theorem regions_apart (rank : Nat) (disjoint : memory.ptr rank 0 + bufSize ≤ memory.ptr rank 1)
    (keys : memory.key rank 0 ≠ memory.key rank 1) : Rt.Apart (regions memory bufSize rank) := by
  have entry : ∀ (index : Nat) (region : Rt.Region), (regions memory bufSize rank)[index]? = some region →
      (index = 0 ∧ region = ⟨memory.ptr rank 0, bufSize, memory.key rank 0⟩) ∨
        (index = 1 ∧ region = ⟨memory.ptr rank 1, bufSize, memory.key rank 1⟩) := by
    intro index region here
    have below : index < 2 := (List.getElem?_eq_some_iff.mp here).1
    rw [region_entry rank index below] at here
    have same := (Option.some.inj here).symm
    rcases Nat.lt_succ_iff_lt_or_eq.mp below with first | rfl
    · obtain rfl : index = 0 := Nat.lt_one_iff.mp first
      exact .inl ⟨rfl, same⟩
    · exact .inr ⟨rfl, same⟩
  constructor
  · intro one other left right here there different
    rcases entry one left here with ⟨rfl, rfl⟩ | ⟨rfl, rfl⟩ <;>
      rcases entry other right there with ⟨rfl, rfl⟩ | ⟨rfl, rfl⟩
    · exact absurd rfl different
    · exact .inl disjoint
    · exact .inr disjoint
    · exact absurd rfl different
  · intro one other left right here there same
    rcases entry one left here with ⟨rfl, rfl⟩ | ⟨rfl, rfl⟩ <;>
      rcases entry other right there with ⟨rfl, rfl⟩ | ⟨rfl, rfl⟩
    · rfl
    · exact absurd same keys
    · exact absurd same.symm keys
    · rfl

end SetUp

section Puts

structure Move where
  source : Nat
  first : Nat
  target : Nat
  place : Nat
  count : Nat

structure Carries (rank peer : Nat) (move : Move) (write : RmaWrite) : Prop where
  dest : write.destAddr = memory.avAddrs rank peer
  size : write.size = move.count * 4
  source : ∀ word < move.count, Rt.locate (regions memory bufSize rank) (write.buf + 4 * word) =
    some (move.source, 4 * (move.first + word))
  place : ∀ word < move.count, Rt.locateRemote memory.virtAddrMode (regions memory bufSize peer) write (4 * word) =
    some (move.target, 4 * (move.place + word))

structure Move.Inside (move : Move) : Prop where
  source : move.source < 2
  target : move.target < 2
  own : (move.first + move.count) * 4 ≤ bufSize
  remote : (move.place + move.count) * 4 ≤ bufSize

variable {memory} {size} {bufSize}

theorem put_carries (placed : Placed memory size bufSize) (rank peer : Fin size) (rt : Rt.Runtime)
    (opened : Opened memory size rank rt) (move : Move) (inside : move.Inside bufSize) :
    Carries memory bufSize rank peer move (Rt.putWrite rt.fabric
      ⟨memory.ptr rank move.source, memory.desc rank move.source, memory.key rank move.source,
        UInt64.ofNat (memory.ptr rank move.source)⟩
      (Rt.metaInfo (memory.avAddrs rank peer) ⟨UInt64.ofNat (memory.ptr peer move.target), memory.key peer move.target⟩)
      peer (move.count * 4) (move.first * 4) (UInt64.ofNat (move.place * 4))) := by
  have own := inside.own
  have remote := inside.remote
  refine ⟨by simp only [Rt.putWrite, opened.addresses], rfl, ?_, ?_⟩
  · intro word within
    simp only [Rt.putWrite]
    rw [Nat.add_assoc, show move.first * 4 + 4 * word = 4 * (move.first + word) by ring]
    exact Rt.locate_region (regions memory bufSize rank) (placed.apart rank rank.isLt) move.source _ _
      (region_entry rank move.source inside.source) (show 4 * (move.first + word) < bufSize by omega)
  · intro word within
    have fits := placed.fits
    have offset : (UInt64.ofNat (move.place * 4)).toNat = move.place * 4 :=
      UInt64.toNat_ofNat_of_lt' (show _ < 2 ^ 64 by omega)
    have lands := Rt.put_write_target rt.fabric ⟨memory.ptr rank move.source, memory.desc rank move.source,
      memory.key rank move.source, UInt64.ofNat (memory.ptr rank move.source)⟩ (memory.avAddrs rank peer)
      peer (move.count * 4) (move.first * 4) (UInt64.ofNat (move.place * 4)) (regions memory bufSize peer)
      (placed.apart _ peer.isLt) move.target (4 * word) _ (region_entry peer move.target inside.target)
      (by rw [offset]; show move.place * 4 + 4 * word < bufSize; omega)
    rw [opened.mode, offset, show move.place * 4 + 4 * word = 4 * (move.place + word) by ring] at lands
    exact lands

theorem peer_known (placed : Placed memory size bufSize) (rank other which : Nat) (inside : other < size)
    (below : which < 2) : (Rt.metaInfo (memory.avAddrs rank other)
      ⟨UInt64.ofNat (memory.ptr other which), memory.key other which⟩).rmaAddr ≠ 0 := by
  obtain ⟨positive, small⟩ := placed.mapped other inside which below
  intro null
  have value := congrArg UInt64.toNat null
  rw [Rt.metaInfo, UInt64.toNat_ofNat_of_lt' small] at value
  exact absurd value (Nat.ne_of_gt positive)

theorem put_queues (placed : Placed memory size bufSize) (rank peer : Fin size) (rt : Rt.Runtime)
    (opened : Opened memory size rank rt) (room : rt.nOps < Rt.poolSize) (move : Move) (inside : move.Inside bufSize) :
    ∃ write, Carries memory bufSize rank peer move write ∧
      Rt.putNoDb rt (gbuf memory bufSize rank move.source) peer move.target (move.count * 4) (move.first * 4)
        (UInt64.ofNat (move.place * 4)) = some (⟨rt.nOps⟩, { rt with
          nOps := rt.nOps + 1
          writes := rt.writes ++ [⟨rt.nOps, rt.nOps + 1, write, rt.batch⟩]
          atomics := rt.atomics ++ [⟨rt.nOps, 1, rt.batch⟩]
          atomicSignalsQueued := true }) := by
  refine ⟨_, put_carries placed rank peer rt opened move inside, ?_⟩
  apply Rt.put_no_db_queues _ _ _ _ _ _ _ _ _ _ room
  · exact opened.peers _ peer.isLt move.target inside.target
  · exact peer_known placed rank _ move.target peer.isLt inside.target
  · rw [gbuf_index _ _ inside.source]
    exact opened.buffers move.source inside.source

end Puts

section Landing

def words (work : Rt.SlotWrite) : Nat := work.write.size / 4

-- `landed` tells by slot which words of a batch's writes have landed.
def WholeLanded (landed : Nat → Nat → Bool) (work : Rt.SlotWrite) : Prop := ∀ word < words work, landed work.slot word = true

instance (landed : Nat → Nat → Bool) (work : Rt.SlotWrite) : Decidable (WholeLanded landed work) :=
  inferInstanceAs (Decidable (∀ _ < _, _))

instance (rt : Rt.Runtime) (tok : Rt.Token) : Decidable (Rt.waitOver rt tok) := inferInstanceAs (Decidable (_ ≤ _))

-- A word of a triggered write that the NIC moves from the registered memory it names here to that
-- at its target: the slot of the write and the two cells, each as buffer and index.
def landing (rt : Rt.Runtime) (landed : Nat → Nat → Bool) (rank target index word : Nat) :
    Option (Nat × (Nat × Nat) × (Nat × Nat)) :=
  match rt.writes[index]? with
  | some work =>
      if Rt.WriteReady rt work ∧ work.write.destAddr = rt.fabric.avAddrs target ∧ word < words work ∧
          landed work.slot word = false then
        match Rt.locate (regions memory bufSize rank) (work.write.buf + 4 * word),
          Rt.locateRemote memory.virtAddrMode (regions memory bufSize target) work.write (4 * word) with
        | some (source, from_), some (which, place) => some (work.slot, (source, from_ / 4), (which, place / 4))
        | _, _ => none
      else none
  | none => none

variable {memory} {size} {bufSize}

theorem carried_words (rank peer : Nat) (move : Move) (work : Rt.SlotWrite)
    (carries : Carries memory bufSize rank peer move work.write) : words work = move.count := by
  rw [words, carries.size, Nat.mul_div_cancel _ (by decide)]

theorem landing_queued (rt : Rt.Runtime) (landed : Nat → Nat → Bool) (rank target index word : Nat)
    (moved : Nat × (Nat × Nat) × (Nat × Nat))
    (taken : landing memory bufSize rt landed rank target index word = some moved) :
    ∃ work, rt.writes[index]? = some work ∧ Rt.WriteReady rt work ∧
      work.write.destAddr = rt.fabric.avAddrs target ∧ word < words work ∧ landed work.slot word = false := by
  unfold landing at taken
  split at taken
  case h_1 work found =>
    split_ifs at taken with guard
    exact ⟨work, found, guard⟩
  case h_2 => cases taken

theorem landing_cells (rt : Rt.Runtime) (landed : Nat → Nat → Bool) (rank peer index word : Nat) (work : Rt.SlotWrite)
    (move : Move) (found : rt.writes[index]? = some work) (carries : Carries memory bufSize rank peer move work.write)
    (ready : Rt.WriteReady rt work) (dest : work.write.destAddr = rt.fabric.avAddrs peer) (within : word < move.count)
    (pending : landed work.slot word = false) : landing memory bufSize rt landed rank peer index word =
      some (work.slot, (move.source, move.first + word), (move.target, move.place + word)) := by
  have inside : word < words work := by rwa [carried_words rank peer move work carries]
  have guard := And.intro ready (And.intro dest (And.intro inside pending))
  simp only [landing, found, if_pos guard, carries.source word within, carries.place word within, Nat.mul_div_cancel_left _ (show 0 < 4 by decide)]

theorem landing_result (placed : Placed memory size bufSize) (rank peer target : Fin size) (rt : Rt.Runtime)
    (landed : Nat → Nat → Bool) (index word : Nat) (work : Rt.SlotWrite) (move : Move)
    (moved : Nat × (Nat × Nat) × (Nat × Nat)) (opened : Opened memory size rank rt)
    (found : rt.writes[index]? = some work) (carries : Carries memory bufSize rank peer move work.write)
    (taken : landing memory bufSize rt landed rank target index word = some moved) :
    target = peer ∧ word < move.count ∧
      moved = (work.slot, (move.source, move.first + word), (move.target, move.place + word)) := by
  obtain ⟨other, same, ready, dest, inside, pending⟩ := landing_queued rt landed rank target index word moved taken
  obtain rfl : work = other := Option.some.inj (found.symm.trans same)
  have within : word < move.count := by rwa [carried_words rank peer move work carries] at inside
  have addressed : target = peer := by
    apply placed.distinct rank
    rw [← carries.dest, dest, opened.addresses]
  subst addressed
  rw [landing_cells rt landed rank target index word work move found carries ready dest within pending] at taken
  exact ⟨rfl, within, (Option.some.inj taken).symm⟩

end Landing

end OpenGda.Examples.OfiBuffers
