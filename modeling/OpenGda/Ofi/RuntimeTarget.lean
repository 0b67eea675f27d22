import OpenGda.Lib.Tables
import OpenGda.Ofi.RuntimeBatch

set_option autoImplicit false

-- Where the bytes of a put come from and where they go: the table that exchange() fills,
-- and the registered memory that the NICs of the two sides look up.
namespace OpenGda.Rt

open Ofi (Fabric RmaWrite RemoteInfo makeRemoteKey setRemoteInfoByIndex)

section Keys

theorem remote_key_value (rank bufIndex : Nat) (few : rank < 2 ^ 16) (small : bufIndex < 2 ^ 48) :
    (makeRemoteKey rank bufIndex).toNat = rank * 2 ^ 48 + bufIndex := by
  have size : UInt64.size = 2 ^ 64 := rfl
  have high : rank * 2 ^ 48 < 2 ^ 64 := by omega
  have masked : bufIndex &&& 0xFFFFFFFFFFFF = bufIndex := by
    rw [show 0xFFFFFFFFFFFF = 2 ^ 48 - 1 by decide, Nat.and_two_pow_sub_one_eq_mod, Nat.mod_eq_of_lt small]
  unfold makeRemoteKey
  rw [UInt64.toNat_or, UInt64.toNat_shiftLeft, UInt64.toNat_and, UInt64.toNat_ofNat_of_lt' (by omega),
    UInt64.toNat_ofNat_of_lt' (by omega)]
  simp only [UInt64.reduceToNat, Nat.reduceMod, masked]
  rw [Nat.shiftLeft_eq, Nat.mod_eq_of_lt high, ← Nat.shiftLeft_eq, ← Nat.shiftLeft_add_eq_or_of_lt small]

theorem remote_key_injective (rank other bufIndex index : Nat) (few : rank < 2 ^ 16) (otherFew : other < 2 ^ 16)
    (small : bufIndex < 2 ^ 48) (otherSmall : index < 2 ^ 48)
    (same : makeRemoteKey rank bufIndex = makeRemoteKey other index) : rank = other ∧ bufIndex = index := by
  have values := congrArg UInt64.toNat same
  rw [remote_key_value rank bufIndex few small, remote_key_value other index otherFew otherSmall] at values
  omega

end Keys

section Table

def metaInfo (avAddr : Nat) (entry : BufMeta) : RemoteInfo := ⟨avAddr, entry.addr, entry.key, entry.addr⟩

theorem set_remote_infos_shows (metas : List (BufMeta × Nat)) (fabric : Fabric) (destRank : Nat) (key : UInt64)
    (info : RemoteInfo)
    (agree : ∀ entry ∈ metas, makeRemoteKey destRank entry.2 = key → metaInfo (fabric.avAddrs destRank) entry.1 = info)
    (shows : fabric.remoteInfo key = some info ∨ ∃ entry ∈ metas, makeRemoteKey destRank entry.2 = key) :
    (metas.foldl (fun fabric (entry : BufMeta × Nat) =>
      setRemoteInfoByIndex fabric destRank entry.2 entry.1.addr entry.1.key 0) fabric).remoteInfo key = some info := by
  induction metas generalizing fabric with
  | nil => simpa using shows
  | cons entry rest ih =>
      rw [List.foldl_cons]
      refine ih _ (fun other member => agree other (List.mem_cons_of_mem _ member)) ?_
      by_cases hit : makeRemoteKey destRank entry.2 = key
      · left
        rw [← agree entry List.mem_cons_self hit, ← hit]
        simp [setRemoteInfoByIndex, metaInfo]
      · rcases shows with old | ⟨found, member, there⟩
        · left
          simpa [setRemoteInfoByIndex, Function.update_of_ne (Ne.symm hit)] using old
        · rcases List.mem_cons.mp member with same | later
          · exact absurd (same ▸ there) hit
          · exact .inr ⟨found, later, there⟩

structure Fits (raw : List (List BufMeta)) : Prop where
  ranks : raw.length ≤ 2 ^ 16
  buffers : ∀ metas ∈ raw, metas.length ≤ 2 ^ 48

theorem fits_key (raw : List (List BufMeta)) (fits : Fits raw) (rank other bufIndex index : Nat) (metas others : List BufMeta)
    (here : raw[rank]? = some metas) (there : raw[other]? = some others) (inside : bufIndex < metas.length)
    (within : index < others.length) (same : makeRemoteKey other index = makeRemoteKey rank bufIndex) :
    other = rank ∧ index = bufIndex := by
  obtain ⟨below, rfl⟩ := List.getElem?_eq_some_iff.mp here
  obtain ⟨otherBelow, rfl⟩ := List.getElem?_eq_some_iff.mp there
  have ranks := fits.ranks
  have small := fits.buffers _ (List.getElem_mem below)
  have otherSmall := fits.buffers _ (List.getElem_mem otherBelow)
  exact remote_key_injective other rank index bufIndex (by omega) (by omega) (by omega) (by omega) same

theorem exchange_table (rt after : Runtime) (raw : List (List BufMeta)) (exchanged : exchange rt raw = some after)
    (fits : Fits raw) (rank bufIndex : Nat) (metas : List BufMeta) (entry : BufMeta) (here : raw[rank]? = some metas)
    (found : metas[bufIndex]? = some entry) :
    getRemoteInfo after.fabric rank bufIndex = metaInfo (rt.fabric.avAddrs rank) entry := by
  have inside := (List.getElem?_eq_some_iff.mp found).1
  have fold : ∀ (entries : List (List BufMeta × Nat)) (fabric : Fabric), fabric.avAddrs = rt.fabric.avAddrs →
      (∀ one ∈ entries, raw[one.2]? = some one.1) →
      (fabric.remoteInfo (makeRemoteKey rank bufIndex) = some (metaInfo (rt.fabric.avAddrs rank) entry) ∨
        (metas, rank) ∈ entries) →
      (entries.foldl (fun fabric (one : List BufMeta × Nat) => setRemoteInfos fabric one.2 one.1) fabric).remoteInfo
        (makeRemoteKey rank bufIndex) = some (metaInfo (rt.fabric.avAddrs rank) entry) := by
    intro entries
    induction entries with
    | nil => simp
    | cons one rest ih =>
        intro fabric addrs among shows
        obtain ⟨remoteInfo, kept⟩ : ∃ remoteInfo, setRemoteInfos fabric one.2 one.1 =
          { fabric with remoteInfo := remoteInfo } := exchange_fabric fabric [one]
        have here' := among one List.mem_cons_self
        have agree : ∀ other ∈ one.1.zipIdx, makeRemoteKey one.2 other.2 = makeRemoteKey rank bufIndex →
            metaInfo (fabric.avAddrs one.2) other.1 = metaInfo (rt.fabric.avAddrs rank) entry := by
          rintro ⟨other, index⟩ member same
          have there := List.mk_mem_zipIdx_iff_getElem?.mp member
          obtain ⟨sameRank, sameIndex⟩ := fits_key raw fits rank one.2 bufIndex index metas one.1 here here' inside
            (List.getElem?_eq_some_iff.mp there).1 same
          rw [sameRank, here] at here'
          rw [sameIndex, ← Option.some.inj here', found] at there
          rw [addrs, sameRank, Option.some.inj there]
        refine ih _ ((congrArg Fabric.avAddrs kept).trans addrs) (fun other member => among other (List.mem_cons_of_mem _ member)) ?_
        rcases shows with old | member
        · exact .inl (set_remote_infos_shows _ fabric one.2 _ _ agree (.inl old))
        · rcases List.mem_cons.mp member with same | later
          · refine .inl (set_remote_infos_shows _ fabric one.2 _ _ agree (.inr ⟨(entry, bufIndex), ?_, ?_⟩))
            · rw [← same]
              exact List.mk_mem_zipIdx_iff_getElem?.mpr found
            · rw [← same]
          · exact .inr later
  have filled : after.fabric.remoteInfo (makeRemoteKey rank bufIndex) = some (metaInfo (rt.fabric.avAddrs rank) entry) := by
    unfold exchange at exchanged
    split_ifs at exchanged
    rw [← Option.some.inj exchanged]
    exact fold raw.zipIdx rt.fabric rfl (fun one member => List.mk_mem_zipIdx_iff_getElem?.mp member)
      (.inr (List.mk_mem_zipIdx_iff_getElem?.mpr here))
  rw [getRemoteInfo, filled]
  rfl

end Table

theorem reset_keeps (before after : Runtime) (taken : reset before = some after) :
    after.localBufs = before.localBufs ∧ after.fabric.remoteInfo = before.fabric.remoteInfo ∧
      after.fabric.avAddrs = before.fabric.avAddrs ∧ after.fabric.virtAddrMode = before.fabric.virtAddrMode := by
  unfold reset at taken
  split_ifs at taken
  cases taken
  exact ⟨rfl, rfl, rfl, rfl⟩

section Regions

structure Region where
  base : Nat
  size : Nat
  key : UInt64
deriving DecidableEq, Repr

def Region.covers (region : Region) (address : Nat) : Bool := region.base ≤ address && address < region.base + region.size

def locate (regions : List Region) (address : Nat) : Option (Nat × Nat) :=
  (regions.zipIdx.find? fun (entry : Region × Nat) => entry.1.covers address).map
    fun (entry : Region × Nat) => (entry.2, address - entry.1.base)

-- The place of a byte of a write at its target: without FI_MR_VIRT_ADDR the remote address is an offset.
def locateRemote (virtAddrMode : Bool) (regions : List Region) (write : RmaWrite) (byte : Nat) : Option (Nat × Nat) :=
  (regions.zipIdx.find? fun (entry : Region × Nat) => entry.1.key == write.remoteKey).bind fun (entry : Region × Nat) =>
    let start := if virtAddrMode then write.remoteAddr - UInt64.ofNat entry.1.base else write.remoteAddr
    if start.toNat + byte < entry.1.size then some (entry.2, start.toNat + byte) else none

structure Apart (regions : List Region) : Prop where
  disjoint : ∀ (one other : Nat) (left right : Region), regions[one]? = some left → regions[other]? = some right →
    one ≠ other → left.base + left.size ≤ right.base ∨ right.base + right.size ≤ left.base
  keys : ∀ (one other : Nat) (left right : Region), regions[one]? = some left → regions[other]? = some right →
    left.key = right.key → one = other

theorem zip_entry (regions : List Region) (index : Nat) (entry : Region × Nat)
    (there : regions.zipIdx[index]? = some entry) : regions[index]? = some entry.1 := by
  obtain ⟨within, same⟩ := List.getElem?_eq_some_iff.mp there
  rw [List.getElem_zipIdx] at same
  rw [← same]
  exact List.getElem?_eq_getElem _

theorem locate_region (regions : List Region) (apart : Apart regions) (index offset : Nat) (region : Region)
    (here : regions[index]? = some region) (inside : offset < region.size) :
    locate regions (region.base + offset) = some (index, offset) := by
  have found : regions.zipIdx[index]? = some (region, index) := by simp [here]
  have first := FirstMatch.find_unhidden (fun (entry : Region × Nat) => entry.1.covers) regions.zipIdx index (region, index)
    (region.base + offset) found (by simp [Region.covers, inside]) ?_
  · simp [locate, first]
  · rintro ⟨earlier, ⟨other, place⟩, before, there, covered⟩
    have apartHere := apart.disjoint earlier index other region (zip_entry regions earlier _ there) here (Nat.ne_of_lt before)
    simp only [Region.covers, Bool.and_eq_true, decide_eq_true_eq] at covered
    omega

theorem locate_remote_region (virtAddrMode : Bool) (regions : List Region) (apart : Apart regions) (index byte : Nat)
    (region : Region) (write : RmaWrite) (here : regions[index]? = some region) (key : write.remoteKey = region.key)
    (start : (if virtAddrMode then write.remoteAddr - UInt64.ofNat region.base else write.remoteAddr).toNat + byte <
      region.size) :
    locateRemote virtAddrMode regions write byte = some (index,
      (if virtAddrMode then write.remoteAddr - UInt64.ofNat region.base else write.remoteAddr).toNat + byte) := by
  have found : regions.zipIdx[index]? = some (region, index) := by simp [here]
  have first := FirstMatch.find_unhidden (fun (entry : Region × Nat) (key : UInt64) => entry.1.key == key) regions.zipIdx
    index (region, index) write.remoteKey found (by simp [key]) ?_
  · simp only [locateRemote, first, Option.bind_some, if_pos start]
  · rintro ⟨earlier, ⟨other, place⟩, before, there, covered⟩
    have sameKey : other.key = region.key := by rw [← key]; simpa using covered
    have same := apart.keys earlier index other region (zip_entry regions earlier _ there) here sameKey
    omega

theorem put_no_db_queues (rt : Runtime) (src : Buffer) (ob : OfiBuffer) (info : RemoteInfo)
    (destRank destBufIndex size srcOffset : Nat) (dstOffset : UInt64) (registered : rt.localBufs[src.index]? = some ob)
    (room : rt.nOps < poolSize) (known : getRemoteInfo rt.fabric destRank destBufIndex = info) (nonNull : info.rmaAddr ≠ 0) :
    putNoDb rt src destRank destBufIndex size srcOffset dstOffset = some (⟨rt.nOps⟩, { rt with
      nOps := rt.nOps + 1
      writes := rt.writes ++
        [⟨rt.nOps, rt.nOps + 1, putWrite rt.fabric ob info destRank size srcOffset dstOffset, rt.batch⟩]
      atomics := rt.atomics ++ [⟨rt.nOps, 1, rt.batch⟩]
      atomicSignalsQueued := true }) := by
  simp only [putNoDb, registered, known, nonNull, and_false, if_neg (Nat.not_le.mpr room), if_false]

theorem put_write_target (fabric : Fabric) (ob : OfiBuffer) (avAddr destRank size srcOffset : Nat) (dstOffset : UInt64)
    (regions : List Region) (apart : Apart regions) (index byte : Nat) (region : Region)
    (here : regions[index]? = some region) (inside : dstOffset.toNat + byte < region.size) :
    locateRemote fabric.virtAddrMode regions
      (putWrite fabric ob (metaInfo avAddr ⟨UInt64.ofNat region.base, region.key⟩) destRank size srcOffset dstOffset) byte =
        some (index, dstOffset.toNat + byte) := by
  have start : (if fabric.virtAddrMode then (putWrite fabric ob (metaInfo avAddr ⟨UInt64.ofNat region.base, region.key⟩)
      destRank size srcOffset dstOffset).remoteAddr - UInt64.ofNat region.base
    else (putWrite fabric ob (metaInfo avAddr ⟨UInt64.ofNat region.base, region.key⟩)
      destRank size srcOffset dstOffset).remoteAddr) = dstOffset := by
    cases mode : fabric.virtAddrMode with
    | true => simp [putWrite, metaInfo, mode]
    | false => simp [putWrite, metaInfo, mode]
  rw [locate_remote_region fabric.virtAddrMode regions apart index byte region _ here rfl (by rw [start]; exact inside), start]

end Regions

end OpenGda.Rt
