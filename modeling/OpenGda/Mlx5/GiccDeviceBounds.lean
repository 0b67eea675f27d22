import OpenGda.Mlx5.GiccDevice

set_option autoImplicit false

-- build_context fills no more than its arrays hold, but the count it hands to the kernels
-- is that of all buffers, and a kernel may name any rank.
namespace OpenGda.GiccDevice

open Machine CheckedReads
open OpenGda.GiccApi (MemoryRegion RemoteBufferInfo BufEntry GlobalState giccMaxBufs giccMaxPeers)

variable {ranks : Nat}

-- One of the first sixteen registered buffers has the address, here or on the peer.
def FoundHere (rt : GiccApi.Runtime ranks) (addr : Nat) : Prop :=
  ∃ i < giccMaxBufs, ∃ mr, rt.localBufs[i]? = some mr ∧ Covers mr.buf mr.size addr

def FoundThere (rt : GiccApi.Runtime ranks) (peer : Fin ranks) (addr : Nat) : Prop :=
  ∃ i < giccMaxBufs, ∃ mr info, rt.localBufs[i]? = some mr ∧
    (rt.remoteBufs.bind fun remote => (remote peer)[i]?) = some info ∧ Covers info.addr mr.size addr

def LkeyFits (rt : GiccApi.Runtime ranks) (addr : Nat) : Prop :=
  rt.localBufs.length ≤ giccMaxBufs ∨ FoundHere rt addr

def RkeyFits (rt : GiccApi.Runtime ranks) (peer : Fin ranks) (addr : Nat) : Prop :=
  rt.localBufs.length = 0 ∨
    peer.val < giccMaxPeers ∧ (rt.localBufs.length ≤ giccMaxBufs ∨ FoundThere rt peer addr)

-- The condition for one call, on the buffers registered and the rank that is named.
def Fits (rt : GiccApi.Runtime ranks) : Call ranks → Prop
  | .findLkey addr => LkeyFits rt addr
  | .findRkey peer addr => RkeyFits rt peer addr
  | .put dst src _ peer _ | .putNoDb dst src _ peer _ =>
      LkeyFits rt src ∧ RkeyFits rt peer dst ∧ peer.val < giccMaxPeers
  | .flush peer | .quiet peer => peer.val < giccMaxPeers

theorem covers_nothing (base addr : Nat) : ¬ Covers base 0 addr := by
  rintro ⟨above, below⟩
  have least := Nat.mod_le base (2 ^ 64)
  rw [Nat.add_zero] at below
  omega

theorem last_uncovered (base size : Nat) : ¬ Covers base size (2 ^ 64 - 1) := by
  rintro ⟨_, below⟩
  have small := Nat.mod_lt (base + size) (show 0 < 2 ^ 64 by decide)
  omega

theorem local_buf (ctx : GiccContext) (i : Nat) (inside : i < giccMaxBufs) :
    Within Access.Inside (localBuf ctx i) ∧ (localBuf ctx i).result = some (ctx.registry.localBufs ⟨i, inside⟩) := by
  refine ⟨(within_read _ _ _).mpr inside, ?_⟩
  simp only [localBuf, readAt, dif_pos inside]

theorem remote_buf (ctx : GiccContext) (peer i : Nat) (known : peer < giccMaxPeers) (inside : i < giccMaxBufs) :
    Within Access.Inside (remoteBuf ctx peer i) ∧
      (remoteBuf ctx peer i).result = some (ctx.registry.remoteBufs ⟨peer, known⟩ ⟨i, inside⟩) := by
  refine ⟨(within_read _ _ _).mpr ⟨known, inside⟩, ?_⟩
  simp only [remoteBuf, readAt, dif_pos (And.intro known inside)]

def hitLkey (ctx : GiccContext) (addr i : Nat) : Option UInt32 :=
  if inside : i < giccMaxBufs then
    if Covers (ctx.registry.localBufs ⟨i, inside⟩).addr (ctx.registry.localBufs ⟨i, inside⟩).size addr then
      some (ctx.registry.localBufs ⟨i, inside⟩).lkey
    else none
  else none

theorem look_lkey (ctx : GiccContext) (addr i : Nat) (inside : i < giccMaxBufs) :
    Within Access.Inside (lookLkey ctx addr i) ∧ (lookLkey ctx addr i).result = some (hitLkey ctx addr i) := by
  obtain ⟨within, returned⟩ := local_buf ctx i inside
  simp only [lookLkey, bind_eq, pure_eq, within_bind, result_bind, returned, Option.bind_some, Option.some.injEq,
    forall_eq', hitLkey, dif_pos inside]
  split
  · exact ⟨⟨within, within_pure _ _⟩, rfl⟩
  · exact ⟨⟨within, within_pure _ _⟩, rfl⟩

theorem look_lkey_inside (ctx : GiccContext) (addr i : Nat) (within : Within Access.Inside (lookLkey ctx addr i)) :
    i < giccMaxBufs := (within_read Access.Inside (.localBufs i) _).mp ((within_bind _ _ _).mp within).1

theorem find_lkey_within (ctx : GiccContext) (addr : Nat) : Within Access.Inside (findLkey ctx addr) ↔
    ctx.registry.numLocalBufs ≤ giccMaxBufs ∨ ∃ i < giccMaxBufs, (hitLkey ctx addr i).isSome = true := by
  have scan := search_within_iff Access.Inside (lookLkey ctx addr) 0 giccMaxBufs (hitLkey ctx addr)
    (look_lkey ctx addr) ?_ ctx.registry.numLocalBufs 0 (Nat.zero_le _)
  · rw [findLkey, List.range_eq_range', scan, Nat.zero_add]
    simp only [Nat.zero_le, true_and]
  · intro i past within
    exact absurd (look_lkey_inside ctx addr i within) (Nat.not_lt.mpr past)

def hitRkey (ctx : GiccContext) (peer addr i : Nat) : Option UInt32 :=
  if known : peer < giccMaxPeers then
    if inside : i < giccMaxBufs then
      if Covers (ctx.registry.remoteBufs ⟨peer, known⟩ ⟨i, inside⟩).addr (ctx.registry.localBufs ⟨i, inside⟩).size addr then
        some (ctx.registry.remoteBufs ⟨peer, known⟩ ⟨i, inside⟩).rkey
      else none
    else none
  else none

theorem look_rkey (ctx : GiccContext) (peer addr i : Nat) (known : peer < giccMaxPeers) (inside : i < giccMaxBufs) :
    Within Access.Inside (lookRkey ctx peer addr i) ∧ (lookRkey ctx peer addr i).result = some (hitRkey ctx peer addr i) := by
  obtain ⟨there, remote⟩ := remote_buf ctx peer i known inside
  obtain ⟨here, own⟩ := local_buf ctx i inside
  simp only [lookRkey, bind_eq, pure_eq, within_bind, result_bind, remote, own, Option.bind_some, Option.some.injEq,
    forall_eq', hitRkey, dif_pos known, dif_pos inside]
  split
  · simp only [within_bind, result_bind, remote, Option.bind_some, Option.some.injEq, forall_eq']
    exact ⟨⟨there, here, there, within_pure _ _⟩, trivial⟩
  · exact ⟨⟨there, here, within_pure _ _⟩, rfl⟩

theorem look_rkey_inside (ctx : GiccContext) (peer addr i : Nat)
    (within : Within Access.Inside (lookRkey ctx peer addr i)) : peer < giccMaxPeers ∧ i < giccMaxBufs :=
  (within_read Access.Inside (.remoteBufs peer i) _).mp ((within_bind _ _ _).mp within).1

theorem find_rkey_within (ctx : GiccContext) (peer addr : Nat) (known : peer < giccMaxPeers) :
    Within Access.Inside (findRkey ctx peer addr) ↔
      ctx.registry.numLocalBufs ≤ giccMaxBufs ∨ ∃ i < giccMaxBufs, (hitRkey ctx peer addr i).isSome = true := by
  have scan := search_within_iff Access.Inside (lookRkey ctx peer addr) 0 giccMaxBufs (hitRkey ctx peer addr)
    (fun i inside => look_rkey ctx peer addr i known inside) ?_ ctx.registry.numLocalBufs 0 (Nat.zero_le _)
  · rw [findRkey, List.range_eq_range', scan, Nat.zero_add]
    simp only [Nat.zero_le, true_and]
  · intro i past within
    exact absurd (look_rkey_inside ctx peer addr i within).2 (Nat.not_lt.mpr past)

theorem find_rkey_unknown (ctx : GiccContext) (peer addr : Nat) (unknown : ¬ peer < giccMaxPeers) :
    Within Access.Inside (findRkey ctx peer addr) ↔ ctx.registry.numLocalBufs = 0 := by
  rw [findRkey]
  cases ctx.registry.numLocalBufs with
  | zero => exact iff_of_true (within_pure _ _) rfl
  | succ count =>
      rw [List.range_succ_eq_map, search_cons]
      refine iff_of_false (fun both => ?_) (Nat.succ_ne_zero count)
      exact unknown (look_rkey_inside ctx peer addr 0 both.1).1

theorem look_lkey_total (ctx : GiccContext) (addr i : Nat) (within : Within Access.Inside (lookLkey ctx addr i)) :
    (lookLkey ctx addr i).result.isSome = true := by
  rw [(look_lkey ctx addr i (look_lkey_inside ctx addr i within)).2]
  rfl

theorem look_rkey_total (ctx : GiccContext) (peer addr i : Nat) (within : Within Access.Inside (lookRkey ctx peer addr i)) :
    (lookRkey ctx peer addr i).result.isSome = true := by
  obtain ⟨known, inside⟩ := look_rkey_inside ctx peer addr i within
  rw [(look_rkey ctx peer addr i known inside).2]
  rfl

theorem on_peer_within {Result : Type} (qp : Option Mlx5.DeviceCtx) (call : Mlx5.DeviceCtx → Result) :
    Within Access.Inside (onPeer qp call) := fun _ member => absurd member List.not_mem_nil

theorem peer_call_within {Result : Type} (ctx : GiccContext) (peer : Nat) (call : Mlx5.DeviceCtx → Result) :
    Within Access.Inside ((peerCtx ctx peer).bind fun qp => onPeer qp call) ↔ peer < giccMaxPeers := by
  rw [within_bind]
  exact ⟨fun both => (within_read Access.Inside _ _).mp both.1,
    fun known => ⟨(within_read Access.Inside _ _).mpr known, fun qp _ => on_peer_within qp call⟩⟩

theorem put_within (write : Mlx5.DeviceCtx → Mlx5.Queue → Mlx5.Put → Mlx5.Queue) (ctx : GiccContext) (queues : Queues)
    (dst src : Nat) (size : BitVec 32) (peer : Nat) (signaled : Bool) :
    Within Access.Inside (putWith write ctx queues dst src size peer signaled) ↔
      Within Access.Inside (findLkey ctx src) ∧ Within Access.Inside (findRkey ctx peer dst) ∧ peer < giccMaxPeers := by
  simp only [putWith, bind_eq, within_bind Access.Inside (findLkey ctx src), within_bind Access.Inside (findRkey ctx peer dst),
    peer_call_within]
  refine and_congr_right fun source => ?_
  obtain ⟨lkey, foundLkey⟩ := Option.isSome_iff_exists.mp
    (search_total _ _ _ _ (look_lkey_total ctx src) source)
  rw [← findLkey] at foundLkey
  simp only [foundLkey, Option.some.injEq, forall_eq']
  refine and_congr_right fun target => ?_
  obtain ⟨rkey, foundRkey⟩ := Option.isSome_iff_exists.mp
    (search_total _ _ _ _ (look_rkey_total ctx peer dst) target)
  rw [← findRkey] at foundRkey
  simp only [foundRkey, Option.some.injEq, forall_eq']

structure Built (rt : GiccApi.Runtime ranks) (ctx : GiccContext) : Prop where
  num : ctx.registry.numLocalBufs = rt.localBufs.length
  own : ∀ i (inside : i < giccMaxBufs) mr, rt.localBufs[i]? = some mr →
    ctx.registry.localBufs ⟨i, inside⟩ = ⟨mr.buf, mr.size, mr.lkey, mr.rkey⟩
  none : ∀ i (inside : i < giccMaxBufs), rt.localBufs[i]? = none → (ctx.registry.localBufs ⟨i, inside⟩).size = 0
  remote : ∀ (peer : Fin ranks) (known : peer.val < giccMaxPeers) i (inside : i < giccMaxBufs),
    i < rt.localBufs.length → (rt.remoteBufs.bind fun remote => (remote peer)[i]?) =
      some (ctx.registry.remoteBufs ⟨peer.val, known⟩ ⟨i, inside⟩)

theorem built_context (rt : GiccApi.Runtime ranks) (qps : Fin ranks → DevxQp) (ctx : GiccContext)
    (built : buildContext rt qps = some ctx) : Built rt ctx := by
  rw [buildContext] at built
  split_ifs at built with reads
  obtain ⟨registry, registered, rfl⟩ := Option.map_eq_some_iff.mp built
  cases known : rt.remoteBufs with
  | none =>
      simp only [GiccApi.buildContext, known] at registered
      split_ifs at registered
      cases registered
      refine ⟨rfl, ?_, ?_, ?_⟩
      · intro i inside mr found
        simp only [found]
      · intro i inside missing
        simp only [missing, GiccApi.noEntry]
      · intro peer inside i bound more
        have entry := (reads peer inside).entries i more bound
        simp [known] at entry
  | some remote =>
      simp only [GiccApi.buildContext, known] at registered
      cases registered
      refine ⟨rfl, ?_, ?_, ?_⟩
      · intro i inside mr found
        simp only [found]
      · intro i inside missing
        simp only [missing, GiccApi.noEntry]
      · intro peer inside i bound more
        have entry := (reads peer inside).entries i more bound
        simp only [known, Option.bind_some] at entry ⊢
        obtain ⟨info, found⟩ := Option.isSome_iff_exists.mp entry
        simp only [dif_pos peer.isLt, found, Option.getD_some]

theorem lkey_fits_iff (rt : GiccApi.Runtime ranks) (ctx : GiccContext) (built : Built rt ctx) (addr : Nat) :
    Within Access.Inside (findLkey ctx addr) ↔ LkeyFits rt addr := by
  rw [find_lkey_within, built.num, LkeyFits]
  refine or_congr_right ?_
  constructor
  · rintro ⟨i, inside, hit⟩
    simp only [hitLkey, dif_pos inside] at hit
    cases found : rt.localBufs[i]? with
    | none =>
        rw [built.none i inside found, if_neg (covers_nothing _ addr)] at hit
        cases hit
    | some mr =>
        rw [built.own i inside mr found] at hit
        refine ⟨i, inside, mr, found, ?_⟩
        by_contra missed
        rw [if_neg missed] at hit
        cases hit
  · rintro ⟨i, inside, mr, found, covered⟩
    refine ⟨i, inside, ?_⟩
    simp only [hitLkey, dif_pos inside, built.own i inside mr found, if_pos covered, Option.isSome_some]

theorem rkey_fits_iff (rt : GiccApi.Runtime ranks) (ctx : GiccContext) (built : Built rt ctx) (peer : Fin ranks)
    (addr : Nat) : Within Access.Inside (findRkey ctx peer.val addr) ↔ RkeyFits rt peer addr := by
  rw [RkeyFits]
  by_cases known : peer.val < giccMaxPeers
  · rw [find_rkey_within ctx peer.val addr known, built.num]
    constructor
    · rintro (few | ⟨i, inside, hit⟩)
      · exact .inr ⟨known, .inl few⟩
      · simp only [hitRkey, dif_pos known, dif_pos inside] at hit
        cases found : rt.localBufs[i]? with
        | none =>
            rw [built.none i inside found, if_neg (covers_nothing _ addr)] at hit
            cases hit
        | some mr =>
            rw [built.own i inside mr found] at hit
            have there := built.remote peer known i inside (List.getElem?_eq_some_iff.mp found).1
            refine .inr ⟨known, .inr ⟨i, inside, mr, _, found, there, ?_⟩⟩
            by_contra missed
            rw [if_neg missed] at hit
            cases hit
    · rintro (none | ⟨_, few | ⟨i, inside, mr, info, found, there, covered⟩⟩)
      · exact .inl (none ▸ Nat.zero_le _)
      · exact .inl few
      · refine .inr ⟨i, inside, ?_⟩
        have same := built.remote peer known i inside (List.getElem?_eq_some_iff.mp found).1
        rw [there] at same
        simp only [hitRkey, dif_pos known, dif_pos inside, built.own i inside mr found, ← Option.some.inj same,
          if_pos covered, Option.isSome_some]
  · rw [find_rkey_unknown ctx peer.val addr known, built.num]
    exact ⟨.inl, fun fits => fits.resolve_right fun both => known both.1⟩

theorem in_bounds_iff (rt : GiccApi.Runtime ranks) (ctx : GiccContext) (built : Built rt ctx) (queues : Queues)
    (call : Call ranks) : InBounds ctx queues call ↔ Fits rt call := by
  cases call with
  | findLkey addr => exact lkey_fits_iff rt ctx built addr
  | findRkey peer addr => exact rkey_fits_iff rt ctx built peer addr
  | put dst src size peer signaled | putNoDb dst src size peer signaled =>
      exact (put_within _ ctx queues dst src size peer.val signaled).trans
        (and_congr (lkey_fits_iff rt ctx built src) (and_congr_left fun _ => rkey_fits_iff rt ctx built peer dst))
  | flush peer | quiet peer => exact peer_call_within ctx peer.val _

theorem all_fit_iff (rt : GiccApi.Runtime ranks) :
    (∀ call, Fits rt call) ↔ rt.localBufs.length ≤ giccMaxBufs ∧ ranks ≤ giccMaxPeers := by
  constructor
  · intro every
    refine ⟨?_, ?_⟩
    · rcases every (.findLkey (2 ^ 64 - 1)) with few | ⟨_, _, mr, _, covered⟩
      · exact few
      · exact absurd covered (last_uncovered mr.buf mr.size)
    · by_contra many
      exact absurd (every (.flush ⟨giccMaxPeers, Nat.lt_of_not_le many⟩)) (Nat.lt_irrefl giccMaxPeers)
  · rintro ⟨few, ranked⟩ call
    have known : ∀ peer : Fin ranks, peer.val < giccMaxPeers := fun peer => Nat.lt_of_lt_of_le peer.isLt ranked
    cases call with
    | findLkey addr => exact .inl few
    | findRkey peer addr => exact .inr ⟨known peer, .inl few⟩
    | put dst src size peer signaled | putNoDb dst src size peer signaled =>
        exact ⟨.inl few, .inr ⟨known peer, .inl few⟩, known peer⟩
    | flush peer | quiet peer => exact known peer

theorem search_scan (look : Nat → Device (Option UInt32)) (range : Nat → Option (Nat × Nat × UInt32)) (addr : Nat)
    (places : List Nat) (looks : ∀ i, (look i).result =
      (range i).map fun entry => if Covers entry.1 entry.2.1 addr then some entry.2.2 else none) :
    (search look 0 places).result = GiccApi.scan range addr places := by
  induction places with
  | nil => rfl
  | cons i rest ih =>
      rw [search, bind_eq, result_bind, looks i, GiccApi.scan]
      cases range i with
      | none => rfl
      | some entry =>
          obtain ⟨base, size, key⟩ := entry
          by_cases covered : base ≤ addr ∧ addr < (base + size) % 2 ^ 64
          · have hit : Covers base size addr := covered
            simp only [Option.map_some, Option.bind_some, if_pos hit, if_pos covered, pure_eq]
          · have missed : ¬ Covers base size addr := covered
            simp only [Option.map_some, Option.bind_some, if_neg missed, if_neg covered]
            exact ih

theorem find_lkey_result (ctx : GiccContext) (addr : Nat) :
    (findLkey ctx addr).result = GiccApi.findLkey ctx.registry addr := by
  apply search_scan
  intro i
  by_cases inside : i < giccMaxBufs
  · rw [(look_lkey ctx addr i inside).2]
    simp only [dif_pos inside, hitLkey, Option.map_some]
  · simp only [lookLkey, bind_eq, result_bind, localBuf, readAt, dif_neg inside, Option.bind_none, Option.map_none]

theorem find_rkey_result (ctx : GiccContext) (peer addr : Nat) :
    (findRkey ctx peer addr).result = GiccApi.findRkey ctx.registry peer addr := by
  apply search_scan
  intro i
  by_cases inside : peer < giccMaxPeers ∧ i < giccMaxBufs
  · rw [(look_rkey ctx peer addr i inside.1 inside.2).2]
    simp only [dif_pos inside.1, dif_pos inside.2, hitRkey, Option.map_some]
  · simp only [lookRkey, bind_eq, result_bind, remoteBuf, readAt, dif_neg inside, Option.bind_none]
    split_ifs with bound known
    · exact absurd ⟨known, bound⟩ inside
    · rfl
    · rfl

theorem exchange_bufs (family : Fin ranks → GiccApi.Runtime ranks) (rt : GiccApi.Runtime ranks) :
    ((GiccApi.exchange family rt).getD rt).localBufs = rt.localBufs := by
  rw [GiccApi.exchange]
  split <;> rfl

theorem step_registers (before after : Fin ranks → GlobalState ranks) (op : HostOp ranks)
    (taken : hostStep before op = some after) (rank : Fin ranks) :
    (after rank).rt.localBufs.length = (before rank).rt.localBufs.length + (op.registers rank).toNat := by
  cases op with
  | registerBuffer party mr =>
      cases taken
      by_cases own : party = rank
      · subst own
        simp [HostOp.registers, GiccApi.registerBuffer]
      · simp [HostOp.registers, own, Function.update_of_ne (Ne.symm own)]
  | exchange =>
      simp only [hostStep, exchange] at taken
      split_ifs at taken
      cases taken
      simp only [exchange_bufs, HostOp.registers, Bool.toNat_false, Nat.add_zero]
  | malloc given =>
      simp only [hostStep, GiccApi.malloc] at taken
      split_ifs at taken
      cases taken
      simp only [GiccApi.mallocAfter, exchange_bufs]
      simp [GiccApi.mallocBefore, GiccApi.registerBuffer, HostOp.registers]
  | free party ptr =>
      cases taken
      by_cases own : party = rank
      · subst own
        simp only [Function.update_self, GiccApi.free, HostOp.registers]
        split <;> rfl
      · simp [HostOp.registers, Function.update_of_ne (Ne.symm own)]

theorem run_registers (ops : List (HostOp ranks)) (start states : Fin ranks → GlobalState ranks)
    (ran : run hostStep start ops = some states) (rank : Fin ranks) :
    (states rank).rt.localBufs.length = (start rank).rt.localBufs.length + registrations rank ops := by
  induction ops generalizing start with
  | nil =>
      cases ran
      rfl
  | cons op rest ih =>
      simp only [run, Option.bind_eq_some_iff] at ran
      obtain ⟨next, taken, ran⟩ := ran
      rw [ih next ran, step_registers start next op taken rank, registrations, registrations, List.countP_cons]
      cases op.registers rank <;> simp [Nat.add_assoc, Nat.add_comm 1]

theorem registry_in_bounds_iff (ops : List (HostOp ranks)) (states : Fin ranks → GlobalState ranks)
    (ran : run hostStep GiccApi.init ops = some states) (rank : Fin ranks) (qps : Fin ranks → DevxQp)
    (ctx : GiccContext) (built : buildContext (states rank).rt qps = some ctx) :
    ((∀ queues (call : Call ranks), InBounds ctx queues call) ↔
        registrations rank ops ≤ giccMaxBufs ∧ ranks ≤ giccMaxPeers) ∧
      ∀ queues (call : Call ranks), InBounds ctx queues call ↔ Fits (states rank).rt call := by
  have each := fun queues (call : Call ranks) =>
    in_bounds_iff (states rank).rt ctx (built_context (states rank).rt qps ctx built) queues call
  have count := run_registers ops GiccApi.init states ran rank
  rw [show (GiccApi.init rank).rt.localBufs.length = 0 from rfl, Nat.zero_add] at count
  refine ⟨?_, each⟩
  rw [← count, ← all_fit_iff]
  constructor
  · intro every call
    exact (each (fun _ => Mlx5.freshQueue) call).mp (every _ call)
  · intro every queues call
    exact (each queues call).mpr (every call)

def buffer (number : Nat) (rank : Fin 2) : MemoryRegion :=
  ⟨65536 * (number + 1) + 4096 * rank.val, 256, UInt32.ofNat number, UInt32.ofNat (100 + number)⟩

def allocates (count : Nat) : List (HostOp 2) := (List.range count).map fun number => .malloc (buffer number)

theorem two_buffers_in_bounds : ∃ states ctx, run hostStep GiccApi.init (allocates 2) = some states ∧
    buildContext (states 0).rt (fun _ => ⟨7, true⟩) = some ctx ∧ ∀ queues (call : Call 2), InBounds ctx queues call := by
  have made : ((run hostStep GiccApi.init (allocates 2)).bind fun states =>
      buildContext (states 0).rt fun _ => ⟨7, true⟩).isSome = true := by decide +kernel
  obtain ⟨ctx, made⟩ := Option.isSome_iff_exists.mp made
  obtain ⟨states, ran, built⟩ := Option.bind_eq_some_iff.mp made
  exact ⟨states, ctx, ran, built,
    (registry_in_bounds_iff (allocates 2) states ran 0 (fun _ => ⟨7, true⟩) ctx built).1.mpr (by decide)⟩

theorem seventeenth_buffer_out_of_bounds : ∃ states ctx, run hostStep GiccApi.init (allocates 17) = some states ∧
    buildContext (states 0).rt (fun _ => ⟨7, true⟩) = some ctx ∧
      ¬ InBounds ctx (fun _ => Mlx5.freshQueue) (.put (buffer 16 1).buf (buffer 16 0).buf 256 (1 : Fin 2) true) := by
  have made : ((run hostStep GiccApi.init (allocates 17)).bind fun states =>
      (buildContext (states 0).rt fun _ => ⟨7, true⟩).map fun ctx => decide (Access.localBufs 16 ∈
        (put ctx (fun _ => Mlx5.freshQueue) (buffer 16 1).buf (buffer 16 0).buf 256 1 true).accesses)) = some true := by
    decide +kernel
  obtain ⟨states, ran, made⟩ := Option.bind_eq_some_iff.mp made
  obtain ⟨ctx, built, past⟩ := Option.map_eq_some_iff.mp made
  exact ⟨states, ctx, ran, built, fun within => absurd (within _ (of_decide_eq_true past)) (Nat.lt_irrefl 16)⟩

end OpenGda.GiccDevice
