import OpenGda.Mlx5.Basic

set_option autoImplicit false

namespace OpenGda.Mlx5.Basic

open Machine PhaseRing

-- Builds the WQE of index prod_idx + shift and announces prod_idx + 1.
structure Posts (poster : DeviceCtx → Queue → Put → Queue) (shift : Nat) : Prop where
  prod : ∀ ctx queue put, (poster ctx queue put).prodIdx = (queue.prodIdx + 1) % 2 ^ 16
  dbrec : ∀ ctx queue put, dbrecIndex (poster ctx queue put).dbrec = (queue.prodIdx + 1) % 2 ^ 16
  own : ∀ ctx queue put, Sized ctx →
    wqeTransfer ((poster ctx queue put).wqeBuf ((queue.prodIdx + shift) % ctx.nwqes)) = some (transferOf put)
  other : ∀ ctx queue put slot, Sized ctx → slot ≠ (queue.prodIdx + shift) % ctx.nwqes →
    (poster ctx queue put).wqeBuf slot = queue.wqeBuf slot

theorem masked_slot (ctx : DeviceCtx) (sized : Sized ctx) (index : Nat) :
    getWqeSlot ctx (index &&& 0xFFFF) = index % ctx.nwqes := by
  rw [and_ffff]
  exact wrapped_slot ctx sized index

theorem masked_index (index : Nat) : index &&& 0xFFFF < 65536 := by
  rw [and_ffff]
  exact Nat.mod_lt _ (by decide)

theorem masked_dbrec (index : Nat) : dbrecIndex (dbrecWord (index &&& 0xFFFF)) = index % 2 ^ 16 := by
  rw [dbrec_word_decodes, and_ffff]
  exact Nat.mod_mod index 65536

def wqeSlot (baseProd i : Nat) : Nat := (baseProd + i) % 2 ^ 64 &&& 0xFFFF

theorem wqe_slot_index (baseProd i : Nat) : wqeSlot baseProd i = (baseProd + i) % 2 ^ 16 := by
  rw [wqeSlot, and_ffff]
  exact Nat.mod_mod_of_dvd _ (show 2 ^ 16 ∣ 2 ^ 64 by decide)

theorem wqe_slot_place (ctx : DeviceCtx) (sized : Sized ctx) (baseProd i : Nat) :
    getWqeSlot ctx (wqeSlot baseProd i) = (baseProd + i) % ctx.nwqes := by
  rw [wqe_slot_index, wrapped_slot ctx sized]

theorem post_posts : Posts post 1 where
  prod := fun _ queue _ => and_ffff (queue.prodIdx + 1)
  dbrec := fun _ queue _ => masked_dbrec (queue.prodIdx + 1)
  own := fun ctx queue put sized => by
    simp only [post, gdaRingDoorbell, masked_slot ctx sized, Function.update_self]
    exact basic_transfer ctx.qpn put _ (masked_index _)
  other := fun ctx queue put slot sized different => by
    simp only [post, gdaRingDoorbell, masked_slot ctx sized, Function.update_of_ne different]

theorem opt_posts : Posts rdmaWriteOpt 0 where
  prod := fun _ queue _ => and_ffff (queue.prodIdx + 1)
  dbrec := fun _ queue _ => masked_dbrec (queue.prodIdx + 1)
  own := fun ctx queue put sized => by
    simp only [rdmaWriteOpt, ringDoorbellBf, buildAt, masked_slot ctx sized, Function.update_self, Nat.add_zero]
    exact opt_transfer ctx.qpn put _ (masked_index _)
  other := fun ctx queue put slot sized different => by
    simp only [Nat.add_zero] at different
    simp only [rdmaWriteOpt, ringDoorbellBf, buildAt, masked_slot ctx sized, Function.update_of_ne different]

structure Lined (ctx : DeviceCtx) (base : Nat) (feed : Feed) : Prop where
  prod : feed.queue.prodIdx % 2 ^ 16 = (base + feed.posted.length) % 2 ^ 16
  dbrec : dbrecIndex feed.queue.dbrec = (base + feed.posted.length) % 2 ^ 16
  order : feed.fetched.length ≤ feed.posted.length
  room : feed.posted.length ≤ feed.fetched.length + ctx.nwqes

theorem start_lined (ctx : DeviceCtx) (queue : Queue) (drained : Drained queue) :
    Lined ctx queue.prodIdx ⟨queue, [], []⟩ := ⟨rfl, drained, Nat.le_refl 0, Nat.zero_le _⟩

theorem posted_lined (ctx : DeviceCtx) (poster : DeviceCtx → Queue → Put → Queue) (shift base : Nat)
    (posts : Posts poster shift) (feed : Feed) (put : Put) (lined : Lined ctx base feed)
    (room : feed.posted.length < feed.fetched.length + ctx.nwqes) :
    Lined ctx base { feed with queue := poster ctx feed.queue put, posted := feed.posted ++ [put] } := by
  have prod := lined.prod
  refine ⟨?_, ?_, ?_, ?_⟩
  · simp only [posts.prod, List.length_append, List.length_singleton]
    omega
  · simp only [posts.dbrec, List.length_append, List.length_singleton]
    omega
  · exact Nat.le_trans lined.order (by simp)
  · simpa using room

theorem fetch_left_iff (ctx : DeviceCtx) (sized : Sized ctx) (base : Nat) (feed : Feed) (lined : Lined ctx base feed) :
    (base + feed.fetched.length) % 2 ^ 16 = dbrecIndex feed.queue.dbrec ↔ feed.fetched.length = feed.posted.length := by
  have order := lined.order
  have room := lined.room
  have few := sized.few
  rw [lined.dbrec]
  omega

theorem prod_slot (ctx : DeviceCtx) (sized : Sized ctx) (base shift : Nat) (feed : Feed) (lined : Lined ctx base feed) :
    (feed.queue.prodIdx + shift) % ctx.nwqes = (base + feed.posted.length + shift) % ctx.nwqes := by
  have congruent : feed.queue.prodIdx ≡ base + feed.posted.length [MOD ctx.nwqes] :=
    Nat.ModEq.of_dvd sized.divides lined.prod
  exact congruent.add_right shift

theorem fetch_lined (ctx : DeviceCtx) (base : Nat) (feed : Feed) (wqe : Wqe) (lined : Lined ctx base feed)
    (left : feed.fetched.length ≠ feed.posted.length) :
    Lined ctx base { feed with fetched := feed.fetched ++ [wqe] } := by
  have order := lined.order
  have room := lined.room
  refine ⟨lined.prod, lined.dbrec, ?_, ?_⟩ <;> simp only [List.length_append, List.length_singleton] <;> omega

structure Faithful (ctx : DeviceCtx) (base : Nat) (feed : Feed) : Prop where
  lined : Lined ctx base feed
  fetched : feed.transfers = (feed.posted.take feed.fetched.length).map fun put => some (transferOf put)
  slots : ∀ index put, feed.fetched.length ≤ index → feed.posted[index]? = some put →
    wqeTransfer (feed.queue.wqeBuf ((base + index) % ctx.nwqes)) = some (transferOf put)

structure Constant (ctx : DeviceCtx) (base : Nat) (transfer : Transfer) (feed : Feed) : Prop where
  lined : Lined ctx base feed
  fetched : ∀ seen ∈ feed.transfers, seen = some transfer
  slots : ∀ index ≤ feed.posted.length, wqeTransfer (feed.queue.wqeBuf ((base + index) % ctx.nwqes)) = some transfer

structure Single (ctx : DeviceCtx) (base : Nat) (feed : Feed) : Prop where
  lined : Lined ctx base feed
  fetched : feed.transfers = (feed.posted.take feed.fetched.length).map fun put => some (transferOf put)
  slot : ∀ put, feed.posted.getLast? = some put → wqeTransfer (feed.queue.wqeBuf 0) = some (transferOf put)

theorem faithful_post (ctx : DeviceCtx) (sized : Sized ctx) (base : Nat) (feed : Feed) (put : Put)
    (faithful : Faithful ctx base feed) (room : feed.posted.length < feed.fetched.length + ctx.nwqes) :
    Faithful ctx base { feed with queue := rdmaWriteOpt ctx feed.queue put, posted := feed.posted ++ [put] } := by
  have order := faithful.lined.order
  refine ⟨posted_lined ctx rdmaWriteOpt 0 base opt_posts feed put faithful.lined room, ?_, ?_⟩
  · rw [List.take_append_of_le_length order]
    exact faithful.fetched
  · intro index other late found
    change feed.fetched.length ≤ index at late
    have own := opt_posts.own ctx feed.queue put sized
    rw [prod_slot ctx sized base 0 feed faithful.lined, Nat.add_zero] at own
    by_cases last : index = feed.posted.length
    · subst last
      rw [List.getElem?_concat_length, Option.some.injEq] at found
      rw [← found]
      exact own
    · have inside : index < feed.posted.length := by
        have bound := (List.getElem?_eq_some_iff.mp found).1
        rw [List.length_append, List.length_singleton] at bound
        omega
      rw [List.getElem?_append_left inside] at found
      have apart : (base + index) % ctx.nwqes ≠ (feed.queue.prodIdx + 0) % ctx.nwqes := by
        rw [prod_slot ctx sized base 0 feed faithful.lined]
        exact slots_distinct ctx.nwqes _ _ (by omega) (by omega)
      simp only [opt_posts.other ctx feed.queue put _ sized apart]
      exact faithful.slots index other late found

theorem faithful_fetch (ctx : DeviceCtx) (base : Nat) (feed : Feed) (faithful : Faithful ctx base feed)
    (left : feed.fetched.length ≠ feed.posted.length) :
    Faithful ctx base { feed with
      fetched := feed.fetched ++ [feed.queue.wqeBuf ((base + feed.fetched.length) % ctx.nwqes)] } := by
  have order := faithful.lined.order
  have inside : feed.fetched.length < feed.posted.length := by omega
  have found : feed.posted[feed.fetched.length]? = some feed.posted[feed.fetched.length] := List.getElem?_eq_getElem inside
  refine ⟨fetch_lined ctx base feed _ faithful.lined left, ?_, ?_⟩
  · rw [Feed.transfers, List.map_append, List.length_append, List.length_singleton, List.take_add_one, found,
      Option.toList_some, List.map_append]
    congr 1
    · exact faithful.fetched
    · simp only [List.map_cons, List.map_nil, faithful.slots _ _ (Nat.le_refl _) found]
  · intro index put late
    simp only [List.length_append, List.length_singleton] at late
    exact faithful.slots index put (by omega)

theorem constant_post (ctx : DeviceCtx) (sized : Sized ctx) (base : Nat) (transfer : Transfer) (feed : Feed) (put : Put)
    (constant : Constant ctx base transfer feed) (same : transferOf put = transfer)
    (room : feed.posted.length < feed.fetched.length + ctx.nwqes) :
    Constant ctx base transfer { feed with queue := post ctx feed.queue put, posted := feed.posted ++ [put] } := by
  refine ⟨posted_lined ctx post 1 base post_posts feed put constant.lined room, constant.fetched, ?_⟩
  intro index bound
  simp only [List.length_append, List.length_singleton] at bound
  by_cases written : (base + index) % ctx.nwqes = (feed.queue.prodIdx + 1) % ctx.nwqes
  · rw [written, ← same]
    exact post_posts.own ctx feed.queue put sized
  · have earlier : index ≤ feed.posted.length := by
      by_contra last
      have next : index = feed.posted.length + 1 := by omega
      rw [next, prod_slot ctx sized base 1 feed constant.lined] at written
      exact written rfl
    simp only [post_posts.other ctx feed.queue put _ sized written]
    exact constant.slots index earlier

theorem constant_fetch (ctx : DeviceCtx) (base : Nat) (transfer : Transfer) (feed : Feed)
    (constant : Constant ctx base transfer feed) (left : feed.fetched.length ≠ feed.posted.length) :
    Constant ctx base transfer { feed with
      fetched := feed.fetched ++ [feed.queue.wqeBuf ((base + feed.fetched.length) % ctx.nwqes)] } := by
  refine ⟨fetch_lined ctx base feed _ constant.lined left, ?_, constant.slots⟩
  intro seen member
  rw [Feed.transfers, List.map_append, List.mem_append] at member
  rcases member with earlier | last
  · exact constant.fetched seen earlier
  · rw [List.map_singleton, List.mem_singleton] at last
    rw [last]
    exact constant.slots _ constant.lined.order

theorem single_post (ctx : DeviceCtx) (sized : Sized ctx) (alone : ctx.nwqes = 1) (base : Nat) (feed : Feed) (put : Put)
    (single : Single ctx base feed) (room : feed.posted.length < feed.fetched.length + ctx.nwqes) :
    Single ctx base { feed with queue := post ctx feed.queue put, posted := feed.posted ++ [put] } := by
  refine ⟨posted_lined ctx post 1 base post_posts feed put single.lined room, ?_, ?_⟩
  · rw [List.take_append_of_le_length single.lined.order]
    exact single.fetched
  · intro last found
    rw [List.getLast?_concat, Option.some.injEq] at found
    have own := post_posts.own ctx feed.queue put sized
    rw [alone, Nat.mod_one] at own
    rw [← found]
    exact own

theorem single_fetch (ctx : DeviceCtx) (alone : ctx.nwqes = 1) (base : Nat) (feed : Feed) (single : Single ctx base feed)
    (left : feed.fetched.length ≠ feed.posted.length) :
    Single ctx base { feed with
      fetched := feed.fetched ++ [feed.queue.wqeBuf ((base + feed.fetched.length) % ctx.nwqes)] } := by
  have order := single.lined.order
  have room := single.lined.room
  have inside : feed.fetched.length < feed.posted.length := by omega
  have found : feed.posted[feed.fetched.length]? = some feed.posted[feed.fetched.length] := List.getElem?_eq_getElem inside
  have last : feed.posted.getLast? = some feed.posted[feed.fetched.length] := by
    rw [List.getLast?_eq_getElem?, ← found]
    congr 1
    omega
  refine ⟨fetch_lined ctx base feed _ single.lined left, ?_, single.slot⟩
  rw [Feed.transfers, List.map_append, List.length_append, List.length_singleton, List.take_add_one, found,
    Option.toList_some, List.map_append]
  congr 1
  · exact single.fetched
  · simp only [alone, Nat.mod_one, List.map_cons, List.map_nil, single.slot _ last]

theorem fetch_takes (poster : DeviceCtx → Queue → Put → Queue) (ctx : DeviceCtx) (base : Nat) (feed : Feed)
    (left : (base + feed.fetched.length) % 2 ^ 16 ≠ dbrecIndex feed.queue.dbrec) :
    guarded (step poster ctx base) (Room ctx) feed .fetch = some { feed with
      fetched := feed.fetched ++ [feed.queue.wqeBuf ((base + feed.fetched.length) % ctx.nwqes)] } := by
  rw [guarded, if_pos (show Room ctx feed .fetch from trivial), step, if_neg left]

theorem fetch_idle (poster : DeviceCtx → Queue → Put → Queue) (ctx : DeviceCtx) (base : Nat) (feed : Feed)
    (idle : (base + feed.fetched.length) % 2 ^ 16 = dbrecIndex feed.queue.dbrec) :
    guarded (step poster ctx base) (Room ctx) feed .fetch = none := by
  rw [guarded, if_pos (show Room ctx feed .fetch from trivial), step, if_pos idle]

theorem paths_lockstep (ctx : DeviceCtx) (sized : Sized ctx) (queue : Queue) (drained : Drained queue)
    (inv : Feed → Prop) (actions : List Action) (initially : inv ⟨queue, [], []⟩)
    (lined : ∀ feed, inv feed → Lined ctx queue.prodIdx feed)
    (posted : ∀ feed put, .post put ∈ actions → inv feed → feed.posted.length < feed.fetched.length + ctx.nwqes →
      inv { feed with queue := post ctx feed.queue put, posted := feed.posted ++ [put] })
    (fetched : ∀ feed, inv feed → feed.fetched.length ≠ feed.posted.length → inv { feed with
      fetched := feed.fetched ++ [feed.queue.wqeBuf ((queue.prodIdx + feed.fetched.length) % ctx.nwqes)] })
    (agree : ∀ basic opt, inv basic → Faithful ctx queue.prodIdx opt → basic.posted = opt.posted →
      basic.fetched.length = opt.fetched.length → basic.transfers = opt.transfers) :
    fetches post ctx queue actions = fetches rdmaWriteOpt ctx queue actions := by
  let related (basic opt : Feed) : Prop := inv basic ∧ Faithful ctx queue.prodIdx opt ∧ basic.posted = opt.posted ∧
    basic.fetched.length = opt.fetched.length
  have start : Faithful ctx queue.prodIdx ⟨queue, [], []⟩ :=
    ⟨start_lined ctx queue drained, rfl, fun index put _ found => by simp at found⟩
  have both := run_lockstep (guarded (step post ctx queue.prodIdx) (Room ctx))
    (guarded (step rdmaWriteOpt ctx queue.prodIdx) (Room ctx)) related actions ?_ ⟨queue, [], []⟩ ⟨queue, [], []⟩
    ⟨initially, start, rfl, rfl⟩
  · rcases both with ⟨basic, opt, ranBasic, ranOpt, kept, faithful, same, count⟩ | ⟨no, nor⟩
    · rw [fetches, fetches, ranBasic, ranOpt, Option.map_some, Option.map_some, agree basic opt kept faithful same count]
    · rw [fetches, fetches, no, nor]
  · intro basic opt action member ⟨kept, faithful, same, count⟩
    cases action with
    | post put =>
        by_cases room : opt.posted.length < opt.fetched.length + ctx.nwqes
        · have roomBasic : basic.posted.length < basic.fetched.length + ctx.nwqes := by rwa [same, count]
          refine .inl ⟨_, _, if_pos roomBasic, if_pos room, posted basic put member kept roomBasic,
            faithful_post ctx sized _ opt put faithful room, ?_, count⟩
          simp only [same]
        · have roomBasic : ¬ basic.posted.length < basic.fetched.length + ctx.nwqes := by rwa [same, count]
          exact .inr ⟨if_neg roomBasic, if_neg room⟩
    | fetch =>
        have idleBasic := fetch_left_iff ctx sized queue.prodIdx basic (lined basic kept)
        have idleOpt := fetch_left_iff ctx sized queue.prodIdx opt faithful.lined
        by_cases idle : opt.fetched.length = opt.posted.length
        · have idle' : basic.fetched.length = basic.posted.length := by rw [count, same, idle]
          exact .inr ⟨fetch_idle post ctx _ basic (idleBasic.mpr idle'), fetch_idle rdmaWriteOpt ctx _ opt (idleOpt.mpr idle)⟩
        · have idle' : basic.fetched.length ≠ basic.posted.length := by rwa [count, same]
          refine .inl ⟨_, _, fetch_takes post ctx _ basic (mt idleBasic.mp idle'),
            fetch_takes rdmaWriteOpt ctx _ opt (mt idleOpt.mp idle), fetched basic kept idle',
            faithful_fetch ctx _ opt faithful idle, same, ?_⟩
          simp only [List.length_append, List.length_singleton, count]

def oneByOne (requests : List Put) : List Action := requests.flatMap fun put => [.post put, .fetch]

@[simp] theorem posts_post (put : Put) (rest : List Action) : posts (.post put :: rest) = put :: posts rest := rfl

@[simp] theorem posts_fetch (rest : List Action) : posts (.fetch :: rest) = posts rest := rfl

theorem posted_mem (actions : List Action) (put : Put) (member : .post put ∈ actions) : put ∈ posts actions :=
  List.mem_filterMap.mpr ⟨.post put, member, rfl⟩

theorem one_by_one_posts (requests : List Put) : posts (oneByOne requests) = requests := by
  induction requests with
  | nil => rfl
  | cons put rest ih =>
      have split : oneByOne (put :: rest) = .post put :: .fetch :: oneByOne rest := rfl
      rw [split, posts_post, posts_fetch, ih]

theorem one_round (poster : DeviceCtx → Queue → Put → Queue) (shift : Nat) (posts : Posts poster shift) (ctx : DeviceCtx)
    (sized : Sized ctx) (base : Nat) (feed : Feed) (put : Put) (rest : List Action) (lined : Lined ctx base feed)
    (caught : feed.fetched.length = feed.posted.length) (next : Feed) (queue : next.queue = poster ctx feed.queue put)
    (posted : next.posted = feed.posted ++ [put])
    (fetched : next.fetched = feed.fetched ++ [next.queue.wqeBuf ((base + feed.posted.length) % ctx.nwqes)]) :
    run (guarded (step poster ctx base) (Room ctx)) feed (.post put :: .fetch :: rest) =
        run (guarded (step poster ctx base) (Room ctx)) next rest ∧
      Lined ctx base next ∧ next.fetched.length = next.posted.length := by
  have room : feed.posted.length < feed.fetched.length + ctx.nwqes := by
    have positive := sized.positive
    omega
  have between := posted_lined ctx poster shift base posts feed put lined room
  have left : feed.fetched.length ≠ (feed.posted ++ [put]).length := by
    rw [List.length_append, List.length_singleton, caught]
    omega
  have took := fetch_takes poster ctx base _ (mt (fetch_left_iff ctx sized base _ between).mp left)
  have whole : next = ⟨poster ctx feed.queue put, feed.posted ++ [put],
      feed.fetched ++ [(poster ctx feed.queue put).wqeBuf ((base + feed.fetched.length) % ctx.nwqes)]⟩ := by
    cases next
    simp_all only
  have first : guarded (step poster ctx base) (Room ctx) feed (.post put) =
      some { feed with queue := poster ctx feed.queue put, posted := feed.posted ++ [put] } := if_pos room
  refine ⟨?_, ?_, ?_⟩
  · rw [run, first, Option.bind_some, run, took, Option.bind_some, whole]
  · rw [whole]
    exact fetch_lined ctx base _ _ between left
  · simp only [posted, fetched, List.length_append, List.length_singleton, caught]

def shifted (first : Option Transfer) : List Put → List (Option Transfer)
  | [] => []
  | put :: rest => first :: shifted (some (transferOf put)) rest

theorem basic_one_by_one (ctx : DeviceCtx) (sized : Sized ctx) (several : ctx.nwqes ≠ 1) (base : Nat) (requests : List Put)
    (feed : Feed) (lined : Lined ctx base feed) (caught : feed.fetched.length = feed.posted.length) :
    ∃ last, run (guarded (step post ctx base) (Room ctx)) feed (oneByOne requests) = some last ∧
      last.transfers = feed.transfers ++
        shifted (wqeTransfer (feed.queue.wqeBuf ((base + feed.posted.length) % ctx.nwqes))) requests := by
  induction requests generalizing feed with
  | nil => exact ⟨feed, rfl, (List.append_nil _).symm⟩
  | cons put rest ih =>
      let queue := post ctx feed.queue put
      let next : Feed := ⟨queue, feed.posted ++ [put],
        feed.fetched ++ [queue.wqeBuf ((base + feed.posted.length) % ctx.nwqes)]⟩
      obtain ⟨ran, linedNext, caughtNext⟩ := one_round post 1 post_posts ctx sized base feed put (oneByOne rest) lined caught
        next rfl rfl rfl
      obtain ⟨last, reached, seen⟩ := ih next linedNext caughtNext
      refine ⟨last, ran.trans reached, seen.trans ?_⟩
      have positive := sized.positive
      have built := prod_slot ctx sized base 1 feed lined
      have apart : (base + feed.posted.length) % ctx.nwqes ≠ (feed.queue.prodIdx + 1) % ctx.nwqes := by
        rw [built]
        exact slots_distinct ctx.nwqes _ _ (by omega) (by omega)
      have kept : queue.wqeBuf ((base + feed.posted.length) % ctx.nwqes) =
          feed.queue.wqeBuf ((base + feed.posted.length) % ctx.nwqes) := post_posts.other ctx feed.queue put _ sized apart
      have own : wqeTransfer (queue.wqeBuf ((base + (feed.posted.length + 1)) % ctx.nwqes)) = some (transferOf put) := by
        rw [← Nat.add_assoc, ← built]
        exact post_posts.own ctx feed.queue put sized
      simp only [next, Feed.transfers, List.map_append, List.map_cons, List.map_nil, kept, List.length_append,
        List.length_singleton, own, shifted, List.append_assoc, List.singleton_append]

theorem opt_one_by_one (ctx : DeviceCtx) (sized : Sized ctx) (base : Nat) (requests : List Put) (feed : Feed)
    (lined : Lined ctx base feed) (caught : feed.fetched.length = feed.posted.length) :
    ∃ last, run (guarded (step rdmaWriteOpt ctx base) (Room ctx)) feed (oneByOne requests) = some last ∧
      last.transfers = feed.transfers ++ requests.map fun put => some (transferOf put) := by
  induction requests generalizing feed with
  | nil => exact ⟨feed, rfl, (List.append_nil _).symm⟩
  | cons put rest ih =>
      let queue := rdmaWriteOpt ctx feed.queue put
      let next : Feed := ⟨queue, feed.posted ++ [put],
        feed.fetched ++ [queue.wqeBuf ((base + feed.posted.length) % ctx.nwqes)]⟩
      obtain ⟨ran, linedNext, caughtNext⟩ := one_round rdmaWriteOpt 0 opt_posts ctx sized base feed put (oneByOne rest) lined
        caught next rfl rfl rfl
      obtain ⟨last, reached, seen⟩ := ih next linedNext caughtNext
      refine ⟨last, ran.trans reached, seen.trans ?_⟩
      have own : wqeTransfer (queue.wqeBuf ((base + feed.posted.length) % ctx.nwqes)) = some (transferOf put) := by
        have built := opt_posts.own ctx feed.queue put sized
        rwa [prod_slot ctx sized base 0 feed lined] at built
      simp only [next, Feed.transfers, List.map_append, List.map_cons, List.map_nil, own, List.append_assoc,
        List.singleton_append]

theorem shifted_same (requests : List Put) (first : Option Transfer)
    (same : shifted first requests = requests.map fun put => some (transferOf put)) :
    ∀ put ∈ requests, first = some (transferOf put) := by
  induction requests generalizing first with
  | nil => exact fun put member => absurd member List.not_mem_nil
  | cons head rest ih =>
      rw [shifted, List.map_cons, List.cons.injEq] at same
      intro put member
      rcases List.mem_cons.mp member with own | later
      · rw [own]
        exact same.1
      · exact same.1.trans (ih (some (transferOf head)) same.2 put later)

theorem run_posted (poster : DeviceCtx → Queue → Put → Queue) (ctx : DeviceCtx) (base : Nat) (actions : List Action)
    (start last : Feed) (ran : run (guarded (step poster ctx base) (Room ctx)) start actions = some last) :
    last.posted = start.posted ++ posts actions := by
  induction actions generalizing start with
  | nil =>
      cases ran
      exact (List.append_nil _).symm
  | cons action rest ih =>
      rw [run, Option.bind_eq_some_iff] at ran
      obtain ⟨next, taken, ran⟩ := ran
      rw [ih next ran]
      cases action with
      | post put =>
          simp only [guarded, step, Option.ite_none_right_eq_some, Option.some.injEq] at taken
          rw [← taken.2, posts_post, List.append_assoc, List.singleton_append]
      | fetch =>
          simp only [guarded, step, Option.ite_none_right_eq_some, Option.ite_none_left_eq_some, Option.some.injEq] at taken
          rw [← taken.2.2, posts_fetch]

theorem opt_fetches_requests (ctx : DeviceCtx) (sized : Sized ctx) (queue : Queue) (drained : Drained queue)
    (actions : List Action) (seen : List (Option Transfer)) (fetched : fetches rdmaWriteOpt ctx queue actions = some seen) :
    seen = ((posts actions).take seen.length).map fun put => some (transferOf put) := by
  obtain ⟨last, ran, rfl⟩ := Option.map_eq_some_iff.mp fetched
  have faithful : Faithful ctx queue.prodIdx last := by
    have reached := reach_of_run (step rdmaWriteOpt ctx queue.prodIdx) (Room ctx) actions ⟨queue, [], []⟩ last ran
    refine reach_invariant _ (Room ctx) (Faithful ctx queue.prodIdx) _ last
      ⟨start_lined ctx queue drained, rfl, fun index put _ found => by simp at found⟩ ?_ reached
    intro before after action faithful room taken
    cases action with
    | post put =>
        rw [step, Option.some.injEq] at taken
        exact taken ▸ faithful_post ctx sized _ before put faithful room
    | fetch =>
        simp only [step, Option.ite_none_left_eq_some, Option.some.injEq] at taken
        rw [← taken.2]
        exact faithful_fetch ctx _ before faithful (mt (fetch_left_iff ctx sized _ before faithful.lined).mpr taken.1)
  have posted := run_posted rdmaWriteOpt ctx _ actions _ last ran
  rw [List.nil_append] at posted
  rw [← posted]
  exact faithful.fetched.trans (by rw [Feed.transfers, List.length_map])

theorem single_slot_agrees (ctx : DeviceCtx) (sized : Sized ctx) (alone : ctx.nwqes = 1) (queue : Queue)
    (drained : Drained queue) (actions : List Action) :
    fetches post ctx queue actions = fetches rdmaWriteOpt ctx queue actions := by
  apply paths_lockstep ctx sized queue drained (Single ctx queue.prodIdx) actions
  · exact ⟨start_lined ctx queue drained, rfl, fun put found => by simp at found⟩
  · exact fun feed single => single.lined
  · exact fun feed put _ single room => single_post ctx sized alone _ feed put single room
  · exact fun feed single left => single_fetch ctx alone _ feed single left
  · intro basic opt single faithful samePosted count
    rw [single.fetched, faithful.fetched, samePosted, count]

theorem no_request_agrees (ctx : DeviceCtx) (sized : Sized ctx) (queue : Queue) (drained : Drained queue)
    (actions : List Action) (idle : posts actions = []) :
    fetches post ctx queue actions = fetches rdmaWriteOpt ctx queue actions := by
  apply paths_lockstep ctx sized queue drained (fun feed => Lined ctx queue.prodIdx feed ∧ feed.posted = []) actions
  · exact ⟨start_lined ctx queue drained, rfl⟩
  · exact fun feed facts => facts.1
  · intro feed put member
    have absent := posted_mem actions put member
    rw [idle] at absent
    exact absurd absent List.not_mem_nil
  · exact fun feed facts left => ⟨fetch_lined ctx _ feed _ facts.1 left, facts.2⟩
  · intro basic opt facts faithful samePosted count
    have none : basic.fetched.length ≤ 0 := by simpa [facts.2] using facts.1.order
    have empty : basic.fetched = [] := List.eq_nil_of_length_eq_zero (Nat.le_zero.mp none)
    rw [faithful.fetched, ← samePosted, facts.2, Feed.transfers, empty, List.take_nil, List.map_nil, List.map_nil]

theorem one_transfer_agrees (ctx : DeviceCtx) (sized : Sized ctx) (queue : Queue) (drained : Drained queue)
    (actions : List Action) (transfer : Transfer)
    (stale : wqeTransfer (queue.wqeBuf (queue.prodIdx % ctx.nwqes)) = some transfer)
    (every : ∀ put ∈ posts actions, transferOf put = transfer) :
    fetches post ctx queue actions = fetches rdmaWriteOpt ctx queue actions := by
  apply paths_lockstep ctx sized queue drained (fun feed => Constant ctx queue.prodIdx transfer feed ∧
    ∀ put ∈ feed.posted, transferOf put = transfer) actions
  · refine ⟨⟨start_lined ctx queue drained, fun seen member => absurd member List.not_mem_nil, fun index zero => ?_⟩,
      fun put member => absurd member List.not_mem_nil⟩
    rw [Nat.le_zero.mp zero]
    exact stale
  · exact fun feed facts => facts.1.lined
  · intro feed put member facts room
    have same := every put (posted_mem actions put member)
    refine ⟨constant_post ctx sized _ _ feed put facts.1 same room, fun other among => ?_⟩
    rcases List.mem_append.mp among with earlier | last
    · exact facts.2 other earlier
    · rwa [List.mem_singleton.mp last]
  · exact fun feed facts left => ⟨constant_fetch ctx _ _ feed facts.1 left, facts.2⟩
  · intro basic opt facts faithful samePosted count
    have optAll : ∀ seen ∈ opt.transfers, seen = some transfer := by
      intro seen member
      rw [faithful.fetched] at member
      obtain ⟨put, among, rfl⟩ := List.mem_map.mp member
      rw [facts.2 put (samePosted ▸ List.mem_of_mem_take among)]
    rw [List.eq_replicate_of_mem facts.1.fetched, List.eq_replicate_of_mem optAll, Feed.transfers, Feed.transfers,
      List.length_map, List.length_map, count]

theorem basic_path_agrees_iff (ctx : DeviceCtx) (sized : Sized ctx) (queue : Queue) (drained : Drained queue)
    (calls : List Call) :
    (∀ actions, posts actions = calls.flatMap Call.requests →
      fetches post ctx queue actions = fetches rdmaWriteOpt ctx queue actions ∧
      ∀ seen, fetches rdmaWriteOpt ctx queue actions = some seen →
        seen = ((calls.flatMap Call.requests).take seen.length).map fun put => some (transferOf put)) ↔
    ctx.nwqes = 1 ∨ ∀ put ∈ calls.flatMap Call.requests,
      wqeTransfer (queue.wqeBuf (queue.prodIdx % ctx.nwqes)) = some (transferOf put) := by
  generalize calls.flatMap Call.requests = requests
  have start := start_lined ctx queue drained
  constructor
  · intro holds
    by_cases alone : ctx.nwqes = 1
    · exact .inl alone
    · right
      obtain ⟨basic, ranBasic, seenBasic⟩ := basic_one_by_one ctx sized alone queue.prodIdx requests _ start rfl
      obtain ⟨opt, ranOpt, seenOpt⟩ := opt_one_by_one ctx sized queue.prodIdx requests _ start rfl
      have same := (holds (oneByOne requests) (one_by_one_posts requests)).1
      rw [fetches, fetches, ranBasic, ranOpt, Option.map_some, Option.map_some, Option.some.injEq, seenBasic, seenOpt] at same
      exact shifted_same requests _ (List.append_cancel_left same)
  · intro condition actions posted
    refine ⟨?_, fun seen fetched => posted ▸ opt_fetches_requests ctx sized queue drained actions seen fetched⟩
    rcases condition with alone | same
    · exact single_slot_agrees ctx sized alone queue drained actions
    · cases requests with
      | nil => exact no_request_agrees ctx sized queue drained actions posted
      | cons first rest =>
          have stale := same first List.mem_cons_self
          apply one_transfer_agrees ctx sized queue drained actions (transferOf first) stale
          intro put member
          rw [posted] at member
          exact Option.some.inj ((same put member).symm.trans stale)

theorem fresh_drained : Drained freshQueue := by
  rw [Drained]
  decide

def lonePut : Put := ⟨1, 2, 3, 4, 5, false⟩

def twoEntries : DeviceCtx := prepare 5 1 512 ⟨0, 0⟩ true

theorem two_entries_sized : Sized twoEntries := prepare_sized 5 1 512 ⟨0, 0⟩ true (by decide)

theorem lone_put_agrees_iff :
    (∀ actions, posts actions = [Call.rdmaWrite lonePut none].flatMap Call.requests →
      fetches post twoEntries freshQueue actions = fetches rdmaWriteOpt twoEntries freshQueue actions ∧
      ∀ seen, fetches rdmaWriteOpt twoEntries freshQueue actions = some seen → seen =
        (([Call.rdmaWrite lonePut none].flatMap Call.requests).take seen.length).map fun put => some (transferOf put)) ↔
    twoEntries.nwqes = 1 ∨ ∀ put ∈ [Call.rdmaWrite lonePut none].flatMap Call.requests,
      wqeTransfer (freshQueue.wqeBuf (freshQueue.prodIdx % twoEntries.nwqes)) = some (transferOf put) :=
  basic_path_agrees_iff twoEntries two_entries_sized freshQueue fresh_drained [.rdmaWrite lonePut none]

theorem basic_fetches_blank :
    ¬ ∀ (ctx : DeviceCtx), Sized ctx → ∀ (queue : Queue), Drained queue → ∀ (calls : List Call) (actions : List Action),
      posts actions = calls.flatMap Call.requests →
      fetches post ctx queue actions = fetches rdmaWriteOpt ctx queue actions := by
  intro holds
  have same := holds twoEntries two_entries_sized freshQueue fresh_drained [.rdmaWrite lonePut none]
    [.post lonePut, .fetch] rfl
  have differ : fetches post twoEntries freshQueue [.post lonePut, .fetch] ≠
      fetches rdmaWriteOpt twoEntries freshQueue [.post lonePut, .fetch] := by decide +kernel
  exact differ same

end OpenGda.Mlx5.Basic
