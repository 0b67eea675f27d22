import OpenGda.Ofi.ActiveMessageWire

set_option autoImplicit false

-- The sender's side: which puts are queued, and which of them the NIC has run.
namespace OpenGda.Am

open ByteMemory DeferredWork Machine SequenceRing
open Ofi (Fabric RmaWrite CntrWork Handle)

variable {size : Nat}

def fieldWrite (config : Config size) (self dest : Fin size) (slot : Nat) (seq : UInt64) (field fieldSize : Nat) :
    RmaWrite where
  buf := config.stagingBase self slot + field
  desc := config.stagingDesc self slot
  size := fieldSize
  destAddr := config.avAddr dest
  remoteAddr := rmaAddr config.virtAddrMode (config.ringBase dest self) (dstOffset seq (config.nslots dest) field)
  remoteKey := config.ringKey dest self
  batch := 0

def bodyWork (config : Config size) (self dest : Fin size) (m : Nat) (record : Sent) : CntrWork :=
  Ofi.rmaWork (fieldWrite config self dest record.slot (seqAt m) hdrOffset record.message.bodySize) record.threshold

def seqWork (config : Config size) (self dest : Fin size) (m : Nat) (record : Sent) : CntrWork :=
  Ofi.rmaWork (fieldWrite config self dest record.slot (seqAt m) seqOffset seqSize) (record.threshold + 1)

def writeThreshold (work : CntrWork) : Option Nat :=
  match work.op with
  | .write _ => some work.threshold
  | .cntrAdd _ _ => none

@[simp] theorem write_threshold_rma (write : RmaWrite) (threshold : Nat) :
    writeThreshold (Ofi.rmaWork write threshold) = some threshold := rfl

@[simp] theorem write_threshold_writeback (threshold : Nat) :
    writeThreshold (Ofi.writebackWork threshold) = none := rfl

def Rank.writes (rank : Rank size) : List Nat := rank.fabric.nic.pending.filterMap writeThreshold ++ rank.executed

structure SenderInv (config : Config size) (me : Fin size) (rank : Rank size) : Prop where
  av : rank.fabric.avAddrs = config.avAddr
  batch : rank.fabric.batch = 0
  head : ∀ dest, rank.headSeq dest = seqAt (rank.sent dest).length
  even : rank.fabric.currentThreshold % 2 = 0
  records : ∀ dest m (record : Sent), (rank.sent dest)[m]? = some record →
    record.slot < config.stagingSize me ∧ record.image = fillSlot me.val (seqAt m) record.message ∧
      record.threshold % 2 = 1 ∧ record.threshold + 1 ≤ rank.fabric.currentThreshold
  distinct : ∀ (dest : Fin size) (m : Nat) (record : Sent) (other : Fin size) (n : Nat) (another : Sent),
    (rank.sent dest)[m]? = some record →
    (rank.sent other)[n]? = some another → record.threshold = another.threshold → dest = other ∧ m = n
  queued : ∀ work ∈ rank.fabric.nic.pending, (∃ threshold, work = Ofi.writebackWork threshold) ∨
    ∃ dest m record, (rank.sent dest)[m]? = some record ∧
      (work = bodyWork config me dest m record ∨ work = seqWork config me dest m record)
  kept : ∀ dest m (record : Sent), (rank.sent dest)[m]? = some record →
    (record.threshold ∈ rank.executed ∨ bodyWork config me dest m record ∈ rank.fabric.nic.pending) ∧
      (record.threshold + 1 ∈ rank.executed ∨ seqWork config me dest m record ∈ rank.fabric.nic.pending)
  once : rank.writes.Nodup
  past : ∀ threshold ∈ rank.writes, threshold ≤ rank.fabric.currentThreshold

theorem initial_sender (config : Config size) (me : Fin size) : SenderInv config me (initialRank config) where
  av := rfl
  batch := rfl
  head := fun _ => rfl
  even := rfl
  records := by simp [initialRank]
  distinct := by simp [initialRank]
  queued := by simp [initialRank, Ofi.openFabric]
  kept := by simp [initialRank]
  once := by simp [Rank.writes, initialRank, Ofi.openFabric]
  past := by simp [Rank.writes, initialRank, Ofi.openFabric]

theorem sender_frame (config : Config size) (me : Fin size) (before after : Rank size)
    (inv : SenderInv config me before) (av : after.fabric.avAddrs = before.fabric.avAddrs)
    (batch : after.fabric.batch = before.fabric.batch)
    (current : after.fabric.currentThreshold = before.fabric.currentThreshold)
    (pending : after.fabric.nic.pending = before.fabric.nic.pending) (head : after.headSeq = before.headSeq)
    (sent : after.sent = before.sent) (executed : after.executed = before.executed) : SenderInv config me after := by
  have writes : after.writes = before.writes := by rw [Rank.writes, Rank.writes, pending, executed]
  refine ⟨?_, ?_, ?_, ?_, ?_, ?_, ?_, ?_, ?_, ?_⟩
  · exact av.trans inv.av
  · exact batch.trans inv.batch
  · rw [head, sent]
    exact inv.head
  · rw [current]
    exact inv.even
  · rw [sent, current]
    exact inv.records
  · rw [sent]
    exact inv.distinct
  · rw [pending, sent]
    exact inv.queued
  · rw [pending, sent, executed]
    exact inv.kept
  · rw [writes]
    exact inv.once
  · rw [writes, current]
    exact inv.past

theorem put_field_result (config : Config size) (self dest : Fin size) (slot : Nat) (seq : UInt64) (fabric : Fabric)
    (field fieldSize : Nat) (av : fabric.avAddrs = config.avAddr) (batch : fabric.batch = 0) :
    putField config self dest slot seq fabric field fieldSize =
      (fabric.currentThreshold + 1, { fabric with
        currentThreshold := fabric.currentThreshold + 1
        nic := ⟨fabric.nic.counters, fabric.nic.pending ++
          [Ofi.rmaWork (fieldWrite config self dest slot seq field fieldSize) (fabric.currentThreshold + 1),
            Ofi.writebackWork (fabric.currentThreshold + 1)]⟩ }) := by
  simp only [putField, Ofi.putRaw, Ofi.queueRmaWrite, Ofi.queueCounterWriteback, queueWork, sendState, myInfos,
    fieldWrite, av, batch, List.append_assoc, List.cons_append, List.nil_append]

structure Queued (config : Config size) (self dest : Fin size) (message : Message) (before after : Rank size) : Prop where
  av : after.fabric.avAddrs = before.fabric.avAddrs
  batch : after.fabric.batch = before.fabric.batch
  current : after.fabric.currentThreshold = before.fabric.currentThreshold + 2
  head : after.headSeq = Function.update before.headSeq dest (before.headSeq dest + 1)
  executed : after.executed = before.executed
  sent : ∃ record, record.message = message ∧ record.slot < config.stagingSize self ∧
    record.image = fillSlot self.val (before.headSeq dest) message ∧
    record.threshold = before.fabric.currentThreshold + 1 ∧
    after.sent = Function.update before.sent dest (before.sent dest ++ [record]) ∧
    after.fabric.nic.pending = before.fabric.nic.pending ++
      [bodyWork config self dest (before.sent dest).length record,
        Ofi.writebackWork record.threshold,
        seqWork config self dest (before.sent dest).length record,
        Ofi.writebackWork (record.threshold + 1)]
  elsewhere : after.expectedSeq = before.expectedSeq ∧ after.inboxSlots = before.inboxSlots ∧
    after.polling = before.polling ∧ after.delivered = before.delivered

theorem queue_message_result (config : Config size) (self dest : Fin size) (message : Message) (before : Rank size)
    (inv : SenderInv config self before) :
    queueMessage config self before dest message = { before with
      staging := Function.update before.staging before.stagingIdx (fillSlot self.val (before.headSeq dest) message)
      stagingIdx := before.stagingIdx + 1
      headSeq := Function.update before.headSeq dest (before.headSeq dest + 1)
      fabric := { before.fabric with
        currentThreshold := before.fabric.currentThreshold + 2
        nic := ⟨before.fabric.nic.counters, before.fabric.nic.pending ++
          [Ofi.rmaWork (fieldWrite config self dest before.stagingIdx (before.headSeq dest) hdrOffset message.bodySize)
              (before.fabric.currentThreshold + 1),
            Ofi.writebackWork (before.fabric.currentThreshold + 1),
            Ofi.rmaWork (fieldWrite config self dest before.stagingIdx (before.headSeq dest) seqOffset seqSize)
              (before.fabric.currentThreshold + 2),
            Ofi.writebackWork (before.fabric.currentThreshold + 2)]⟩ }
      maxThreshold := if before.maxThreshold < before.fabric.currentThreshold + 2 then
          before.fabric.currentThreshold + 2 else before.maxThreshold
      sent := Function.update before.sent dest (before.sent dest ++
        [⟨message, before.stagingIdx, fillSlot self.val (before.headSeq dest) message,
          before.fabric.currentThreshold + 1⟩]) } := by
  simp only [queueMessage, put_field_result, inv.av, inv.batch, List.append_assoc, List.cons_append, List.nil_append]

theorem queue_message_queued (config : Config size) (self dest : Fin size) (message : Message) (before : Rank size)
    (inv : SenderInv config self before) (room : before.stagingIdx < config.stagingSize self) :
    Queued config self dest message before (queueMessage config self before dest message) := by
  rw [queue_message_result config self dest message before inv]
  refine ⟨rfl, rfl, rfl, rfl, rfl, ⟨_, rfl, room, rfl, rfl, rfl, ?_⟩, rfl, rfl, rfl, rfl⟩
  simp only [bodyWork, seqWork, inv.head dest]

theorem sent_cases (sent : Fin size → List Sent) (dest other : Fin size) (m : Nat) (record another : Sent)
    (found : (Function.update sent dest (sent dest ++ [record]) other)[m]? = some another) :
    (sent other)[m]? = some another ∨ (other = dest ∧ m = (sent dest).length ∧ another = record) := by
  by_cases same : other = dest
  · subst other
    rw [Function.update_self] at found
    by_cases old : m < (sent dest).length
    · rw [List.getElem?_append_left old] at found
      exact Or.inl found
    · rw [List.getElem?_append_right (by omega), List.getElem?_singleton] at found
      split_ifs at found with last
      exact Or.inr ⟨rfl, by omega, (Option.some.inj found).symm⟩
  · rw [Function.update_of_ne same] at found
    exact Or.inl found

theorem sent_kept (sent : Fin size → List Sent) (dest other : Fin size) (m : Nat) (record another : Sent)
    (found : (sent other)[m]? = some another) :
    (Function.update sent dest (sent dest ++ [record]) other)[m]? = some another := by
  by_cases same : other = dest
  · subst other
    rw [Function.update_self, List.getElem?_append_left (List.getElem?_eq_some_iff.mp found).1]
    exact found
  · rwa [Function.update_of_ne same]

theorem sent_last (sent : Fin size → List Sent) (dest : Fin size) (record : Sent) :
    (Function.update sent dest (sent dest ++ [record]) dest)[(sent dest).length]? = some record := by
  simp

theorem sender_queued (config : Config size) (self dest : Fin size) (message : Message) (before after : Rank size)
    (inv : SenderInv config self before) (queued : Queued config self dest message before after) :
    SenderInv config self after := by
  obtain ⟨av, batch, current, head, executed, ⟨record, content, slot, image, threshold, sent, pending⟩, _⟩ := queued
  have even := inv.even
  have writes : after.writes = before.fabric.nic.pending.filterMap writeThreshold ++
      (record.threshold :: (record.threshold + 1) :: before.executed) := by
    rw [Rank.writes, pending, executed, List.filterMap_append, List.append_assoc]
    rfl
  have fresh : ∀ old ∈ before.writes, old < record.threshold := by
    intro old member
    have below := inv.past old member
    omega
  refine ⟨av.trans inv.av, batch.trans inv.batch, ?_, ?_, ?_, ?_, ?_, ?_, ?_, ?_⟩
  · intro other
    rw [head, sent]
    by_cases same : other = dest
    · subst other
      simp only [Function.update_self, inv.head dest, List.length_append, List.length_singleton, seq_at_succ]
    · simp only [Function.update_of_ne same, inv.head other]
  · omega
  · intro other m another found
    rw [sent] at found
    rcases sent_cases before.sent dest other m record another found with old | ⟨rfl, rfl, rfl⟩
    · obtain ⟨place, filled, odd, below⟩ := inv.records other m another old
      exact ⟨place, filled, odd, by omega⟩
    · refine ⟨slot, ?_, by omega, by omega⟩
      rw [image, content, inv.head other]
  · intro one m first other n second foundFirst foundSecond same
    rw [sent] at foundFirst foundSecond
    rcases sent_cases before.sent dest one m record first foundFirst with old | ⟨rfl, rfl, rfl⟩
    · have oldBelow := (inv.records one m first old).2.2.2
      rcases sent_cases before.sent dest other n record second foundSecond with older | ⟨rfl, rfl, rfl⟩
      · exact inv.distinct one m first other n second old older same
      · omega
    · rcases sent_cases before.sent one other n first second foundSecond with older | ⟨rfl, rfl, _⟩
      · have olderBelow := (inv.records other n second older).2.2.2
        omega
      · exact ⟨rfl, rfl⟩
  · intro work member
    rw [pending, List.mem_append] at member
    have last := sent_last before.sent dest record
    rw [← sent] at last
    rcases member with old | new
    · rcases inv.queued work old with writeback | ⟨other, m, another, found, form⟩
      · exact Or.inl writeback
      · exact Or.inr ⟨other, m, another, by rw [sent]; exact sent_kept before.sent dest other m record another found, form⟩
    · simp only [List.mem_cons, List.not_mem_nil, or_false] at new
      rcases new with body | writeback | release | writeback
      · exact Or.inr ⟨dest, _, record, last, Or.inl body⟩
      · exact Or.inl ⟨_, writeback⟩
      · exact Or.inr ⟨dest, _, record, last, Or.inr release⟩
      · exact Or.inl ⟨_, writeback⟩
  · intro other m another found
    rw [sent] at found
    rw [pending, executed]
    rcases sent_cases before.sent dest other m record another found with old | ⟨rfl, rfl, rfl⟩
    · obtain ⟨body, release⟩ := inv.kept other m another old
      exact ⟨body.imp id (List.mem_append_left _), release.imp id (List.mem_append_left _)⟩
    · exact ⟨Or.inr (by simp), Or.inr (by simp)⟩
  · rw [writes, List.nodup_middle, List.nodup_cons, List.nodup_middle, List.nodup_cons]
    change record.threshold ∉ _ ∧ record.threshold + 1 ∉ before.writes ∧ before.writes.Nodup
    refine ⟨?_, fun member => ?_, inv.once⟩
    · intro member
      rw [List.mem_append, List.mem_cons] at member
      have old : record.threshold ∈ before.writes := by
        rw [Rank.writes, List.mem_append]
        rcases member with queue | next | run
        · exact Or.inl queue
        · omega
        · exact Or.inr run
      exact absurd (fresh _ old) (Nat.lt_irrefl _)
    · have below := fresh _ member
      omega
  · intro old member
    rw [writes, List.mem_append, List.mem_cons, List.mem_cons] at member
    have below : old ∈ before.writes → old < record.threshold := fresh old
    rw [Rank.writes, List.mem_append] at below
    rcases member with queue | first | second | run
    · have bound := below (Or.inl queue)
      omega
    · omega
    · omega
    · have bound := below (Or.inr run)
      omega

theorem sender_counted (config : Config size) (me : Fin size) (before : Rank size) (nic : Nic Ofi.Cntr RmaWrite)
    (threshold : Nat) (inv : SenderInv config me before)
    (fired : Fired before.fabric.nic nic (Ofi.writebackWork threshold)) :
    SenderInv config me { before with fabric := { before.fabric with nic := nic } } := by
  obtain ⟨_, rest⟩ := fired_pending before.fabric.nic nic _ fired
  have writes : (before.fabric.nic.pending.filterMap writeThreshold).Perm (nic.pending.filterMap writeThreshold) :=
    fired.perm.filterMap writeThreshold
  have still : ∀ write due, Ofi.rmaWork write due ∈ before.fabric.nic.pending → Ofi.rmaWork write due ∈ nic.pending := by
    intro write due member
    rcases List.mem_cons.mp ((fired.perm.mem_iff (a := Ofi.rmaWork write due)).mp member) with same | other
    · exact absurd (congrArg Work.op same) (by simp [Ofi.rmaWork, Ofi.writebackWork])
    · exact other
  refine ⟨inv.av, inv.batch, inv.head, inv.even, inv.records, inv.distinct, ?_, ?_, ?_, ?_⟩
  · exact fun work member => inv.queued work (rest work member)
  · intro dest m record found
    obtain ⟨body, release⟩ := inv.kept dest m record found
    exact ⟨body.imp id (still _ _), release.imp id (still _ _)⟩
  · exact (writes.append_right before.executed).nodup_iff.mp inv.once
  · exact fun due member => inv.past due ((writes.append_right before.executed).mem_iff.mpr member)

theorem sender_landed (config : Config size) (me : Fin size) (before : Rank size) (nic : Nic Ofi.Cntr RmaWrite)
    (write : RmaWrite) (threshold : Nat) (inv : SenderInv config me before)
    (fired : Fired before.fabric.nic nic (Ofi.rmaWork write threshold)) :
    threshold ∉ before.executed ∧ SenderInv config me { before with
      fabric := { before.fabric with nic := nic }
      executed := threshold :: before.executed } := by
  obtain ⟨_, rest⟩ := fired_pending before.fabric.nic nic _ fired
  have writes : before.writes.Perm (nic.pending.filterMap writeThreshold ++ threshold :: before.executed) := by
    have moved := (fired.perm.filterMap writeThreshold).append_right before.executed
    rw [List.filterMap_cons_some (write_threshold_rma write threshold)] at moved
    exact moved.trans List.perm_middle.symm
  have once := writes.nodup_iff.mp inv.once
  have cases : ∀ work ∈ before.fabric.nic.pending, work = Ofi.rmaWork write threshold ∨ work ∈ nic.pending := by
    intro work member
    exact List.mem_cons.mp ((fired.perm.mem_iff (a := work)).mp member)
  refine ⟨?_, inv.av, inv.batch, inv.head, inv.even, inv.records, inv.distinct, ?_, ?_, once, ?_⟩
  · intro ran
    exact (List.nodup_cons.mp (List.nodup_append.mp once).2.1).1 ran
  · exact fun work member => inv.queued work (rest work member)
  · intro dest m record found
    obtain ⟨body, release⟩ := inv.kept dest m record found
    constructor
    · rcases body with ran | queue
      · exact Or.inl (List.mem_cons_of_mem _ ran)
      · rcases cases _ queue with now | still
        · have due : record.threshold = threshold := congrArg Work.threshold now
          exact Or.inl (by simp [due])
        · exact Or.inr still
    · rcases release with ran | queue
      · exact Or.inl (List.mem_cons_of_mem _ ran)
      · rcases cases _ queue with now | still
        · have due : record.threshold + 1 = threshold := congrArg Work.threshold now
          exact Or.inl (by simp [due])
        · exact Or.inr still
  · exact fun due member => inv.past due (writes.mem_iff.mpr member)

end OpenGda.Am
