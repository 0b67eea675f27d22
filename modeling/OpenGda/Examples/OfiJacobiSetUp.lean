import OpenGda.Examples.HaloRows
import OpenGda.Examples.OfiJacobi

set_option autoImplicit false

-- Where the rows lie in the registered memory of the ranks, and what their puts carry.
namespace OpenGda.Examples.OfiJacobi

open Halo OfiBuffers
open Ofi (RmaWrite)

variable {program : Program}

structure Placed (program : Program) : Prop extends
    OfiBuffers.Placed program.toMemory program.size (bufSize program) where
  several : 2 ≤ program.size
  columns : 0 < program.nx

theorem chunk_several (program : Program) : 2 ≤ chunkSize program := by
  simp only [chunkSize]
  split <;> omega

def rows (placed : Placed program) : Rows program.nx (program.size * chunkSize program + 4) program.size where
  chunkSize _ := chunkSize program
  iyStartGlobal := iyStartGlobal program
  iyEnd := iyEnd program
  several := placed.several
  columns := placed.columns
  zero := by rw [iyStartGlobal, Nat.zero_mul]
  succ rank _ := by
    rw [iyStartGlobal, iyStartGlobal, Nat.succ_mul]
    omega
  bounds _ _ := by
    have two := chunk_several program
    exact ⟨Nat.le_succ_of_le two, Nat.le_refl _⟩
  inner _ _ := rfl
  total := by
    have several := placed.several
    have split : program.size * chunkSize program = (program.size - 1) * chunkSize program + chunkSize program := by
      rw [← Nat.succ_mul]
      congr 1
      omega
    rw [iyStartGlobal, iyEnd, split]
    omega
  last := .inl rfl

abbrev Opened (program : Program) (rank : Nat) (rt : Rt.Runtime) : Prop :=
  OfiBuffers.Opened program.toMemory program.size rank rt

def SetUp (program : Program) (rt : Fin program.size → Rt.Runtime) : Prop :=
  ∀ rank : Fin program.size, exchanged program.toMemory program.size (bufSize program) rank = some (rt rank)

def rowMove (program : Program) (rank : Fin program.size) (which : Nat) (side : Side) : Move :=
  ⟨which, localRow rank (iyEnd program) side * program.nx, which, remoteRow rank (iyEnd program) side * program.nx,
    program.nx⟩

abbrev Carries (program : Program) (rank : Fin program.size) (which : Nat) (side : Side) (write : RmaWrite) : Prop :=
  OfiBuffers.Carries program.toMemory (bufSize program) rank (peer rank side) (rowMove program rank which side) write

theorem row_inside (placed : Placed program) (rank : Fin program.size) (which : Nat) (below : which < 2) (side : Side) :
    (rowMove program rank which side).Inside (bufSize program) := by
  obtain ⟨own, remote⟩ := rows_within (rows placed) rank side
  have within : ∀ row ≤ chunkSize program + 1, (row * program.nx + program.nx) * 4 ≤ bufSize program := by
    intro row bound
    rw [bufSize, ← Nat.succ_mul, Nat.mul_comm program.nx]
    exact Nat.mul_le_mul_right 4 (Nat.mul_le_mul_right program.nx (Nat.succ_le_succ bound))
  exact ⟨below, below, within _ (Nat.le_succ_of_le own), within _ remote⟩

theorem put_row (placed : Placed program) (rank : Fin program.size) (rt : Rt.Runtime) (opened : Opened program rank rt)
    (room : rt.nOps < Rt.poolSize) (which : Nat) (below : which < 2) (side : Side) : ∃ write,
    Carries program rank which side write ∧
      Rt.putNoDb rt (gbuf program rank which) (peer rank side) which (rowBytes program)
        (localRow rank (iyEnd program) side * rowBytes program)
        (UInt64.ofNat (remoteRow rank (iyEnd program) side * rowBytes program)) = some (⟨rt.nOps⟩, { rt with
          nOps := rt.nOps + 1
          writes := rt.writes ++ [⟨rt.nOps, rt.nOps + 1, write, rt.batch⟩]
          atomics := rt.atomics ++ [⟨rt.nOps, 1, rt.batch⟩]
          atomicSignalsQueued := true }) := by
  have queues := put_queues placed.toPlaced rank (peer rank side) rt opened room (rowMove program rank which side)
    (row_inside placed rank which below side)
  simp only [rowMove, Nat.mul_assoc] at queues
  exact queues

def queuedRows (rt : Rt.Runtime) (first second : RmaWrite) : Rt.Runtime :=
  Rt.prepareTrigger { rt with
    nOps := 2
    writes := rt.writes ++ [⟨0, 1, first, rt.batch⟩] ++ [⟨1, 2, second, rt.batch⟩]
    atomics := rt.atomics ++ [⟨0, 1, rt.batch⟩] ++ [⟨1, 1, rt.batch⟩]
    atomicSignalsQueued := true }

theorem next_buf_lt (launch : Nat) : nextBuf warmups launch < 2 := by
  unfold nextBuf
  split
  · decide
  · exact Nat.mod_lt _ (by decide)

theorem queue_puts_result {Real : Type} (placed : Placed program) (rank : Fin program.size) (now : Rank Real)
    (opened : Opened program rank now.rt) (idle : now.rt.nOps = 0) : ∃ first second,
    Carries program rank (nextBuf warmups now.launches) .top first ∧
      Carries program rank (nextBuf warmups now.launches) .bottom second ∧
      queuePuts program rank now = some { now with
        rt := queuedRows now.rt first second, toks := some (⟨0⟩, ⟨1⟩), queued := true } := by
  have below := next_buf_lt now.launches
  obtain ⟨first, carriesFirst, queuesFirst⟩ := put_row placed rank now.rt opened (by rw [idle]; decide) _ below .top
  obtain ⟨second, carriesSecond, queuesSecond⟩ := put_row placed rank { now.rt with
      nOps := 1
      writes := now.rt.writes ++ [⟨0, 1, first, now.rt.batch⟩]
      atomics := now.rt.atomics ++ [⟨0, 1, now.rt.batch⟩]
      atomicSignalsQueued := true }
    (opened_same rank now.rt _ opened rfl rfl rfl rfl) (show 1 < Rt.poolSize by decide) _ below .bottom
  have origin : UInt64.ofNat (remoteRow rank (iyEnd program) .bottom * rowBytes program) = 0 := by simp [remoteRow]
  rw [origin] at queuesSecond
  rw [idle] at queuesFirst
  refine ⟨first, second, carriesFirst, carriesSecond, ?_⟩
  calc queuePuts program rank now
      = (Rt.putNoDb now.rt (gbuf program rank (nextBuf warmups now.launches)) (top rank) (nextBuf warmups now.launches)
          (rowBytes program) (iyStart * rowBytes program) (UInt64.ofNat (iyEnd program rank * rowBytes program))).bind
            fun one => (Rt.putNoDb one.2 (gbuf program rank (nextBuf warmups now.launches)) (bottom rank)
              (nextBuf warmups now.launches) (rowBytes program) ((iyEnd program rank - 1) * rowBytes program) 0).map
                fun two => { now with rt := Rt.prepareTrigger two.2, toks := some (one.1, two.1), queued := true } :=
        if_pos placed.several
    _ = (some _).bind _ := congrArg (Option.bind · _) queuesFirst
    _ = (some _).map _ := congrArg (Option.map _) queuesSecond

theorem queued_rows_batch (rt : Rt.Runtime) (first second : RmaWrite) (batch : Rt.BatchInv rt) (idle : rt.nOps = 0) :
    Rt.BatchInv (queuedRows rt first second) := by
  have one := Rt.put_no_db_batch rt first batch (by rw [idle]; decide)
  have two := Rt.put_no_db_batch _ second one (by simp only [idle]; decide)
  simp only [idle] at two
  exact Rt.prepare_trigger_batch _ two

end OpenGda.Examples.OfiJacobi
