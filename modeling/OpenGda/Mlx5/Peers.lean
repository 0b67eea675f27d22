import OpenGda.Lib.Exchanges

set_option autoImplicit false

-- The peers of a rank, what two of them tell each other about a pair of QPs, and the
-- MTU of the path between them.
namespace OpenGda.Mlx5

abbrev Gid := Vector UInt8 16

structure ConnInfo where
  qpn : UInt32
  lid : UInt16
  gid : Gid
  psn : UInt32
deriving DecidableEq, Repr

-- IBV_MTU_256 is 1, IBV_MTU_4096 is 5.
def requestedMtu (bytes : Int) : Nat :=
  if bytes ≤ 256 then 1
  else if bytes ≤ 512 then 2
  else if bytes ≤ 1024 then 3
  else if bytes ≤ 2048 then 4
  else 5

-- GICC_MTU, capped at the active MTU of the port.
def cappedMtu (active : Nat) (env : Option Int) : Nat :=
  match env with
  | none => active
  | some bytes => if requestedMtu bytes ≤ active then requestedMtu bytes else active

variable {size : Nat}

def otherRanks (rank : Fin size) : List (Fin size) := (List.finRange size).filter fun peer => ¬ peer = rank

theorem mem_other_ranks (rank peer : Fin size) : peer ∈ otherRanks rank ↔ peer ≠ rank := by simp [otherRanks]

theorem other_ranks_nodup (rank : Fin size) : (otherRanks rank).Nodup := (List.nodup_finRange size).filter _

theorem all_ranks_paired (peersOf : Fin size → List (Fin size)) (all : ∀ rank, (peersOf rank).Perm (otherRanks rank)) :
    Channels.Paired peersOf where
  once := fun rank => (all rank).nodup_iff.mpr (other_ranks_nodup rank)
  back := by
    intro rank peer member
    have apart := (mem_other_ranks rank peer).mp ((all rank).mem_iff.mp member)
    exact (all peer).mem_iff.mpr ((mem_other_ranks peer rank).mpr apart.symm)

end OpenGda.Mlx5
