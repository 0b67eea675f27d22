import OpenGda.Bootstrap.Pmi2Script

set_option autoImplicit false

-- coll.hpp, reductions over allgather_fixed, and the loop of the Jacobi solver that one of them ends.
namespace OpenGda.Coll

open Pmi2 FencedStore Machine

variable {size : Nat} {T Result : Type}

structure Codec (T : Type) where
  sizeofT : Nat
  encode : T → Blob
  decode : Blob → T
  sized : ∀ value, (encode value).length = sizeofT
  copied : ∀ value, decode (encode value) = value

structure Operators (T : Type) where
  zero : T
  add : T → T → T
  less : T → T → Bool

def allreduceSum (operators : Operators T) (all : List T) : T :=
  (all.drop 1).foldl operators.add (all.headD operators.zero)

def allreduceMin (operators : Operators T) (own : T) (all : List T) : T :=
  (all.drop 1).foldl (fun acc value => if operators.less value acc then value else acc) (all.headD own)

def allreduceMax (operators : Operators T) (own : T) (all : List T) : T :=
  (all.drop 1).foldl (fun acc value => if operators.less acc value then value else acc) (all.headD own)

inductive Reduction where
  | sum
  | min
  | max
deriving DecidableEq, Repr

def Reduction.fold (operators : Operators T) (own : T) (all : List T) : Reduction → T
  | .sum => allreduceSum operators all
  | .min => allreduceMin operators own all
  | .max => allreduceMax operators own all

def gathered (codec : Codec T) : Reply → List T
  | .blobs out => out.map codec.decode
  | _ => []

def allreduce (codec : Codec T) (operators : Operators T) (reduction : Reduction) (own : T)
    (next : T → Script size Result) : Script size Result :=
  .call (.allgatherFixed (codec.encode own)) fun reply => next (reduction.fold operators own (gathered codec reply))

def values (each : Fin size → T) : List T := (List.finRange size).map each

def reducing (codec : Codec T) (each : Fin size → T) : Collective size :=
  .allgatherFixed codec.sizeofT (fun rank => codec.encode (each rank)) fun rank => codec.sized (each rank)

theorem gathered_values (codec : Codec T) (each : Fin size → T) :
    gathered codec (reducing codec each).reply = values each := by
  simp [reducing, Collective.reply, gathered, values, codec.copied]

theorem fold_own (operators : Operators T) (reduction : Reduction) (each : Fin size → T) (rank other : Fin size) :
    reduction.fold operators (each rank) (values each) = reduction.fold operators (each other) (values each) := by
  have positive : 0 < size := Nat.zero_lt_of_lt rank.isLt
  cases listed : values each with
  | nil =>
      have length := congrArg List.length listed
      simp only [values, List.length_map, List.length_finRange, List.length_nil] at length
      omega
  | cons first rest => cases reduction <;> rfl

section Order

-- What < is on the integers, and on the floats without NaN.
structure StrictWeak (less : T → T → Bool) : Prop where
  asymmetric : ∀ one two, less one two = true → less two one = false
  negative : ∀ one two three, less one two = false → less two three = false → less one three = false

theorem weak_irreflexive (less : T → T → Bool) (weak : StrictWeak less) (one : T) : less one one = false := by
  cases own : less one one with
  | false => rfl
  | true => rw [← own, weak.asymmetric one one own]

theorem fold_pick (pick : T → T → Bool) (weak : StrictWeak pick) (rest : List T) (first : T) :
    rest.foldl (fun acc value => if pick value acc then value else acc) first ∈ first :: rest ∧
      ∀ value ∈ first :: rest,
        pick value (rest.foldl (fun acc value => if pick value acc then value else acc) first) = false := by
  induction rest generalizing first with
  | nil => simp [weak_irreflexive pick weak]
  | cons next rest ih =>
      obtain ⟨member, least⟩ := ih (if pick next first then next else first)
      have head := least _ List.mem_cons_self
      rw [List.foldl_cons]
      refine ⟨?_, ?_⟩
      · rcases List.mem_cons.mp member with same | later
        · rw [same]
          split <;> simp
        · exact List.mem_cons_of_mem _ (List.mem_cons_of_mem _ later)
      · intro value among
        have kept : pick first (if pick next first then next else first) = false ∧
            pick next (if pick next first then next else first) = false := by
          by_cases before : pick next first = true
          · rw [if_pos before]
            exact ⟨weak.asymmetric next first before, weak_irreflexive pick weak next⟩
          · rw [if_neg before]
            exact ⟨weak_irreflexive pick weak first, Bool.eq_false_iff.mpr before⟩
        rcases List.mem_cons.mp among with rfl | among
        · exact weak.negative _ _ _ kept.1 head
        · rcases List.mem_cons.mp among with rfl | later
          · exact weak.negative _ _ _ kept.2 head
          · exact least value (List.mem_cons_of_mem _ later)

theorem weak_swap (less : T → T → Bool) (weak : StrictWeak less) : StrictWeak fun one two => less two one :=
  ⟨fun one two before => weak.asymmetric two one before,
    fun one two three first second => weak.negative three two one second first⟩

theorem values_cons (each : Fin size → T) (rank : Fin size) : ∃ first rest, values each = first :: rest := by
  have positive : 0 < size := Nat.zero_lt_of_lt rank.isLt
  cases listed : values each with
  | cons first rest => exact ⟨first, rest, rfl⟩
  | nil =>
      have length := congrArg List.length listed
      simp only [values, List.length_map, List.length_finRange, List.length_nil] at length
      omega

theorem allreduce_min_least (operators : Operators T) (weak : StrictWeak operators.less) (each : Fin size → T)
    (rank : Fin size) (own : T) : (∃ holder, allreduceMin operators own (values each) = each holder) ∧
      ∀ other, operators.less (each other) (allreduceMin operators own (values each)) = false := by
  obtain ⟨first, rest, listed⟩ := values_cons each rank
  have picked := fold_pick operators.less weak rest first
  have folded : allreduceMin operators own (values each) =
      rest.foldl (fun acc value => if operators.less value acc then value else acc) first := by rw [listed]; rfl
  rw [← folded, ← listed] at picked
  refine ⟨?_, fun other => picked.2 _ (List.mem_map.mpr ⟨other, List.mem_finRange other, rfl⟩)⟩
  obtain ⟨holder, _, same⟩ := List.mem_map.mp picked.1
  exact ⟨holder, same.symm⟩

theorem allreduce_max_greatest (operators : Operators T) (weak : StrictWeak operators.less) (each : Fin size → T)
    (rank : Fin size) (own : T) : (∃ holder, allreduceMax operators own (values each) = each holder) ∧
      ∀ other, operators.less (allreduceMax operators own (values each)) (each other) = false := by
  obtain ⟨first, rest, listed⟩ := values_cons each rank
  have picked := fold_pick (fun one two => operators.less two one) (weak_swap _ weak) rest first
  have folded : allreduceMax operators own (values each) =
      rest.foldl (fun acc value => if operators.less acc value then value else acc) first := by rw [listed]; rfl
  rw [← folded, ← listed] at picked
  refine ⟨?_, fun other => picked.2 _ (List.mem_map.mpr ⟨other, List.mem_finRange other, rfl⟩)⟩
  obtain ⟨holder, _, same⟩ := List.mem_map.mp picked.1
  exact ⟨holder, same.symm⟩

end Order

def reduceAll (codec : Codec T) (operators : Operators T) (rank : Fin size) :
    List (Reduction × (Fin size → T)) → List T → Script size (List T)
  | [], results => .finish results
  | (reduction, each) :: rest, results =>
      allreduce codec operators reduction (each rank) fun result => reduceAll codec operators rank rest (results ++ [result])

theorem reduce_all_follows (codec : Codec T) (operators : Operators T) (rank : Fin size)
    (reductions : List (Reduction × (Fin size → T))) (results : List T) :
    Follows (reduceAll codec operators rank reductions results)
      (pathOf (reductions.map fun one => reducing codec one.2) rank)
      (results ++ reductions.map fun one => one.1.fold operators (one.2 rank) (values one.2)) := by
  induction reductions generalizing results with
  | nil => simp [reduceAll, pathOf, Follows]
  | cons one rest ih =>
      obtain ⟨reduction, each⟩ := one
      refine ⟨rfl, ?_⟩
      simp only [gathered_values, List.map_cons]
      have later := ih (results ++ [reduction.fold operators (each rank) (values each)])
      rwa [List.append_assoc, List.singleton_append] at later

theorem reducing_small (codec : Codec T) (fits : codec.sizeofT < maxBlob) (each : Fin size → T) :
    (reducing codec each).Small := fits

-- Every rank has the same results, of which each is a fold in rank order, the least and the greatest value.
theorem allreduce_agree (counted : NulCounted) (hosts : Fin size → Text) (codec : Codec T) (operators : Operators T)
    (fits : codec.sizeofT < maxBlob) (reductions : List (Reduction × (Fin size → T))) (root : Fin size) :
    Completes (scripts counted hosts (pathOf (reductions.map fun one => reducing codec one.2))
        fun rank => reduceAll codec operators rank reductions []).start
      (fun _ => reductions.map fun one => one.1.fold operators (one.2 root) (values one.2)) ∧
    (StrictWeak operators.less → ∀ each : Fin size → T,
      ((∃ holder, Reduction.min.fold operators (each root) (values each) = each holder) ∧
        ∀ other, operators.less (each other) (Reduction.min.fold operators (each root) (values each)) = false) ∧
      (∃ holder, Reduction.max.fold operators (each root) (values each) = each holder) ∧
        ∀ other, operators.less (Reduction.max.fold operators (each root) (values each)) (each other) = false) := by
  refine ⟨?_, ?_⟩
  · apply collective_scripts_complete
    · intro collective member
      obtain ⟨one, _, rfl⟩ := List.mem_map.mp member
      exact reducing_small codec fits one.2
    · intro rank
      have follows := reduce_all_follows codec operators rank reductions []
      have same : (reductions.map fun one => one.1.fold operators (one.2 rank) (values one.2)) =
          reductions.map fun one => one.1.fold operators (one.2 root) (values one.2) :=
        List.map_congr_left fun one _ => fold_own operators one.1 one.2 rank root
      rwa [List.nil_append, same] at follows
  · intro weak each
    exact ⟨allreduce_min_least operators weak each root (each root), allreduce_max_greatest operators weak each root (each root)⟩

def byteCodec : Codec UInt8 := ⟨1, fun value => [value], fun bytes => bytes.headD 0, fun _ => rfl, fun _ => rfl⟩

def byteOperators : Operators UInt8 := ⟨0, fun one two => one + two, fun one two => decide (one < two)⟩

theorem byte_weak : StrictWeak byteOperators.less := by
  refine ⟨?_, ?_⟩
  · intro one two
    simp only [byteOperators, decide_eq_true_eq, decide_eq_false_iff_not, UInt8.lt_iff_toNat_lt]
    omega
  · intro one two three
    simp only [byteOperators, decide_eq_false_iff_not, UInt8.lt_iff_toNat_lt]
    omega

def sampleReductions : List (Reduction × (Fin 3 → UInt8)) :=
  [(.sum, ![250, 4, 9]), (.min, ![7, 3, 5]), (.max, ![7, 3, 5])]

theorem allreduce_three_ranks : Completes
    (scripts (fun _ _ => true) (fun _ => ['n']) (pathOf (sampleReductions.map fun one => reducing byteCodec one.2))
      fun rank => reduceAll byteCodec byteOperators rank sampleReductions []).start (fun _ => [7, 3, 7]) ∧
    byteOperators.less 5 (Reduction.min.fold byteOperators 7 (values ![7, 3, 5])) = false := by
  obtain ⟨completes, ordered⟩ := allreduce_agree (fun _ _ => true) (fun _ => ['n']) byteCodec byteOperators
    (by decide) sampleReductions 0
  exact ⟨completes, (ordered byte_weak ![7, 3, 5]).1.2 2⟩

section Solver

-- The loop of examples/gicc/jacobi.cu: which iterations reduce the norm, and when it ends.
structure Solver (T : Type) where
  iterMax : Nat
  nccheck : Nat
  checks : 0 < nccheck
  csv : Bool
  exceedsTol : T → Bool
  sqrt : T → T
  one : T

def calcNorm (solver : Solver T) (iter : Nat) : Bool :=
  iter % solver.nccheck == 0 || (! solver.csv && iter % 100 == 0)

-- `left` is iter_max - iter, `norm` the rank's own l2_norm_h of each iteration.
def solverLoop (codec : Codec T) (operators : Operators T) (solver : Solver T) (norm : Nat → T) :
    Nat → Nat → T → Script size (Nat × T)
  | 0, iter, l2Norm => .finish (iter, l2Norm)
  | left + 1, iter, l2Norm =>
      if solver.exceedsTol l2Norm then
        .call .barrier fun _ =>
          if calcNorm solver iter then
            allreduce codec operators .sum (norm iter) fun sum =>
              solverLoop codec operators solver norm left (iter + 1) (solver.sqrt sum)
          else solverLoop codec operators solver norm left (iter + 1) l2Norm
      else .finish (iter, l2Norm)

def solverMain (codec : Codec T) (operators : Operators T) (solver : Solver T) (norm : Nat → T) : Script size (Nat × T) :=
  solverLoop codec operators solver norm solver.iterMax 0 solver.one

def jointLoop (operators : Operators T) (solver : Solver T) (norms : Nat → Fin size → T) : Nat → Nat → T → Nat × T
  | 0, iter, l2Norm => (iter, l2Norm)
  | left + 1, iter, l2Norm =>
      if solver.exceedsTol l2Norm then
        jointLoop operators solver norms left (iter + 1)
          (if calcNorm solver iter then solver.sqrt (allreduceSum operators (values (norms iter))) else l2Norm)
      else (iter, l2Norm)

def jointCollectives (codec : Codec T) (operators : Operators T) (solver : Solver T) (norms : Nat → Fin size → T) :
    Nat → Nat → T → List (Collective size)
  | 0, _, _ => []
  | left + 1, iter, l2Norm =>
      if solver.exceedsTol l2Norm then
        .barrier :: if calcNorm solver iter then
            reducing codec (norms iter) :: jointCollectives codec operators solver norms left (iter + 1)
              (solver.sqrt (allreduceSum operators (values (norms iter))))
          else jointCollectives codec operators solver norms left (iter + 1) l2Norm
      else []

theorem solver_follows (codec : Codec T) (operators : Operators T) (solver : Solver T) (norms : Nat → Fin size → T)
    (rank : Fin size) (left iter : Nat) (l2Norm : T) :
    Follows (solverLoop codec operators solver (fun iter => norms iter rank) left iter l2Norm)
      (pathOf (jointCollectives codec operators solver norms left iter l2Norm) rank)
      (jointLoop operators solver norms left iter l2Norm) := by
  induction left generalizing iter l2Norm with
  | zero => rfl
  | succ left ih =>
      by_cases more : solver.exceedsTol l2Norm = true
      · by_cases reduces : calcNorm solver iter = true
        · simp only [solverLoop, jointCollectives, jointLoop, if_pos more, if_pos reduces, pathOf, List.map_cons]
          refine ⟨rfl, rfl, ?_⟩
          simp only [gathered_values]
          exact ih _ _
        · simp only [solverLoop, jointCollectives, jointLoop, if_pos more, if_neg reduces, pathOf, List.map_cons]
          exact ⟨rfl, ih _ _⟩
      · simp only [solverLoop, jointCollectives, jointLoop, if_neg more]
        exact rfl

theorem joint_small (codec : Codec T) (operators : Operators T) (solver : Solver T) (norms : Nat → Fin size → T)
    (fits : codec.sizeofT < maxBlob) (left iter : Nat) (l2Norm : T) :
    ∀ collective ∈ jointCollectives codec operators solver norms left iter l2Norm, collective.Small := by
  induction left generalizing iter l2Norm with
  | zero => simp [jointCollectives]
  | succ left ih =>
      intro collective member
      rw [jointCollectives] at member
      split_ifs at member with more reduces
      · rcases List.mem_cons.mp member with rfl | member
        · trivial
        · rcases List.mem_cons.mp member with rfl | later
          · exact reducing_small codec fits (norms iter)
          · exact ih _ _ collective later
      · rcases List.mem_cons.mp member with rfl | later
        · trivial
        · exact ih _ _ collective later
      · cases member

-- However the ranks interleave, the loop ends, on all of them after the same iteration and with the same norm.
theorem solver_iterations_agree (counted : NulCounted) (hosts : Fin size → Text) (codec : Codec T)
    (operators : Operators T) (solver : Solver T) (fits : codec.sizeofT < maxBlob) (norms : Nat → Fin size → T) :
    Completes (scripts counted hosts (pathOf (jointCollectives codec operators solver norms solver.iterMax 0 solver.one))
        fun rank => solverMain codec operators solver fun iter => norms iter rank).start
      fun _ => jointLoop operators solver norms solver.iterMax 0 solver.one :=
  collective_scripts_complete counted hosts _ (joint_small codec operators solver norms fits _ _ _) _ _
    fun rank => solver_follows codec operators solver norms rank _ _ _

def sampleSolver : Solver UInt8 := ⟨10, 2, Nat.two_pos, true, fun value => decide (5 < value), id, 255⟩

def sampleNorms (iter : Nat) : Fin 2 → UInt8 := ![UInt8.ofNat (6 - iter), 1]

theorem solver_two_ranks : Completes
    (scripts (fun _ _ => true) (fun _ => ['n'])
      (pathOf (jointCollectives byteCodec byteOperators sampleSolver sampleNorms 10 0 255))
      fun rank => solverMain byteCodec byteOperators sampleSolver fun iter => sampleNorms iter rank).start
    fun _ => (3, 5) :=
  solver_iterations_agree (fun _ _ => true) (fun _ => ['n']) byteCodec byteOperators sampleSolver (by decide) sampleNorms

end Solver

end OpenGda.Coll
