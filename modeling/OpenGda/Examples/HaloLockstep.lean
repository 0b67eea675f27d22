import OpenGda.Examples.HaloRows
import OpenGda.Lib.Supersteps

set_option autoImplicit false

-- What the ranks' buffers would hold if all ranks made their launches at once: parts of single_gpu's array.
namespace OpenGda.Examples.Halo

open Supersteps
open Jacobi (singleGpu cell_div cell_mod shift_div shift_mod single_initial single_interior single_first_row
  single_last_row single_constant)

variable {Real : Type}

structure Place (size : Nat) where
  rank : Fin size
  which : Nat
  index : Nat
deriving DecidableEq

inductive Task (size : Nat) where
  | cell (rank : Fin size) (thread : Thread)
  | word (rank : Fin size) (side : Side) (index : Nat)
deriving DecidableEq

def cellIndex (nx : Nat) (thread : Thread) : Nat := thread.iy * nx + thread.ix

section Work

variable {nx ny size : Nat} (rows : Rows nx ny size) (warmups : Nat) (numbers : Numbers Real)

def work : Work (Fin size) (Task size) (Place size) Real where
  owner
    | .cell rank _ => rank
    | .word rank _ _ => rank
  active _
    | .cell rank thread => InGrid nx (rows.iyEnd rank) thread
    | .word _ _ index => index < nx
  late
    | .cell _ _ => False
    | .word _ _ _ => True
  target launch
    | .cell rank thread =>
        if Computes nx (rows.iyEnd rank) thread then some ⟨rank, nextBuf warmups launch, cellIndex nx thread⟩ else none
    | .word rank side index => some ⟨peer rank side, nextBuf warmups launch, remoteRow rank rows.iyEnd side * nx + index⟩
  result launch
    | .cell rank thread, memory =>
        newVal numbers nx (fun index => memory ⟨rank, curBuf warmups launch, index⟩) thread.iy thread.ix
    | .word rank side index, memory => memory ⟨rank, nextBuf warmups launch, localRow rank rows.iyEnd side * nx + index⟩

def holds : Nat → Nat → Nat
  | 0, _ => 0
  | launch + 1, which => if which = nextBuf warmups launch then launch - warmups + 1 else holds launch which

-- A rank's part of the array of single_gpu. Before the first iteration nothing has been put in its halo.
def image (rank iter index : Nat) : Real :=
  let iy := index / nx
  if rows.chunkSize rank + 1 < iy ∨ (iter = 0 ∧ (iy = 0 ∨ iy = rows.chunkSize rank + 1)) then numbers.zero
  else (singleGpu numbers nx ny iter).1 ((rows.iyStartGlobal rank - 1) * nx + index)

def generation (launch : Nat) (place : Place size) : Real :=
  image rows numbers place.rank (holds warmups launch place.which) place.index

end Work

section Buffers

variable (warmups : Nat)

theorem next_buf_cases (launch : Nat) : nextBuf warmups launch = 0 ∨ nextBuf warmups launch = 1 := by
  unfold nextBuf
  split <;> omega

theorem cur_ne_next (launch : Nat) : curBuf warmups launch ≠ nextBuf warmups launch := by
  unfold curBuf
  rcases next_buf_cases warmups launch with zero | one <;> omega

theorem holds_cur (launch : Nat) : holds warmups launch (curBuf warmups launch) = launch - warmups := by
  induction launch with
  | zero => exact (Nat.zero_sub warmups).symm
  | succ launch ih =>
      rw [holds]
      by_cases warm : launch < warmups
      · have first : nextBuf warmups launch = 1 := if_pos warm
        have second : curBuf warmups (launch + 1) = 0 := by
          unfold curBuf nextBuf
          split <;> omega
        have before : curBuf warmups launch = 0 := by rw [curBuf, first]
        rw [first, second, if_neg (by decide), ← before, ih]
        omega
      · have same : curBuf warmups (launch + 1) = nextBuf warmups launch := by
          unfold curBuf nextBuf
          rw [if_neg (by omega), if_neg warm]
          omega
        rw [same, if_pos rfl]
        omega

theorem holds_next (launch : Nat) : holds warmups (launch + 1) (nextBuf warmups launch) = launch - warmups + 1 := if_pos rfl

theorem holds_other (launch which : Nat) (other : which ≠ nextBuf warmups launch) :
    holds warmups (launch + 1) which = holds warmups launch which := if_neg other

end Buffers

section Image

variable {nx ny size : Nat} (rows : Rows nx ny size) (numbers : Numbers Real)

theorem image_later (rank iter index : Nat) (inside : index / nx ≤ rows.chunkSize rank + 1) :
    image rows numbers rank (iter + 1) index =
      (singleGpu numbers nx ny (iter + 1)).1 ((rows.iyStartGlobal rank - 1) * nx + index) := by
  rw [image]
  exact if_neg (by omega)

theorem image_inner (rank iter index : Nat) (inside : 1 ≤ index / nx ∧ index / nx ≤ rows.chunkSize rank) :
    image rows numbers rank iter index =
      (singleGpu numbers nx ny iter).1 ((rows.iyStartGlobal rank - 1) * nx + index) := by
  rw [image]
  exact if_neg (by omega)

theorem image_column (rank iter index : Nat) (inside : index / nx ≤ rows.chunkSize rank + 1)
    (column : 1 ≤ index % nx ∧ index % nx < nx - 1) :
    image rows numbers rank iter index =
      (singleGpu numbers nx ny iter).1 ((rows.iyStartGlobal rank - 1) * nx + index) := by
  cases iter with
  | succ iter => exact image_later rows numbers rank iter index inside
  | zero =>
      rw [image]
      split
      · rw [single_initial, if_neg]
        rw [shift_mod]
        omega
      · rfl

theorem image_interior (rank iter iy ix : Nat) (inside : rank < size)
    (row : iyStart ≤ iy ∧ iy < rows.iyEnd rank) (column : 1 ≤ ix ∧ ix < nx - 1) :
    newVal numbers nx (image rows numbers rank iter) iy ix =
      image rows numbers rank (iter + 1) (iy * nx + ix) := by
  have chunk := (rows.bounds rank inside).2
  have last := end_inside rows rank inside
  have first := start_positive rows rank inside
  have start : iyStart = 1 := rfl
  have within : ix < nx := by omega
  have shifted : ∀ index, (rows.iyStartGlobal rank - 1) * nx + (iy * nx + index) =
      (rows.iyStartGlobal rank - 1 + iy) * nx + index := by
    intro index
    rw [Nat.add_mul, Nat.add_assoc]
  have above : (rows.iyStartGlobal rank - 1) * nx + ((iy - 1) * nx + ix) =
      (rows.iyStartGlobal rank - 1 + iy - 1) * nx + ix := by
    rw [← Nat.add_assoc, ← Nat.add_mul, Nat.add_sub_assoc (by omega)]
  have below : (rows.iyStartGlobal rank - 1) * nx + ((iy + 1) * nx + ix) =
      (rows.iyStartGlobal rank - 1 + iy + 1) * nx + ix := by
    rw [← Nat.add_assoc, ← Nat.add_mul]
    rfl
  have right := image_inner rows numbers rank iter (iy * nx + (ix + 1))
    (by rw [cell_div nx iy (ix + 1) (by omega)]; omega)
  have left := image_inner rows numbers rank iter (iy * nx + (ix - 1))
    (by rw [cell_div nx iy (ix - 1) (by omega)]; omega)
  have down := image_column rows numbers rank iter ((iy + 1) * nx + ix)
    (by rw [cell_div nx (iy + 1) ix within]; omega) (by rw [cell_mod nx (iy + 1) ix within]; omega)
  have up := image_column rows numbers rank iter ((iy - 1) * nx + ix)
    (by rw [cell_div nx (iy - 1) ix within]; omega) (by rw [cell_mod nx (iy - 1) ix within]; omega)
  rw [shifted] at right left
  rw [below] at down
  rw [above] at up
  rw [image_later rows numbers rank iter (iy * nx + ix) (by rw [cell_div nx iy ix within]; omega), shifted,
    single_interior numbers nx ny iter (rows.iyStartGlobal rank - 1 + iy) ix (by omega) column]
  unfold newVal
  rw [Nat.add_assoc (iy * nx) ix 1, Nat.add_sub_assoc column.1 (iy * nx), right, left, down, up,
    Nat.add_assoc _ ix 1, Nat.add_sub_assoc column.1]

theorem image_sent (rank : Fin size) (side : Side) (iter ix : Nat) (within : ix < nx) :
    image rows numbers rank (iter + 1) (localRow rank rows.iyEnd side * nx + ix) =
      image rows numbers (peer rank side) (iter + 1) (remoteRow rank rows.iyEnd side * nx + ix) := by
  obtain ⟨own, there⟩ := rows_within rows rank side
  have five := rows_several rows
  rw [image_later rows numbers _ _ _ (by rw [cell_div nx _ ix within]; exact Nat.le_succ_of_le own),
    image_later rows numbers _ _ _ (by rw [cell_div nx _ ix within]; exact there),
    ← Nat.add_assoc, ← Nat.add_mul, ← Nat.add_assoc, ← Nat.add_mul]
  rcases sent_rows rows rank side with same | ⟨own, other⟩ | ⟨own, other⟩
  · rw [same]
  · rw [own, other, single_last_row numbers nx ny iter ix within five]
  · rw [own, other, single_first_row numbers nx ny iter ix within five]

theorem image_initial (rank index : Nat) (inside : rank < size) :
    initializeBoundaries numbers (rows.iyStartGlobal rank - 1) nx (rows.chunkSize rank) (fun _ => numbers.zero) index =
      image rows numbers rank 0 index := by
  have ends := chunk_inside rows rank inside
  have positive := start_positive rows rank inside
  have row := shift_div nx (rows.iyStartGlobal rank - 1) index rows.columns
  rw [initializeBoundaries, image]
  by_cases own : 1 ≤ index / nx ∧ index / nx ≤ rows.chunkSize rank
  · rw [if_neg (by omega : ¬ (rows.chunkSize rank + 1 < index / nx ∨ _)), single_initial, shift_mod, row]
    by_cases edge : index % nx = 0 ∨ index % nx = nx - 1
    · rw [if_pos ⟨own.1, own.2, edge⟩, if_pos ⟨by omega, by omega, edge⟩, Nat.add_sub_assoc own.1]
    · rw [if_neg fun all => edge all.2.2, if_neg fun all => edge all.2.2]
  · have natural : 0 ≤ index / nx := Nat.zero_le _
    rw [if_neg fun all => own ⟨all.1, all.2.1⟩, if_pos (by omega)]

theorem image_constant (rank iter held index : Nat) (inside : rank < size)
    (first : index / nx ≠ 0) (last : index / nx ≠ rows.iyEnd rank)
    (outside : ¬ Interior nx (rows.iyEnd rank) index) :
    image rows numbers rank (iter + 1) index = image rows numbers rank held index := by
  by_cases beyond : rows.chunkSize rank + 1 < index / nx
  · simp only [image, if_pos (Or.inl beyond)]
  have within : index / nx ≤ rows.chunkSize rank + 1 := Nat.le_of_not_lt beyond
  obtain ⟨notFirst, notLast, computed, bottom⟩ := constant_row rows rank (index / nx) inside first last within
  have row := shift_div nx (rows.iyStartGlobal rank - 1) index rows.columns
  have column := shift_mod nx (rows.iyStartGlobal rank - 1) index
  rw [← row] at notFirst notLast computed bottom
  have still : ¬ Interior nx (ny - 3) ((rows.iyStartGlobal rank - 1) * nx + index) := by
    rintro ⟨_, below, columns⟩
    rw [column] at columns
    exact outside ⟨Nat.pos_of_ne_zero first, computed below, columns⟩
  have constant := fun iter => (single_constant numbers nx ny iter _ notFirst notLast still).1
  rw [image_later rows numbers rank iter index within, constant]
  cases held with
  | succ held => rw [image_later rows numbers rank held index within, constant (held + 1)]
  | zero =>
      rw [image]
      split
      case isFalse => rfl
      case isTrue halo =>
        have edge : index / nx = rows.chunkSize rank + 1 := by
          rcases halo with past | ⟨_, zero | edge⟩
          · exact absurd past beyond
          · exact absurd zero first
          · exact edge
        rw [single_initial, if_neg]
        rintro ⟨_, above, _⟩
        exact absurd (bottom edge) (Nat.not_lt.mpr above)

end Image

section Lockstep

variable {nx ny size : Nat} (rows : Rows nx ny size) (warmups : Nat) (numbers : Numbers Real)

theorem interior_thread (nx iyEnd index : Nat) (interior : Interior nx iyEnd index) :
    ∃ thread, InGrid nx iyEnd thread ∧ Computes nx iyEnd thread ∧ cellIndex nx thread = index := by
  obtain ⟨first, last, left, right⟩ := interior
  have start : iyStart = 1 := rfl
  have dim : blockDim = 32 := rfl
  let iy := index / nx - iyStart
  let ix := index % nx - 1
  have rowBack : iy / blockDim * blockDim + iy % blockDim = iy := Nat.div_add_mod' iy blockDim
  have columnBack : ix / blockDim * blockDim + ix % blockDim = ix := Nat.div_add_mod' ix blockDim
  refine ⟨⟨ix / blockDim, iy / blockDim, ix % blockDim, iy % blockDim⟩, ⟨?_, ?_, ?_, ?_⟩, ⟨?_, ?_⟩, ?_⟩
  · simp only [gridX, ix, dim]
    omega
  · simp only [gridY, iy, dim]
    omega
  · exact Nat.mod_lt _ (by decide)
  · exact Nat.mod_lt _ (by decide)
  · simp only [Thread.iy, rowBack, iy]
    omega
  · simp only [Thread.ix, columnBack, ix]
    omega
  · simp only [cellIndex, Thread.iy, Thread.ix, rowBack, columnBack, iy, ix]
    rw [Nat.sub_add_cancel first, Nat.sub_add_cancel left, Nat.div_add_mod']

theorem computes_bounds (nx iyEnd : Nat) (thread : Thread) (computes : Computes nx iyEnd thread) :
    (iyStart ≤ thread.iy ∧ thread.iy < iyEnd) ∧ 1 ≤ thread.ix ∧ thread.ix < nx - 1 :=
  ⟨⟨Nat.le_add_left _ _, computes.1⟩, Nat.le_add_left _ _, computes.2⟩

theorem cell_target (rank : Fin size) (thread : Thread) (launch : Nat) (place : Place size)
    (target : (work rows warmups numbers).target launch (.cell rank thread) = some place) :
    Computes nx (rows.iyEnd rank) thread ∧ place = ⟨rank, nextBuf warmups launch, cellIndex nx thread⟩ := by
  simp only [work] at target
  split at target
  case isFalse => cases target
  case isTrue computes => exact ⟨computes, (Option.some.inj target).symm⟩

theorem word_target (rank : Fin size) (side : Side) (launch index : Nat) (place : Place size)
    (target : (work rows warmups numbers).target launch (.word rank side index) = some place) :
    place = ⟨peer rank side, nextBuf warmups launch, remoteRow rank rows.iyEnd side * nx + index⟩ :=
  (Option.some.inj target).symm

theorem unwritten_cur (rank : Fin size) (launch index : Nat) :
    Unwritten (work rows warmups numbers) launch ⟨rank, curBuf warmups launch, index⟩ := by
  intro task _ target
  have other := cur_ne_next warmups launch
  cases task with
  | cell owner thread =>
      obtain ⟨_, same⟩ := cell_target rows warmups numbers owner thread launch _ target
      exact other (congrArg Place.which same)
  | word owner side word => exact other (congrArg Place.which (word_target rows warmups numbers owner side launch word _ target))

theorem sent_own (rank : Fin size) (side : Side) (launch word : Nat) (within : word < nx) :
    OwnEarly (work rows warmups numbers) launch rank ⟨rank, nextBuf warmups launch, localRow rank rows.iyEnd side * nx + word⟩ := by
  intro task active target
  cases task with
  | cell owner thread =>
      obtain ⟨_, same⟩ := cell_target rows warmups numbers owner thread launch _ target
      exact ⟨id, (congrArg Place.rank same).symm⟩
  | word owner other index =>
      exfalso
      have same := word_target rows warmups numbers owner other launch index _ target
      simp only [Place.mk.injEq] at same
      obtain ⟨receiver, _, same⟩ := same
      have two := (rows.bounds rank rank.isLt).1
      have cells := congrArg (fun index => index / nx) same
      have active : index < nx := active
      simp only [cell_div nx _ _ active, cell_div nx _ _ within] at cells
      have start : iyStart = 1 := rfl
      cases other with
      | top =>
          simp only [remoteRow] at cells
          simp only [peer] at receiver
          rw [← receiver] at cells
          cases side <;> simp only [localRow] at cells <;> omega
      | bottom => cases side <;> simp only [localRow, remoteRow] at cells <;> omega

theorem halo_lockstep : Lockstep (work rows warmups numbers) (generation rows warmups numbers) where
  early := by
    intro launch task place memory active early target reads
    cases task with
    | word rank side word => exact absurd trivial early
    | cell rank thread =>
        obtain ⟨computes, rfl⟩ := cell_target rows warmups numbers rank thread launch place target
        obtain ⟨row, column⟩ := computes_bounds nx _ thread computes
        have found : (fun index => memory ⟨rank, curBuf warmups launch, index⟩) =
            image rows numbers rank (launch - warmups) := by
          funext index
          rw [reads _ (unwritten_cur rows warmups numbers rank launch index), generation, holds_cur warmups]
        simp only [work, found, generation, holds_next]
        exact image_interior rows numbers rank (launch - warmups) thread.iy thread.ix rank.isLt row column
  late := by
    intro launch task place memory active late target reads
    cases task with
    | cell rank thread => exact absurd late id
    | word rank side word =>
        obtain rfl := word_target rows warmups numbers rank side launch word place target
        have found := reads _ (sent_own rows warmups numbers rank side launch word active)
        simp only [work, found, generation, holds_next]
        exact image_sent rows numbers rank side (launch - warmups) word active
  idle := by
    intro launch place unwritten
    obtain ⟨rank, which, index⟩ := place
    simp only [generation]
    by_cases other : which = nextBuf warmups launch
    · subst other
      rw [holds_next]
      have within : index % nx < nx := Nat.mod_lt _ rows.columns
      have decoded : index / nx * nx + index % nx = index := Nat.div_add_mod' index nx
      apply image_constant rows numbers rank (launch - warmups) _ index rank.isLt
      · intro first
        apply unwritten (.word (top rank) .bottom (index % nx)) within
        simp only [work, peer, remoteRow, bottom_top]
        rw [← first, decoded]
      · intro last
        apply unwritten (.word (bottom rank) .top (index % nx)) within
        simp only [work, peer, remoteRow, top_bottom]
        rw [← last, decoded]
      · intro interior
        obtain ⟨thread, inGrid, computes, same⟩ := interior_thread nx _ index interior
        apply unwritten (.cell rank thread) inGrid
        simp only [work, if_pos computes, same]
    · rw [holds_other warmups launch which other]

end Lockstep

end OpenGda.Examples.Halo
