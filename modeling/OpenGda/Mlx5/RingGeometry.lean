import OpenGda.Mlx5.QuietSignaled

set_option autoImplicit false

-- Sizes rounded up: to a power of two by a doubling loop, to whole pages by a division.
namespace RoundUp

-- while (num < bound) { num <<= 1; log++; } on unsigned words; none when the fuel runs out.
def double (width bound : Nat) : Nat → Nat → Nat → Option (Nat × Nat)
  | 0, num, log => if num < bound then none else some (num, log)
  | fuel + 1, num, log =>
      if num < bound then double width bound fuel ((num <<< 1) % 2 ^ width) (log + 1) else some (num, log)

theorem double_power (width bound fuel start : Nat) (fits : Nat.clog 2 bound < width)
    (below : start ≤ Nat.clog 2 bound) (enough : Nat.clog 2 bound ≤ start + fuel) :
    double width bound fuel (2 ^ start) start = some (2 ^ Nat.clog 2 bound, Nat.clog 2 bound) := by
  induction fuel generalizing start with
  | zero =>
      have there : start = Nat.clog 2 bound := Nat.le_antisymm below enough
      have covered : ¬ 2 ^ start < bound := by
        rw [there]
        exact Nat.not_lt.mpr (Nat.le_pow_clog Nat.one_lt_two bound)
      rw [double, if_neg covered, there]
  | succ fuel ih =>
      by_cases short : start < Nat.clog 2 bound
      · have next : (2 ^ start <<< 1) % 2 ^ width = 2 ^ (start + 1) := by
          rw [Nat.shiftLeft_eq, ← Nat.pow_add]
          exact Nat.mod_eq_of_lt (Nat.pow_lt_pow_right Nat.one_lt_two (by omega))
        rw [double, if_pos ((Nat.lt_clog_iff_pow_lt Nat.one_lt_two).mp short), next]
        exact ih (start + 1) short (by omega)
      · have there : start = Nat.clog 2 bound := Nat.le_antisymm below (Nat.le_of_not_lt short)
        have covered : ¬ 2 ^ start < bound := by
          rw [there]
          exact Nat.not_lt.mpr (Nat.le_pow_clog Nat.one_lt_two bound)
        rw [double, if_neg covered, there]

theorem double_from_one (width bound : Nat) (fits : Nat.clog 2 bound < width) :
    double width bound width 1 0 = some (2 ^ Nat.clog 2 bound, Nat.clog 2 bound) :=
  double_power width bound width 0 fits (Nat.zero_le _) (by omega)

def pages (size page : Nat) : Nat := (size + page - 1) / page * page

theorem le_pages (size page : Nat) (positive : 0 < page) : size ≤ pages size page := by
  have parts := Nat.div_add_mod' (size + page - 1) page
  have short := Nat.mod_lt (size + page - 1) positive
  rw [pages]
  omega

end RoundUp

-- The sizes that DevxQp (devx_qp.hpp) gives the NIC for its rings, and the places that
-- the kernels compute from what prepare() tells them.
namespace OpenGda.Mlx5.RingGeometry

open RoundUp

def gpageSize : Nat := 65536
def sendWqeBb : Nat := 64

structure DevxQp where
  logWqSize : Nat
  wqAlignedSize : Nat
  numCqe : Nat
  cqAlignedSize : Nat
  logCqSize : Nat
deriving DecidableEq, Repr

-- The depths and num_wqe are uint32_t, so their products with 64 are too.
def devxQp (qpDepth cqDepth : Nat) : Option DevxQp := do
  let (numWqe, logWqSize) ← double 32 qpDepth 32 1 0
  let wqBufSize := numWqe * sendWqeBb % 2 ^ 32
  let cqBufSize := cqDepth * 64 % 2 ^ 32
  let (_, logCqSize) ← double 32 cqDepth 32 1 0
  some
    { logWqSize := logWqSize
      wqAlignedSize := pages wqBufSize gpageSize
      numCqe := cqDepth
      cqAlignedSize := pages cqBufSize gpageSize
      logCqSize := logCqSize }

-- gda_poll_cq_wqe_counter; the subtraction is one of uint64_t.
def pollCqeIdx (ctx : DeviceCtx) (expectedWqeIdx : Nat) : Nat :=
  ((expectedWqeIdx + (2 ^ 64 - 1)) % 2 ^ 64) &&& ctx.ncqesMask

def pollExpectedOwner (ctx : DeviceCtx) (expectedWqeIdx : Nat) : Nat :=
  if (expectedWqeIdx + (2 ^ 64 - 1)) % 2 ^ 64 / ctx.ncqes &&& 1 ≠ 0 then 1 else 0

structure WqAgrees (qp : DevxQp) (ctx : DeviceCtx) : Prop where
  slot : ∀ item, getWqeSlot ctx (item % 2 ^ 16) = item % 2 ^ qp.logWqSize
  room : 2 ^ qp.logWqSize * 64 ≤ qp.wqAlignedSize

structure CqAgrees (qp : DevxQp) (ctx : DeviceCtx) : Prop where
  slot : ∀ item, pollCqeIdx ctx ((item + 1) % 2 ^ 64) = item % 2 ^ qp.logCqSize
  owner : ∀ item, pollExpectedOwner ctx ((item + 1) % 2 ^ 64) = item / 2 ^ qp.logCqSize % 2
  room : 2 ^ qp.logCqSize * 64 ≤ qp.cqAlignedSize

def Agrees (qp : DevxQp) (ctx : DeviceCtx) : Prop := WqAgrees qp ctx ∧ CqAgrees qp ctx

theorem poll_ready_place (ctx : DeviceCtx) (queue : Queue) (expectedWqeIdx : Nat) (positive : 0 < expectedWqeIdx)
    (word : expectedWqeIdx < 2 ^ 64) :
    pollReady ctx queue expectedWqeIdx ↔ ctx.cqe = false ∨
      queue.cqe (pollCqeIdx ctx expectedWqeIdx) &&& 0x01 = pollExpectedOwner ctx expectedWqeIdx := by
  have before : (expectedWqeIdx + (2 ^ 64 - 1)) % 2 ^ 64 = expectedWqeIdx - 1 := by omega
  rw [pollReady, pollCqeIdx, pollExpectedOwner, before]

theorem item_before (item : Nat) : ((item + 1) % 2 ^ 64 + (2 ^ 64 - 1)) % 2 ^ 64 = item % 2 ^ 64 := by omega

theorem clog_small (depth log : Nat) (bound : depth ≤ 2 ^ log) : Nat.clog 2 depth ≤ log :=
  (Nat.clog_le_iff_le_pow Nat.one_lt_two).mpr bound

theorem devx_qp_sizes (qpDepth cqDepth : Nat) (wqBound : qpDepth ≤ 2 ^ 15) (cqBound : cqDepth ≤ 2 ^ 22) :
    devxQp qpDepth cqDepth = some
      { logWqSize := Nat.clog 2 qpDepth
        wqAlignedSize := pages (2 ^ Nat.clog 2 qpDepth * 64) gpageSize
        numCqe := cqDepth
        cqAlignedSize := pages (cqDepth * 64) gpageSize
        logCqSize := Nat.clog 2 cqDepth } := by
  have wqLog := clog_small qpDepth 15 wqBound
  have cqLog := clog_small cqDepth 22 cqBound
  have wqSize : 2 ^ Nat.clog 2 qpDepth ≤ 2 ^ 15 := Nat.pow_le_pow_right (by decide) wqLog
  have wqBytes : 2 ^ Nat.clog 2 qpDepth * sendWqeBb % 2 ^ 32 = 2 ^ Nat.clog 2 qpDepth * 64 := by
    rw [sendWqeBb]
    omega
  have cqBytes : cqDepth * 64 % 2 ^ 32 = cqDepth * 64 := by omega
  rw [devxQp, double_from_one 32 qpDepth (by omega), double_from_one 32 cqDepth (by omega)]
  simp only [Option.bind_eq_bind, Option.bind_some, wqBytes, cqBytes]

theorem wq_agrees (qpn : BitVec 32) (remote : RemoteBufferInfo) (cqe : Bool) (qp : DevxQp) (small : qp.logWqSize ≤ 15)
    (size : qp.wqAlignedSize = pages (2 ^ qp.logWqSize * 64) gpageSize) :
    WqAgrees qp (prepare qpn qp.logWqSize qp.numCqe remote cqe) := by
  have sized := prepare_sized qpn qp.logWqSize qp.numCqe remote cqe small
  have bound : 2 ^ qp.logWqSize ≤ 2 ^ 15 := Nat.pow_le_pow_right (by decide) small
  have positive : 0 < 2 ^ qp.logWqSize := Nat.two_pow_pos qp.logWqSize
  have nwqes : (prepare qpn qp.logWqSize qp.numCqe remote cqe).nwqes = 2 ^ qp.logWqSize := by
    simp only [prepare, Nat.one_shiftLeft]
    omega
  refine ⟨fun item => ?_, ?_⟩
  · rw [wrapped_slot _ sized, nwqes]
  · rw [size]
    exact le_pages _ gpageSize (by decide)

theorem cq_agrees_power (qpn : BitVec 32) (remote : RemoteBufferInfo) (cqe : Bool) (qp : DevxQp) (log : Nat) (small : log ≤ 22)
    (power : qp.numCqe = 2 ^ log) (rounded : qp.logCqSize = log)
    (size : qp.cqAlignedSize = pages (qp.numCqe * 64) gpageSize) :
    CqAgrees qp (prepare qpn qp.logWqSize qp.numCqe remote cqe) := by
  have wide : 2 ^ log ∣ 2 ^ 64 := Nat.pow_dvd_pow 2 (by omega)
  have twice : 2 ^ log * 2 ∣ 2 ^ 64 := by
    rw [← Nat.pow_succ]
    exact Nat.pow_dvd_pow 2 (by omega)
  rw [power]
  have sized := prepare_cq_sized qpn qp.logWqSize log remote cqe (by omega)
  have ncqes : (prepare qpn qp.logWqSize (2 ^ log) remote cqe).ncqes = 2 ^ log := rfl
  refine ⟨fun item => ?_, fun item => ?_, ?_⟩
  · rw [pollCqeIdx, item_before, sized.slot, ncqes, rounded, Nat.mod_mod_of_dvd item wide]
  · have lap : item % 2 ^ 64 / 2 ^ log % 2 = item / 2 ^ log % 2 := by
      rw [← Nat.mod_mul_right_div_self, ← Nat.mod_mul_right_div_self item, Nat.mod_mod_of_dvd item twice]
    rw [pollExpectedOwner, item_before, ncqes, rounded, Nat.and_one_is_mod, lap]
    split <;> omega
  · rw [size, rounded, power]
    exact le_pages _ gpageSize (by decide)

theorem cq_agrees_only_power (qpn : BitVec 32) (remote : RemoteBufferInfo) (cqe : Bool) (qp : DevxQp) (positive : 1 ≤ qp.numCqe)
    (bound : qp.numCqe ≤ 2 ^ 22) (rounded : qp.logCqSize = Nat.clog 2 qp.numCqe)
    (agrees : CqAgrees qp (prepare qpn qp.logWqSize qp.numCqe remote cqe)) : qp.numCqe = 2 ^ qp.logCqSize := by
  have covers : qp.numCqe ≤ 2 ^ qp.logCqSize := rounded ▸ Nat.le_pow_clog Nat.one_lt_two qp.numCqe
  have last := agrees.slot (2 ^ qp.logCqSize - 1)
  have log : qp.logCqSize ≤ 22 := rounded ▸ clog_small qp.numCqe 22 bound
  have top : 2 ^ qp.logCqSize ≤ 2 ^ 22 := Nat.pow_le_pow_right (by decide) log
  have mask : (prepare qpn qp.logWqSize qp.numCqe remote cqe).ncqesMask = qp.numCqe - 1 := by
    simp only [prepare]
    omega
  have looked : (2 ^ qp.logCqSize - 1) % 2 ^ 64 &&& (qp.numCqe - 1) ≤ qp.numCqe - 1 := Nat.and_le_right
  rw [pollCqeIdx, item_before, mask, Nat.mod_eq_of_lt (show 2 ^ qp.logCqSize - 1 < 2 ^ qp.logCqSize by omega)] at last
  omega

theorem ring_geometry_agrees_iff (qpDepth cqDepth : Nat) (qpHigh : qpDepth ≤ 2 ^ 15)
    (cqLow : 1 ≤ cqDepth) (cqHigh : cqDepth ≤ 2 ^ 22) (qpn : BitVec 32) (remote : RemoteBufferInfo)
    (cqe : Bool) :
    ∃ qp, devxQp qpDepth cqDepth = some qp ∧ WqAgrees qp (prepare qpn qp.logWqSize qp.numCqe remote cqe) ∧
      (Agrees qp (prepare qpn qp.logWqSize qp.numCqe remote cqe) ↔ ∃ log, cqDepth = 2 ^ log) := by
  have wqLog := clog_small qpDepth 15 qpHigh
  refine ⟨_, devx_qp_sizes qpDepth cqDepth qpHigh cqHigh, ?_⟩
  have wq := wq_agrees qpn remote cqe ⟨Nat.clog 2 qpDepth, pages (2 ^ Nat.clog 2 qpDepth * 64) gpageSize, cqDepth,
    pages (cqDepth * 64) gpageSize, Nat.clog 2 cqDepth⟩ wqLog rfl
  refine ⟨wq, ⟨?_, ?_⟩⟩
  · intro agrees
    exact ⟨_, cq_agrees_only_power qpn remote cqe _ cqLow cqHigh rfl agrees.2⟩
  · rintro ⟨log, power⟩
    have rounded : Nat.clog 2 cqDepth = log := by rw [power, Nat.clog_pow 2 log Nat.one_lt_two]
    have small : log ≤ 22 := rounded ▸ clog_small cqDepth 22 cqHigh
    exact ⟨wq, cq_agrees_power qpn remote cqe _ log small power rounded rfl⟩

theorem default_depths_agree : ∃ qp, devxQp 256 512 = some qp ∧ Agrees qp (prepare 5 qp.logWqSize qp.numCqe ⟨0, 0⟩ true) := by
  obtain ⟨qp, built, _, agrees⟩ := ring_geometry_agrees_iff 256 512 (by decide) (by decide) (by decide) 5 ⟨0, 0⟩ true
  exact ⟨qp, built, agrees.mpr ⟨9, by decide⟩⟩

theorem three_cqes_disagree : ∃ qp, devxQp 256 3 = some qp ∧
    pollCqeIdx (prepare 5 qp.logWqSize qp.numCqe ⟨0, 0⟩ true) (3 + 1) ≠ 3 % 2 ^ qp.logCqSize ∧
    ¬ Agrees qp (prepare 5 qp.logWqSize qp.numCqe ⟨0, 0⟩ true) := by
  refine ⟨⟨8, 65536, 3, 65536, 2⟩, by decide, by decide, fun agrees => ?_⟩
  exact absurd (agrees.2.slot 3) (by decide)

end OpenGda.Mlx5.RingGeometry
