import Mathlib.Algebra.Group.Action.Defs
import Mathlib.Algebra.Order.BigOperators.Group.List
import Mathlib.Algebra.Order.Group.Nat
import Mathlib.Tactic.Ring
import QuantumChain.FixedWidth

/-! The difficulty of the next block, a ceiling on its hash.
The blocks may be any list; the range without overflow is a stated domain. -/
namespace QuantumChain.Difficulty
open List BitVec

structure DifficultyConfig where
  targetBlockTime : U64
  adjustmentPeriod : U64
  useDgw : Bool
  dgwWindow : U64
  initialDifficulty : U256
  minDifficulty : U256
  maxDifficulty : U256
  maxAdjustmentFactor : U64
  deriving DecidableEq, Repr

def defaultConfig : DifficultyConfig where
  targetBlockTime := 10
  adjustmentPeriod := 100
  useDgw := true
  dgwWindow := 24
  initialDifficulty := BitVec.ofNat 256 (2^220)
  minDifficulty := BitVec.ofNat 256 (2^180)
  maxDifficulty := BitVec.ofNat 256 (2^235)
  maxAdjustmentFactor := 4

structure BlockInfo where
  height : U64
  timestamp : U64
  difficulty : U256
  deriving DecidableEq, Repr

/-- `none` is the panic of a division by zero. -/
def divWord {n : Nat} (a b : BitVec n) : Option (BitVec n) := if b.toNat = 0 then none else some (a / b)

def clampWord (value low high : U64) : Option U64 :=
  if high < low then none else some (if value < low then low else if high < value then high else value)

def actualTime (newest oldest : BlockInfo) (fallback : U64) : U64 :=
  if oldest.timestamp < newest.timestamp then newest.timestamp - oldest.timestamp else fallback

def clampedActualTime (checks : Bool) (config : DifficultyConfig) (actual expected : U64) : Option U64 := do
  let minTime ← divWord expected config.maxAdjustmentFactor
  let maxTime ← mulWord checks expected config.maxAdjustmentFactor
  clampWord actual (max minTime 1) maxTime

def clampDifficulty (config : DifficultyConfig) (difficulty : U256) : U256 :=
  if difficulty < config.minDifficulty then config.minDifficulty
  else if config.maxDifficulty < difficulty then config.maxDifficulty
  else difficulty

def windowSize (config : DifficultyConfig) (recentBlocks : List BlockInfo) : Nat :=
  min config.dgwWindow.toNat recentBlocks.length

def sumDifficulty (blocks : List BlockInfo) : U256 :=
  blocks.foldl (fun sum block => U256.saturatingAdd sum block.difficulty) 0

def scaled (avg : U256) (clamped expected : U64) : U256 :=
  let quotient := avg / expected.setWidth 256
  let remainder := avg % expected.setWidth 256
  U256.saturatingAdd (U256.saturatingMul quotient (clamped.setWidth 256))
    (U256.saturatingMul remainder (clamped.setWidth 256) / expected.setWidth 256)

variable (checks : Bool) (config : DifficultyConfig)

def dgwAdjusted (recentBlocks : List BlockInfo) : Option U256 := do
  let size := windowSize config recentBlocks
  let newest ← recentBlocks[0]?
  if size < 2 then return newest.difficulty
  let oldest ← recentBlocks[size - 1]?
  let expected ← mulWord checks (BitVec.ofNat 64 (size - 1)) config.targetBlockTime
  let clamped ← clampedActualTime checks config (actualTime newest oldest 1) expected
  let avg := sumDifficulty (recentBlocks.take size) / BitVec.ofNat 256 size
  return if 0 < expected.toNat then scaled avg clamped expected else avg

def calculateDgwDifficulty (recentBlocks : List BlockInfo) : Option U256 :=
  if windowSize config recentBlocks < 2 then dgwAdjusted checks config recentBlocks
  else (dgwAdjusted checks config recentBlocks).map (clampDifficulty config)

def calculateEpochDifficulty (recentBlocks : List BlockInfo) : Option U256 := do
  let newest ← recentBlocks[0]?
  if config.adjustmentPeriod.toNat = 0 then none
  if newest.height.toNat % config.adjustmentPeriod.toNat ≠ 0 then return newest.difficulty
  if recentBlocks.length < config.adjustmentPeriod.toNat then return newest.difficulty
  let oldest ← recentBlocks[config.adjustmentPeriod.toNat - 1]?
  let expected ← mulWord checks config.adjustmentPeriod config.targetBlockTime
  let clamped ← clampedActualTime checks config (actualTime newest oldest config.targetBlockTime) expected
  let next ← divWord (U256.saturatingMul newest.difficulty (clamped.setWidth 256)) (expected.setWidth 256)
  return clampDifficulty config next

def calculateNextDifficulty (recentBlocks : List BlockInfo) : Option U256 :=
  if recentBlocks.length ≤ 1 then some config.initialDifficulty
  else if config.useDgw then calculateDgwDifficulty checks config recentBlocks
  else calculateEpochDifficulty checks config recentBlocks

namespace Exact

variable (config : DifficultyConfig) (blocks : List BlockInfo)

def total : Nat :=
  ((blocks.take (windowSize config blocks)).map fun block => block.difficulty.toNat).sum

def average : Nat := total config blocks / windowSize config blocks

def expected : Nat :=
  (windowSize config blocks - 1) * config.targetBlockTime.toNat

def stamp (i : Nat) : Nat := blocks[i]?.elim 0 fun block => block.timestamp.toNat

def elapsed (config : DifficultyConfig) (blocks : List BlockInfo) : Nat :=
  max (stamp blocks 0 - stamp blocks (windowSize config blocks - 1)) 1

def clamp (value low high : Nat) : Nat := max low (min value high)

variable (config : DifficultyConfig) (blocks : List BlockInfo)

def time : Nat :=
  clamp (elapsed config blocks) (max (expected config blocks / config.maxAdjustmentFactor.toNat) 1)
    (expected config blocks * config.maxAdjustmentFactor.toNat)

def adjusted : Nat :=
  average config blocks * time config blocks / expected config blocks

def next : Nat :=
  clamp (adjusted config blocks) config.minDifficulty.toNat config.maxDifficulty.toNat

theorem clampMono {a b low high} (le : a ≤ b) : clamp a low high ≤ clamp b low high :=
  max_le_max le_rfl (min_le_min le le_rfl)

end Exact

theorem mulDivSplit (a t) {e} (pos : 0 < e) : a / e * t + a % e * t / e = a * t / e := by
  have whole : a * t = a % e * t + e * (a / e * t) := by
    calc a * t = (a % e + e * (a / e)) * t := by rw [Nat.mod_add_div]
      _ = a % e * t + e * (a / e * t) := by ring
  rw [whole,Nat.add_mul_div_left _ _ pos,Nat.add_comm]

theorem sumFrom (blocks : List BlockInfo) (start) :
    (blocks.foldl (fun sum block => U256.saturatingAdd sum block.difficulty) start).toNat =
      min (start.toNat + (blocks.map fun block => block.difficulty.toNat).sum) (2^256 - 1) := by
  induction blocks generalizing start with
  | nil =>
    simp only [foldl_nil,map_nil,sum_nil]
    omega
  | cons block rest ih =>
    rw [foldl_cons,ih,U256.toNatSaturatingAdd,map_cons,sum_cons]
    omega

theorem sumSaturates (blocks) :
    (sumDifficulty blocks).toNat = min (blocks.map fun block => block.difficulty.toNat).sum (2^256 - 1) := by
  rw [sumDifficulty,sumFrom]
  exact congrArg (min · _) (Nat.zero_add _)

theorem wideWord (w : U64) : (w.setWidth 256).toNat = w.toNat := by
  rw [toNat_setWidth,Nat.mod_eq_of_lt (Nat.lt_trans w.isLt (by decide))]

theorem scaledExact (avg) (clamped) {expected} (pos : 0 < expected.toNat) :
    (scaled avg clamped expected).toNat = min (avg.toNat * clamped.toNat / expected.toNat) (2^256 - 1) := by
  have below := Nat.le_of_lt ((Nat.mod_lt avg.toNat pos).trans expected.isLt)
  have small : avg.toNat % expected.toNat * clamped.toNat ≤ 2^256 - 1 := by
    calc avg.toNat % expected.toNat * clamped.toNat ≤ 2^64 * 2^64 := Nat.mul_le_mul below (Nat.le_of_lt clamped.isLt)
      _ ≤ 2^256 - 1 := by decide
  unfold scaled
  simp only [U256.toNatSaturatingAdd,U256.toNatSaturatingMul,toNat_udiv,toNat_umod,wideWord]
  rw [Nat.min_eq_left small,← mulDivSplit avg.toNat clamped.toNat pos]
  generalize avg.toNat / expected.toNat * clamped.toNat = big
  generalize avg.toNat % expected.toNat * clamped.toNat / expected.toNat = rest
  omega

theorem maxWord (a b : U64) : (max a b).toNat = max a.toNat b.toNat := by
  rcases Nat.le_total a.toNat b.toNat with le | le
  · rw [max_eq_right (show a ≤ b from le),Nat.max_eq_right le]
  · rw [max_eq_left (show b ≤ a from le),Nat.max_eq_left le]

theorem clampExact {n low high} (ordered : low.toNat ≤ high.toNat) (value : BitVec n) :
    (if value < low then low else if high < value then high else value).toNat =
      Exact.clamp value.toNat low.toNat high.toNat := by
  unfold Exact.clamp
  split
  · rename_i less
    have less : value.toNat < low.toNat := less
    omega
  · rename_i notLess
    have notLess : ¬ value.toNat < low.toNat := notLess
    split
    · rename_i more
      have more : high.toNat < value.toNat := more
      omega
    · rename_i notMore
      have notMore : ¬ high.toNat < value.toNat := notMore
      omega

theorem clampWordExact (value) {low high} (ordered : low.toNat ≤ high.toNat) :
    ∃ c, clampWord value low high = some c ∧ c.toNat = Exact.clamp value.toNat low.toNat high.toNat :=
  ⟨_,if_neg (Nat.not_lt.mpr ordered),clampExact ordered value⟩

theorem clampedTimeExact (checks) (config) (actual) {expected}
    (factor : 1 ≤ config.maxAdjustmentFactor.toNat) (pos : 0 < expected.toNat)
    (fits : expected.toNat * config.maxAdjustmentFactor.toNat < 2^64) :
    ∃ c, clampedActualTime checks config actual expected = some c ∧
      c.toNat = Exact.clamp actual.toNat (max (expected.toNat / config.maxAdjustmentFactor.toNat) 1)
        (expected.toNat * config.maxAdjustmentFactor.toNat) := by
  obtain ⟨maxTime,multiplied,product⟩ := mulWordFits checks fits
  have divided : divWord expected config.maxAdjustmentFactor = some (expected / config.maxAdjustmentFactor) :=
    if_neg (Nat.ne_of_gt factor)
  have low : (max (expected / config.maxAdjustmentFactor) 1).toNat =
      max (expected.toNat / config.maxAdjustmentFactor.toNat) 1 := by
    rw [maxWord,toNat_udiv]
    rfl
  have ordered : (max (expected / config.maxAdjustmentFactor) 1).toNat ≤ maxTime.toNat := by
    rw [low,product]
    have less := Nat.div_le_self expected.toNat config.maxAdjustmentFactor.toNat
    have more := Nat.le_mul_of_pos_right expected.toNat factor
    omega
  obtain ⟨c,clamped,value⟩ := clampWordExact actual ordered
  refine ⟨c,?_,by rw [value,low,product]⟩
  rw [clampedActualTime,divided,multiplied]
  exact clamped

theorem actualTimeExact (newest oldest) :
    (actualTime newest oldest 1).toNat = max (newest.timestamp.toNat - oldest.timestamp.toNat) 1 := by
  unfold actualTime
  split
  · rename_i later
    have later : oldest.timestamp.toNat < newest.timestamp.toNat := later
    rw [toNat_sub_of_le (Nat.le_of_lt later)]
    omega
  · rename_i notLater
    have notLater : ¬ oldest.timestamp.toNat < newest.timestamp.toNat := notLater
    have one : (1 : U64).toNat = 1 := rfl
    omega

theorem clampDifficultyExact {config} (bounds : config.minDifficulty ≤ config.maxDifficulty) (difficulty) :
    (clampDifficulty config difficulty).toNat =
      Exact.clamp difficulty.toNat config.minDifficulty.toNat config.maxDifficulty.toNat :=
  clampExact bounds difficulty

section Wave
variable (checks : Bool) {config : DifficultyConfig} {blocks : List BlockInfo}

theorem windowSizeBound : windowSize config blocks < 2^64 := Nat.lt_of_le_of_lt (Nat.min_le_left _ _) config.dgwWindow.isLt

theorem averageExact (total : Exact.total config blocks < 2^256) :
    (sumDifficulty (blocks.take (windowSize config blocks)) / BitVec.ofNat 256 (windowSize config blocks)).toNat =
      Exact.average config blocks := by
  have size : windowSize config blocks < 2^256 := windowSizeBound.trans (by decide)
  rw [toNat_udiv,sumSaturates,toNat_ofNat,Nat.mod_eq_of_lt size,Exact.average]
  exact congrArg (· / _) (Nat.min_eq_left (Nat.le_sub_one_of_lt total))

theorem dgwAdjustedExact (target : 1 ≤ config.targetBlockTime.toNat) (factor : 1 ≤ config.maxAdjustmentFactor.toNat)
    (several : 2 ≤ windowSize config blocks)
    (times : Exact.expected config blocks * config.maxAdjustmentFactor.toNat < 2^64)
    (total : Exact.total config blocks < 2^256) :
    ∃ r, dgwAdjusted checks config blocks = some r ∧ r.toNat = min (Exact.adjusted config blocks) (2^256 - 1) := by
  have inside : windowSize config blocks ≤ blocks.length := Nat.min_le_right _ _
  have first : blocks[0]? = some blocks[0] := getElem?_eq_getElem (by omega)
  have last : blocks[windowSize config blocks - 1]? = some blocks[windowSize config blocks - 1] :=
    getElem?_eq_getElem (by omega)
  have count : (BitVec.ofNat 64 (windowSize config blocks - 1)).toNat = windowSize config blocks - 1 := by
    have bound : windowSize config blocks < 2^64 := windowSizeBound
    rw [toNat_ofNat,Nat.mod_eq_of_lt (by omega)]
  have positive : 0 < Exact.expected config blocks := Nat.mul_pos (by omega) target
  have fits : (BitVec.ofNat 64 (windowSize config blocks - 1)).toNat * config.targetBlockTime.toNat < 2^64 := by
    rw [count]
    exact Nat.lt_of_le_of_lt (Nat.le_mul_of_pos_right _ factor) times
  obtain ⟨expected,multiplied,product⟩ := mulWordFits checks fits
  rw [count] at product
  have product : expected.toNat = Exact.expected config blocks := product
  obtain ⟨c,clamped,time⟩ := clampedTimeExact checks config (actualTime blocks[0] blocks[windowSize config blocks - 1] 1)
    factor (product ▸ positive) (product ▸ times)
  refine ⟨scaled (sumDifficulty (blocks.take (windowSize config blocks)) /
    BitVec.ofNat 256 (windowSize config blocks)) c expected,?_,?_⟩
  · simp only [dgwAdjusted,first,last,multiplied,clamped,Option.bind_eq_bind,Option.bind_some,if_neg (Nat.not_lt.mpr several),
      if_pos (product ▸ positive : 0 < expected.toNat)]
    rfl
  · have elapsed : (actualTime blocks[0] blocks[windowSize config blocks - 1] 1).toNat = Exact.elapsed config blocks := by
      rw [actualTimeExact,Exact.elapsed,Exact.stamp,Exact.stamp,first,last]
      rfl
    rw [scaledExact _ _ (product ▸ positive),averageExact total,time,elapsed,product]
    rfl

structure Domain (config : DifficultyConfig) (blocks : List BlockInfo) : Prop where
  dgw : config.useDgw = true
  target : 1 ≤ config.targetBlockTime.toNat
  factor : 1 ≤ config.maxAdjustmentFactor.toNat
  windowLow : 2 ≤ config.dgwWindow.toNat
  windowHigh : config.dgwWindow.toNat ≤ 2^20
  bounds : config.minDifficulty ≤ config.maxDifficulty
  ceiling : config.maxDifficulty.toNat ≤ 2^235
  several : 2 ≤ blocks.length
  times : Exact.expected config blocks * config.maxAdjustmentFactor.toNat < 2^64
  difficulties : ∀ block ∈ blocks, block.difficulty.toNat ≤ 2^235

namespace Domain

theorem window (domain : Domain config blocks) : 2 ≤ windowSize config blocks :=
  Nat.le_min.mpr ⟨domain.windowLow,domain.several⟩

theorem total (domain : Domain config blocks) : Exact.total config blocks < 2^256 := by
  have short : (blocks.take (windowSize config blocks)).length ≤ 2^20 := by
    rw [length_take]
    exact (Nat.min_le_left _ _).trans ((Nat.min_le_left _ _).trans domain.windowHigh)
  have each : ∀ d ∈ (blocks.take (windowSize config blocks)).map fun block => block.difficulty.toNat, d ≤ 2^235 := by
    intro d mem
    obtain ⟨block,taken,rfl⟩ := mem_map.mp mem
    exact domain.difficulties block (mem_of_mem_take taken)
  have bounded := sum_le_card_nsmul _ _ each
  rw [length_map,smul_eq_mul] at bounded
  calc Exact.total config blocks ≤ (blocks.take (windowSize config blocks)).length * 2^235 := bounded
    _ ≤ 2^20 * 2^235 := Nat.mul_le_mul_right _ short
    _ < 2^256 := by decide

theorem nextExact (domain : Domain config blocks) :
    ∃ r, calculateNextDifficulty checks config blocks = some r ∧ r.toNat = Exact.next config blocks := by
  obtain ⟨r,computed,value⟩ := dgwAdjustedExact checks domain.target domain.factor domain.window domain.times domain.total
  refine ⟨clampDifficulty config r,?_,?_⟩
  · rw [calculateNextDifficulty,if_neg (Nat.not_le.mpr domain.several),if_pos domain.dgw,calculateDgwDifficulty,
      if_neg (Nat.not_lt.mpr domain.window),computed]
    rfl
  · have ceiling := domain.ceiling
    rw [clampDifficultyExact domain.bounds,value]
    unfold Exact.next Exact.clamp
    omega

end Domain

section Later
variable {newest : BlockInfo} {rest : List BlockInfo} {later : U64}

theorem windowLater : windowSize config ({newest with timestamp := later}::rest) = windowSize config (newest::rest) := rfl

theorem totalLater : Exact.total config ({newest with timestamp := later}::rest) = Exact.total config (newest::rest) := by
  unfold Exact.total
  rw [windowLater]
  cases windowSize config (newest::rest) <;> rfl

theorem stampLater {i} (pos : 0 < i) : Exact.stamp ({newest with timestamp := later}::rest) i = Exact.stamp
    (newest::rest) i := by
  obtain ⟨j,rfl⟩ := Nat.exists_eq_add_of_lt pos
  rfl

theorem domainLater (domain : Domain config (newest::rest)) : Domain config ({newest with timestamp := later}::rest) where
  dgw := domain.dgw
  target := domain.target
  factor := domain.factor
  windowLow := domain.windowLow
  windowHigh := domain.windowHigh
  bounds := domain.bounds
  ceiling := domain.ceiling
  several := domain.several
  times := domain.times
  difficulties := by
    intro block mem
    rcases mem_cons.mp mem with rfl | behind
    · exact domain.difficulties newest mem_cons_self
    · exact domain.difficulties block (mem_cons_of_mem _ behind)

theorem elapsedLater (window : 2 ≤ windowSize config (newest::rest)) (order : newest.timestamp ≤ later) :
    Exact.elapsed config (newest::rest) ≤ Exact.elapsed config ({newest with timestamp := later}::rest) := by
  have oldest : Exact.stamp ({newest with timestamp := later}::rest) (windowSize config (newest::rest) - 1) =
      Exact.stamp (newest::rest) (windowSize config (newest::rest) - 1) := stampLater (by omega)
  change max (newest.timestamp.toNat - _) 1 ≤ max (later.toNat - Exact.stamp _ (windowSize config (newest::rest) - 1)) 1
  rw [oldest]
  exact max_le_max (Nat.sub_le_sub_right order _) le_rfl

theorem nextLater (window : 2 ≤ windowSize config (newest::rest)) (order : newest.timestamp ≤ later) :
    Exact.next config (newest::rest) ≤ Exact.next config ({newest with timestamp := later}::rest) := by
  have average : Exact.average config ({newest with timestamp := later}::rest) = Exact.average config (newest::rest) :=
    congrArg (· / windowSize config (newest::rest)) totalLater
  have time : Exact.time config (newest::rest) ≤ Exact.time config ({newest with timestamp := later}::rest) :=
    Exact.clampMono (elapsedLater window order)
  refine Exact.clampMono (Nat.div_le_div_right ?_)
  rw [average]
  exact Nat.mul_le_mul_left _ time

end Later

theorem dgwNextExact {newest : BlockInfo} {rest : List BlockInfo} (domain : Domain config (newest::rest)) :
    ∃ r, calculateNextDifficulty checks config (newest::rest) = some r ∧ r.toNat = Exact.next config (newest::rest) ∧
      ∀ later : U64, newest.timestamp ≤ later →
        ∃ r', calculateNextDifficulty checks config ({newest with timestamp := later}::rest) = some r' ∧ r ≤ r' := by
  obtain ⟨r,computed,value⟩ := domain.nextExact checks
  refine ⟨r,computed,value,fun later order => ?_⟩
  obtain ⟨r',computed',value'⟩ := (domainLater domain).nextExact checks
  refine ⟨r',computed',?_⟩
  change r.toNat ≤ r'.toNat
  rw [value,value']
  exact nextLater domain.window order

theorem dgwNextExactTwo : ∃ r, calculateNextDifficulty true defaultConfig
    [⟨1,15,defaultConfig.initialDifficulty⟩,⟨0,0,defaultConfig.initialDifficulty⟩] = some r ∧ r.toNat = 2^220 * 15 / 10 := by
  have domain : Domain defaultConfig [⟨1,15,defaultConfig.initialDifficulty⟩,⟨0,0,defaultConfig.initialDifficulty⟩] :=
    ⟨rfl,by decide,by decide,by decide,by decide,by decide +kernel,by decide +kernel,by decide,by decide,by decide +kernel⟩
  obtain ⟨r,computed,value,_⟩ := dgwNextExact true domain
  exact ⟨r,computed,value.trans (by decide +kernel)⟩

def Whole (config : DifficultyConfig) (blocks : List BlockInfo) : Prop :=
  config.maxAdjustmentFactor.toNat ∣ Exact.expected config blocks ∨
  Exact.expected config blocks ≤ config.maxAdjustmentFactor.toNat ∨
  Exact.expected config blocks ≤ Exact.elapsed config blocks * config.maxAdjustmentFactor.toNat

theorem timeUpper (factor : 1 ≤ config.maxAdjustmentFactor.toNat) (positive : 0 < Exact.expected config blocks) :
    Exact.time config blocks ≤ Exact.expected config blocks * config.maxAdjustmentFactor.toNat := by
  have less := Nat.div_le_self (Exact.expected config blocks) config.maxAdjustmentFactor.toNat
  have more := Nat.le_mul_of_pos_right (Exact.expected config blocks) factor
  unfold Exact.time Exact.clamp
  omega

theorem timeLowerIff (factor : 1 ≤ config.maxAdjustmentFactor.toNat) :
    Exact.expected config blocks ≤ Exact.time config blocks * config.maxAdjustmentFactor.toNat ↔ Whole config blocks := by
  unfold Whole Exact.time Exact.clamp
  generalize Exact.elapsed config blocks = actual
  generalize Exact.expected config blocks = e
  generalize config.maxAdjustmentFactor.toNat = f at factor ⊢
  have more := Nat.le_mul_of_pos_right e factor
  have less := Nat.div_le_self e f
  constructor
  · intro reaches
    by_contra short
    obtain ⟨remainder,above,cut⟩ : ¬ f ∣ e ∧ ¬ e ≤ f ∧ ¬ e ≤ actual * f := by tauto
    have step := Nat.div_pos (Nat.le_of_not_le above) factor
    have under := (Nat.le_div_iff_mul_le factor).mpr (Nat.le_of_not_le cut)
    have time : max (max (e / f) 1) (min actual (e * f)) = e / f := by omega
    rw [time] at reaches
    exact remainder ⟨e / f,Nat.le_antisymm (Nat.mul_comm _ _ ▸ reaches) (Nat.mul_div_le e f)⟩
  · rintro (divides | few | slow)
    · calc e = e / f * f := (Nat.div_mul_cancel divides).symm
        _ ≤ _ := Nat.mul_le_mul_right _ (by omega)
    · calc e ≤ 1 * f := by omega
        _ ≤ _ := Nat.mul_le_mul_right _ (by omega)
    · rcases Nat.le_total actual (e * f) with inside | beyond
      · exact slow.trans (Nat.mul_le_mul_right _ (by omega))
      · calc e ≤ e * f * f := more.trans (Nat.le_mul_of_pos_right _ factor)
          _ ≤ _ := Nat.mul_le_mul_right _ (by omega)

theorem adjustedUpper {avg t e f} (positive : 0 < e) (upper : t ≤ e * f) : avg * t / e ≤ avg * f := by
  refine (Nat.div_le_div_right (Nat.mul_le_mul_left avg upper)).trans (Nat.le_of_eq ?_)
  rw [show avg * (e * f) = e * (avg * f) by ring,Nat.mul_div_cancel_left _ positive]

theorem adjustedLower {avg t e f} (positive : 0 < e) (lower : e ≤ t * f) : avg / f ≤ avg * t / e := by
  rw [Nat.le_div_iff_mul_le positive]
  calc avg / f * e ≤ avg / f * (t * f) := Nat.mul_le_mul_left _ lower
    _ = avg / f * f * t := by ring
    _ ≤ avg * t := Nat.mul_le_mul_right _ (Nat.div_mul_le_self avg f)

theorem dgwFactor (target : 1 ≤ config.targetBlockTime.toNat) (factor : 1 ≤ config.maxAdjustmentFactor.toNat)
    (window : 2 ≤ config.dgwWindow.toNat) (some' : blocks ≠ [])
    (times : Exact.expected config blocks * config.maxAdjustmentFactor.toNat < 2^64)
    (total : Exact.total config blocks < 2^256) : ∃ r, dgwAdjusted checks config blocks = some r ∧
      r.toNat ≤ Exact.average config blocks * config.maxAdjustmentFactor.toNat ∧
      (Whole config blocks → Exact.average config blocks / config.maxAdjustmentFactor.toNat ≤ r.toNat) ∧
      (2 ≤ blocks.length → r.toNat = min (Exact.adjusted config blocks) (2^256 - 1) ∧
        (Exact.expected config blocks ≤ Exact.time config blocks * config.maxAdjustmentFactor.toNat ↔
          Whole config blocks)) := by
  rcases Nat.lt_or_ge blocks.length 2 with few | several
  · -- a single block is returned as it is
    match blocks with
    | [] => exact absurd rfl some'
    | _::_::_ => exact absurd few (Nat.not_lt.mpr (Nat.le_add_left 2 _))
    | [block] =>
      have size : windowSize config [block] = 1 := Nat.min_eq_right (Nat.le_of_lt window)
      have average : Exact.average config [block] = block.difficulty.toNat := by
        simp [Exact.average,Exact.total,size]
      refine ⟨block.difficulty,?_,?_,fun _ => ?_,fun long => absurd long (by simp)⟩
      · simp [dgwAdjusted,size]
      · rw [average]
        exact Nat.le_mul_of_pos_right _ factor
      · rw [average]
        exact Nat.div_le_self _ _
  · have size : 2 ≤ windowSize config blocks := Nat.le_min.mpr ⟨window,several⟩
    have positive : 0 < Exact.expected config blocks := Nat.mul_pos (by omega) target
    obtain ⟨r,computed,value⟩ := dgwAdjustedExact checks target factor size times total
    have upper : Exact.adjusted config blocks ≤ Exact.average config blocks * config.maxAdjustmentFactor.toNat :=
      adjustedUpper positive (timeUpper factor positive)
    have exact' : _ ↔ Whole config blocks := timeLowerIff factor
    have below : Exact.average config blocks / config.maxAdjustmentFactor.toNat ≤ 2^256 - 1 :=
      (Nat.div_le_self _ _).trans ((Nat.div_le_self _ _).trans (Nat.le_sub_one_of_lt total))
    refine ⟨r,computed,?_,fun whole => ?_,fun _ => ⟨value,exact'⟩⟩
    · rw [value]
      exact (Nat.min_le_left _ _).trans upper
    · rw [value]
      exact Nat.le_min.mpr ⟨adjustedLower positive (exact'.mpr whole),below⟩

end Wave

def steady : List BlockInfo := [⟨2,40,BitVec.ofNat 256 (2^220)⟩,⟨1,20,BitVec.ofNat 256 (2^220)⟩,
    ⟨0,0,BitVec.ofNat 256 (2^220)⟩]

theorem dgwFactorSteady : ∃ r, dgwAdjusted true defaultConfig steady = some r ∧ r.toNat ≤ 2^220 * 4 ∧
    2^220 / 4 ≤ r.toNat := by
  obtain ⟨r,computed,upper,lower,_⟩ := @dgwFactor true defaultConfig steady
    (by decide) (by decide) (by decide) (by decide) (by decide) (by decide +kernel)
  have average : Exact.average defaultConfig steady = 2^220 := by decide +kernel
  rw [average] at upper lower
  exact ⟨r,computed,upper,lower (.inl (by decide))⟩

def burst : List BlockInfo := [⟨1,0,BitVec.ofNat 256 (2^220)⟩,⟨0,0,BitVec.ofNat 256 (2^220)⟩]

theorem burstBelowFactor : Exact.average defaultConfig burst = 2^220 ∧
    (dgwAdjusted true defaultConfig burst).map BitVec.toNat = some (2^220 / 5) ∧
    (dgwAdjusted false defaultConfig burst).map BitVec.toNat = some (2^220 / 5) := by
  decide +kernel

end QuantumChain.Difficulty
