import Backtester.Library.Series
import Backtester.Drawdown

/-!
# Fast paths

The statistics of a PnL series are written several times over : as plain loops, four entries at a
time, in parallel, and entry by entry while the log is filled. They agree : the unrolled equity
curve is the plain one (`equityCurveFromPnlDeltasSimd_eq`), and the mean, the sample variance and
the downside mean square are the same however they are summed, so that `calculate_stats` gives the
same ratios from a long history as from a short one (`TradeLog.moments_agree`).
-/

namespace Backtester

open Series

/-! ## The unrolled equity curve -/

/-- The unrolled loop and the loop over the remainder, from the locals `equity` and `curve`. -/
def unrolledCurve (equity : ℤ) (curve : List (ℤ × ℤ)) : List (ℤ × ℤ) → List (ℤ × ℤ)
  | (ts0, d0) :: (ts1, d1) :: (ts2, d2) :: (ts3, d3) :: deltas =>
    let e0 := satAddI64 equity d0
    let e1 := satAddI64 e0 d1
    let e2 := satAddI64 e1 d2
    let e3 := satAddI64 e2 d3
    unrolledCurve e3 (curve ++ [(ts0, e0)] ++ [(ts1, e1)] ++ [(ts2, e2)] ++ [(ts3, e3)]) deltas
  | remainder =>
    (remainder.foldl (fun acc d => (satAddI64 acc.1 d.2, acc.2 ++ [(d.1, satAddI64 acc.1 d.2)]))
      (equity, curve)).2

/-- The curve in steps of four. -/
def equityCurveFromPnlDeltasSimd (deltas : List (ℤ × ℤ)) : List (ℤ × ℤ) := unrolledCurve 0 [] deltas

/-- A pass of the unrolled loop is four passes of the plain one, and the carried equity is the last
entry of the curve. -/
theorem unrolledCurve_eq (equity : ℤ) (curve deltas : List (ℤ × ℤ)) :
    unrolledCurve equity curve deltas =
      (deltas.foldl (fun acc d => (satAddI64 acc.1 d.2, acc.2 ++ [(d.1, satAddI64 acc.1 d.2)]))
        (equity, curve)).2 := by
  fun_induction unrolledCurve equity curve deltas with
  | case1 equity curve ts0 d0 ts1 d1 ts2 d2 ts3 d3 deltas e0 e1 e2 e3 ih =>
    rw [ih]
    rfl
  | case2 equity curve remainder hshort => rfl

theorem equityCurveFromPnlDeltasSimd_eq (deltas : List (ℤ × ℤ)) :
    equityCurveFromPnlDeltasSimd deltas = equityCurveFromPnlDeltas deltas :=
  unrolledCurve_eq 0 [] deltas

example : equityCurveFromPnlDeltasSimd
    [(1, i64Max), (2, 5), (3, -7), (4, 2), (5, -1), (6, 3)] =
      [(1, i64Max), (2, i64Max), (3, i64Max - 7), (4, i64Max - 5), (5, i64Max - 6),
        (6, i64Max - 3)] := by
  decide

/-! ## The plain sums -/

/-- The entries as `f64`. -/
def asF64 (pnl : List ℤ) : List ℚ := pnl.map fun x : ℤ => (x : ℚ)

/-- The sum of a series. -/
def sumF64 (pnl : List ℤ) : ℚ := (asF64 pnl).sum

/-- The variance of a sample, from the squares of the differences. -/
def sampleVariance (pnl : List ℤ) : ℚ :=
  let mean := sumF64 pnl / pnl.length
  (pnl.map fun x : ℤ => let d := (x : ℚ) - mean; d * d).sum / (pnl.length - 1)

/-- The mean square of the losses. -/
def downsideVar (pnl : List ℤ) : ℚ :=
  (pnl.map fun x : ℤ => let d := (x : ℚ) - 0; if d < 0 then d * d else 0).sum / pnl.length

/-- The ratio of a short series. -/
def sharpeRatioFromPnlSeries (sqrt : ℚ → ℚ) (pnl : List ℤ) : ℚ :=
  ratio pnl.length (sumF64 pnl / pnl.length) (sqrt (sampleVariance pnl))

/-- The downside ratio of a short series. -/
def sortinoRatioFromPnlSeries (sqrt : ℚ → ℚ) (pnl : List ℤ) : ℚ :=
  ratio pnl.length (sumF64 pnl / pnl.length) (sqrt (downsideVar pnl))

/-! ## Four lanes -/

/-- The vector type of the SIMD crate : four `f64` lanes, and operations on each of them. -/
class F64x4 (V : Type*) extends Add V, Sub V, Mul V, Min V where
  splat : ℚ → V
  ofArray : (Fin 4 → ℚ) → V
  toArray : V → Fin 4 → ℚ
  toArray_splat : ∀ x i, toArray (splat x) i = x
  toArray_ofArray : ∀ a, toArray (ofArray a) = a
  toArray_add : ∀ v w i, toArray (v + w) i = toArray v i + toArray w i
  toArray_sub : ∀ v w i, toArray (v - w) i = toArray v i - toArray w i
  toArray_mul : ∀ v w i, toArray (v * w) i = toArray v i * toArray w i
  toArray_min : ∀ v w i, toArray (min v w) i = Min.min (toArray v i) (toArray w i)

namespace F64x4

attribute [simp] toArray_splat toArray_ofArray toArray_add toArray_sub toArray_mul toArray_min

instance : F64x4 (Fin 4 → ℚ) where
  splat x _ := x
  ofArray a := a
  toArray v := v
  toArray_splat _ _ := rfl
  toArray_ofArray _ := rfl
  toArray_add _ _ _ := rfl
  toArray_sub _ _ _ := rfl
  toArray_mul _ _ _ := rfl
  toArray_min _ _ _ := rfl

end F64x4

section Simd

open F64x4

variable (V : Type*) [F64x4 V]

variable {V} in
/-- The sum of the lanes. -/
def simdReduceSum (v : V) : ℚ := (List.ofFn (toArray v)).sum

variable {V} in
/-- The loop over `chunks_exact(4)` with the vector that a chunk adds, and its `remainder()`. -/
def simdChunks (lanes : V → V) (sumVec : V) : List ℤ → V × List ℤ
  | x0 :: x1 :: x2 :: x3 :: pnl =>
    simdChunks lanes (sumVec + lanes (ofArray ![(x0 : ℚ), x1, x2, x3])) pnl
  | remainder => (sumVec, remainder)

variable {V} in
/-- What the lane-wise sums have in common : what a chunk adds, and what an entry of the remainder
makes of the sum. -/
def simdSum (lanes : V → V) (rest : ℚ → ℤ → ℚ) (pnl : List ℤ) : ℚ :=
  let (sumVec, remainder) := simdChunks lanes (splat 0) pnl
  remainder.foldl rest (simdReduceSum sumVec)

/-- The sum of a series, four entries at a time. -/
def simdSumF64FromI64 (pnl : List ℤ) : ℚ := simdSum (fun v : V => v) (fun sum x => sum + x) pnl

/-- The sum of the squares of the differences, four entries at a time. -/
def simdSumSqDiff (pnl : List ℤ) (mean : ℚ) : ℚ :=
  simdSum (fun v : V => let d := v - splat mean; d * d)
    (fun sum x => let d := (x : ℚ) - mean; sum + d * d) pnl

/-- The sum of the squares of the losses, four entries at a time. -/
def simdSumDownsideSq (pnl : List ℤ) : ℚ :=
  simdSum (fun v : V => let neg := min v (splat 0); neg * neg)
    (fun sum x => let d : ℚ := x; if d < 0 then sum + d * d else sum) pnl

/-- The ratio from the sums of four lanes. -/
def sharpeRatioFromPnlSeriesSimd (sqrt : ℚ → ℚ) (pnl : List ℤ) : ℚ :=
  let mean := simdSumF64FromI64 V pnl / pnl.length
  ratio pnl.length mean (sqrt (simdSumSqDiff V pnl mean / (pnl.length - 1)))

/-- The downside ratio from the sums of four lanes. -/
def sortinoRatioFromPnlSeriesSimd (sqrt : ℚ → ℚ) (pnl : List ℤ) : ℚ :=
  ratio pnl.length (simdSumF64FromI64 V pnl / pnl.length)
    (sqrt (simdSumDownsideSq V pnl / pnl.length))

variable {V}

/-- A lane-wise sum adds `f` of every entry when its chunks add `f` in every lane, and its remainder
`f` of every entry. -/
theorem simdSum_eq {lanes : V → V} {rest : ℚ → ℤ → ℚ} (f : ℚ → ℚ)
    (hlanes : ∀ v i, toArray (lanes v) i = f (toArray v i))
    (hrest : ∀ sum x, rest sum x = sum + f x)
    (pnl : List ℤ) : simdSum lanes rest pnl = (pnl.map fun x : ℤ => f x).sum := by
  have htail : ∀ (remainder : List ℤ) (sum : ℚ),
      remainder.foldl rest sum = sum + (remainder.map fun x : ℤ => f x).sum := by
    intro remainder
    induction remainder with
    | nil => simp
    | cons x remainder ih =>
      intro sum
      rw [List.foldl_cons, ih, hrest, List.map_cons, List.sum_cons, add_assoc]
  have hchunks : ∀ sumVec : V,
      simdReduceSum (simdChunks lanes sumVec pnl).1 +
          ((simdChunks lanes sumVec pnl).2.map fun x : ℤ => f x).sum =
        simdReduceSum sumVec + (pnl.map fun x : ℤ => f x).sum := by
    intro sumVec
    fun_induction simdChunks lanes sumVec pnl with
    | case1 sumVec x0 x1 x2 x3 pnl ih =>
      rw [ih]
      simp [simdReduceSum, hlanes]
      ring
    | case2 sumVec remainder hshort => rfl
  have hzero : simdReduceSum (splat 0 : V) = 0 := by simp [simdReduceSum]
  calc simdSum lanes rest pnl
      = simdReduceSum (simdChunks lanes (splat 0) pnl).1 +
          ((simdChunks lanes (splat 0) pnl).2.map fun x : ℤ => f x).sum := htail _ _
    _ = (pnl.map fun x : ℤ => f x).sum := by rw [hchunks, hzero, zero_add]

theorem simdSumF64FromI64_eq (pnl : List ℤ) : simdSumF64FromI64 V pnl = sumF64 pnl :=
  simdSum_eq (fun x => x) (fun _ _ => rfl) (fun _ _ => rfl) pnl

theorem simdSumSqDiff_eq (pnl : List ℤ) (mean : ℚ) : simdSumSqDiff V pnl mean =
    (pnl.map fun x : ℤ => ((x : ℚ) - mean) * ((x : ℚ) - mean)).sum :=
  simdSum_eq (fun x => (x - mean) * (x - mean)) (fun v i => by simp) (fun _ _ => rfl) pnl

theorem simdSumDownsideSq_eq (pnl : List ℤ) : simdSumDownsideSq V pnl =
    (pnl.map fun x : ℤ => if (x : ℚ) < 0 then (x : ℚ) * x else 0).sum := by
  refine simdSum_eq (fun x => if x < 0 then x * x else 0) (fun v i => ?_) (fun sum x => ?_) pnl
  · by_cases hneg : toArray v i < 0
    · simp [hneg, min_eq_left hneg.le]
    · simp [hneg, min_eq_right (not_lt.mp hneg)]
  · dsimp only
    split_ifs
    · rfl
    · rw [add_zero]

end Simd

/-! ## In parallel -/

/-- What `par_iter().map().reduce()` gives for `|&x| (x, f(x))` when the series is split as
`tree`. -/
def parallelSums (f : ℚ → ℚ) (tree : SplitTree ℤ) : ℚ × ℚ :=
  tree.reduce (0, 0) (fun acc val => (acc.1 + val.1, acc.2 + val.2)) fun x : ℤ => ((x : ℚ), f x)

/-- The mean that a tree of splits gives. -/
def parallelMean (tree : SplitTree ℤ) : ℚ :=
  (parallelSums (fun val => val * val) tree).1 / tree.items.length

/-- The variance from the sum of the squares, where rounding must not leave a negative number. -/
def parallelVariance (tree : SplitTree ℤ) : ℚ :=
  let n : ℚ := tree.items.length
  let numerator := (parallelSums (fun val => val * val) tree).2 -
    n * parallelMean tree * parallelMean tree
  max numerator 0 / (n - 1)

/-- The mean square of the losses that a tree of splits gives. -/
def parallelDownsideVar (tree : SplitTree ℤ) : ℚ :=
  (parallelSums (fun val => if val < 0 then val * val else 0) tree).2 / tree.items.length

/-- `sharpe_ratio_from_pnl_series_parallel`, split as `tree`. -/
def sharpeRatioFromPnlSeriesParallelBy (sqrt : ℚ → ℚ) (tree : SplitTree ℤ) : ℚ :=
  ratio tree.items.length (parallelMean tree) (sqrt (parallelVariance tree))

/-- The downside ratio that a tree of splits gives. -/
def sortinoRatioFromPnlSeriesParallelBy (sqrt : ℚ → ℚ) (tree : SplitTree ℤ) : ℚ :=
  let mean := (parallelSums (fun val => if val < 0 then val * val else 0) tree).1 /
    tree.items.length
  ratio tree.items.length mean (sqrt (parallelDownsideVar tree))

theorem parallelSums_eq (f : ℚ → ℚ) (tree : SplitTree ℤ) : parallelSums f tree =
    (sumF64 tree.items, (tree.items.map fun x : ℤ => f x).sum) := by
  have hfold : ∀ (pnl : List ℤ) (acc : ℚ × ℚ),
      (pnl.map fun x : ℤ => ((x : ℚ), f x)).foldl (fun acc val => (acc.1 + val.1, acc.2 + val.2))
        acc =
        (acc.1 + sumF64 pnl, acc.2 + (pnl.map fun x : ℤ => f x).sum) := by
    intro pnl
    induction pnl with
    | nil => simp [sumF64, asF64]
    | cons x pnl ih =>
      intro acc
      rw [List.map_cons, List.foldl_cons, ih]
      simp [sumF64, asF64, add_assoc]
  rw [parallelSums, SplitTree.reduce_eq_foldl (fun a b c => by simp [add_assoc]) (fun a => by simp)
    (fun a => by simp), hfold]
  simp

/-! ## What the ratios are computed from -/

/-- What both ratios are computed from. -/
structure Moments where
  mean : ℚ
  variance : ℚ
  downsideVar : ℚ
  deriving DecidableEq

/-- The ratio from the mean and the variance. -/
def Moments.sharpe (sqrt : ℚ → ℚ) (n : ℕ) (m : Moments) : ℚ := ratio n m.mean (sqrt m.variance)

/-- The ratio from the mean and the losses. -/
def Moments.sortino (sqrt : ℚ → ℚ) (n : ℕ) (m : Moments) : ℚ := ratio n m.mean (sqrt m.downsideVar)

/-- The moments of the plain sums. -/
def scalarMoments (pnl : List ℤ) : Moments :=
  ⟨sumF64 pnl / pnl.length, sampleVariance pnl, downsideVar pnl⟩

/-- The moments of the sums in four lanes. -/
def simdMoments (V : Type*) [F64x4 V] (pnl : List ℤ) : Moments :=
  let mean := simdSumF64FromI64 V pnl / pnl.length
  ⟨mean, simdSumSqDiff V pnl mean / (pnl.length - 1), simdSumDownsideSq V pnl / pnl.length⟩

/-- The moments of the sums over a tree of splits. -/
def parallelMoments (tree : SplitTree ℤ) : Moments :=
  ⟨parallelMean tree, parallelVariance tree, parallelDownsideVar tree⟩

/-- The moments that the log keeps. -/
def IncrementalStats.moments (inc : IncrementalStats) : Moments :=
  ⟨inc.pnlMean, inc.pnlM2 / (inc.pnlCount - 1), inc.downsideSqSum / inc.pnlCount⟩

theorem downsideVar_eq (pnl : List ℤ) : downsideVar pnl =
    (pnl.map fun x : ℤ => if (x : ℚ) < 0 then (x : ℚ) * x else 0).sum / pnl.length := by
  simp [downsideVar]

theorem mean_asF64 (pnl : List ℤ) : Series.mean (asF64 pnl) = sumF64 pnl / pnl.length := by
  rw [Series.mean, asF64, List.length_map]
  rfl

theorem sampleVariance_eq (pnl : List ℤ) : sampleVariance pnl =
    sqDiff (Series.mean (asF64 pnl)) (asF64 pnl) / (pnl.length - 1) := by
  rw [mean_asF64, sqDiff, asF64, List.map_map]
  rfl

theorem simdMoments_eq (V : Type*) [F64x4 V] (pnl : List ℤ) :
    simdMoments V pnl = scalarMoments pnl := by
  rw [simdMoments, scalarMoments, simdSumF64FromI64_eq, simdSumSqDiff_eq, simdSumDownsideSq_eq,
    downsideVar_eq, sampleVariance]

/-- The sum of the squares leaves what the two passes add up, and that is not negative. -/
theorem parallelMoments_eq (tree : SplitTree ℤ) :
    parallelMoments tree = scalarMoments tree.items := by
  have hmean : parallelMean tree = Series.mean (asF64 tree.items) := by
    rw [parallelMean, parallelSums_eq, mean_asF64]
  have hsq : sqDiff (Series.mean (asF64 tree.items)) (asF64 tree.items) =
      (tree.items.map fun x : ℤ => (x : ℚ) * x).sum -
        tree.items.length * Series.mean (asF64 tree.items) * Series.mean (asF64 tree.items) := by
    rw [sqDiff_mean, sumSq, asF64, List.map_map, List.length_map]
    rfl
  have hnonneg : 0 ≤ sqDiff (Series.mean (asF64 tree.items)) (asF64 tree.items) := by
    refine List.sum_nonneg fun d hd => ?_
    obtain ⟨x, -, rfl⟩ := List.mem_map.mp hd
    exact mul_self_nonneg _
  have hvariance : parallelVariance tree = sampleVariance tree.items := by
    rw [parallelVariance, hmean, parallelSums_eq, ← hsq, max_eq_left hnonneg, sampleVariance_eq]
  have hdownside : parallelDownsideVar tree = downsideVar tree.items := by
    rw [parallelDownsideVar, parallelSums_eq, downsideVar_eq]
  rw [parallelMoments, scalarMoments, hmean, hvariance, hdownside, mean_asF64]

/-! ## Entry by entry -/

/-- The statistics are those of the entries `pnl`. -/
structure IncrementalStats.Summarises (inc : IncrementalStats) (pnl : List ℤ) : Prop where
  count : inc.pnlCount = pnl.length
  mean : inc.pnlMean = Series.mean (asF64 pnl)
  m2 : inc.pnlM2 = sqDiff (Series.mean (asF64 pnl)) (asF64 pnl)
  downside : inc.downsideSqSum =
    (pnl.map fun x : ℤ => if (x : ℚ) < 0 then (x : ℚ) * x else 0).sum

namespace IncrementalStats

variable {inc : IncrementalStats} {pnl : List ℤ}

theorem summarises_nil : ({} : IncrementalStats).Summarises [] where
  count := rfl
  mean := by simp [Series.mean, asF64]
  m2 := by simp [sqDiff, asF64]
  downside := rfl

theorem Summarises.onFill (h : inc.Summarises pnl) (fill : TradeFill) :
    (inc.onFill fill).Summarises pnl := by
  have hkept : (inc.onFill fill).pnlCount = inc.pnlCount ∧ (inc.onFill fill).pnlMean = inc.pnlMean ∧
      (inc.onFill fill).pnlM2 = inc.pnlM2 ∧
      (inc.onFill fill).downsideSqSum = inc.downsideSqSum := by
    unfold IncrementalStats.onFill
    dsimp only
    split_ifs <;> exact ⟨rfl, rfl, rfl, rfl⟩
  obtain ⟨hcount, hmean, hm2, hdownside⟩ := hkept
  exact ⟨hcount.trans h.count, hmean.trans h.mean, hm2.trans h.m2, hdownside.trans h.downside⟩

/-- What an entry adds. -/
theorem moments_onPnl (inc : IncrementalStats) (ts x : ℤ) (isTrade : Bool) :
    (inc.onPnl ts x isTrade).pnlCount = inc.pnlCount + 1 ∧
      (inc.onPnl ts x isTrade).pnlMean = inc.pnlMean + (x - inc.pnlMean) / (inc.pnlCount + 1 : ℕ) ∧
      (inc.onPnl ts x isTrade).pnlM2 = inc.pnlM2 +
        (x - inc.pnlMean) * (x - (inc.pnlMean + (x - inc.pnlMean) / (inc.pnlCount + 1 : ℕ))) ∧
      (inc.onPnl ts x isTrade).downsideSqSum =
        if x < 0 then inc.downsideSqSum + x * x else inc.downsideSqSum := by
  have hkept : ∀ inc : IncrementalStats, (inc.trackEquity ts).pnlCount = inc.pnlCount ∧
      (inc.trackEquity ts).pnlMean = inc.pnlMean ∧ (inc.trackEquity ts).pnlM2 = inc.pnlM2 ∧
      (inc.trackEquity ts).downsideSqSum = inc.downsideSqSum := by
    intro inc
    unfold trackEquity
    dsimp only
    split_ifs <;> exact ⟨rfl, rfl, rfl, rfl⟩
  obtain ⟨hcount, hmean, hm2, hdownside⟩ := hkept _
  unfold onPnl
  refine ⟨hcount.trans ?_, hmean.trans ?_, hm2.trans ?_, hdownside.trans ?_⟩
  · dsimp only
    split_ifs <;> rfl
  · dsimp only
    split_ifs <;> rfl
  · dsimp only
    split_ifs <;> rfl
  · dsimp only
    split_ifs <;> rfl

/-- Welford's recurrence keeps the mean and the squared deviations of what was pushed. -/
theorem Summarises.onPnl (h : inc.Summarises pnl) (ts x : ℤ) (isTrade : Bool) :
    (inc.onPnl ts x isTrade).Summarises (pnl ++ [x]) := by
  obtain ⟨hcount, hmean, hm2, hdownside⟩ := moments_onPnl inc ts x isTrade
  have hsnoc : asF64 (pnl ++ [x]) = asF64 pnl ++ [(x : ℚ)] := List.map_append
  have hlength : (asF64 pnl).length = inc.pnlCount := by rw [asF64, List.length_map, h.count]
  have hmean' : Series.mean (asF64 (pnl ++ [x])) =
      inc.pnlMean + (x - inc.pnlMean) / (inc.pnlCount + 1 : ℕ) := by
    rw [hsnoc, mean_snoc, hlength, h.mean]
  refine ⟨?_, hmean.trans hmean'.symm, ?_, ?_⟩
  · rw [hcount, h.count, List.length_append, List.length_singleton]
  · rw [hm2, ← hmean', hsnoc, sqDiff_snoc, h.m2, h.mean]
  · rw [hdownside, h.downside, List.map_append, List.sum_append, List.map_singleton,
      List.sum_singleton]
    by_cases hneg : x < 0
    · rw [if_pos hneg, if_pos (mod_cast hneg)]
    · rw [if_neg hneg, if_neg (mod_cast hneg), add_zero]

theorem Summarises.moments (h : inc.Summarises pnl) : inc.moments = scalarMoments pnl := by
  rw [IncrementalStats.moments, scalarMoments, h.count, h.mean, h.m2, h.downside, mean_asF64,
    sampleVariance_eq, mean_asF64, downsideVar_eq]

end IncrementalStats

/-! ## Logs -/

namespace TradeLog

theorem summarises_foldl_push {log : TradeLog} (hmode : log.mode ≠ .none) {pnl : List ℤ}
    (h : log.incremental.Summarises pnl) (pushes : List LogPush) :
    (pushes.foldl push log).incremental.Summarises (pnl ++ (entriesOf pushes).map Prod.snd) := by
  induction pushes generalizing log pnl with
  | nil =>
    rw [entriesOf, List.filterMap_nil, List.map_nil, List.append_nil]
    exact h
  | cons p pushes ih =>
    rw [List.foldl_cons]
    cases p with
    | fill f =>
      have hf := h.onFill f
      rw [← incremental_pushFill hmode] at hf
      exact ih (by rwa [mode_push]) hf
    | pnl ts x isTrade =>
      have hx := h.onPnl ts x isTrade
      rw [← incremental_pushPnl hmode] at hx
      have hmode' : (log.push (.pnl ts x isTrade)).mode ≠ .none := by rwa [mode_push]
      have hrest := ih hmode' hx
      rwa [List.append_assoc] at hrest

theorem summarises_record {mode : TradeLogMode} (hmode : mode ≠ .none) (pushes : List LogPush) :
    (record mode pushes).incremental.Summarises ((entriesOf pushes).map Prod.snd) := by
  have hnew : (new mode).incremental.Summarises [] := IncrementalStats.summarises_nil
  rw [← List.nil_append (List.map Prod.snd (entriesOf pushes))]
  exact summarises_foldl_push hmode hnew pushes

theorem mode_record (mode : TradeLogMode) (pushes : List LogPush) :
    (record mode pushes).mode = mode := by
  have hfold : ∀ log : TradeLog, (pushes.foldl push log).mode = log.mode := by
    induction pushes with
    | nil => exact fun _ => rfl
    | cons p pushes ih => exact fun log => (ih (log.push p)).trans (mode_push log p)
  exact hfold (new mode)

/-- Exact sums are what the reduction gives, however it is split. -/
theorem exactSums_eq (f : ℚ → ℚ) (tree : SplitTree ℤ) :
    exactSums (tree.items.map fun x : ℤ => ((x : ℚ), f x)) = parallelSums f tree := by
  rw [parallelSums_eq, exactSums, List.map_map, List.map_map]
  rfl

/-- The parallel ratios of `calculate_stats` with exact sums, however the reduction is split. -/
theorem ratiosParallel_eq (sqrt : ℚ → ℚ) (tree : SplitTree ℤ) :
    sharpeRatioFromPnlSeriesParallel exactSums sqrt tree.items =
        sharpeRatioFromPnlSeriesParallelBy sqrt tree ∧
      sortinoRatioFromPnlSeriesParallel exactSums sqrt tree.items =
        sortinoRatioFromPnlSeriesParallelBy sqrt tree := by
  constructor
  · rw [sharpeRatioFromPnlSeriesParallel, exactSums_eq fun val => val * val]
    rfl
  · rw [sortinoRatioFromPnlSeriesParallel, exactSums_eq fun val => if val < 0 then val * val else 0]
    rfl

/-- The mean, the sample variance and the downside mean square of a series are the same however they
are computed, so the ratios are too, and the statistics of a log do not depend on whether its
history is long enough to be summed in parallel. -/
theorem moments_agree (V : Type*) [F64x4 V] (sqrt : ℚ → ℚ) (tree : SplitTree ℤ)
    {mode : TradeLogMode}
    (hmode : mode ≠ .none) {pushes : List LogPush} {pnl : List ℤ} (htree : tree.items = pnl)
    (hpushes : (entriesOf pushes).map Prod.snd = pnl) :
    let log := record mode pushes
    let stats := calculateStats sqrt log
    simdMoments V pnl = scalarMoments pnl ∧
      parallelMoments tree = scalarMoments pnl ∧
      log.incremental.moments = scalarMoments pnl ∧
      (sharpeRatioFromPnlSeriesSimd V sqrt pnl = sharpeRatioFromPnlSeries sqrt pnl ∧
        sharpeRatioFromPnlSeriesParallelBy sqrt tree = sharpeRatioFromPnlSeries sqrt pnl ∧
        log.incremental.sharpeRatio sqrt = sharpeRatioFromPnlSeries sqrt pnl ∧
        stats.sharpeRatio = sharpeRatioFromPnlSeries sqrt pnl) ∧
      sortinoRatioFromPnlSeriesSimd V sqrt pnl = sortinoRatioFromPnlSeries sqrt pnl ∧
      sortinoRatioFromPnlSeriesParallelBy sqrt tree = sortinoRatioFromPnlSeries sqrt pnl ∧
      log.incremental.sortinoRatio sqrt = sortinoRatioFromPnlSeries sqrt pnl ∧
      stats.sortinoRatio = sortinoRatioFromPnlSeries sqrt pnl := by
  intro log stats
  subst htree
  have hlog : log.incremental.Summarises tree.items := hpushes ▸ summarises_record hmode pushes
  have hsimd := simdMoments_eq V tree.items
  have hparallel := parallelMoments_eq tree
  have hstreaming := hlog.moments
  have hhistory : log.pnlHistory.map Prod.snd = tree.items := by
    rw [← hpushes, ← List.nil_append (entriesOf pushes)]
    have hnew : (new mode).mode ≠ .none := hmode
    exact congrArg (List.map Prod.snd) (pnlHistory_foldl_push hnew pushes)
  obtain ⟨hsharpe, hsortino⟩ := ratiosParallel_eq sqrt tree
  have hsharpeBy : sharpeRatioFromPnlSeriesParallelBy sqrt tree =
      sharpeRatioFromPnlSeries sqrt tree.items :=
    congrArg (Moments.sharpe sqrt tree.items.length) hparallel
  have hsortinoBy : sortinoRatioFromPnlSeriesParallelBy sqrt tree =
      sortinoRatioFromPnlSeries sqrt tree.items := by
    have hmean : sortinoRatioFromPnlSeriesParallelBy sqrt tree =
        (parallelMoments tree).sortino sqrt tree.items.length := by
      rw [sortinoRatioFromPnlSeriesParallelBy, Moments.sortino, parallelMoments, parallelMean,
        parallelSums_eq, parallelSums_eq]
    exact hmean.trans (congrArg (Moments.sortino sqrt tree.items.length) hparallel)
  have hsharpeInc : log.incremental.sharpeRatio sqrt =
      sharpeRatioFromPnlSeries sqrt tree.items := by
    have hratio : log.incremental.sharpeRatio sqrt =
        log.incremental.moments.sharpe sqrt log.incremental.pnlCount := rfl
    rw [hratio, hlog.count, hstreaming]
    rfl
  have hsortinoInc : log.incremental.sortinoRatio sqrt =
      sortinoRatioFromPnlSeries sqrt tree.items := by
    have hratio : log.incremental.sortinoRatio sqrt =
        log.incremental.moments.sortino sqrt log.incremental.pnlCount := rfl
    rw [hratio, hlog.count, hstreaming]
    rfl
  have hlogmode : log.mode ≠ .none := by rwa [mode_record]
  refine ⟨hsimd, hparallel, hstreaming, ⟨?_, hsharpeBy, hsharpeInc, ?_⟩, ?_, hsortinoBy,
    hsortinoInc, ?_⟩
  · exact congrArg (Moments.sharpe sqrt tree.items.length) hsimd
  · simp only [stats, calculateStats, calculateStatsBy, if_neg hlogmode, hhistory]
    split_ifs
    · exact hsharpe.trans hsharpeBy
    · exact hsharpeInc
  · exact congrArg (Moments.sortino sqrt tree.items.length) hsimd
  · simp only [stats, calculateStats, calculateStatsBy, if_neg hlogmode, hhistory]
    split_ifs
    · exact hsortino.trans hsortinoBy
    · exact hsortinoInc

/-- Five entries : a chunk and a remainder, or two pieces of the reduction. -/
theorem moments_agree_sample :
    let pushes : List LogPush :=
      [.pnl 0 3 true, .pnl 1 (-1) false, .pnl 2 4 true, .pnl 3 (-1) true, .pnl 4 5 true]
    let tree : SplitTree ℤ := .node (.leaf [3, -1]) (.leaf [4, -1, 5])
    (entriesOf pushes).map Prod.snd = tree.items ∧
      scalarMoments tree.items = ⟨2, 8, 2 / 5⟩ ∧
      simdMoments (Fin 4 → ℚ) tree.items = scalarMoments tree.items ∧
      parallelMoments tree = scalarMoments tree.items ∧
      (record .all pushes).incremental.moments = scalarMoments tree.items := by
  intro pushes tree
  have hmode : TradeLogMode.all ≠ .none := by decide
  have htree : (entriesOf pushes).map Prod.snd = tree.items := by decide +kernel
  obtain ⟨hsimd, hparallel, hstreaming, -⟩ := moments_agree (Fin 4 → ℚ) id tree hmode rfl htree
  exact ⟨by decide +kernel, by decide +kernel, hsimd, hparallel, hstreaming⟩

end TradeLog

end Backtester
