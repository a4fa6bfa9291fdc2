import Backtester.Stats

/-!
# Drawdowns

The greatest drawdown is computed twice : while PnL entries are pushed, and from the equity curve
afterwards. Both walk through the same drawdowns, in the same order (`drawdowns`), and differ only
in what they remember of them. The streaming statistics clamp a drawdown to 100% before they compare
it, the batch only when it stores it. The percentages therefore agree, and the durations agree
unless a drawdown of more than 100% follows the first one of at least 100%
(`TradeLog.drawdown_agrees_iff`).
-/

namespace Backtester

/-! ## Drawdowns of a curve -/

/-- How far an entry lies below the peak before it, as part of the peak, and how long after it. -/
structure Drawdown where
  ratio : ℚ
  duration : ℤ
  deriving DecidableEq

/-- The drawdowns of the entries after a peak. A peak that is not positive has none. -/
def drawdowns (peakTs peakEq : ℤ) : List (ℤ × ℤ) → List Drawdown
  | [] => []
  | (ts, eq) :: points =>
    if peakEq < eq then drawdowns ts eq points
    else if peakEq ≤ 0 then drawdowns peakTs peakEq points
    else ⟨(subI64 peakEq eq : ℤ) / (peakEq : ℤ), satSubI64 ts peakTs⟩ :: drawdowns peakTs
      peakEq points

/-- The drawdowns of a curve, whose first entry is a peak. -/
def drawdownsOf : List (ℤ × ℤ) → List Drawdown
  | [] => []
  | (ts, eq) :: points => drawdowns ts eq points

/-- The curve from some equity on. -/
def curveFrom (equity : ℤ) : List (ℤ × ℤ) → List (ℤ × ℤ)
  | [] => []
  | (ts, pnl) :: entries => (ts, satAddI64 equity pnl) :: curveFrom (satAddI64 equity pnl) entries

theorem equityCurve_eq (entries : List (ℤ × ℤ)) :
    equityCurveFromPnlDeltas entries = curveFrom 0 entries := by
  have hfold : ∀ (equity : ℤ) (curve : List (ℤ × ℤ)),
      (entries.foldl (fun acc d => (satAddI64 acc.1 d.2, acc.2 ++ [(d.1, satAddI64 acc.1 d.2)]))
        (equity, curve)).2 = curve ++ curveFrom equity entries := by
    induction entries with
    | nil => exact fun equity curve => (List.append_nil curve).symm
    | cons d entries ih =>
      intro equity curve
      rw [List.foldl_cons, ih, List.append_assoc]
      rfl
  exact (hfold 0 []).trans (List.nil_append _)

/-! ## The two ways to remember them -/

/-- The batch clamps what it keeps. -/
def keepBatch (kept : ℚ × ℤ) (d : Drawdown) : ℚ × ℤ :=
  if kept.1 < d.ratio then (min d.ratio 1, d.duration) else kept

/-- The streaming statistics clamp, in percent, before they compare. -/
def keepStreaming (kept : ℚ × ℤ) (d : Drawdown) : ℚ × ℤ :=
  if kept.1 < min (d.ratio * 100) 100 then (min (d.ratio * 100) 100, d.duration) else kept

/-- One pass over the curve that remembers drawdowns by `keep`. -/
def DrawdownScan.stepWith (keep : ℚ × ℤ → Drawdown → ℚ × ℤ) (scan : DrawdownScan) (point : ℤ × ℤ) :
    DrawdownScan :=
  if scan.peakEq < point.2 then { scan with peakEq := point.2, peakTs := point.1 }
  else if scan.peakEq ≤ 0 then scan
  else
    let kept := keep (scan.maxDd, scan.maxDdDur)
      ⟨(subI64 scan.peakEq point.2 : ℤ) / (scan.peakEq : ℤ), satSubI64 point.1 scan.peakTs⟩
    { scan with maxDd := kept.1, maxDdDur := kept.2 }

/-- The drawdown and the duration that the scan remembers. -/
def DrawdownScan.kept (scan : DrawdownScan) : ℚ × ℤ := (scan.maxDd, scan.maxDdDur)

/-- What a pass remembers depends on the drawdowns only. -/
theorem kept_foldl_stepWith (keep : ℚ × ℤ → Drawdown → ℚ × ℤ) (points : List (ℤ × ℤ))
    (scan : DrawdownScan) : (points.foldl (DrawdownScan.stepWith keep) scan).kept =
      (drawdowns scan.peakTs scan.peakEq points).foldl keep scan.kept := by
  induction points generalizing scan with
  | nil => rfl
  | cons point points ih =>
    rw [List.foldl_cons, ih, drawdowns]
    unfold DrawdownScan.stepWith
    split_ifs <;> rfl

theorem step_eq_stepWith : DrawdownScan.step = DrawdownScan.stepWith keepBatch := by
  funext scan point
  unfold DrawdownScan.step DrawdownScan.stepWith keepBatch
  dsimp only
  split_ifs <;> rfl

theorem maxDrawdown_eq (curve : List (ℤ × ℤ)) :
    maxDrawdownPctAndDuration curve =
      (((drawdownsOf curve).foldl keepBatch (0, 0)).1 * 100,
        ((drawdownsOf curve).foldl keepBatch (0, 0)).2) := by
  cases curve with
  | nil => simp [maxDrawdownPctAndDuration, drawdownsOf]
  | cons point points =>
    have hkept := kept_foldl_stepWith keepBatch points { peakTs := point.1, peakEq := point.2 }
    unfold maxDrawdownPctAndDuration drawdownsOf
    rw [step_eq_stepWith]
    exact congrArg (fun kept : ℚ × ℤ => (kept.1 * 100, kept.2)) hkept

/-! ## Where they agree -/

/-- When no drawdown reaches 100%, both keep the same. -/
theorem foldl_keep_of_shallow {ds : List Drawdown} (hshallow : ∀ d ∈ ds, d.ratio < 1) {ratio : ℚ}
    (hratio : ratio < 1) (duration : ℤ) :
    (ds.foldl keepBatch (ratio, duration)).1 < 1 ∧
      ds.foldl keepStreaming (ratio * 100, duration) =
        ((ds.foldl keepBatch (ratio, duration)).1 * 100,
          (ds.foldl keepBatch (ratio, duration)).2) := by
  induction ds generalizing ratio duration with
  | nil => exact ⟨hratio, rfl⟩
  | cons d ds ih =>
    have hd := hshallow d List.mem_cons_self
    have hrest := fun d hd => hshallow d (List.mem_cons_of_mem _ hd)
    have hmin : min (d.ratio * 100) 100 = d.ratio * 100 := min_eq_left (by linarith)
    have hdeeper : ratio * 100 < d.ratio * 100 ↔ ratio < d.ratio :=
      mul_lt_mul_iff_of_pos_right (by norm_num)
    simp only [List.foldl_cons, keepBatch, keepStreaming, hmin, hdeeper, min_eq_left hd.le]
    split_ifs
    · exact ih hrest hd d.duration
    · exact ih hrest hratio duration

/-- Nothing is deeper than 100% for the streaming statistics. -/
theorem foldl_keepStreaming_of_full (ds : List Drawdown) (duration : ℤ) :
    ds.foldl keepStreaming (100, duration) = (100, duration) := by
  induction ds with
  | nil => rfl
  | cons d ds ih =>
    have hfull : keepStreaming (100, duration) d = (100, duration) :=
      if_neg (not_lt.2 (min_le_right _ _))
    rw [List.foldl_cons, hfull, ih]

/-- The last drawdown of more than 100%. -/
def lastBeyond (ds : List Drawdown) : Option Drawdown := ds.reverse.find? (1 < ·.ratio)

theorem lastBeyond_append (ds es : List Drawdown) :
    lastBeyond (ds ++ es) = (lastBeyond es).or (lastBeyond ds) := by
  rw [lastBeyond, List.reverse_append, List.find?_append]
  rfl

theorem lastBeyond_singleton (d : Drawdown) :
    lastBeyond [d] = if 1 < d.ratio then some d else none := by
  by_cases hbeyond : 1 < d.ratio <;> simp [lastBeyond, hbeyond]

theorem lastBeyond_of_shallow {ds : List Drawdown} (hshallow : ∀ d ∈ ds, d.ratio < 1) :
    lastBeyond ds = none := by
  refine List.find?_eq_none.2 fun d hd => ?_
  simpa using (hshallow d (List.mem_reverse.1 hd)).le

/-- The batch follows the last drawdown of more than 100%. -/
theorem foldl_keepBatch_of_full (ds : List Drawdown) (duration : ℤ) :
    ds.foldl keepBatch (1, duration) =
      (1, ((lastBeyond ds).map Drawdown.duration).getD duration) := by
  induction ds using List.reverseRecOn with
  | nil => rfl
  | append_singleton ds d ih =>
    rw [List.foldl_append, ih, List.foldl_cons, List.foldl_nil, lastBeyond_append,
      lastBeyond_singleton, keepBatch]
    split_ifs with hbeyond
    · rw [min_eq_right hbeyond.le]
      rfl
    · rfl

/-- The first drawdown of at least 100% is as long as the last one of more than 100%. -/
def SameDuration (ds : List Drawdown) : Prop :=
  ∀ d, ds.find? (1 ≤ ·.ratio) = some d → ∀ d', lastBeyond ds = some d' → d'.duration = d.duration

/-- The percentages agree, and the durations exactly if those two drawdowns are equally long. -/
theorem foldl_keep_iff (ds : List Drawdown) :
    (ds.foldl keepStreaming (0, 0)).1 = (ds.foldl keepBatch (0, 0)).1 * 100 ∧
      ((ds.foldl keepStreaming (0, 0)).2 = (ds.foldl keepBatch (0, 0)).2 ↔ SameDuration ds) := by
  cases hfirst : ds.find? (1 ≤ ·.ratio) with
  | none =>
    have hshallow : ∀ d ∈ ds, d.ratio < 1 := fun d hd => by
      simpa using List.find?_eq_none.1 hfirst d hd
    obtain ⟨-, hkeep⟩ := foldl_keep_of_shallow hshallow one_pos 0
    rw [zero_mul] at hkeep
    rw [hkeep]
    refine ⟨rfl, fun _ d hd => ?_, fun _ => rfl⟩
    rw [hfirst] at hd
    cases hd
  | some d =>
    obtain ⟨hdeep, before, after, rfl, hbefore⟩ := List.find?_eq_some_iff_append.1 hfirst
    have hshallow : ∀ d ∈ before, d.ratio < 1 := fun d hd => by simpa using hbefore d hd
    have hdeep' : 1 ≤ d.ratio := of_decide_eq_true hdeep
    obtain ⟨hlt, hkeep⟩ := foldl_keep_of_shallow hshallow one_pos 0
    rw [zero_mul] at hkeep
    have hstreaming : (before ++ d :: after).foldl keepStreaming (0, 0) = (100, d.duration) := by
      rw [List.foldl_append, hkeep, List.foldl_cons, keepStreaming, min_eq_right (by linarith),
        if_pos (by linarith), foldl_keepStreaming_of_full]
    have hbatch : (before ++ d :: after).foldl keepBatch (0, 0) =
        (1, ((lastBeyond after).map Drawdown.duration).getD d.duration) := by
      rw [List.foldl_append, List.foldl_cons, keepBatch, if_pos (by linarith), min_eq_right hdeep',
        foldl_keepBatch_of_full]
    rw [hstreaming, hbatch]
    refine ⟨by norm_num, ?_⟩
    unfold SameDuration
    rw [hfirst, List.append_cons, lastBeyond_append, lastBeyond_append,
      lastBeyond_of_shallow hshallow, lastBeyond_singleton]
    cases lastBeyond after with
    | none =>
      refine ⟨fun _ e he e' he' => ?_, fun _ => rfl⟩
      obtain rfl := Option.some.inj he
      split_ifs at he'
      · obtain rfl := Option.some.inj he'
        rfl
      · cases he'
    | some last =>
      refine ⟨fun heq e he e' he' => ?_, fun hsame => (hsame d rfl last rfl).symm⟩
      obtain rfl := Option.some.inj he
      obtain rfl := Option.some.inj he'
      exact heq.symm

/-! ## The streaming statistics -/

namespace IncrementalStats

variable (stats : IncrementalStats)

/-- The locals of a pass over the curve, as the statistics keep them. -/
def scan : DrawdownScan :=
  ⟨stats.peakTs, stats.peakEquity, stats.maxDrawdownPct, stats.maxDrawdownDuration⟩

/-- Fills do not touch the equity. -/
theorem onFill_equity (fill : TradeFill) : (stats.onFill fill).pnlCount = stats.pnlCount ∧
    (stats.onFill fill).equity = stats.equity ∧ (stats.onFill fill).scan = stats.scan := by
  unfold onFill
  dsimp only
  split_ifs <;> exact ⟨rfl, rfl, rfl⟩

/-- What `trackEquity` does once the entry is counted. -/
theorem scan_trackEquity (ts : ℤ) : (stats.trackEquity ts).scan =
    if stats.pnlCount = 1 then { stats.scan with peakEq := stats.equity, peakTs := ts }
    else stats.scan.stepWith keepStreaming (ts, stats.equity) := by
  unfold trackEquity DrawdownScan.stepWith
  by_cases hfirst : stats.pnlCount = 1
  · rw [if_pos (Or.inl hfirst), if_pos hfirst]
    rfl
  · rw [if_neg hfirst]
    by_cases hpeak : stats.peakEquity < stats.equity
    · rw [if_pos (Or.inr hpeak)]
      exact (if_pos hpeak).symm
    · rw [if_neg (not_or.2 ⟨hfirst, hpeak⟩)]
      refine Eq.trans ?_ (if_neg hpeak).symm
      by_cases hflat : stats.peakEquity ≤ 0
      · rw [if_pos hflat]
        exact (if_pos hflat).symm
      · rw [if_neg hflat]
        refine Eq.trans ?_ (if_neg hflat).symm
        let d : Drawdown := ⟨(subI64 stats.peakEquity stats.equity : ℤ) / (stats.peakEquity : ℤ),
          satSubI64 ts stats.peakTs⟩
        have hkept : ∀ kept, keepStreaming (stats.maxDrawdownPct, stats.maxDrawdownDuration) d =
          kept →
            ({ stats.scan with maxDd := kept.1, maxDdDur := kept.2 } : DrawdownScan) =
              { stats.scan with
                maxDd := (keepStreaming (stats.maxDrawdownPct, stats.maxDrawdownDuration) d).1
                maxDdDur :=
                  (keepStreaming (stats.maxDrawdownPct, stats.maxDrawdownDuration) d).2 } :=
          fun _ h => by rw [h]
        by_cases hdeeper : stats.maxDrawdownPct < min (d.ratio * 100) 100
        · rw [if_pos hdeeper]
          exact hkept (min (d.ratio * 100) 100, d.duration) (if_pos hdeeper)
        · rw [if_neg hdeeper]
          exact hkept (stats.maxDrawdownPct, stats.maxDrawdownDuration) (if_neg hdeeper)

theorem onPnl_equity (ts pnl : ℤ) (isTrade : Bool) :
    (stats.onPnl ts pnl isTrade).pnlCount = stats.pnlCount + 1 ∧
      (stats.onPnl ts pnl isTrade).equity = satAddI64 stats.equity pnl ∧
      (stats.onPnl ts pnl isTrade).scan =
        if stats.pnlCount = 0 then
          { stats.scan with peakEq := satAddI64 stats.equity pnl, peakTs := ts }
        else stats.scan.stepWith keepStreaming (ts, satAddI64 stats.equity pnl) := by
  have hkept : ∀ stats : IncrementalStats, (stats.trackEquity ts).pnlCount = stats.pnlCount ∧
      (stats.trackEquity ts).equity = stats.equity := by
    intro stats
    unfold trackEquity
    dsimp only
    split_ifs <;> exact ⟨rfl, rfl⟩
  unfold onPnl
  refine ⟨(hkept _).1.trans ?_, (hkept _).2.trans ?_, (scan_trackEquity _ ts).trans ?_⟩
  · dsimp only
    split_ifs <;> rfl
  · dsimp only
    split_ifs <;> rfl
  · have hcount : stats.pnlCount + 1 = 1 ↔ stats.pnlCount = 0 := by omega
    by_cases hgain : isTrade = true ∧ 0 < pnl
    · simp only [if_pos hgain, hcount]
      rfl
    · by_cases hloss : isTrade = true ∧ pnl < 0
      · simp only [if_neg hgain, if_pos hloss, hcount]
        rfl
      · simp only [if_neg hgain, if_neg hloss, hcount]
        rfl

end IncrementalStats

/-! ## Logs -/

/-- What is pushed to a log. -/
inductive LogPush where
  | fill (fill : TradeFill)
  | pnl (ts pnl : ℤ) (isTrade : Bool)
  deriving DecidableEq, Repr

/-- The PnL entries among the pushes. -/
def entriesOf (pushes : List LogPush) : List (ℤ × ℤ) :=
  pushes.filterMap fun
    | .fill _ => none
    | .pnl ts pnl _ => some (ts, pnl)

namespace TradeLog

/-- What a push does to a log. -/
def push (log : TradeLog) : LogPush → TradeLog
  | .fill f => log.pushFill f
  | .pnl ts pnl isTrade => log.pushPnl ts pnl isTrade

/-- A new log after the pushes. -/
def record (mode : TradeLogMode) (pushes : List LogPush) : TradeLog := pushes.foldl push (new mode)

@[simp] theorem mode_push (log : TradeLog) (p : LogPush) : (log.push p).mode = log.mode := by
  cases p <;> simp [push]

/-- A log that records anything counts every fill. -/
theorem incremental_pushFill {log : TradeLog} (hmode : log.mode ≠ .none) (fill : TradeFill) :
    (log.pushFill fill).incremental = log.incremental.onFill fill := by
  unfold pushFill
  split
  · rfl
  · rfl
  · rfl
  · next h => exact absurd h hmode

theorem incremental_pushPnl {log : TradeLog} (hmode : log.mode ≠ .none) (ts pnl : ℤ)
    (isTrade : Bool) :
    (log.pushPnl ts pnl isTrade).incremental = log.incremental.onPnl ts pnl isTrade := by
  rw [pushPnl, if_neg hmode]

theorem pnlHistory_foldl_push {log : TradeLog} (hmode : log.mode ≠ .none) (pushes : List LogPush) :
    (pushes.foldl push log).pnlHistory = log.pnlHistory ++ entriesOf pushes := by
  induction pushes generalizing log with
  | nil => exact (List.append_nil _).symm
  | cons p pushes ih =>
    rw [List.foldl_cons, ih (by rwa [mode_push])]
    cases p with
    | fill f => exact congrArg (· ++ entriesOf pushes) (pnlHistory_pushFill log f)
    | pnl ts pnl isTrade =>
      rw [push, pnlHistory_pushPnl hmode, List.append_assoc]
      rfl

/-- Once there is a peak, pushing passes over the curve of what is pushed. -/
theorem scan_foldl_push {log : TradeLog} (hmode : log.mode ≠ .none)
    (hcount : log.incremental.pnlCount ≠ 0) (pushes : List LogPush) :
    (pushes.foldl push log).incremental.scan =
      (curveFrom log.incremental.equity (entriesOf pushes)).foldl
        (DrawdownScan.stepWith keepStreaming)
        log.incremental.scan := by
  induction pushes generalizing log with
  | nil => rfl
  | cons p pushes ih =>
    rw [List.foldl_cons]
    cases p with
    | fill f =>
      obtain ⟨hcount', hequity, hscan⟩ := log.incremental.onFill_equity f
      rw [← incremental_pushFill hmode] at hcount' hequity hscan
      rw [push, ih (by rwa [mode_pushFill]) (by rwa [hcount']), hequity, hscan]
      rfl
    | pnl ts pnl isTrade =>
      obtain ⟨hcount', hequity, hscan⟩ := log.incremental.onPnl_equity ts pnl isTrade
      rw [← incremental_pushPnl hmode] at hcount' hequity hscan
      rw [push, ih (by rwa [mode_pushPnl]) (by omega), hequity, hscan, if_neg hcount]
      rfl

/-- The first entry is the first peak. -/
theorem kept_foldl_push {log : TradeLog} (hmode : log.mode ≠ .none)
    (hcount : log.incremental.pnlCount = 0) (hequity : log.incremental.equity = 0)
    (hkept : log.incremental.scan.kept = (0, 0)) (pushes : List LogPush) :
    (pushes.foldl push log).incremental.scan.kept =
      (drawdownsOf (curveFrom 0 (entriesOf pushes))).foldl keepStreaming (0, 0) := by
  induction pushes generalizing log with
  | nil => exact hkept
  | cons p pushes ih =>
    rw [List.foldl_cons]
    cases p with
    | fill f =>
      obtain ⟨hcount', hequity', hscan⟩ := log.incremental.onFill_equity f
      rw [← incremental_pushFill hmode] at hcount' hequity' hscan
      exact ih (by rwa [push, mode_pushFill]) (hcount'.trans hcount) (hequity'.trans hequity)
        (hscan ▸ hkept)
    | pnl ts pnl isTrade =>
      obtain ⟨hcount', hequity', hscan⟩ := log.incremental.onPnl_equity ts pnl isTrade
      rw [← incremental_pushPnl hmode] at hcount' hequity' hscan
      rw [if_pos hcount] at hscan
      rw [push, scan_foldl_push (by rwa [mode_pushPnl]) (by omega), kept_foldl_stepWith, hequity',
        hscan, hequity]
      exact congrArg (List.foldl keepStreaming · (drawdownsOf (curveFrom 0 (entriesOf
        (.pnl ts pnl isTrade :: pushes))))) hkept

/-- A log without retention stays empty. -/
theorem foldl_push_none {log : TradeLog} (hmode : log.mode = .none) (pushes : List LogPush) :
    pushes.foldl push log = log := by
  induction pushes with
  | nil => rfl
  | cons p pushes ih =>
    have hp : log.push p = log := by
      cases p with
      | fill f => simp only [push, pushFill, hmode]
      | pnl ts pnl isTrade => exact if_pos hmode
    rw [List.foldl_cons, hp, ih]

/-- The streaming drawdown is the batch drawdown of the entries that the log records, except that
the durations may differ after two drawdowns of 100% and more. -/
theorem drawdown_agrees_iff (mode : TradeLogMode) (pushes : List LogPush) :
    let log := record mode pushes
    let curve := equityCurveFromPnlDeltas log.pnlHistory
    (mode ≠ .none → log.pnlHistory = entriesOf pushes) ∧
      log.incremental.maxDrawdownPct = (maxDrawdownPctAndDuration curve).1 ∧
      ((log.incremental.maxDrawdownPct, log.incremental.maxDrawdownDuration) =
        maxDrawdownPctAndDuration curve ↔ SameDuration (drawdownsOf curve)) := by
  intro log curve
  have hhistory : mode ≠ .none → log.pnlHistory = entriesOf pushes :=
    fun hmode => pnlHistory_foldl_push hmode pushes
  have hkept : (log.incremental.maxDrawdownPct, log.incremental.maxDrawdownDuration) =
      (drawdownsOf curve).foldl keepStreaming (0, 0) := by
    by_cases hmode : mode = .none
    · have hnew : log = new mode := foldl_push_none hmode pushes
      simp only [curve, hnew]
      rfl
    · have hcurve : curve = curveFrom 0 (entriesOf pushes) := by
        rw [← equityCurve_eq, ← hhistory hmode]
      have hfold : (pushes.foldl push (new mode)).incremental.scan.kept =
          (drawdownsOf (curveFrom 0 (entriesOf pushes))).foldl keepStreaming (0, 0) :=
        kept_foldl_push hmode rfl rfl rfl pushes
      rwa [hcurve]
  obtain ⟨hpct, hduration⟩ := foldl_keep_iff (drawdownsOf curve)
  rw [← hkept] at hpct hduration
  rw [maxDrawdown_eq]
  refine ⟨hhistory, hpct, ?_⟩
  rw [Prod.ext_iff, and_iff_right hpct]
  exact hduration

/-- Two drawdowns beyond 100% : the statistics keep the first, the batch the second. -/
theorem drawdown_disagrees :
    let pushes : List LogPush := [.pnl 0 100 true, .pnl 1 (-150) true, .pnl 2 (-50) true]
    let log := record .all pushes
    log.incremental.maxDrawdownDuration = 1 ∧
      maxDrawdownPctAndDuration (equityCurveFromPnlDeltas (entriesOf pushes)) = (100, 2) := by
  decide +kernel

end TradeLog

end Backtester
