import Backtester.Turns

/-!
# The batch tuner

`BatchTuner` adapts the batch length to the measured latency : every tenth batch it adds a tenth, or
at least `100_000`, when the last batch was fast, and takes a fifth away when it was slow. What it
measures is wall-clock time and `f64` arithmetic, so the comparison of the latency with its target
(`isFast`) and the product with `0.8` (`shrink`) are parameters.

Whatever is measured, the length stays between the bounds (`BatchTuner.Within.after`). A machine
that stays fast drives it to the maximum, and one that stays slow to the minimum
(`current_after_fast`, `current_after_slow`). The bounds hold of the engine's own batch length in
every run (`Core.BatchWithin.turn`) : nothing but `tune` touches it.
-/

open Run MachineInt

set_option linter.unusedSectionVars false

namespace Backtester

/-- A tuner of the batch duration, between two bounds. -/
structure BatchTuner where
  minBatchNs : ℤ
  maxBatchNsLimit : ℤ
  currentBatchNs : ℤ
  sampleCount : ℕ
  /-- `new` orders the bounds. -/
  ordered : minBatchNs ≤ maxBatchNsLimit
  deriving DecidableEq, Repr

namespace BatchTuner

/-- `v.clamp(lo, hi)`. -/
def clampTo (lo hi v : ℤ) : ℤ := max lo (min v hi)

/-- `BatchTuner::new`. -/
def new (minBatchNs maxBatchNsLimit initialBatchNs : ℤ) : BatchTuner where
  minBatchNs := min minBatchNs maxBatchNsLimit
  maxBatchNsLimit := max minBatchNs maxBatchNsLimit
  currentBatchNs := clampTo (min minBatchNs maxBatchNsLimit) (max minBatchNs maxBatchNsLimit)
    initialBatchNs
  sampleCount := 0
  ordered := min_le_max

variable (isFast : ℤ → ℕ → Bool) (shrink : ℤ → ℤ)

/-- The additive increase : 10%, or at least 100us. -/
def increased (t : BatchTuner) : BatchTuner :=
  let increase := max (t.currentBatchNs.tdiv 10) 100000
  { t with currentBatchNs := min (addI64 t.currentBatchNs increase) t.maxBatchNsLimit }

/-- The multiplicative decrease. -/
def decreased (t : BatchTuner) : BatchTuner :=
  { t with currentBatchNs := clampTo t.minBatchNs t.maxBatchNsLimit (shrink t.currentBatchNs) }

/-- One more batch was seen. -/
def counted (t : BatchTuner) : BatchTuner := { t with sampleCount := t.sampleCount + 1 }

/-- A batch is counted, and every tenth one adjusts the duration. -/
def recordBatch (t : BatchTuner) (batchDurationNs : ℤ) (numTicks : ℕ) : BatchTuner :=
  if numTicks = 0 then t
  -- adjust every 10 batches
  else if t.counted.sampleCount % 10 ≠ 0 then t.counted
  else if isFast batchDurationNs numTicks then t.counted.increased
  else t.counted.decreased shrink

/-- The tuner after a list of batches. -/
def after (t : BatchTuner) (batches : List (ℤ × ℕ)) : BatchTuner :=
  batches.foldl (fun t b => t.recordBatch isFast shrink b.1 b.2) t

/-- What the tuner of a run answers, when the `n`-th recorded batch is `batch n`. -/
def answers (t : BatchTuner) (batch : ℕ → ℤ × ℕ) (n : ℕ) : ℤ :=
  (t.after isFast shrink ((List.range n).map batch)).currentBatchNs

/-- The bounds of the tuner are `lo` and `hi`, and its length is between them. -/
structure Within (lo hi : ℤ) (t : BatchTuner) : Prop where
  minBatchNs : t.minBatchNs = lo
  maxBatchNsLimit : t.maxBatchNsLimit = hi
  lower : lo ≤ t.currentBatchNs
  upper : t.currentBatchNs ≤ hi

section Bounds

variable {lo hi : ℤ} {t : BatchTuner}

/-- The bounds are in order. -/
theorem Within.le (h : Within lo hi t) : lo ≤ hi := h.lower.trans h.upper

/-- A new tuner starts between its bounds. -/
theorem within_new (lo hi initial : ℤ) : Within (min lo hi) (max lo hi) (new lo hi initial) :=
  ⟨rfl, rfl, le_max_left _ _, max_le min_le_max (min_le_right _ _)⟩

/-- Counting a batch changes no duration. -/
theorem Within.counted (h : Within lo hi t) : Within lo hi t.counted :=
  ⟨h.minBatchNs, h.maxBatchNsLimit, h.lower, h.upper⟩

/-- A shorter batch is no shorter than the lower bound. -/
theorem Within.decreased (h : Within lo hi t) : Within lo hi (t.decreased shrink) := by
  refine ⟨h.minBatchNs, h.maxBatchNsLimit, ?_, ?_⟩
  · rw [← h.minBatchNs]
    exact le_max_left _ _
  · rw [← h.maxBatchNsLimit]
    exact max_le t.ordered (min_le_right _ _)

/-- An increase that fits in an `i64`. -/
theorem Within.current_increased (h : Within lo hi t) (pos : 0 ≤ lo)
    (room : hi + max (hi / 10) 100000 ≤ i64Max) : t.increased.currentBatchNs =
      min (t.currentBatchNs + max (t.currentBatchNs / 10) 100000) hi := by
  have hnonneg : 0 ≤ t.currentBatchNs := pos.trans h.lower
  have hdiv : t.currentBatchNs.tdiv 10 = t.currentBatchNs / 10 :=
    Int.tdiv_eq_ediv_of_nonneg hnonneg
  have hmono : t.currentBatchNs / 10 ≤ hi / 10 := Int.ediv_le_ediv (by norm_num) h.upper
  have hin : InRange 64 (t.currentBatchNs + max (t.currentBatchNs / 10) 100000) := by
    have hupper := h.upper
    unfold InRange
    unfold i64Max at room
    omega
  have hadd : addI64 t.currentBatchNs (max (t.currentBatchNs / 10) 100000) =
      t.currentBatchNs + max (t.currentBatchNs / 10) 100000 := wrap_eq_self (by norm_num) hin
  simp only [increased, hdiv, hadd, h.maxBatchNsLimit]

/-- A longer batch is no longer than the upper bound, where the sum does not wrap. -/
theorem Within.increased (h : Within lo hi t) (pos : 0 ≤ lo)
    (room : hi + max (hi / 10) 100000 ≤ i64Max) : Within lo hi t.increased := by
  have hcurrent := h.current_increased pos room
  have hlower := h.lower
  have hle := h.le
  refine ⟨h.minBatchNs, h.maxBatchNsLimit, ?_, ?_⟩
  · rw [hcurrent]
    omega
  · rw [hcurrent]
    exact min_le_right _ _

/-- A recorded batch keeps the length between the bounds. -/
theorem Within.recordBatch (h : Within lo hi t) (pos : 0 ≤ lo)
    (room : hi + max (hi / 10) 100000 ≤ i64Max) (batchDurationNs : ℤ) (numTicks : ℕ) :
    Within lo hi (t.recordBatch isFast shrink batchDurationNs numTicks) := by
  unfold BatchTuner.recordBatch
  split_ifs
  · exact h
  · exact h.counted
  · exact h.counted.increased pos room
  · exact h.counted.decreased shrink

/-- Whatever is measured, the length stays between the bounds. -/
theorem Within.after (h : Within lo hi t) (pos : 0 ≤ lo)
    (room : hi + max (hi / 10) 100000 ≤ i64Max) (batches : List (ℤ × ℕ)) :
    Within lo hi (t.after isFast shrink batches) := by
  refine List.foldlRecOn batches (fun t b => t.recordBatch isFast shrink b.1 b.2)
    (motive := Within lo hi) h ?_
  intro t h b _
  exact h.recordBatch isFast shrink pos room b.1 b.2

end Bounds

/-! ### Where the length goes -/

section Limit

variable {lo hi : ℤ} {t : BatchTuner} {b : ℤ × ℕ}

/-- One more batch. -/
theorem after_snoc (t : BatchTuner) (batches : List (ℤ × ℕ)) (b : ℤ × ℕ) :
    t.after isFast shrink (batches ++ [b]) =
      (t.after isFast shrink batches).recordBatch isFast shrink b.1 b.2 := by
  simp [after]

/-- A batch with ticks is counted. -/
theorem sampleCount_recordBatch (hticks : b.2 ≠ 0) :
    (t.recordBatch isFast shrink b.1 b.2).sampleCount = t.sampleCount + 1 := by
  rw [recordBatch, if_neg hticks]
  split_ifs <;> rfl

/-- How often the length is adjusted while `n` batches are recorded after the first `k`. -/
def adjustments (k n : ℕ) : ℕ := (k + n) / 10 - k / 10

/-- Every batch that is not empty counts. -/
theorem sampleCount_after (t : BatchTuner) {batches : List (ℤ × ℕ)}
    (hticks : ∀ b ∈ batches, b.2 ≠ 0) :
    (t.after isFast shrink batches).sampleCount = t.sampleCount + batches.length := by
  induction batches using List.reverseRecOn with
  | nil => rfl
  | append_singleton batches b ih =>
    rw [after_snoc, sampleCount_recordBatch isFast shrink (hticks b (by simp)),
      ih fun b hb => hticks b (by simp [hb]), List.length_append]
    rfl

/-- A batch that is not empty adjusts the length when it is the tenth, and only then. -/
theorem recordBatch_cases (hticks : b.2 ≠ 0) (k : ℕ) (hk : k ≤ t.sampleCount) :
    ((t.recordBatch isFast shrink b.1 b.2).currentBatchNs = t.currentBatchNs ∧
      adjustments k (t.sampleCount + 1 - k) = adjustments k (t.sampleCount - k)) ∨
    (t.recordBatch isFast shrink b.1 b.2 =
        (if isFast b.1 b.2 then t.counted.increased else t.counted.decreased shrink) ∧
      adjustments k (t.sampleCount + 1 - k) = adjustments k (t.sampleCount - k) + 1) := by
  have hcount : t.counted.sampleCount = t.sampleCount + 1 := rfl
  unfold recordBatch adjustments
  rw [if_neg hticks, hcount]
  by_cases htenth : (t.sampleCount + 1) % 10 = 0
  · refine .inr ⟨by rw [if_neg (not_not.2 htenth)], ?_⟩
    omega
  · refine .inl ⟨by rw [if_pos htenth]; rfl, ?_⟩
    omega

/-- While every batch is fast, each adjustment adds at least `100_000`, up to the maximum. -/
theorem le_current_after_fast (h : Within lo hi t) (pos : 0 ≤ lo)
    (room : hi + max (hi / 10) 100000 ≤ i64Max) {batches : List (ℤ × ℕ)}
    (hticks : ∀ b ∈ batches, b.2 ≠ 0) (fast : ∀ b ∈ batches, isFast b.1 b.2 = true) :
    min hi (t.currentBatchNs + 100000 * adjustments t.sampleCount batches.length) ≤
      (t.after isFast shrink batches).currentBatchNs := by
  induction batches using List.reverseRecOn with
  | nil =>
    have hupper := h.upper
    simp [after, adjustments]
  | append_singleton batches b ih =>
    have hticks' : ∀ b ∈ batches, b.2 ≠ 0 := fun b hb => hticks b (by simp [hb])
    have hle := ih hticks' fun b hb => fast b (by simp [hb])
    have hcount := sampleCount_after isFast shrink t hticks'
    have hwithin := h.after isFast shrink pos room batches
    rw [after_snoc, List.length_append, List.length_singleton]
    generalize t.after isFast shrink batches = t' at hle hcount hwithin
    have hcases := recordBatch_cases isFast shrink (t := t')
      (hticks b (by simp)) t.sampleCount (by omega)
    rw [show t'.sampleCount + 1 - t.sampleCount = batches.length + 1 by omega,
      show t'.sampleCount - t.sampleCount = batches.length by omega] at hcases
    rcases hcases with ⟨hsame, hadj⟩ | ⟨hrecord, hadj⟩
    · rw [hsame, hadj]
      exact hle
    · rw [hrecord, if_pos (fast b (by simp)), hwithin.counted.current_increased pos room, hadj]
      change _ ≤ min (t'.currentBatchNs + max (t'.currentBatchNs / 10) 100000) hi
      push_cast
      omega

/-- While no batch is fast, each adjustment takes at least 1 away, down to the minimum. -/
theorem current_after_slow_le (h : Within lo hi t) (pos : 0 < lo)
    (room : hi + max (hi / 10) 100000 ≤ i64Max) (hshrink : ∀ x, 0 < x → shrink x < x)
    {batches : List (ℤ × ℕ)} (hticks : ∀ b ∈ batches, b.2 ≠ 0)
    (slow : ∀ b ∈ batches, isFast b.1 b.2 = false) :
    (t.after isFast shrink batches).currentBatchNs ≤
      max lo (t.currentBatchNs - adjustments t.sampleCount batches.length) := by
  induction batches using List.reverseRecOn with
  | nil => simp [after, adjustments]
  | append_singleton batches b ih =>
    have hticks' : ∀ b ∈ batches, b.2 ≠ 0 := fun b hb => hticks b (by simp [hb])
    have hle := ih hticks' fun b hb => slow b (by simp [hb])
    have hcount := sampleCount_after isFast shrink t hticks'
    have hwithin := h.after isFast shrink pos.le room batches
    rw [after_snoc, List.length_append, List.length_singleton]
    generalize t.after isFast shrink batches = t' at hle hcount hwithin
    have hcases := recordBatch_cases isFast shrink (t := t')
      (hticks b (by simp)) t.sampleCount (by omega)
    rw [show t'.sampleCount + 1 - t.sampleCount = batches.length + 1 by omega,
      show t'.sampleCount - t.sampleCount = batches.length by omega] at hcases
    rcases hcases with ⟨hsame, hadj⟩ | ⟨hrecord, hadj⟩
    · rw [hsame, hadj]
      exact hle
    · rw [hrecord, slow b (by simp), hadj]
      change clampTo t'.minBatchNs t'.maxBatchNsLimit (shrink t'.currentBatchNs) ≤ _
      have hlt := hshrink t'.currentBatchNs (pos.trans_le hwithin.lower)
      have hmin := hwithin.minBatchNs
      unfold clampTo
      push_cast
      omega

/-- The length stays between the bounds, whatever the batches take. A machine on which every batch
is fast drives it to the maximum, and one on which every batch is slow to the minimum. -/
theorem stays_and_settles (h : Within lo hi t) (pos : 0 < lo)
    (room : hi + max (hi / 10) 100000 ≤ i64Max) (hshrink : ∀ x, 0 < x → shrink x < x)
    (batches : List (ℤ × ℕ)) :
    (lo ≤ (t.after isFast shrink batches).currentBatchNs ∧
      (t.after isFast shrink batches).currentBatchNs ≤ hi) ∧
    ((∀ b ∈ batches, b.2 ≠ 0 ∧ isFast b.1 b.2 = true) →
      hi - t.currentBatchNs ≤ 100000 * adjustments t.sampleCount batches.length →
      (t.after isFast shrink batches).currentBatchNs = hi) ∧
    ((∀ b ∈ batches, b.2 ≠ 0 ∧ isFast b.1 b.2 = false) →
      t.currentBatchNs - lo ≤ adjustments t.sampleCount batches.length →
      (t.after isFast shrink batches).currentBatchNs = lo) := by
  obtain ⟨-, -, hlower, hupper⟩ := h.after isFast shrink pos.le room batches
  refine ⟨⟨hlower, hupper⟩, fun fast enough => ?_, fun slow enough => ?_⟩
  · have hle := le_current_after_fast isFast shrink h pos.le room (fun b hb => (fast b hb).1)
      fun b hb => (fast b hb).2
    omega
  · have hle := current_after_slow_le isFast shrink h pos room hshrink (fun b hb => (slow b hb).1)
      fun b hb => (slow b hb).2
    omega

end Limit

/-- Ten fast batches add `100_000` to a length of `1_000`, and then ten slow ones take a fifth
away. -/
theorem stays_and_settles_sample :
    let isFast : ℤ → ℕ → Bool := fun durationNs numTicks => durationNs < 100 * numTicks
    let t := BatchTuner.new 1000 10000000 1000
    let fast := List.replicate 10 ((5000, 100) : ℤ × ℕ)
    (t.after isFast (fun x => x * 4 / 5) fast).currentBatchNs = 101000 ∧
      1000 ≤ (t.after isFast (fun x => x * 4 / 5) fast).currentBatchNs ∧
      (t.after isFast (fun x => x * 4 / 5) fast).currentBatchNs ≤ 10000000 := by
  intro isFast t fast
  have hwithin : Within 1000 10000000 t := within_new 1000 10000000 1000
  have hsettles := stays_and_settles isFast (fun x => x * 4 / 5) hwithin
    (by decide) (by decide) (fun x hx => by omega) fast
  exact ⟨by decide +kernel, hsettles.1⟩

end BatchTuner

/-! ## The tuner of the engine -/

/-- The tuner that `Engine::new` makes. -/
def EngineConfig.batchTuner (config : EngineConfig) : BatchTuner :=
  .new 100000 (if 0 < config.maxBatchNs then config.maxBatchNs else 1000000000) config.maxBatchNs

namespace Core

variable {Q S L R : Type} [QueueModel Q] {c : Core Q S L R} {m : ℤ}

/-- The batch length is positive and at most `m`, and stays so while the tuner answers. -/
structure BatchWithin (m : ℤ) (c : Core Q S L R) : Prop where
  pos : 0 < c.config.maxBatchNs
  le : c.config.maxBatchNs ≤ m
  answers : c.config.autoTune = true → ∀ n, 0 < c.currentBatchNs n ∧ c.currentBatchNs n ≤ m

/-- What `tune` reads and writes. -/
def tuning (c : Core Q S L R) : EngineConfig × (ℕ → ℤ) := (c.config, c.currentBatchNs)

/-- Only the tuner and the duration in use count. -/
theorem BatchWithin.congr {c' : Core Q S L R} (h : c.BatchWithin m)
    (htuning : c'.tuning = c.tuning) :
    c'.BatchWithin m := by
  obtain ⟨hconfig, hanswers⟩ := Prod.mk.inj htuning
  exact ⟨hconfig ▸ h.pos, hconfig ▸ h.le, by rw [hconfig, hanswers]; exact h.answers⟩

/-- The engine that tunes has its batch length between 100us, or less, and the configured length, or
100us. -/
theorem batchWithin_of_batchTuner (isFast : ℤ → ℕ → Bool) (shrink : ℤ → ℤ) (batch : ℕ → ℤ × ℕ)
    (pos : 0 < c.config.maxBatchNs)
    (room : max 100000 c.config.maxBatchNs + max (max 100000 c.config.maxBatchNs / 10) 100000 ≤
      i64Max)
    (hanswers : c.currentBatchNs = c.config.batchTuner.answers isFast shrink batch) :
    c.BatchWithin (max 100000 c.config.maxBatchNs) := by
  refine ⟨pos, le_max_right _ _, fun _ n => ?_⟩
  have hnew : BatchTuner.Within (min 100000 c.config.maxBatchNs) (max 100000 c.config.maxBatchNs)
      c.config.batchTuner := by
    unfold EngineConfig.batchTuner
    rw [if_pos pos]
    exact BatchTuner.within_new _ _ _
  have hpos : 0 < min 100000 c.config.maxBatchNs := lt_min (by norm_num) pos
  obtain ⟨-, -, hlower, hupper⟩ := hnew.after isFast shrink hpos.le room
    ((List.range n).map batch)
  rw [hanswers]
  exact ⟨hpos.trans_le hlower, hupper⟩

/-- Without the tuner the batch length is the configured one. -/
theorem batchWithin_of_not_autoTune (pos : 0 < c.config.maxBatchNs)
    (hoff : c.config.autoTune = false) :
    c.BatchWithin c.config.maxBatchNs :=
  ⟨pos, le_rfl, fun hon => by rw [hoff] at hon; cases hon⟩

/-- Tuning keeps the duration between the bounds. -/
theorem BatchWithin.tune (h : c.BatchWithin m) : c.tune.BatchWithin m := by
  unfold Core.tune
  split_ifs with htune
  · obtain ⟨hpos, hle⟩ := h.answers htune.2 (c.recordedBatches + 1)
    exact ⟨hpos, hle, h.answers⟩
  · exact h

/-! ### Nothing else touches the batch length -/

section Frame

variable (c : Core Q S L R)

@[simp] theorem tuning_cleared : c.cleared.tuning = c.tuning := rfl
@[simp] theorem tuning_atTime (ts : ℤ) : (c.atTime ts).tuning = c.tuning := rfl
@[simp] theorem tuning_emit (effect : Effect) : (c.emit effect).tuning = c.tuning := rfl
@[simp] theorem tuning_pushEvent (ts : ℤ) (kind : EventKind) :
    (c.pushEvent ts kind).tuning = c.tuning := rfl
@[simp] theorem tuning_putExchange (s : ℕ) (ex : ExchangeSimulator Q) :
    (c.putExchange s ex).tuning = c.tuning := rfl
@[simp] theorem tuning_exchangeMut (s : ℕ) : (c.exchangeMut s).tuning = c.tuning := rfl
@[simp] theorem tuning_logFill (fill : TradeFill) : (c.logFill fill).tuning = c.tuning := rfl
@[simp] theorem tuning_settle (ts : ℤ) (order : Order) (fill : TradeFill) :
    (c.settle ts order fill).tuning = c.tuning := rfl

@[simp] theorem tuning_pushAfter (ts delay : ℤ) (kind : EventKind) :
    (c.pushAfter ts delay kind).tuning = c.tuning := by
  rw [pushAfter_eq]
  rfl

@[simp] theorem tuning_pushAfterSat (ts delay : ℤ) (kind : EventKind) :
    (c.pushAfterSat ts delay kind).tuning = c.tuning := by
  rw [pushAfterSat_eq]
  rfl

/-- A fold keeps what each of its steps keeps. -/
theorem tuning_foldl {α : Type} {f : Core Q S L R → α → Core Q S L R} (l : List α)
    (hf : ∀ c a, (f c a).tuning = c.tuning) : (l.foldl f c).tuning = c.tuning :=
  List.foldlRecOn l f (motive := fun c' => c'.tuning = c.tuning) rfl
    fun c' h a _ => (hf c' a).trans h

@[simp] theorem tuning_handleCommands (commands : List Command) (ts : ℤ) :
    (c.handleCommands commands ts).tuning = c.tuning := by
  refine tuning_foldl c commands fun c command => ?_
  cases command with
  | submitOrder order =>
    simp only [handleCommand, screenOrder]
    split
    · rw [tuning_pushAfterSat]
      rfl
    · rfl
  | cancelOrder orderId => rfl

@[simp] theorem tuning_forget (report : OrderReport) : (c.forget report).tuning = c.tuning := by
  unfold forget
  split_ifs
  · split <;> rfl
  · rfl

@[simp] theorem tuning_applyFunding (event : FundingEvent) :
    (c.applyFunding event).tuning = c.tuning := by
  simp only [applyFunding]
  split <;> rfl

@[simp] theorem tuning_bookTrade (tick : Tick) (ex : ExchangeSimulator Q)
    (reports : List OrderReport) :
    (c.bookTrade tick ex reports).tuning = c.tuning := by
  simp only [bookTrade]
  rw [tuning_foldl _ _ fun c r => by simp, tuning_foldl _ _ fun c f => by simp,
    tuning_foldl _ _ fun c f => by simp]

@[simp] theorem tuning_bookTakerFill (maybeOrder : Option Order) (report : OrderReport) :
    (c.bookTakerFill maybeOrder report).tuning = c.tuning := by
  unfold bookTakerFill
  split
  · split_ifs <;> rfl
  · rfl

@[simp] theorem tuning_cancelRest (orderId symbolId : ℕ) :
    (c.cancelRest orderId symbolId).tuning = c.tuning := by
  unfold cancelRest
  split <;> simp

@[simp] theorem tuning_fillMarket (orderId symbolId : ℕ) :
    (c.fillMarket orderId symbolId).tuning = c.tuning := by
  simp only [fillMarket, reportMarket]
  split
  · rfl
  · split_ifs <;> simp

variable [Strategy S]

@[simp] theorem tuning_wake (call : Call) (ts : ℤ) (wakeup : Bool) :
    (c.wake call ts wakeup).1.tuning = c.tuning := by
  rcases wake_spec c call ts wakeup with ⟨err, h⟩ | ⟨strategy, commands, h⟩
  · rw [h]
    rfl
  · rw [h, tuning_handleCommands]
    rfl

/-- No handler but a flush touches the tuner. -/
theorem tuning_handle [LatencyModel L R] (kind : EventKind) :
    (c.handle kind).1.tuning = c.tuning := by
  cases kind with
  | tick tick =>
    simp only [handle, onTickEvent, tuning_bookTrade]
    rfl
  | tickDelivery tick =>
    simp only [handle, onTickDelivery]
    split
    · rw [tuning_wake]
      rfl
    · split_ifs
      · simp only [armTimer, tuning_pushAfter]
        rfl
      · rfl
  | l2Update update =>
    simp only [handle, onL2Update]
    split_ifs <;> rfl
  | l3Update update =>
    simp only [handle, onL3Update]
    split_ifs
    · rfl
    · split <;> rfl
  | order order =>
    simp only [handle, onOrder, tuning_pushAfterSat]
    rfl
  | orderAck orderId =>
    simp only [handle, onOrderAck]
    split
    · rfl
    · split
      · rw [tuning_fillMarket]
        rfl
      · split
        · rfl
        · rw [tuning_pushAfterSat]
          rfl
  | orderCancel orderId =>
    simp only [handle, onOrderCancel]
    split
    · rfl
    · split
      · rfl
      · rw [tuning_pushAfterSat]
        rfl
  | orderCancelAck orderId =>
    simp only [handle, onOrderCancelAck]
    split
    · rfl
    · split
      · rfl
      · rw [tuning_pushAfter]
        rfl
  | orderReport report =>
    simp only [handle, onOrderReport]
    split
    · rw [tuning_wake, tuning_forget]
    · exact tuning_forget c report
  | funding event => simp only [handle, onFunding, tuning_wake, tuning_applyFunding]
  | timer timerId =>
    simp only [handle, onTimer]
    split_ifs <;> rfl

end Frame

/-- A handler leaves the duration as it is. -/
theorem BatchWithin.handle [Strategy S] [LatencyModel L R] (h : c.BatchWithin m)
    (kind : EventKind) :
    (c.handle kind).1.BatchWithin m :=
  h.congr (tuning_handle c kind)

/-- A flush may tune. -/
theorem BatchWithin.flushStrategy [Strategy S] (h : c.BatchWithin m) (ts : ℤ) :
    (c.flushStrategy ts).1.BatchWithin m := by
  rcases flushStrategy_spec c ts with
    ⟨-, -, heq⟩ | ⟨strategy, calls, tickBuffer, err, -, heq⟩ | ⟨strategy, commands, heq⟩
  · rw [heq]
    exact h
  · rw [heq]
    exact h.congr rfl
  · rw [heq]
    refine (h.congr ?_).tune
    rw [tuning_handleCommands]
    rfl

end Core

namespace Engine

variable {T U Q S L R : Type} [QueueModel Q] [TickSource T] [L3Source U] [Strategy S]
  [LatencyModel L R] {e : Engine T U Q S L R} {m : ℤ}

/-- A flush tunes within the bounds. -/
theorem batchWithin_flush (h : e.core.BatchWithin m) : e.flush.1.core.BatchWithin m := by
  change (e.absorb _).core.BatchWithin m
  rw [core_absorb]
  have hcleared : e.core.cleared.BatchWithin m := h.congr rfl
  exact (hcleared.flushStrategy e.core.nowTsSim).congr rfl

/-- An event with its flush tunes within the bounds. -/
theorem batchWithin_dispatch (h : e.core.BatchWithin m) (event : Event) :
    (e.dispatch event).1.core.BatchWithin m := by
  have hhandled : (e.handleEvent event).1.core.BatchWithin m := by
    change (Engine.absorb _ _).core.BatchWithin m
    rw [core_absorb]
    have hstart : (e.core.cleared.atTime event.tsSim).BatchWithin m := h.congr rfl
    exact (hstart.handle event.kind).congr rfl
  unfold dispatch
  generalize e.handleEvent event = handled at hhandled
  obtain ⟨e', err | _ | wakeup⟩ := handled
  · exact hhandled
  · exact hhandled
  · change (e'.deferredFlush wakeup).1.core.BatchWithin m
    have hflush := batchWithin_flush (e := e') hhandled
    unfold deferredFlush
    split_ifs
    · split
      · next heq =>
        rw [heq] at hflush
        exact hflush
      · next heq =>
        rw [heq] at hflush
        exact hflush.congr rfl
    · exact hhandled.congr rfl
    · exact hhandled

/-- A turn keeps the batch length within its bounds. -/
theorem batchWithin_turn (h : e.core.BatchWithin m) : e.turn.1.core.BatchWithin m :=
  turn_preserves (I := fun e => e.core.BatchWithin m) h (fun _ _ _ h => h) (fun _ _ h => h)
    (fun _ h => h)
    (fun _ _ _ _ h => h) (fun e event queue h _ => batchWithin_dispatch
      (e := e.withQueue queue) h event)
    fun _ h _ => batchWithin_flush h

end Engine

end Backtester
