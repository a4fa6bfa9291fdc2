import Backtester.PyStrategy
import Backtester.QueueModel
import Backtester.Stats
import Backtester.Twins

/-!
# Runs from Python

The class of the bindings checks its arguments (`PyBacktester.new_isOk_iff`), makes an engine for
the models it names, opens a source for each symbol and runs the engine to its end. A result depends
on the records of the data only : neither the order in which the dicts were filled nor the way the
streams are cut shows in it (`PyBacktester.run_depends_on_records`).
-/

open Run

set_option linter.unusedSectionVars false

namespace Backtester

/-- What `collect`, `to_arrow` and the stream of the table make of a frame. -/
class LazyFrame (F : Type) where
  toArrow : F → Except PyErr ArrowReader

/-! ## Errors -/

/-- `Display` of a source error. -/
def TickSourceError.text : TickSourceError → String
  | missingColumn names => "missing " ++ "/".intercalate names
  | nonIntegerColumn name dataType => name ++ " is not an integer column (got " ++ dataType ++ ")"
  | nullColumn name => name ++ " column contains nulls"
  | cast name targetType source => name ++ " cannot be cast to " ++ targetType ++ ": " ++ source
  | outOfRange name targetType => name ++ " contains values out of " ++ targetType ++ " range"
  | invalidSide value => "invalid side " ++ toString value ++ " (expected 1, -1, or 0)"
  | reader source => "error reading arrow stream: " ++ source

/-- The Python exception for an error of a source. -/
def tickSourceErrorToPyerr (error : TickSourceError) : PyErr :=
  match error with
  | .nonIntegerColumn _ _ => .typeError error.text
  | .reader _ => .runtimeError error.text
  | _ => .valueError error.text

/-- The Python exception for an error of a run. One of the strategy is handed on as it is. -/
def engineErrorToPyerr : EngineError PyErr → PyErr
  | .tickSource error => tickSourceErrorToPyerr error
  | .strategy error => error
  | .internal fault => .runtimeError fault.message

/-! ## The arguments -/

/-- The arguments after they were checked. -/
structure PyBacktester (F : Type) where
  data : PyDict F
  feedLatencyNs : ℤ
  orderUpdateLatencyNs : ℤ
  pythonMode : String
  batchMs : ℤ
  seed : ℕ
  tradeLogMode : String
  makerFeeBps : ℤ
  takerFeeBps : ℤ
  ringBufferSize : ℕ
  symbolMap : Option SymbolMap
  queueModel : String
  latencyModel : String
  latencyMeanNs : ℤ
  latencyStdNs : ℤ
  maxOpenOrders : ℕ
  maxPosition : ℤ
  maxLoss : ℤ
  depthMode : String
  l3Data : Option (PyDict F)

/-- The arguments of the constructor, with its defaults. -/
structure PyArgs (F : Type) where
  data : PyDict F
  feedLatencyNs : ℤ := 0
  orderUpdateLatencyNs : Option ℤ := none
  pythonMode : String := "tick"
  batchMs : ℤ := 0
  seed : ℕ := 42
  tradeLogMode : String := "all"
  makerFeeBps : ℤ := 0
  takerFeeBps : ℤ := 0
  ringBufferSize : ℕ := 10000
  symbolMap : Option (PyDict (Option ℤ)) := none
  queueModel : String := "conservative"
  latencyModel : String := "constant"
  latencyMeanNs : ℤ := 0
  latencyStdNs : ℤ := 0
  maxOpenOrders : ℕ := 0
  maxPosition : ℤ := 0
  maxLoss : ℤ := 0
  depthMode : String := "l2"
  l3Data : Option (PyDict F) := none

/-- A check passes if what it forbids does not hold, and the rest goes through. -/
theorem isOk_check {α : Type} {c : Prop} [Decidable c] {err : PyErr} {r : Except PyErr α} :
    (if c then .error err else r : Except PyErr α).isOk ↔ ¬c ∧ r.isOk := by
  split_ifs with h
  · exact ⟨fun herr => (nomatch herr), fun hr => absurd h hr.1⟩
  · exact ⟨fun hr => ⟨h, hr⟩, And.right⟩

namespace PyBacktester

variable {F : Type}

/-- Checks the arguments, one after the other, and keeps them. -/
def new (args : PyArgs F) : Except PyErr (PyBacktester F) :=
  if args.ringBufferSize = 0 then .error (.valueError "ring_buffer_size must be >= 1")
  else
    match resolveSymbolMap args.data args.symbolMap with
    | .error err => .error err
    | .ok symbolMap =>
      if args.queueModel ∉ ["conservative", "volume_clock"] then
        .error (.valueError ("unknown queue_model '" ++ args.queueModel ++
          "'; expected 'conservative' or 'volume_clock'"))
      else if args.depthMode ∉ ["l2", "l3"] then
        .error
          (.valueError ("unknown depth_mode '" ++ args.depthMode ++ "'; expected 'l2' or 'l3'"))
      else if args.depthMode = "l3" ∧ args.l3Data.isNone then
        .error (.valueError "depth_mode='l3' requires l3_data")
      else if args.depthMode = "l2" ∧ args.l3Data.isSome then
        .error (.valueError "l3_data requires depth_mode='l3'")
      else if args.latencyModel ∉ ["constant", "log_normal"] then
        .error (.valueError ("unknown latency_model '" ++ args.latencyModel ++
          "'; expected 'constant' or 'log_normal'"))
      else if 0 < args.maxLoss then
        .error (.valueError "max_loss must be <= 0 (negative threshold) or 0 (disabled)")
      else
        .ok {
          data := args.data
          feedLatencyNs := args.feedLatencyNs
          orderUpdateLatencyNs := args.orderUpdateLatencyNs.getD args.feedLatencyNs
          pythonMode := args.pythonMode
          batchMs := args.batchMs
          seed := args.seed
          tradeLogMode := args.tradeLogMode
          makerFeeBps := args.makerFeeBps
          takerFeeBps := args.takerFeeBps
          ringBufferSize := args.ringBufferSize
          symbolMap := symbolMap
          queueModel := args.queueModel
          latencyModel := args.latencyModel
          latencyMeanNs := args.latencyMeanNs
          latencyStdNs := args.latencyStdNs
          maxOpenOrders := args.maxOpenOrders
          maxPosition := args.maxPosition
          maxLoss := args.maxLoss
          depthMode := args.depthMode
          l3Data := args.l3Data }

/-- Arguments are accepted exactly if every check passes. L3 data comes with the L3 mode only. -/
theorem new_isOk_iff (args : PyArgs F) : (new args).isOk ↔ 0 < args.ringBufferSize ∧
    (∀ dict, args.symbolMap = some dict → Numbered dict.items ∧
      ∀ key ∈ args.data.keys, key ∈ dict.keys) ∧
    args.queueModel ∈ ["conservative", "volume_clock"] ∧ args.depthMode ∈ ["l2", "l3"] ∧
    (args.depthMode = "l3" ↔ args.l3Data.isSome) ∧ args.latencyModel ∈ ["constant", "log_normal"] ∧
    args.maxLoss ≤ 0 := by
  have hdepth : args.depthMode ∈ ["l2", "l3"] → ((args.depthMode = "l3" ↔ args.l3Data.isSome) ↔
      ¬(args.depthMode = "l3" ∧ args.l3Data.isNone) ∧
        ¬(args.depthMode = "l2" ∧ args.l3Data.isSome)) := by
    intro h
    rcases List.mem_pair.1 h with hmode | hmode
    · rw [hmode]
      simp
    · rw [hmode]
      simp [Option.isSome_iff_ne_none]
  rw [← resolveSymbolMap_isOk_iff, new, isOk_check]
  refine and_congr Nat.pos_iff_ne_zero.symm ?_
  cases resolveSymbolMap args.data args.symbolMap with
  | error err => exact ⟨fun h => (nomatch h), fun h => (nomatch h.1)⟩
  | ok symbolMap =>
    dsimp only
    rw [isOk_check, isOk_check, isOk_check, isOk_check, isOk_check, isOk_check, not_not, not_not,
      not_not, not_lt]
    constructor
    · rintro ⟨hqueue, hmode, hmissing, hextra, hlatency, hloss, -⟩
      exact ⟨rfl, hqueue, hmode, (hdepth hmode).2 ⟨hmissing, hextra⟩, hlatency, hloss⟩
    · rintro ⟨-, hqueue, hmode, hl3, hlatency, hloss⟩
      obtain ⟨hmissing, hextra⟩ := (hdepth hmode).1 hl3
      exact ⟨hqueue, hmode, hmissing, hextra, hlatency, hloss, rfl⟩

/-- The mode that a lower-cased text names. -/
def tradeLogModeOf (text : String) (ringBufferSize : ℕ) : TradeLogMode :=
  if text = "all" then .all
  else if text = "summaryonly" then .summaryOnly
  else if text = "none" then .none
  else if "ringbuffer".toList <+: text.toList then .ringBuffer ringBufferSize
  else .all

/-- The settings of the engine. -/
def engineConfig (bt : PyBacktester F) : EngineConfig where
  feedLatencyNs := bt.feedLatencyNs
  orderUpdateLatencyNs := bt.orderUpdateLatencyNs
  mode := if bt.pythonMode = "batch" then .batch else .tick
  -- `saturating_mul`
  maxBatchNs := MachineInt.clamp 64 (bt.batchMs * 1000000)
  autoTune := false
  seed := bt.seed
  tradeLogMode := tradeLogModeOf bt.tradeLogMode.toLower bt.ringBufferSize
  makerFeeBps := bt.makerFeeBps
  takerFeeBps := bt.takerFeeBps
  maxOpenOrders := bt.maxOpenOrders
  maxPosition := bt.maxPosition
  maxLoss := bt.maxLoss

/-- A book of orders has its own queue model. -/
def effectiveQueueModel (bt : PyBacktester F) : String :=
  if bt.depthMode = "l3" then "l3_exact" else bt.queueModel

end PyBacktester

/-! ## Engines of any kind -/

/-- The queue models that the bindings know. -/
inductive QueueKind where
  | conservative
  | volumeClock
  | l3Exact
  deriving DecidableEq, Repr

/-- The type of the model. -/
def QueueKind.Model : QueueKind → Type
  | conservative => ConservativeQueue
  | volumeClock => VolumeClockQueue
  | l3Exact => L3ExactQueue

/-- The model itself. It has no parameters. -/
def QueueKind.model : (kind : QueueKind) → kind.Model
  | conservative => (⟨⟩ : ConservativeQueue)
  | volumeClock => (⟨⟩ : VolumeClockQueue)
  | l3Exact => (⟨⟩ : L3ExactQueue)

instance : (kind : QueueKind) → QueueModel kind.Model
  | .conservative => inferInstanceAs (QueueModel ConservativeQueue)
  | .volumeClock => inferInstanceAs (QueueModel VolumeClockQueue)
  | .l3Exact => inferInstanceAs (QueueModel L3ExactQueue)

/-- The latency models that the bindings know. -/
inductive LatencyKind where
  | constant
  | logNormal
  deriving DecidableEq, Repr

/-- `J` is the model with log-normal jitter. -/
def LatencyKind.Model (J : Type) : LatencyKind → Type
  | constant => ConstantLatency
  | logNormal => J

instance (J R : Type) [LatencyModel J R] : (kind : LatencyKind) → LatencyModel (kind.Model J) R
  | .constant => inferInstanceAs (LatencyModel ConstantLatency R)
  | .logNormal => inferInstanceAs (LatencyModel J R)

/-- An engine for one of the queue models and one of the latency models. -/
structure AnyEngine (T U S J R : Type) where
  queueKind : QueueKind
  latencyKind : LatencyKind
  engine : Engine T U queueKind.Model S (latencyKind.Model J) R

/-- What a run gives back to Python. -/
structure BacktestResult where
  trades : List TradeFill
  stats : BacktestStats
  equityCurve : List (ℤ × ℤ)

/-- The history that the statistics are computed from. -/
def fullPnlHistory (tradeLog : TradeLog) : List (ℤ × ℤ) :=
  if tradeLog.mode = .none then [] else tradeLog.pnlHistory

namespace AnyEngine

variable {T U S J R : Type}

/-- `logNormal` makes the latency model with jitter. -/
def new [SeedableRng R] (logNormal : ℤ → ℤ → J) (queueModel latencyModel : String)
    (orderLatencyNs latencyMeanNs latencyStdNs : ℤ) (strategy : S) (config : EngineConfig) :
    AnyEngine T U S J R :=
  let queueKind : QueueKind :=
    if queueModel = "volume_clock" then .volumeClock
    else if queueModel = "l3_exact" then .l3Exact
    else .conservative
  if latencyModel = "log_normal" then
    ⟨queueKind, .logNormal, .new queueKind.model strategy config
      (logNormal latencyMeanNs latencyStdNs) fun _ => 0⟩
  else
    ⟨queueKind, .constant, .new queueKind.model strategy config (⟨orderLatencyNs⟩ : ConstantLatency)
      fun _ => 0⟩

/-- One more source of ticks, whatever the model. -/
def addTickSource [TickSource T] (a : AnyEngine T U S J R) (source : T) : AnyEngine T U S J R :=
  { a with engine := a.engine.addTickSource source }

/-- One more source of order updates, whatever the model. -/
def addL3Source [L3Source U] (a : AnyEngine T U S J R) (source : U) : AnyEngine T U S J R :=
  { a with engine := a.engine.addL3Source source }

/-- `Engine::stats`. -/
def stats (reduce : Reductions) (sqrt : ℚ → ℚ) (a : AnyEngine T U S J R) : BacktestStats :=
  { calculateStatsBy reduce sqrt a.engine.core.tradeLog with
    killed := a.engine.core.riskGuard.killed }

/-- What the bindings hand back after a run. -/
def extractResult (reduce : Reductions) (sqrt : ℚ → ℚ) (a : AnyEngine T U S J R) :
    BacktestResult where
  trades := a.engine.core.tradeLog.fillsIter
  stats := a.stats reduce sqrt
  equityCurve := equityCurveFromPnlDeltas (fullPnlHistory a.engine.core.tradeLog)

/-- The result of a run that ends within some turns. -/
def run {σ : Type} [TickSource T] [L3Source U] [LatencyModel J R] (reduce : Reductions)
    (sqrt : ℚ → ℚ) (a : AnyEngine T U (PyStrategy σ) J R) (turns : ℕ) :
    Option (Except PyErr BacktestResult) :=
  match runFor Engine.turn turns a.engine with
  | (_, .running) => none
  | (e, .finished) => some (.ok (extractResult reduce sqrt { a with engine := e }))
  | (_, .failed err) => some (.error (engineErrorToPyerr err))

end AnyEngine

/-! ## Running -/

/-- Open a source for each key, with the id of its symbol. -/
def addSources {A Src : Type} (openSource : String → ℕ → Except PyErr Src) (add : A → Src → A)
    (missingId : String → PyErr) (symbolIds : SymbolMap) : List String → A → Except PyErr A
  | [], a => .ok a
  | key :: keys, a =>
    match symbolIds key with
    | none => .error (missingId key)
    | some symbolId =>
      (openSource key symbolId).bind fun source =>
        addSources openSource add missingId symbolIds keys (add a source)

section Run

variable {F S R J : Type} [LazyFrame F] [SeedableRng R] [LatencyModel J R] (cast : Cast)

/-- The tick source of a data key. -/
def openTicks (data : PyDict F) (key : String) (symbolId : ℕ) :
    Except PyErr (ArrowTickSource cast) :=
  match data.getItem key with
  | none => .error (.keyError "missing key")
  | some frame => (LazyFrame.toArrow frame).bind fun stream =>
    (ArrowSource.tryNew (ArrowTickSource.format cast) symbolId stream).mapError
      tickSourceErrorToPyerr

/-- The L3 source of a data key. -/
def openL3 (l3Data : PyDict F) (key : String) (symbolId : ℕ) : Except PyErr (ArrowL3Source cast) :=
  match l3Data.getItem key with
  | none => .error (.valueError ("l3_data is missing entry for data key '" ++ key ++ "'"))
  | some frame => (LazyFrame.toArrow frame).bind fun stream =>
    (ArrowSource.tryNew (ArrowL3Source.format cast) symbolId stream).mapError fun error =>
      .valueError ("l3_data stream for symbol '" ++ key ++ "': " ++ error.text)

/-- The order updates of every key, which L3 mode cannot do without. -/
def attachL3Sources (l3Data : Option (PyDict F)) (keys : List String) (symbolIds : SymbolMap)
    (a : AnyEngine (ArrowTickSource cast) (ArrowL3Source cast) S J R) :
    Except PyErr (AnyEngine (ArrowTickSource cast) (ArrowL3Source cast) S J R) :=
  match l3Data with
  | none => .error (.valueError "depth_mode='l3' requires l3_data")
  | some l3Data =>
    addSources (openL3 cast l3Data) AnyEngine.addL3Source
      (fun key => .runtimeError ("missing symbol id for L3 data key '" ++ key ++ "'"))
        symbolIds keys a

namespace PyBacktester

/-- The engine of a run, with its sources. -/
def engine (logNormal : ℤ → ℤ → J) (bt : PyBacktester F) (strategy : S) :
    Except PyErr (AnyEngine (ArrowTickSource cast) (ArrowL3Source cast) S J R) :=
  let a := AnyEngine.new logNormal bt.effectiveQueueModel bt.latencyModel bt.orderUpdateLatencyNs
    bt.latencyMeanNs bt.latencyStdNs strategy bt.engineConfig
  let keys := bt.data.sortedKeys
  (buildSymbolIds keys bt.symbolMap).bind fun symbolIds =>
    (addSources (openTicks cast bt.data) AnyEngine.addTickSource
      (fun _ => .runtimeError "missing symbol id") symbolIds keys a).bind fun a =>
      if bt.depthMode = "l3" then attachL3Sources cast bt.l3Data keys symbolIds a else .ok a

/-- `run`, when the parallel sums of the statistics turn out as `reduce`. -/
def run {σ : Type} (reduce : Reductions) (sqrt : ℚ → ℚ) (logNormal : ℤ → ℤ → J)
    (bt : PyBacktester F) (strategy : PyStrategy σ) (turns : ℕ) :
    Option (Except PyErr BacktestResult) :=
  match bt.engine (R := R) cast logNormal strategy with
  | .error err => some (.error err)
  | .ok a => a.run reduce sqrt turns

end PyBacktester

end Run

/-! ## What a result depends on -/

namespace AnyEngine

variable {T U T' U' S J R : Type} {relT : T → T' → Prop} {relU : U → U' → Prop}

/-- Engines of one kind on related sources. -/
inductive Alike (relT : T → T' → Prop) (relU : U → U' → Prop) :
    AnyEngine T U S J R → AnyEngine T' U' S J R → Prop
  | mk {queueKind : QueueKind} {latencyKind : LatencyKind}
      {e : Engine T U queueKind.Model S (latencyKind.Model J) R}
      {e' : Engine T' U' queueKind.Model S (latencyKind.Model J) R} :
      Engine.Twin relT relU e e' → Alike relT relU ⟨queueKind, latencyKind, e⟩
        ⟨queueKind, latencyKind, e'⟩

theorem alike_new [SeedableRng R] (logNormal : ℤ → ℤ → J) (queueModel latencyModel : String)
    (orderLatencyNs latencyMeanNs latencyStdNs : ℤ) (strategy : S) (config : EngineConfig) :
    Alike relT relU
      (new logNormal queueModel latencyModel orderLatencyNs latencyMeanNs latencyStdNs
        strategy config :
        AnyEngine T U S J R)
      (new logNormal queueModel latencyModel orderLatencyNs latencyMeanNs latencyStdNs strategy
        config) := by
  unfold new
  split_ifs
  all_goals exact .mk ⟨{}, {}, rfl, SourceQueue.alike_empty, SourceQueue.alike_empty⟩

namespace Alike

variable [TickSource T] [L3Source U] [TickSource T'] [L3Source U'] {a : AnyEngine T U S J R}
  {a' : AnyEngine T' U' S J R}

theorem addTickSource (h : Alike relT relU a a') {s : T} {s' : T'} (hs : relT s s') :
    Alike relT relU (a.addTickSource s) (a'.addTickSource s') := by
  obtain ⟨htwin⟩ := h
  exact .mk (htwin.addTickSource hs)

theorem addL3Source (h : Alike relT relU a a') {s : U} {s' : U'} (hs : relU s s')
    (hsymbol : L3Source.symbolId s' = L3Source.symbolId s) :
    Alike relT relU (a.addL3Source s) (a'.addL3Source s') := by
  obtain ⟨htwin⟩ := h
  exact .mk (htwin.addL3Source hs hsymbol)

theorem run {σ : Type} [LatencyModel J R] (bisimT : Source.Bisim relT) (bisimU : Source.Bisim relU)
    {a : AnyEngine T U (PyStrategy σ) J R} {a' : AnyEngine T' U' (PyStrategy σ) J R}
    (h : Alike relT relU a a') (reduce : Reductions) (sqrt : ℚ → ℚ) (turns : ℕ) :
    a'.run reduce sqrt turns = a.run reduce sqrt turns := by
  obtain @⟨queueKind, latencyKind, e, e', htwin⟩ := h
  obtain ⟨⟨ticks, l3, heq, -⟩, hstatus⟩ := htwin.runFor bisimT bisimU turns
  unfold AnyEngine.run
  dsimp only
  generalize runFor Engine.turn turns e = r at heq hstatus ⊢
  generalize runFor Engine.turn turns e' = r' at heq hstatus ⊢
  obtain ⟨e₁, st⟩ := r
  obtain ⟨e₁', st'⟩ := r'
  obtain rfl : st' = st := hstatus
  obtain rfl : e₁' = e₁.fedBy ticks l3 := heq
  cases st' <;> rfl

end Alike

end AnyEngine

/-- Loops that open related sources end alike. -/
theorem addSources_alike {A A' Src Src' : Type} {rel : A → A' → Prop} {relSrc : Src → Src' → Prop}
    {openSource : String → ℕ → Except PyErr Src} {openSource' : String → ℕ → Except PyErr Src'}
    {add : A → Src → A} {add' : A' → Src' → A'} (missingId : String → PyErr) (symbolIds : SymbolMap)
    (opened : ∀ key symbolId, Agree relSrc (openSource key symbolId) (openSource' key symbolId))
    (added : ∀ a a' s s', rel a a' → relSrc s s' → rel (add a s) (add' a' s'))
    (keys : List String) {a : A} {a' : A'} (h : rel a a') :
    Agree rel (addSources openSource add missingId symbolIds keys a)
      (addSources openSource' add' missingId symbolIds keys a') := by
  induction keys generalizing a a' with
  | nil => exact .ok h
  | cons key keys ih =>
    rw [addSources, addSources]
    cases symbolIds key with
    | none => exact .error _
    | some symbolId => exact (opened key symbolId).bind fun s s' hs => ih (added a a' s s' h hs)

section Depends

variable {F S R J : Type} [LazyFrame F] [SeedableRng R] [LatencyModel J R] (cast : Cast)

/-- Frames whose streams hold the same records for every symbol, however these are cut into
batches. -/
def SameStream {B α : Type} (fmt : ArrowFormat B α) (frame frame' : F) : Prop :=
  Agree (fun stream stream' => ∀ symbolId, ArrowSource.elements fmt symbolId stream' =
    ArrowSource.elements fmt symbolId stream) (LazyFrame.toArrow frame) (LazyFrame.toArrow frame')

/-- Dicts with related values, filled in any order. -/
def PyDict.Same {V : Type} (rel : V → V → Prop) (dict dict' : PyDict V) : Prop :=
  ∀ key, Option.Rel rel (dict.getItem key) (dict'.getItem key)

theorem PyDict.Same.sortedKeys {V : Type} {rel : V → V → Prop} {dict dict' : PyDict V}
    (h : dict.Same rel dict') :
    dict'.sortedKeys = dict.sortedKeys := by
  refine PyDict.sortedKeys_congr fun key => ?_
  rw [← PyDict.isSome_getItem, ← PyDict.isSome_getItem]
  have hkey := h key
  generalize dict.getItem key = o at hkey ⊢
  generalize dict'.getItem key = o' at hkey ⊢
  cases hkey <;> simp

/-- What is opened for such frames sees the same. -/
theorem tryNew_frames {B α : Type} {fmt : ArrowFormat B α} {frame frame' : F}
    (h : SameStream fmt frame frame') (symbolId : ℕ) (toPyErr : TickSourceError → PyErr) :
    Agree ArrowSource.SeesSame
      ((LazyFrame.toArrow frame).bind fun stream =>
        (ArrowSource.tryNew fmt symbolId stream).mapError toPyErr)
      ((LazyFrame.toArrow frame').bind fun stream =>
        (ArrowSource.tryNew fmt symbolId stream).mapError toPyErr) :=
  h.bind fun _ _ hstream => (ArrowSource.tryNew_alike (hstream symbolId)).mapError

theorem openTicks_alike {data data' : PyDict F}
    (h : data.Same (SameStream (ArrowTickSource.format cast)) data') (key : String) (symbolId : ℕ) :
    Agree ArrowSource.SeesSame (openTicks cast data key symbolId)
      (openTicks cast data' key symbolId) := by
  have hkey := h key
  unfold openTicks
  generalize data.getItem key = o at hkey ⊢
  generalize data'.getItem key = o' at hkey ⊢
  cases hkey with
  | none => exact .error _
  | some hframe => exact tryNew_frames hframe symbolId _

theorem openL3_alike {data data' : PyDict F}
    (h : data.Same (SameStream (ArrowL3Source.format cast)) data') (key : String) (symbolId : ℕ) :
    Agree ArrowSource.SeesSame (openL3 cast data key symbolId)
      (openL3 cast data' key symbolId) := by
  have hkey := h key
  unfold openL3
  generalize data.getItem key = o at hkey ⊢
  generalize data'.getItem key = o' at hkey ⊢
  cases hkey with
  | none => exact .error _
  | some hframe => exact tryNew_frames hframe symbolId _

namespace PyBacktester

theorem engine_alike (logNormal : ℤ → ℤ → J) (bt : PyBacktester F) (strategy : S) {data : PyDict F}
    {l3Data : Option (PyDict F)}
    (sameTicks : bt.data.Same (SameStream (ArrowTickSource.format cast)) data)
    (sameL3 : Option.Rel (PyDict.Same (SameStream (ArrowL3Source.format cast))) bt.l3Data l3Data) :
    Agree (AnyEngine.Alike ArrowSource.SeesSame ArrowSource.SeesSame)
      (bt.engine (R := R) cast logNormal strategy)
      (({ bt with data := data, l3Data := l3Data } : PyBacktester F).engine cast logNormal
        strategy) := by
  have hstart : AnyEngine.Alike ArrowSource.SeesSame ArrowSource.SeesSame
      (AnyEngine.new logNormal bt.effectiveQueueModel bt.latencyModel bt.orderUpdateLatencyNs
        bt.latencyMeanNs bt.latencyStdNs strategy bt.engineConfig :
        AnyEngine (ArrowTickSource cast) (ArrowL3Source cast) S J R)
      (AnyEngine.new logNormal bt.effectiveQueueModel bt.latencyModel bt.orderUpdateLatencyNs
        bt.latencyMeanNs bt.latencyStdNs strategy bt.engineConfig) := AnyEngine.alike_new ..
  unfold engine
  dsimp only
  rw [sameTicks.sortedKeys]
  refine (Agree.refl (fun _ => rfl) _).bind fun symbolIds symbolIds' hsame => ?_
  subst hsame
  have haddTick : ∀ (a a' : AnyEngine (ArrowTickSource cast) (ArrowL3Source cast) S J R)
      (s s' : ArrowTickSource cast), a.Alike ArrowSource.SeesSame ArrowSource.SeesSame a' →
        s.SeesSame s' →
      (a.addTickSource s).Alike ArrowSource.SeesSame ArrowSource.SeesSame (a'.addTickSource s') :=
    fun _ _ _ _ ha hs => ha.addTickSource hs
  have haddL3 : ∀ (a a' : AnyEngine (ArrowTickSource cast) (ArrowL3Source cast) S J R)
      (s s' : ArrowL3Source cast), a.Alike ArrowSource.SeesSame ArrowSource.SeesSame a' →
        s.SeesSame s' →
      (a.addL3Source s).Alike ArrowSource.SeesSame ArrowSource.SeesSame (a'.addL3Source s') :=
    fun _ _ _ _ ha hs => ha.addL3Source hs hs.1
  have hticks := addSources_alike (fun _ => .runtimeError "missing symbol id") symbolIds
    (openTicks_alike cast sameTicks) haddTick bt.data.sortedKeys hstart
  refine hticks.bind fun a a' ha => ?_
  split_ifs
  · generalize bt.l3Data = l3Data₀ at sameL3 ⊢
    cases sameL3 with
    | none => exact .error _
    | some hdict =>
      exact addSources_alike _ symbolIds (openL3_alike cast hdict) haddL3 bt.data.sortedKeys ha
  · exact .ok ha

/-- The result of a run depends only on the records that the sources decode from the data. Neither
the order in which the dicts were filled nor the way the streams are cut into batches shows in it,
be it an error that it ends with. Parallel sums of equal lists are the same here, however they are
rounded (`Reduction`). -/
theorem run_depends_on_records {σ : Type} (reduce : Reductions) (sqrt : ℚ → ℚ)
    (logNormal : ℤ → ℤ → J)
    (bt : PyBacktester F) (strategy : PyStrategy σ) {data : PyDict F} {l3Data : Option (PyDict F)}
    (sameTicks : bt.data.Same (SameStream (ArrowTickSource.format cast)) data)
    (sameL3 : Option.Rel (PyDict.Same (SameStream (ArrowL3Source.format cast))) bt.l3Data l3Data)
    (turns : ℕ) :
    ({ bt with data := data, l3Data := l3Data } : PyBacktester F).run (R := R) cast reduce sqrt
        logNormal strategy turns =
      bt.run (R := R) cast reduce sqrt logNormal strategy turns := by
  have halike := bt.engine_alike (R := R) cast logNormal strategy sameTicks sameL3
  unfold run
  generalize bt.engine (R := R) cast logNormal strategy = r at halike ⊢
  generalize ({ bt with data := data, l3Data := l3Data } : PyBacktester F).engine (R := R) cast
    logNormal strategy = r' at halike ⊢
  cases halike with
  | error err => rfl
  | ok h => exact h.run ArrowSource.bisim ArrowSource.bisim reduce sqrt turns

end PyBacktester

end Depends

/-- A stream is a frame of its own. -/
instance : LazyFrame ArrowReader := ⟨.ok⟩

/-- Streams with the same records stand for the same frame. -/
theorem sameStream_of_elements {B α : Type} {fmt : ArrowFormat B α} {stream stream' : ArrowReader}
    (h : ∀ symbolId, ArrowSource.elements fmt symbolId stream' = ArrowSource.elements fmt symbolId
      stream) :
    SameStream fmt stream stream' := .ok h

/-- Counts its calls, and buys one at 101 after its first tick. -/
def countingBuyer : PyStrategy ℕ where
  obj := 0
  onTick := some fun n tick _ =>
    .ok (n + 1, if n = 0 then [.submitOrder tick.symbolId 1 101 1 "limit" 7] else [])
  onTicks := none
  onOrderUpdate := some fun n _ _ => .ok (n + 100, [])
  onOrderUpdates := none

/-- The dicts are filled in another order, and one stream is cut in two. The strategy trades. -/
theorem PyBacktester.run_depends_on_records_sample :
    let first : Tick := ⟨1000, 0, 1, 100, 5, 0, .buy, 0⟩
    let second : Tick := ⟨2000, 0, 2, 101, 5, 0, .sell, 0⟩
    let third : Tick := ⟨3000, 0, 3, 101, 5, 0, .sell, 0⟩
    let whole : ArrowReader := [.ok (ticksToRecordBatch [first, second, third])]
    let cut : ArrowReader := [[first], [second, third]].map fun ticks =>
      .ok (ticksToRecordBatch ticks)
    let args : PyArgs ArrowReader := { data := ⟨[("BTC", whole), ("ETH", whole)], by decide⟩ }
    let data : PyDict ArrowReader := ⟨[("ETH", whole), ("BTC", cut)], by decide⟩
    ∃ bt, PyBacktester.new args = .ok bt ∧
      let result := bt.run (R := Unit) (J := ConstantLatency) safeCast ⟨exactSums, exactSums⟩ id
        (fun _ _ => ⟨0⟩) countingBuyer 50
      (result.bind Except.toOption).map (fun r => r.trades.map fun f => (f.price, f.qty)) =
          some [(101, 1)] ∧
        ({ bt with data := data, l3Data := none } : PyBacktester ArrowReader).run (R := Unit)
          (J := ConstantLatency) safeCast ⟨exactSums, exactSums⟩ id (fun _ _ => ⟨0⟩)
            countingBuyer 50 =
            result := by
  intro first second third whole cut args data
  have fits : ∀ tick ∈ [first, second, third], tick.Fits := by
    have hfirst : first.Fits := ⟨by decide, by decide, by decide, by decide, by decide⟩
    have hsecond : second.Fits := ⟨by decide, by decide, by decide, by decide, by decide⟩
    have hthird : third.Fits := ⟨by decide, by decide, by decide, by decide, by decide⟩
    simp [hfirst, hsecond, hthird]
  have hcut : ∀ symbolId, ArrowSource.elements (ArrowTickSource.format safeCast) symbolId cut =
      ArrowSource.elements (ArrowTickSource.format safeCast) symbolId whole := by
    intro symbolId
    have hwhole := @elements_ticksToRecordBatch safeCast safeCast_keepsIntegers symbolId
      [[first, second, third]] (by simpa using fits)
    have hparts := @elements_ticksToRecordBatch safeCast safeCast_keepsIntegers symbolId
      [[first], [second, third]] (by simpa using fits)
    exact hparts.trans hwhole.symm
  have same : args.data.Same (SameStream (ArrowTickSource.format safeCast)) data := by
    intro key
    by_cases hbtc : key = "BTC"
    · subst hbtc
      exact .some (sameStream_of_elements hcut)
    · by_cases heth : key = "ETH"
      · subst heth
        exact .some (sameStream_of_elements fun _ => rfl)
      · have hgone : args.data.getItem key = none := by
          simp [PyDict.getItem, args, Ne.symm hbtc, Ne.symm heth]
        have hgone' : data.getItem key = none := by
          simp [PyDict.getItem, data, Ne.symm hbtc, Ne.symm heth]
        rw [hgone, hgone']
        exact .none
  refine ⟨_, rfl, by decide +kernel, ?_⟩
  exact PyBacktester.run_depends_on_records safeCast ⟨exactSums, exactSums⟩ id
    (fun _ _ => (⟨0⟩ : ConstantLatency)) _ countingBuyer same .none 50

end Backtester
