import Backtester.ArrowTicks
import Backtester.Strategy
import Backtester.SymbolIds

/-!
# Strategies in Python

A Python object is a strategy by the methods that it has. Each call gets a context of its own, which
collects the commands that the object issues; they are handed to the engine after the call, numbered
from 0. A method that takes several ticks gets them as a record batch. Nothing is lost on the way :
a stream of such batches is read as the ticks it was made of (`ticks_round_trip`).
-/

open ReadAhead

set_option linter.unusedSectionVars false

namespace Backtester

/-! ## What Python sees -/

/-- The number that stands for a side. -/
def Side.asI8 : Side → ℤ
  | .buy => 1
  | .sell => -1
  | .none => 0

/-- A tick as Python sees it. -/
structure PyTick where
  tsExchange : ℤ
  tsLocal : ℤ
  seq : ℕ
  symbolId : ℕ
  price : ℤ
  qty : ℤ
  side : ℤ
  flags : ℕ
  deriving DecidableEq, Repr

/-- A tick for Python. -/
def tickToPyobject (tick : Tick) : PyTick where
  tsExchange := tick.tsExchange
  tsLocal := tick.tsLocal
  seq := tick.seq
  symbolId := tick.symbolId
  price := tick.price
  qty := tick.qty
  side := tick.side.asI8
  flags := tick.flags

/-- A report as Python sees it. -/
structure PyOrderReport where
  orderId : ℕ
  clientOrderId : ℕ
  symbolId : ℕ
  status : String
  lastFillQty : ℤ
  lastFillPrice : ℤ
  filledQty : ℤ
  remainingQty : ℤ
  reason : Option String
  deriving DecidableEq, Repr

/-- `{:?}` of a state. -/
def OrderState.text : OrderState → String
  | created => "Created"
  | pendingNew => "PendingNew"
  | .open => "Open"
  | partiallyFilled => "PartiallyFilled"
  | pendingCancel => "PendingCancel"
  | cancelled => "Cancelled"
  | filled => "Filled"
  | rejected => "Rejected"

/-- A report for Python. -/
def orderReportToPyobject (r : OrderReport) : PyOrderReport where
  orderId := r.orderId
  clientOrderId := r.clientOrderId
  symbolId := r.symbolId
  status := r.status.text
  lastFillQty := r.lastFillQty
  lastFillPrice := r.lastFillPrice
  filledQty := r.filledQty
  remainingQty := r.remainingQty
  reason := r.reason

/-- The batch that `on_ticks` gets. -/
def ticksToRecordBatch (ticks : List Tick) : RecordBatch where
  numRows := ticks.length
  columns := [
    ("ts_exchange", .ofValues .int64 (ticks.map Tick.tsExchange)),
    ("ts_local", .ofValues .int64 (ticks.map Tick.tsLocal)),
    ("seq", .ofValues .uint64 (ticks.map fun t => (t.seq : ℤ))),
    ("symbol_id", .ofValues .uint32 (ticks.map fun t => (t.symbolId : ℤ))),
    ("price", .ofValues .int64 (ticks.map Tick.price)),
    ("qty", .ofValues .int64 (ticks.map Tick.qty)),
    ("side", .ofValues .int8 (ticks.map fun t => t.side.asI8)),
    ("flags", .ofValues .uint8 (ticks.map fun t => (t.flags : ℤ)))]
  length_eq := by simp [Column.ofValues]

/-! ## The context -/

/-- A command that a method has left in its context. -/
inductive PyCommand where
  | submitOrder (symbolId : ℕ) (side price qty : ℤ) (seq : ℕ) (orderType : OrderType)
      (clientOrderId : ℕ)
  | cancelOrder (orderId : ℕ)
  deriving DecidableEq, Repr

/-- The context that a method is called with, and that collects its commands. -/
structure PyContext where
  tsLocal : ℤ
  nextSeq : ℕ := 0
  commands : List PyCommand := []
  deriving DecidableEq, Repr

/-- A call of a method of the context. -/
inductive CtxCall where
  | submitOrder (symbolId : ℕ) (side price qty : ℤ) (orderType : String) (clientOrderId : ℕ)
  | cancelOrder (orderId : ℕ)
  deriving DecidableEq, Repr

namespace PyContext

/-- Notes an order and gives its client id back. An unknown type of order is an error. -/
def submitOrder (ctx : PyContext) (symbolId : ℕ) (side price qty : ℤ) (orderType : String)
    (clientOrderId : ℕ) : Except PyErr (ℕ × PyContext) :=
  let submit (orderType : OrderType) : ℕ × PyContext :=
    (clientOrderId, { ctx with
      nextSeq := ctx.nextSeq + 1
      commands := ctx.commands ++
        [.submitOrder symbolId side price qty ctx.nextSeq orderType clientOrderId] })
  if orderType = "limit" then .ok (submit .limit)
  else if orderType = "market" then .ok (submit .market)
  else .error
    (.valueError ("invalid order_type " ++ orderType.quote ++ ": expected \"limit\" or \"market\""))

/-- Notes a cancel. -/
def cancelOrder (ctx : PyContext) (orderId : ℕ) : PyContext :=
  { ctx with commands := ctx.commands ++ [.cancelOrder orderId] }

/-- The context after a call. A call that raises leaves it as it is. -/
def perform (ctx : PyContext) : CtxCall → PyContext
  | .submitOrder symbolId side price qty orderType clientOrderId =>
    match ctx.submitOrder symbolId side price qty orderType clientOrderId with
    | .ok (_, ctx) => ctx
    | .error _ => ctx
  | .cancelOrder orderId => ctx.cancelOrder orderId

end PyContext

/-! ## The strategy -/

/-- A method : from the state of the object, an argument and the local time of the context to the
next state and the calls of the context, or what is raised. What the calls answer is known to the
caller before. -/
abbrev PyMethod (σ α : Type) := σ → α → ℤ → Except PyErr (σ × List CtxCall)

/-- What `on_ticks` gets : a list in tick mode, a batch in batch mode. -/
inductive TicksArg where
  | list (ticks : List PyTick)
  | batch (batch : RecordBatch)

/-- A Python object and those of the methods that it has. -/
structure PyStrategy (σ : Type) where
  obj : σ
  onTick : Option (PyMethod σ PyTick)
  onTicks : Option (PyMethod σ TicksArg)
  onOrderUpdate : Option (PyMethod σ PyOrderReport)
  onOrderUpdates : Option (PyMethod σ (List PyOrderReport))

/-- Call a method with a context, if the object has it. -/
def callMethod {σ α : Type} (method : Option (PyMethod σ α)) (s : σ × PyContext) (a : α) :
    Except PyErr (σ × PyContext) :=
  match method with
  | none => .ok s
  | some f => (f s.1 a s.2.tsLocal).map fun (obj, calls) => (obj, calls.foldl PyContext.perform s.2)

/-- The commands of a context, as the engine takes them. -/
def applyPyCtxCommands (tsLocal : ℤ) : List PyCommand → Except PyErr (List Command)
  | [] => .ok []
  | .submitOrder symbolId side price qty seq orderType clientOrderId :: commands =>
    match Side.tryFrom side with
    | .error e => .error (.valueError ("invalid side: " ++ e))
    | .ok side =>
      (applyPyCtxCommands tsLocal commands).map (.submitOrder {
        orderId := 0
        clientOrderId := clientOrderId
        tsSubmit := tsLocal
        seq := seq
        price := price
        qty := qty
        symbolId := symbolId
        side := side
        orderType := orderType } :: ·)
  | .cancelOrder orderId :: commands =>
    (applyPyCtxCommands tsLocal commands).map (.cancelOrder orderId :: ·)

namespace PyStrategy

variable {σ : Type}

/-- A call of the engine : `body` works with a new context, whose commands are applied in the
end. -/
def withContext (s : PyStrategy σ) (ctx : Context)
    (body : σ × PyContext → Except PyErr (σ × PyContext)) :
    Except PyErr (PyStrategy σ × List Command) :=
  match body (s.obj, { tsLocal := ctx.tsLocal }) with
  | .error err => .error err
  | .ok (obj, pyCtx) =>
    (applyPyCtxCommands ctx.tsLocal pyCtx.commands).map fun commands =>
      ({ s with obj := obj }, commands)

instance : Strategy (PyStrategy σ) where
  Error := PyErr
  onTick s tick ctx := s.withContext ctx fun st =>
    if s.onTick.isSome then callMethod s.onTick st (tickToPyobject tick)
    else callMethod s.onTicks st (.list [tickToPyobject tick])
  onTicks s ticks ctx := s.withContext ctx fun st =>
    if s.onTicks.isSome then callMethod s.onTicks st (.batch (ticksToRecordBatch ticks))
    else ticks.foldlM (fun st tick => callMethod s.onTick st (tickToPyobject tick)) st
  onOrderUpdate s report ctx := s.withContext ctx fun st =>
    if s.onOrderUpdate.isSome then callMethod s.onOrderUpdate st (orderReportToPyobject report)
    else callMethod s.onOrderUpdates st [orderReportToPyobject report]
  onOrderUpdates s reports ctx := s.withContext ctx fun st =>
    if s.onOrderUpdates.isSome then callMethod s.onOrderUpdates st
      (reports.map orderReportToPyobject)
    else reports.foldlM (fun st report => callMethod s.onOrderUpdate st
      (orderReportToPyobject report)) st

end PyStrategy

/-! ## Batches that are read back -/

/-- The fields of a tick that a stream keeps fit their columns. -/
structure Tick.Fits (tick : Tick) : Prop where
  tsExchange : MachineInt.InRange 64 tick.tsExchange
  tsLocal : MachineInt.InRange 64 tick.tsLocal
  seq : tick.seq < 2 ^ 64
  price : MachineInt.InRange 64 tick.price
  qty : MachineInt.InRange 64 tick.qty

theorem holds_int64 {x : ℤ} (h : MachineInt.InRange 64 x) : DataType.int64.holds x = true := by
  obtain ⟨hl, hu⟩ := h
  simp only [DataType.holds, Bool.and_eq_true, decide_eq_true_eq]
  exact ⟨hl, hu⟩

theorem holds_uint64 {n : ℕ} (h : n < 2 ^ 64) : DataType.uint64.holds n = true := by
  simp only [DataType.holds, Bool.and_eq_true, decide_eq_true_eq]
  omega

theorem holds_asI8 (side : Side) : DataType.int8.holds side.asI8 = true := by
  cases side <;> decide

theorem readSide_asI8 (side : Side) : readSide side.asI8 = .ok side := by
  cases side <;> rfl

theorem nullCount_ofValues (dataType : DataType) (values : List ℤ) :
    (Column.ofValues dataType values).nullCount = 0 := by
  simp [Column.nullCount, Column.ofValues, List.countP_eq_zero]

section

variable {cast : Cast}

/-- A column whose values fit is read as they are. -/
theorem integerArrayTo_ofValues (keeps : cast.KeepsIntegers) {dataType targetType : DataType}
    (hinteger : dataType.isIntegerType = true) {values : List ℤ}
    (hholds : ∀ x ∈ values, targetType.holds x = true) (name : String) :
    integerArrayTo cast targetType (.ofValues dataType values) name = .ok values := by
  have hcast : cast (.ofValues dataType values) targetType = .ok (.ofValues targetType values) :=
    keeps dataType targetType values hinteger hholds
  have harray : castIntegerArray cast (.ofValues dataType values) name targetType =
      .ok (.ofValues targetType values) := by
    have htype : (Column.ofValues dataType values).dataType.isIntegerType = true := hinteger
    rw [castIntegerArray, htype, nullCount_ofValues, hcast]
    dsimp only
    rw [nullCount_ofValues]
    rfl
  rw [integerArrayTo, harray]
  simp [Column.ofValues, bind, Except.bind]

/-- The batch of the ticks, as the source opens it. -/
def cachedTicks (ticks : List Tick) : CachedBatch where
  tsExchange := ticks.map Tick.tsExchange
  price := ticks.map Tick.price
  qty := ticks.map Tick.qty
  side := ticks.map fun t => t.side.asI8
  seq := some (ticks.map fun t => (t.seq : ℤ))
  tsLocal := some (ticks.map Tick.tsLocal)
  numRows := ticks.length

/-- The source reads every column of the batch. -/
theorem new_ticksToRecordBatch (keeps : cast.KeepsIntegers) {ticks : List Tick}
    (fit : ∀ tick ∈ ticks, tick.Fits) :
    CachedBatch.new cast (ticksToRecordBatch ticks) = .ok (cachedTicks ticks) := by
  have hread : ∀ {f : Tick → ℤ} {dataType targetType : DataType} (_ : dataType.isIntegerType = true)
      (_ : ∀ tick, tick.Fits → targetType.holds (f tick) = true) (name : String),
      integerArrayTo cast targetType (.ofValues dataType (ticks.map f)) name =
        .ok (ticks.map f) := by
    intro f dataType targetType hinteger hholds name
    refine integerArrayTo_ofValues keeps hinteger (fun x hx => ?_) name
    obtain ⟨tick, htick, rfl⟩ := List.mem_map.1 hx
    exact hholds tick (fit tick htick)
  have htsExchange : getRequiredI64 cast (ticksToRecordBatch ticks) ["ts_exchange", "ts_event"] =
      .ok (ticks.map Tick.tsExchange) := hread rfl (fun _ h => holds_int64 h.tsExchange) _
  have hprice : getRequiredI64 cast (ticksToRecordBatch ticks) ["price"] =
      .ok (ticks.map Tick.price) :=
    hread rfl (fun _ h => holds_int64 h.price) _
  have hqty : getRequiredI64 cast (ticksToRecordBatch ticks) ["qty", "size"] =
      .ok (ticks.map Tick.qty) :=
    hread rfl (fun _ h => holds_int64 h.qty) _
  have hside : integerArrayToI8 cast (.ofValues .int8 (ticks.map fun t => t.side.asI8)) "side" =
      .ok (ticks.map fun t => t.side.asI8) := hread rfl (fun t _ => holds_asI8 t.side) _
  have hseq : getOptionalU64 cast (ticksToRecordBatch ticks) "seq" =
      .ok (some (ticks.map fun t => (t.seq : ℤ))) :=
    congrArg (Except.map some) (hread rfl (fun _ h => holds_uint64 h.seq) _)
  have htsLocal : getOptionalI64 cast (ticksToRecordBatch ticks) "ts_local" =
      .ok (some (ticks.map Tick.tsLocal)) :=
    congrArg (Except.map some) (hread rfl (fun _ h => holds_int64 h.tsLocal) _)
  have hcolumn : requiredColumn (ticksToRecordBatch ticks) ["side"] =
      .ok (.ofValues .int8 (ticks.map fun t => t.side.asI8)) := rfl
  rw [CachedBatch.new, htsExchange, hprice, hqty, hcolumn]
  simp only [bind, Except.bind]
  rw [hside, hseq, htsLocal]
  rfl

theorem readTickAt_cachedTicks {ticks : List Tick} (symbolId : ℕ) {i : ℕ} (hi : i < ticks.length) :
    ArrowTickSource.readTickAt symbolId (cachedTicks ticks) i =
      .ok { ticks[i] with symbolId := symbolId, flags := 0 } := by
  have hvalue : ∀ f : Tick → ℤ, valueAt (ticks.map f) i = f ticks[i] := by
    intro f
    rw [valueAt, List.getD_eq_getElem _ _ (by simpa using hi), List.getElem_map]
  rw [ArrowTickSource.readTickAt, cachedTicks]
  simp only [hvalue, readSide_asI8, bind, Except.bind, Option.map_some, Option.getD_some,
    Int.toNat_natCast]

/-- A stream of such batches holds their ticks. -/
theorem elements_ticksToRecordBatch (keeps : cast.KeepsIntegers) (symbolId : ℕ)
    {batches : List (List Tick)}
    (fit : ∀ ticks ∈ batches, ∀ tick ∈ ticks, tick.Fits) :
    ArrowSource.elements (ArrowTickSource.format cast) symbolId
        (batches.map fun ticks => .ok (ticksToRecordBatch ticks)) =
      (batches.flatten.map fun tick => { tick with symbolId := symbolId, flags := 0 }).map .ok := by
  have hbatch : ∀ ticks ∈ batches,
      (ArrowTickSource.format cast symbolId).records (.ok (ticksToRecordBatch ticks)) =
        (ticks.map fun tick => { tick with symbolId := symbolId, flags := 0 }).map .ok := by
    intro ticks hticks
    rw [Format.records_of_load _ (new_ticksToRecordBatch keeps (fit ticks hticks))]
    refine List.ext_getElem (by simp [Format.recordsFrom, ArrowTickSource.format, cachedTicks])
      fun i hi hi' => ?_
    have hlt : i < ticks.length := by simpa using hi'
    simp only [Format.recordsFrom, List.getElem_map, List.getElem_range', Nat.zero_add, Nat.one_mul]
    exact readTickAt_cachedTicks symbolId hlt
  rw [ArrowSource.elements, List.flatMap_map, List.flatMap_def, List.map_congr_left hbatch,
    List.map_flatten,
    List.map_flatten, List.map_map]
  rfl

/-- The ticks that a strategy got in batches come back from a stream of these batches, with the
symbol of the source and without flags. -/
theorem ticks_round_trip (keeps : cast.KeepsIntegers) (symbolId : ℕ) (batches : List (List Tick))
    (fit : ∀ ticks ∈ batches, ∀ tick ∈ ticks, tick.Fits) :
    ∃ source, ArrowSource.tryNew (ArrowTickSource.format cast) symbolId
        (batches.map fun ticks => .ok (ticksToRecordBatch ticks)) = .ok source ∧
      Yields source
        (batches.flatten.map fun tick => { tick with symbolId := symbolId, flags := 0 }) :=
  ArrowSource.yields_tryNew (elements_ticksToRecordBatch keeps symbolId fit)

end

/-- Two batches, read as one stream for symbol 7. -/
theorem ticks_round_trip_sample :
    let first : Tick := ⟨1000, 1500, 1, 100, 5, 3, .buy, 1⟩
    let second : Tick := ⟨2000, 0, 2, 101, -4, 3, .none, 0⟩
    let third : Tick := ⟨2000, 2500, 18446744073709551615, 99, 5, 3, .sell, 1⟩
    ∃ source, ArrowSource.tryNew (ArrowTickSource.format safeCast) 7
        ([[first, second], [third]].map fun ticks => .ok (ticksToRecordBatch ticks)) = .ok source ∧
      Yields source ([[first, second], [third]].flatten.map fun tick =>
        { tick with symbolId := 7, flags := 0 }) := by
  intro first second third
  have fit : ∀ ticks ∈ [[first, second], [third]], ∀ tick ∈ ticks, tick.Fits := by
    have hfirst : first.Fits := ⟨by decide, by decide, by decide, by decide, by decide⟩
    have hsecond : second.Fits := ⟨by decide, by decide, by decide, by decide, by decide⟩
    have hthird : third.Fits := ⟨by decide, by decide, by decide, by decide, by decide⟩
    simp [hfirst, hsecond, hthird]
  exact ticks_round_trip safeCast_keepsIntegers 7 [[first, second], [third]] fit

end Backtester
