import Backtester.ArrowSource

/-!
# Ticks from a stream of batches

The tick source of the engine over Arrow batches. Optional columns default to 0.
-/

open ReadAhead

namespace Backtester

/-- The columns of a batch of ticks. -/
structure CachedBatch where
  tsExchange : List ℤ
  price : List ℤ
  qty : List ℤ
  side : List ℤ
  seq : Option (List ℤ)
  tsLocal : Option (List ℤ)
  numRows : ℕ

/-- Reads the columns of a batch, by the names that the source accepts. -/
def CachedBatch.new (cast : Cast) (batch : RecordBatch) : Except TickSourceError CachedBatch := do
  let numRows := batch.numRows
  let tsExchange ← getRequiredI64 cast batch ["ts_exchange", "ts_event"]
  let price ← getRequiredI64 cast batch ["price"]
  let qty ← getRequiredI64 cast batch ["qty", "size"]
  let side ← integerArrayToI8 cast (← requiredColumn batch ["side"]) "side"
  let seq ← getOptionalU64 cast batch "seq"
  let tsLocal ← getOptionalI64 cast batch "ts_local"
  .ok { tsExchange, price, qty, side, seq, tsLocal, numRows }

namespace ArrowTickSource

/-- The tick in a row. Missing optional columns read as zero. -/
def readTickAt (symbolId : ℕ) (batch : CachedBatch) (idx : ℕ) : Except TickSourceError Tick := do
  let side ← readSide (valueAt batch.side idx)
  .ok {
    tsExchange := valueAt batch.tsExchange idx
    tsLocal := (batch.tsLocal.map (valueAt · idx)).getD 0
    seq := ((batch.seq.map (valueAt · idx)).getD 0).toNat
    symbolId := symbolId
    price := valueAt batch.price idx
    qty := valueAt batch.qty idx
    side := side
    flags := 0 }

/-- How batches of ticks are read. -/
def format (cast : Cast) : ArrowFormat CachedBatch Tick := fun symbolId =>
  { readerError := .reader
    load := CachedBatch.new cast
    numRows := CachedBatch.numRows
    readAt := readTickAt symbolId }

end ArrowTickSource

/-- A source of ticks over a stream of batches. -/
abbrev ArrowTickSource (cast : Cast) := ArrowSource (ArrowTickSource.format cast)

namespace ArrowTickSource

/-- The source loses no tick exactly if everything in the stream can be read, or not even its first
row. -/
theorem loses_no_tick_iff (cast : Cast) (symbolId : ℕ) (reader : ArrowReader) :
    ArrowSource.LosesNone (format cast) symbolId reader ↔
      (∀ err, .error err ∉ ArrowSource.elements (format cast) symbolId reader) ∨
        ∃ err rest, ArrowSource.elements (format cast) symbolId reader = .error err :: rest :=
  ArrowSource.losesNone_iff

/-- Two rows, the second of which has no valid side. -/
def invalidSecond : RecordBatch where
  numRows := 2
  columns := [("ts_exchange", ⟨.int64, [some 1000, some 2000]⟩),
    ("price", ⟨.int64, [some 100, some 100]⟩),
    ("qty", ⟨.int64, [some 5, some 5]⟩), ("side", ⟨.int8, [some 1, some 2]⟩)]
  length_eq := by decide

/-- The tick of the first row is lost : the first call gives the error, and the next one the end. -/
theorem loses_tick : ¬ArrowSource.LosesNone (format safeCast) 1 [.ok invalidSecond] := by
  have helements : ArrowSource.elements (format safeCast) 1 [.ok invalidSecond] =
      [.ok ⟨1000, 0, 0, 100, 5, 1, .buy, 0⟩, .error (.invalidSide 2)] := by decide
  rw [ArrowSource.losesNone_iff, helements]
  rintro (hgood | ⟨err, rest, hbad⟩)
  · exact hgood (.invalidSide 2) (by simp)
  · cases (List.cons.inj hbad).1

example : ((ArrowSource.tryNew (format safeCast) 1 [.ok invalidSecond]).toOption.map fun source =>
    (source.peek, source.call 0, source.call 1)) =
      some (.ok (some ⟨1000, 0, 0, 100, 5, 1, .buy, 0⟩), .error (.invalidSide 2), .ok none) := by
  decide

end ArrowTickSource

end Backtester
