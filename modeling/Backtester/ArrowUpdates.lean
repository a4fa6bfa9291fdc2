import Backtester.ArrowSource

/-!
# L3 updates from a stream of batches

The L3 source gives the rows of all batches in order, however they are cut, and takes the sequence
number of a row from its column. Without that column it takes the index of the row in its batch,
which is the index of the row in the stream only as long as no rows came in earlier batches :
`ignores_cuts_iff`.
-/

open ReadAhead

namespace Backtester

/-- The columns of a batch of order updates. -/
structure CachedL3Batch where
  tsExchange : List ℤ
  price : List ℤ
  qty : List ℤ
  side : List ℤ
  seq : Option (List ℤ)
  orderId : List ℤ
  action : List ℤ
  numRows : ℕ

/-- Reads the columns of a batch, by the names that the source accepts. -/
def CachedL3Batch.new (cast : Cast) (batch : RecordBatch) :
    Except TickSourceError CachedL3Batch := do
  let numRows := batch.numRows
  let tsExchange ← getRequiredI64 cast batch ["ts_exchange", "ts_event"]
  let price ← getRequiredI64 cast batch ["price"]
  let qty ← getRequiredI64 cast batch ["qty", "size"]
  let side ← integerArrayToI8 cast (← requiredColumn batch ["side"]) "side"
  let seq ← getOptionalU64 cast batch "seq"
  let orderId ← getRequiredU64 cast batch ["order_id"]
  let action ← integerArrayToI8 cast (← requiredColumn batch ["action"]) "action"
  .ok { tsExchange, price, qty, side, seq, orderId, action, numRows }

namespace ArrowL3Source

/-- The update in a row. Without a column of sequence numbers the row number stands in. -/
def readUpdateAt (symbolId : ℕ) (batch : CachedL3Batch) (idx : ℕ) :
    Except TickSourceError L3Update := do
  let side ← readSide (valueAt batch.side idx)
  .ok {
    tsExchange := valueAt batch.tsExchange idx
    seq := (batch.seq.map fun seq => (valueAt seq idx).toNat).getD idx
    symbolId := symbolId
    orderId := (valueAt batch.orderId idx).toNat
    price := valueAt batch.price idx
    qty := valueAt batch.qty idx
    side := side
    -- `as u8`
    action := (valueAt batch.action idx % 2 ^ 8).toNat }

/-- How batches of order updates are read. -/
def format (cast : Cast) : ArrowFormat CachedL3Batch L3Update := fun symbolId =>
  { readerError := .reader
    load := CachedL3Batch.new cast
    numRows := CachedL3Batch.numRows
    readAt := readUpdateAt symbolId }

end ArrowL3Source

/-- A source of order updates over a stream of batches. -/
abbrev ArrowL3Source (cast : Cast) := ArrowSource (ArrowL3Source.format cast)

instance (cast : Cast) : L3Source (ArrowL3Source cast) where
  symbolId source := source.symbolId

/-! ## Rows -/

/-- A row of a batch, as its columns have it. `seq` is `none` where there is no such column. -/
structure L3Row where
  tsExchange : ℤ
  seq : Option ℕ
  orderId : ℤ
  price : ℤ
  qty : ℤ
  side : ℤ
  action : ℤ
  deriving DecidableEq, Repr

namespace L3Row

/-- The row has a side. -/
def Valid (row : L3Row) : Prop := row.side = 1 ∨ row.side = -1 ∨ row.side = 0

/-- The update of a row, for a symbol and with a sequence number. -/
def update (symbolId seq : ℕ) (row : L3Row) : L3Update where
  tsExchange := row.tsExchange
  seq := seq
  symbolId := symbolId
  orderId := row.orderId.toNat
  price := row.price
  qty := row.qty
  side := if row.side = 1 then .buy else if row.side = -1 then .sell else .none
  action := (row.action % 2 ^ 8).toNat

/-- The updates of the rows of a stream : where the rows have no sequence number, it is their
place. -/
def updates (symbolId : ℕ) (rows : List L3Row) : List L3Update :=
  rows.mapIdx fun i row => row.update symbolId (row.seq.getD i)

end L3Row

namespace CachedL3Batch

/-- A row of the columns. -/
def rowAt (batch : CachedL3Batch) (idx : ℕ) : L3Row where
  tsExchange := valueAt batch.tsExchange idx
  seq := batch.seq.map fun seq => (valueAt seq idx).toNat
  orderId := valueAt batch.orderId idx
  price := valueAt batch.price idx
  qty := valueAt batch.qty idx
  side := valueAt batch.side idx
  action := valueAt batch.action idx

/-- All rows of a batch. -/
def rows (batch : CachedL3Batch) : List L3Row := (List.range batch.numRows).map batch.rowAt

/-- The updates that the source makes of a batch. -/
def updates (symbolId : ℕ) (batch : CachedL3Batch) : List L3Update :=
  batch.rows.mapIdx fun idx row => row.update symbolId (row.seq.getD idx)

end CachedL3Batch

@[simp] theorem CachedL3Batch.length_rows (batch : CachedL3Batch) :
    batch.rows.length = batch.numRows := by
  simp [rows]

theorem CachedL3Batch.updates_eq (symbolId : ℕ) (batch : CachedL3Batch) : batch.updates symbolId =
    (List.range batch.numRows).map fun idx =>
      (batch.rowAt idx).update symbolId ((batch.rowAt idx).seq.getD idx) := by
  refine List.ext_getElem (by simp [updates]) fun i hi hi' => ?_
  simp [updates, rows]

/-- The side of a valid row is read. -/
theorem readSide_of_valid {side : ℤ} (h : side = 1 ∨ side = -1 ∨ side = 0) :
    readSide side = .ok (if side = 1 then .buy else if side = -1 then .sell else .none) := by
  rcases h with rfl | rfl | rfl <;> rfl

namespace ArrowL3Source

variable {cast : Cast} {symbolId : ℕ}

theorem readUpdateAt_eq (symbolId : ℕ) (batch : CachedL3Batch) {idx : ℕ}
    (h : (batch.rowAt idx).Valid) :
    readUpdateAt symbolId batch idx =
      .ok ((batch.rowAt idx).update symbolId ((batch.rowAt idx).seq.getD idx)) := by
  have hside : readSide (valueAt batch.side idx) = .ok _ := readSide_of_valid h
  rw [readUpdateAt, hside]
  rfl

/-- The reader gives a batch after the other, and every column is in order. -/
def Opens (cast : Cast) (reader : ArrowReader) (batches : List CachedL3Batch) : Prop :=
  List.Forall₂ (fun item b => ∃ batch, item = .ok batch ∧ CachedL3Batch.new cast batch = .ok b)
    reader batches

/-- The source gives the updates of the rows one by one, and then the end. -/
def Gives (cast : Cast) (symbolId : ℕ) (reader : ArrowReader) (rows : List L3Row) : Prop :=
  ∃ source, ArrowSource.tryNew (format cast) symbolId reader = .ok source ∧
    ∀ k, source.call k = .ok (L3Row.updates symbolId rows)[k]?

/-- No rows come before a batch of rows without sequence numbers. -/
def FallbackFirst (batches : List CachedL3Batch) : Prop :=
  ∀ pre b post, batches = pre ++ b :: post → b.seq = none → 0 < b.numRows →
    ∀ b' ∈ pre, b'.numRows = 0

/-- What the stream holds when every row is valid. -/
theorem elements_of_opens {reader : ArrowReader} {batches : List CachedL3Batch}
    (h : Opens cast reader batches) (hvalid : ∀ row ∈ batches.flatMap (·.rows), row.Valid) :
    ArrowSource.elements (format cast) symbolId reader =
      (batches.flatMap (·.updates symbolId)).map .ok := by
  induction h with
  | nil => rfl
  | @cons item b reader batches hopen hrest ih =>
    obtain ⟨batch, rfl, hload⟩ := hopen
    rw [List.flatMap_cons] at hvalid
    have hrecords : (format cast symbolId).records (.ok batch) = (b.updates symbolId).map .ok := by
      have hread : ∀ idx ∈ List.range b.numRows, readUpdateAt symbolId b idx =
          .ok ((b.rowAt idx).update symbolId ((b.rowAt idx).seq.getD idx)) := fun idx hidx =>
        readUpdateAt_eq symbolId b (hvalid _ (List.mem_append_left _ (List.mem_map_of_mem hidx)))
      have hbatch : (format cast symbolId).records (.ok batch) =
          (format cast symbolId).recordsFrom b 0 := Format.records_of_load _ hload
      rw [hbatch, Format.recordsFrom, Nat.sub_zero, ← List.range_eq_range',
        CachedL3Batch.updates_eq,
        List.map_map]
      exact List.map_congr_left hread
    rw [ArrowSource.elements, List.flatMap_cons, hrecords, List.flatMap_cons, List.map_append]
    exact congrArg (_ ++ ·) (ih fun row hrow => hvalid row (List.mem_append_right _ hrow))

/-- Rows whose sequence numbers are their places from `n` on. -/
def updatesFrom (symbolId n : ℕ) (rows : List L3Row) : List L3Update :=
  rows.mapIdx fun i row => row.update symbolId (row.seq.getD (n + i))

theorem updatesFrom_append (symbolId n : ℕ) (rows rows' : List L3Row) :
    updatesFrom symbolId n (rows ++ rows') =
      updatesFrom symbolId n rows ++ updatesFrom symbolId (n + rows.length) rows' := by
  rw [updatesFrom, List.mapIdx_append]
  congr 1
  rw [updatesFrom]
  congr 1
  funext i row
  rw [Nat.add_assoc, Nat.add_comm i]

/-- The index in the batch is the place in the stream, unless rows without sequence numbers come
after others. -/
theorem updates_eq_updatesFrom_iff (batch : CachedL3Batch) (n : ℕ) :
    batch.updates symbolId = updatesFrom symbolId n batch.rows ↔
      (batch.seq = none → 0 < batch.numRows → n = 0) := by
  constructor
  · intro h hseq hrows
    have hfirst := congrArg (fun updates => updates[0]?.map L3Update.seq) h
    have hzero : 0 = n := by
      simpa [CachedL3Batch.updates, updatesFrom, CachedL3Batch.rows, L3Row.update,
        CachedL3Batch.rowAt,
        hseq, hrows] using hfirst
    exact hzero.symm
  · intro h
    refine List.ext_getElem (by simp [CachedL3Batch.updates, updatesFrom]) fun i hi hi' => ?_
    have hrow : i < batch.numRows := by simpa [CachedL3Batch.updates] using hi
    cases hseq : batch.seq with
    | none => simp [CachedL3Batch.updates, updatesFrom, h hseq (by omega)]
    | some seq =>
      simp [CachedL3Batch.updates, updatesFrom, CachedL3Batch.rows, CachedL3Batch.rowAt, hseq]

/-- After `n` rows, the updates that the source makes of the batches are those of the stream. -/
theorem flatMap_updates_iff (batches : List CachedL3Batch) (n : ℕ) :
    batches.flatMap (·.updates symbolId) = updatesFrom symbolId n (batches.flatMap (·.rows)) ↔
      ∀ pre b post, batches = pre ++ b :: post → b.seq = none → 0 < b.numRows →
        n = 0 ∧ ∀ b' ∈ pre, b'.numRows = 0 := by
  induction batches generalizing n with
  | nil => simp [updatesFrom]
  | cons b batches ih =>
    have hlength : (b.updates symbolId).length = (updatesFrom symbolId n b.rows).length := by
      simp [CachedL3Batch.updates, updatesFrom]
    have hsplit : b.updates symbolId ++ batches.flatMap (·.updates symbolId) =
        updatesFrom symbolId n b.rows ++ updatesFrom symbolId (n + b.rows.length)
          (batches.flatMap (·.rows)) ↔
        b.updates symbolId = updatesFrom symbolId n b.rows ∧ batches.flatMap (·.updates symbolId) =
          updatesFrom symbolId (n + b.rows.length) (batches.flatMap (·.rows)) :=
      ⟨fun h => List.append_inj h hlength, fun ⟨h₁, h₂⟩ => by rw [h₁, h₂]⟩
    rw [List.flatMap_cons, List.flatMap_cons, updatesFrom_append, hsplit,
      updates_eq_updatesFrom_iff, ih,
      CachedL3Batch.length_rows]
    constructor
    · rintro ⟨hb, hrest⟩ pre b' post heq hseq hrows
      cases pre with
      | nil =>
        obtain ⟨rfl, rfl⟩ := List.cons.inj heq
        exact ⟨hb hseq hrows, by simp⟩
      | cons b'' pre =>
        obtain ⟨rfl, rfl⟩ := List.cons.inj heq
        obtain ⟨hzero, hpre⟩ := hrest pre b' post rfl hseq hrows
        refine ⟨by omega, fun b'' hb'' => ?_⟩
        rcases List.mem_cons.1 hb'' with rfl | hb''
        · omega
        · exact hpre b'' hb''
    · intro h
      refine ⟨fun hseq hrows => (h [] b batches rfl hseq hrows).1,
        fun pre b' post heq hseq hrows => ?_⟩
      obtain ⟨hzero, hpre⟩ := h (b :: pre) b' post (by rw [heq]; rfl) hseq hrows
      have hb := hpre b List.mem_cons_self
      exact ⟨by omega, fun b'' hb'' => hpre b'' (List.mem_cons_of_mem _ hb'')⟩

/-- The source gives the updates of the rows exactly if no rows come before a batch without sequence
numbers. -/
theorem gives_iff {reader : ArrowReader} {batches : List CachedL3Batch}
    (h : Opens cast reader batches)
    {rows : List L3Row} (hrows : batches.flatMap (·.rows) = rows)
    (hvalid : ∀ row ∈ rows, row.Valid) :
    Gives cast symbolId reader rows ↔ FallbackFirst batches := by
  have hfirst : FallbackFirst batches ↔ batches.flatMap (·.updates symbolId) =
      L3Row.updates symbolId rows := by
    have hplaces : updatesFrom symbolId 0 rows = L3Row.updates symbolId rows := by
      simp [updatesFrom, L3Row.updates]
    rw [← hplaces, ← hrows, flatMap_updates_iff]
    simp [FallbackFirst]
  subst hrows
  have helements : ArrowSource.elements (format cast) symbolId reader =
      (batches.flatMap (·.updates symbolId)).map .ok := elements_of_opens h hvalid
  obtain ⟨source, hnew, hcalls, -⟩ := ArrowSource.exists_tryNew helements
  rw [hfirst]
  constructor
  · rintro ⟨source', hnew', hcalls'⟩
    rw [hnew] at hnew'
    obtain rfl := Except.ok.inj hnew'
    refine List.ext_getElem? fun k => ?_
    have hk := hcalls' k
    rw [hcalls] at hk
    exact Except.ok.inj hk
  · intro heq
    exact ⟨source, hnew, fun k => heq ▸ hcalls k⟩

/-- Two ways to cut the same rows give the same updates, each row once and in order, exactly if in
both of them no rows come before a batch without sequence numbers. -/
theorem ignores_cuts_iff {reader reader' : ArrowReader} {batches batches' : List CachedL3Batch}
    (h : Opens cast reader batches) (h' : Opens cast reader' batches') {rows : List L3Row}
    (hrows : batches.flatMap (·.rows) = rows) (hrows' : batches'.flatMap (·.rows) = rows)
    (hvalid : ∀ row ∈ rows, row.Valid) :
    Gives cast symbolId reader rows ∧ Gives cast symbolId reader' rows ↔
      FallbackFirst batches ∧ FallbackFirst batches' :=
  and_congr (gives_iff h hrows hvalid) (gives_iff h' hrows' hvalid)

/-- A batch of orders without sequence numbers. -/
def withoutSeq (orderIds : List ℤ) : RecordBatch where
  numRows := orderIds.length
  columns := [("ts_exchange", ⟨.int64, orderIds.map fun _ => some 1000⟩),
    ("price", ⟨.int64, orderIds.map fun _ => some 100⟩),
      ("qty", ⟨.int64, orderIds.map fun _ => some 5⟩),
    ("side", ⟨.int8, orderIds.map fun _ => some 1⟩), ("order_id", ⟨.uint64, orderIds.map some⟩),
    ("action", ⟨.int8, orderIds.map fun _ => some 1⟩)]
  length_eq := by simp

/-- Rows that add one order each, without a column of sequence numbers. -/
def withoutSeqRows (orderIds : List ℤ) : List L3Row :=
  orderIds.map fun id => ⟨1000, none, id, 100, 5, 1, 1⟩

/-- An empty batch before the rows makes no difference. -/
theorem ignores_cuts_iff_sample :
    Gives safeCast 7 [.ok (withoutSeq [20, 21])] (withoutSeqRows [20, 21]) ∧
      Gives safeCast 7 [.ok (withoutSeq []), .ok (withoutSeq [20, 21])]
        (withoutSeqRows [20, 21]) := by
  let opened (orderIds : List ℤ) : CachedL3Batch :=
    ⟨orderIds.map fun _ => 1000, orderIds.map fun _ => 100, orderIds.map fun _ => 5,
      orderIds.map fun _ => 1, none, orderIds, orderIds.map fun _ => 1, orderIds.length⟩
  have hone : Opens safeCast [.ok (withoutSeq [20, 21])] [opened [20, 21]] :=
    .cons ⟨_, rfl, rfl⟩ .nil
  have htwo : Opens safeCast [.ok (withoutSeq []), .ok (withoutSeq [20, 21])] [opened [],
      opened [20, 21]] :=
    .cons ⟨_, rfl, rfl⟩ hone
  have hvalid : ∀ row ∈ withoutSeqRows [20, 21], row.Valid := by
    intro row hrow
    obtain ⟨id, -, rfl⟩ := List.mem_map.1 hrow
    exact .inl rfl
  refine (ignores_cuts_iff hone htwo rfl rfl hvalid).2 ⟨?_, ?_⟩
  · intro pre b post heq _ _ b' hb'
    cases pre with
    | nil => cases hb'
    | cons b'' pre => simp at heq
  · intro pre b post heq _ _ b' hb'
    match pre with
    | [] => cases hb'
    | [first] =>
      obtain ⟨rfl, -⟩ := List.cons.inj heq
      rw [List.mem_singleton.1 hb']
      rfl
    | _ :: _ :: _ => simp at heq

/-- Two batches of one row : both rows get the number 0, where the second one is the row 1 of the
stream. -/
theorem counts_within_batch :
    ¬(Gives safeCast 7 [.ok (withoutSeq [20, 21])] (withoutSeqRows [20, 21]) ∧
      Gives safeCast 7 [.ok (withoutSeq [20]), .ok (withoutSeq [21])]
        (withoutSeqRows [20, 21])) := by
  rintro ⟨-, source, hnew, hcalls⟩
  have hsecond : ((ArrowSource.tryNew (format safeCast) 7
      [.ok (withoutSeq [20]), .ok (withoutSeq [21])]).toOption.map fun source => source.call 1) =
        some (.ok (some ⟨1000, 0, 7, 21, 100, 5, .buy, 1⟩)) := by
    decide
  rw [hnew] at hsecond
  have hcall : source.call 1 = .ok (some ⟨1000, 0, 7, 21, 100, 5, .buy, 1⟩) :=
    Option.some.inj hsecond
  rw [hcalls 1] at hcall
  exact absurd hcall (by decide)

end ArrowL3Source

end Backtester
