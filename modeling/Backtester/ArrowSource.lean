import Backtester.RecordBatch

/-!
# Arrow sources

The tick source and the L3 source read a stream of batches in the same way, one row ahead. While the
stream is in order a source gives the records of all its batches, one after the other, however they
are cut (`ArrowSource.yields_tryNew`). But a row or a batch that cannot be read is found when the
record before it is taken, and that record is dropped for the error : a source loses none exactly if
nothing is wrong in the stream, or its first row is (`ArrowSource.losesNone_iff`).
-/

open ReadAhead

namespace Backtester

variable {B α : Type}

/-- How batches are opened and read for a symbol. -/
abbrev ArrowFormat (B α : Type) := ℕ → Format String RecordBatch B α TickSourceError

/-- The records of one symbol, read from a stream of batches. -/
structure ArrowSource (fmt : ArrowFormat B α) where
  symbolId : ℕ
  cursor : Cursor String RecordBatch B α

namespace ArrowSource

variable {fmt : ArrowFormat B α}

/-- A source that has read its first record. -/
def tryNew (fmt : ArrowFormat B α) (symbolId : ℕ) (reader : ArrowReader) :
    Except TickSourceError (ArrowSource fmt) :=
  (Cursor.start (fmt symbolId) reader).map (⟨symbolId, ·⟩)

/-- The record read ahead. -/
def peek (source : ArrowSource fmt) : Except TickSourceError (Option α) := source.cursor.peek

/-- What a call gives, and the source after it. -/
def next (source : ArrowSource fmt) : Except TickSourceError (Option α) × ArrowSource fmt :=
  let (result, cursor) := source.cursor.take (fmt source.symbolId)
  (result, { source with cursor := cursor })

instance : Source (ArrowSource fmt) α where
  peek := peek
  next source :=
    match source.next with
    | (.ok record, source) => .ok (record, source)
    | (.error err, _) => .error err

/-! ## What the source gives -/

/-- What the stream holds : its records, and what cannot be read. -/
def elements (fmt : ArrowFormat B α) (symbolId : ℕ) (reader : ArrowReader) :
    List (Except TickSourceError α) :=
  reader.flatMap (fmt symbolId).records

/-- The source after some calls of `next`. -/
def after : ℕ → ArrowSource fmt → ArrowSource fmt
  | 0, source => source
  | k + 1, source => after k source.next.2

/-- What call `k` of `next` gives, counted from 0. -/
def call (source : ArrowSource fmt) (k : ℕ) : Except TickSourceError (Option α) :=
  (source.after k).next.1

/-- The calls move the cursor on. -/
theorem after_eq (source : ArrowSource fmt) (k : ℕ) :
    source.after k = ⟨source.symbolId, source.cursor.after (fmt source.symbolId) k⟩ := by
  induction k generalizing source with
  | zero => rfl
  | succ k ih => exact ih source.next.2

/-- A call gives what the cursor has in view. -/
theorem call_eq (source : ArrowSource fmt) (k : ℕ) :
    source.call k = Cursor.answer (source.cursor.view (fmt source.symbolId)) k := by
  rw [call, after_eq, ← Cursor.result_eq]
  rfl

/-- A source is built if the first row can be read, and sees the whole stream then. -/
theorem tryNew_cases (fmt : ArrowFormat B α) (symbolId : ℕ) (reader : ArrowReader) :
    (∃ cursor, tryNew fmt symbolId reader = .ok ⟨symbolId, cursor⟩ ∧
      cursor.view (fmt symbolId) = elements fmt symbolId reader ∧
      ∀ err rest, elements fmt symbolId reader ≠ .error err :: rest) ∨
    ∃ err rest, elements fmt symbolId reader = .error err :: rest ∧
      tryNew fmt symbolId reader = .error err := by
  rcases Cursor.start_cases (fmt symbolId) reader with
    ⟨cursor, hstart, hview, hgood⟩ | ⟨err, rest, hbad, hstart⟩
  · exact .inl ⟨cursor, by rw [tryNew, hstart]; rfl, hview, hgood⟩
  · exact .inr ⟨err, rest, hbad, by rw [tryNew, hstart]; rfl⟩

variable {symbolId : ℕ} {reader : ArrowReader}

/-- A source that sees records only yields them. -/
theorem yields_of_view {source : ArrowSource fmt} {rows : List α}
    (h : source.cursor.view (fmt source.symbolId) = rows.map .ok) : Yields source rows := by
  have hgives : ∀ (source source' : ArrowSource fmt) (a : α),
    source.next = (.ok (some a), source') →
      Source.next source = .ok (some a, source') := by
    intro source source' a hnext
    exact congrArg (fun r : Except TickSourceError (Option α) × ArrowSource fmt =>
      match r with
      | (.ok record, source) => Except.ok (record, source)
      | (.error err, _) => .error err) hnext
  have htakes : ∀ (source : ArrowSource fmt) (a : α) (c' : Cursor String RecordBatch B α),
      source.cursor.take (fmt source.symbolId) = (.ok (some a), c') →
      source.next = (.ok (some a), ⟨source.symbolId, c'⟩) := by
    intro source a c' htake
    rw [next, htake]
  induction rows generalizing source with
  | nil =>
    cases hnext : source.cursor.next with
    | none => exact .nil (congrArg Except.ok hnext)
    | some a =>
      rw [Cursor.view, hnext] at h
      cases h
  | cons a rows ih =>
    cases hnext : source.cursor.next with
    | none =>
      rw [Cursor.view, hnext] at h
      cases h
    | some b =>
      rw [Cursor.view, hnext] at h
      obtain ⟨hab, hrest⟩ := List.cons.inj h
      obtain rfl : b = a := Except.ok.inj hab
      obtain ⟨c', hl, htake, hnext'⟩ | ⟨c', b', hl, htake, hnext'⟩ |
          ⟨c', err, l, hl, htake, hnext'⟩ :=
        Cursor.take_cases (fmt source.symbolId) hnext
      · refine .cons (congrArg Except.ok hnext) (hgives _ _ _ (htakes source b c' htake)) (ih ?_)
        rw [Cursor.view, hnext', ← hrest, hl]
      · refine .cons (congrArg Except.ok hnext) (hgives _ _ _ (htakes source b c' htake)) (ih ?_)
        rw [Cursor.view, hnext', ← hrest, hl]
      · rw [hl] at hrest
        cases rows with
        | nil => cases hrest
        | cons b' rows => cases (List.cons.inj hrest).1

/-- A stream without errors yields its records in order. -/
theorem yields_tryNew {rows : List α} (h : elements fmt symbolId reader = rows.map .ok) :
    ∃ source, tryNew fmt symbolId reader = .ok source ∧ Yields source rows := by
  rcases tryNew_cases fmt symbolId reader with ⟨cursor, hnew, hview, -⟩ | ⟨err, rest, hbad, -⟩
  · exact ⟨_, hnew, yields_of_view (hview.trans h)⟩
  · rw [h] at hbad
    cases rows with
    | nil => cases hbad
    | cons row rows => cases (List.cons.inj hbad).1

/-- The source loses no record of the stream : the rows before the first thing that cannot be read
are given one by one, only then comes the error, and `peek` shows what `next` gives. -/
structure LosesNone (fmt : ArrowFormat B α) (symbolId : ℕ) (reader : ArrowReader) : Prop where
  untilError : ∀ (rows : List α) (err : TickSourceError) (rest : List (Except TickSourceError α)),
    rows ≠ [] → elements fmt symbolId reader = rows.map .ok ++ .error err :: rest →
    ∃ source, tryNew fmt symbolId reader = .ok source ∧
      (∀ k < rows.length, source.call k = .ok rows[k]?) ∧ source.call rows.length = .error err
  toEnd : ∀ rows : List α, elements fmt symbolId reader = rows.map .ok →
    ∃ source, tryNew fmt symbolId reader = .ok source ∧ ∀ k, source.call k = .ok rows[k]?
  peeks : ∀ source, tryNew fmt symbolId reader = .ok source →
    ∀ k, (source.after k).peek = source.call k

/-- A source of a stream in order. -/
theorem exists_tryNew {rows : List α} (h : elements fmt symbolId reader = rows.map .ok) :
    ∃ source, tryNew fmt symbolId reader = .ok source ∧ (∀ k, source.call k = .ok rows[k]?) ∧
      ∀ k, (source.after k).peek = source.call k := by
  rcases tryNew_cases fmt symbolId reader with ⟨cursor, hnew, hview, -⟩ | ⟨err, rest, hbad, -⟩
  · rw [h] at hview
    refine ⟨_, hnew, fun k => ?_, fun k => ?_⟩
    · rw [call_eq, hview, Cursor.answer_ok]
    · rw [call_eq, ← Cursor.result_eq, after_eq]
      exact Cursor.peek_eq_result hview k
  · rw [h] at hbad
    cases rows with
    | nil => cases hbad
    | cons row rows => cases (List.cons.inj hbad).1

/-- The source loses no row exactly if everything in the stream can be read, or not even its first
row. -/
theorem losesNone_iff : LosesNone fmt symbolId reader ↔
    (∀ err, .error err ∉ elements fmt symbolId reader) ∨
      ∃ err rest, elements fmt symbolId reader = .error err :: rest := by
  constructor
  · intro h
    rcases Cursor.eq_map_ok_or (elements fmt symbolId reader) with
      ⟨rows, hrows⟩ | ⟨rows, err, rest, hrows⟩
    · left
      intro err hmem
      rw [hrows] at hmem
      obtain ⟨row, -, hne⟩ := List.mem_map.mp hmem
      cases hne
    · cases rows with
      | nil => exact .inr ⟨err, rest, hrows⟩
      | cons row rows =>
        obtain ⟨source, hnew, hcalls, -⟩ := h.untilError _ err rest (List.cons_ne_nil _ _) hrows
        rcases tryNew_cases fmt symbolId reader with ⟨cursor, hnew', hview, -⟩ |
          ⟨err', rest', hbad, -⟩
        · rw [hnew] at hnew'
          obtain rfl := Except.ok.inj hnew'
          have hlast := hcalls rows.length (by simp)
          rw [call_eq, hview, hrows, Cursor.answer_error] at hlast
          cases hlast
        · exact .inr ⟨err', rest', hbad⟩
  · rintro (hgood | ⟨err, rest, hbad⟩)
    · rcases Cursor.eq_map_ok_or (elements fmt symbolId reader) with
        ⟨rows, hrows⟩ | ⟨rows, err, rest, hrows⟩
      · obtain ⟨source, hnew, hcalls, hpeeks⟩ := exists_tryNew hrows
        refine ⟨fun _ err _ _ heq => ?_, fun rows' heq => ?_, fun source' hnew' => ?_⟩
        · exact absurd (heq ▸ List.mem_append_right _ List.mem_cons_self) (hgood err)
        · have hsame : rows.map Except.ok = rows'.map (Except.ok (ε := TickSourceError)) :=
            hrows.symm.trans heq
          obtain rfl := List.map_injective_iff.mpr (fun a b => Except.ok.inj) hsame
          exact ⟨source, hnew, hcalls⟩
        · rw [hnew] at hnew'
          obtain rfl := Except.ok.inj hnew'
          exact hpeeks
      · exact absurd (hrows ▸ List.mem_append_right _ List.mem_cons_self) (hgood err)
    · have hfail : ∀ source, tryNew fmt symbolId reader ≠ .ok source := by
        intro source hnew
        rcases tryNew_cases fmt symbolId reader with ⟨_, -, -, hgood⟩ | ⟨err', _, -, hnew'⟩
        · exact hgood err rest hbad
        · rw [hnew'] at hnew
          cases hnew
      refine ⟨fun rows err' rest' hne heq => ?_, fun rows heq => ?_, fun source hnew => ?_⟩
      · rw [hbad] at heq
        cases rows with
        | nil => exact absurd rfl hne
        | cons row rows => cases (List.cons.inj heq).1
      · rw [hbad] at heq
        cases rows with
        | nil => cases heq
        | cons row rows => cases (List.cons.inj heq).1
      · exact absurd hnew (hfail source)

end ArrowSource

end Backtester
