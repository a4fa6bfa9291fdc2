import Mathlib

/-!
# Reading one record ahead

A reader gives batches or errors, a batch is opened and its records are read one by one; each of
these steps may fail. A cursor holds the record that it gives next, and reads the one after it
before it gives the first away. What it will give is a function of what it still sees
(`Cursor.view`), however that is cut into batches : `Cursor.result_eq`. An error that is met while
reading ahead takes the place of the record before it (`answer`).
-/

namespace ReadAhead

variable {E R B α ε : Type*}

/-- How batches are opened and read, and what an error of the reader is. -/
structure Format (E R B α ε : Type*) where
  readerError : E → ε
  load : R → Except ε B
  numRows : B → ℕ
  readAt : B → ℕ → Except ε α

/-- A reader of batches, with the batch that is open and the element read ahead. -/
structure Cursor (E R B α : Type*) where
  reader : List (Except E R)
  batch : Option B := none
  idx : ℕ := 0
  next : Option α := none

namespace Format

variable (fmt : Format E R B α ε)

/-- The records of a batch from an index on. -/
def recordsFrom (b : B) (idx : ℕ) : List (Except ε α) :=
  (List.range' idx (fmt.numRows b - idx)).map (fmt.readAt b)

/-- What is read from what the reader gives. -/
def records : Except E R → List (Except ε α)
  | .error err => [.error (fmt.readerError err)]
  | .ok r =>
    match fmt.load r with
    | .error err => [.error err]
    | .ok b => fmt.recordsFrom b 0

theorem recordsFrom_of_lt {b : B} {idx : ℕ} (h : idx < fmt.numRows b) :
    fmt.recordsFrom b idx = fmt.readAt b idx :: fmt.recordsFrom b (idx + 1) := by
  obtain ⟨n, hn⟩ : ∃ n, fmt.numRows b - idx = n + 1 := ⟨fmt.numRows b - idx - 1, by omega⟩
  have hrest : fmt.numRows b - (idx + 1) = n := by omega
  rw [recordsFrom, recordsFrom, hn, hrest, List.range'_succ, List.map_cons]

theorem recordsFrom_of_le {b : B} {idx : ℕ} (h : fmt.numRows b ≤ idx) :
    fmt.recordsFrom b idx = [] := by
  rw [recordsFrom, Nat.sub_eq_zero_of_le h]
  rfl

theorem records_of_load {r : R} {b : B} (h : fmt.load r = .ok b) :
    fmt.records (.ok r) = fmt.recordsFrom b 0 := by
  rw [records, h]

/-- Read the record at `idx`, or open batches until there is one. -/
def advanceFrom (next : Option α) (reader : List (Except E R)) (batch : Option B) (idx : ℕ) :
    Except ε Unit × Cursor E R B α :=
  match batch.filter (idx < fmt.numRows ·) with
  | some b =>
    match fmt.readAt b idx with
    | .error err => (.error err, ⟨reader, batch, idx, next⟩)
    | .ok a => (.ok (), ⟨reader, batch, idx + 1, some a⟩)
  | none =>
    match reader with
    | [] => (.ok (), ⟨[], none, idx, none⟩)
    | .error err :: reader => (.error (fmt.readerError err), ⟨reader, batch, idx, next⟩)
    | .ok r :: reader =>
      match fmt.load r with
      | .error err => (.error err, ⟨reader, batch, idx, next⟩)
      | .ok b => advanceFrom next reader (some b) 0

end Format

namespace Cursor

variable (fmt : Format E R B α ε)

/-- Reads the next element. -/
def advance (c : Cursor E R B α) : Except ε Unit × Cursor E R B α :=
  fmt.advanceFrom c.next c.reader c.batch c.idx

/-- A cursor that has read its first record. -/
def start (reader : List (Except E R)) : Except ε (Cursor E R B α) :=
  match advance fmt { reader := reader } with
  | (.error err, _) => .error err
  | (.ok _, c) => .ok c

/-- The element read ahead. -/
def peek (c : Cursor E R B α) : Except ε (Option α) := .ok c.next

/-- Give the next record, once the one after it is read. -/
def take (c : Cursor E R B α) : Except ε (Option α) × Cursor E R B α :=
  match c.next with
  | none => (.ok none, c)
  | some a =>
    match advance fmt { c with next := none } with
    | (.error err, c) => (.error err, c)
    | (.ok _, c) => (.ok (some a), c)

/-- What was not read yet. -/
def pending (c : Cursor E R B α) : List (Except ε α) :=
  (c.batch.elim [] fun b => fmt.recordsFrom b c.idx) ++ c.reader.flatMap fmt.records

/-- What the cursor still sees. -/
def view (c : Cursor E R B α) : List (Except ε α) :=
  match c.next with
  | none => []
  | some a => .ok a :: pending fmt c

/-- The cursor after some calls of `take`. -/
def after : ℕ → Cursor E R B α → Cursor E R B α
  | 0, c => c
  | k + 1, c => after k (take fmt c).2

/-- What call `k` of `take` gives, counted from 0. -/
def result (c : Cursor E R B α) (k : ℕ) : Except ε (Option α) := (take fmt (after fmt k c)).1

/-! ## What is given -/

variable {fmt}

theorem advanceFrom_of_lt (next : Option α) (reader : List (Except E R)) {b : B} {idx : ℕ}
    (h : idx < fmt.numRows b) : fmt.advanceFrom next reader (some b) idx =
      match fmt.readAt b idx with
      | .error err => (.error err, ⟨reader, some b, idx, next⟩)
      | .ok a => (.ok (), ⟨reader, some b, idx + 1, some a⟩) := by
  have hfilter : (some b).filter (fun b => decide (idx < fmt.numRows b)) = some b := by simp [h]
  unfold Format.advanceFrom
  rw [hfilter]

/-- The batch is read, or there is none. -/
theorem advanceFrom_of_done (next : Option α) (reader : List (Except E R)) {batch : Option B}
    {idx : ℕ} (h : ∀ b ∈ batch, fmt.numRows b ≤ idx) : fmt.advanceFrom next reader batch idx =
      match reader with
      | [] => (.ok (), ⟨[], none, idx, none⟩)
      | .error err :: reader => (.error (fmt.readerError err), ⟨reader, batch, idx, next⟩)
      | .ok r :: reader =>
        match fmt.load r with
        | .error err => (.error err, ⟨reader, batch, idx, next⟩)
        | .ok b => fmt.advanceFrom next reader (some b) 0 := by
  have hfilter : batch.filter (fun b => decide (idx < fmt.numRows b)) = none := by
    rw [Option.filter_eq_none_iff]
    exact fun b hb => by simpa using h b hb
  rw [Format.advanceFrom.eq_def, hfilter]

theorem elim_of_done {batch : Option B} {idx : ℕ} (h : ∀ b ∈ batch, fmt.numRows b ≤ idx) :
    (batch.elim [] fun b => fmt.recordsFrom b idx) = [] := by
  cases batch with
  | none => rfl
  | some b => exact fmt.recordsFrom_of_le (h b rfl)

/-- What advancing does when `l` was not read yet : it reads the first of it, if that can be
read. -/
def Advances (fmt : Format E R B α ε) (next : Option α) (res : Except ε Unit × Cursor E R B α) :
    List (Except ε α) → Prop
  | [] => ∃ c, res = (.ok (), c) ∧ c.next = none
  | .ok a :: l => ∃ c, res = (.ok (), c) ∧ c.next = some a ∧ c.pending fmt = l
  | .error err :: _ => ∃ c, res = (.error err, c) ∧ c.next = next

theorem advances_of_lt (next : Option α) (reader : List (Except E R)) {b : B} {idx : ℕ}
    (h : idx < fmt.numRows b) : Advances fmt next (fmt.advanceFrom next reader (some b) idx)
      (fmt.recordsFrom b idx ++ reader.flatMap fmt.records) := by
  rw [fmt.recordsFrom_of_lt h, List.cons_append, advanceFrom_of_lt next reader h]
  cases fmt.readAt b idx with
  | error err => exact ⟨_, rfl, rfl⟩
  | ok a => exact ⟨_, rfl, rfl, rfl⟩

theorem advances_advanceFrom (next : Option α) (reader : List (Except E R)) (batch : Option B)
    (idx : ℕ) :
    Advances fmt next (fmt.advanceFrom next reader batch idx)
      ((batch.elim [] fun b => fmt.recordsFrom b idx) ++ reader.flatMap fmt.records) := by
  induction reader generalizing batch idx with
  | nil =>
    by_cases hmore : ∃ b ∈ batch, idx < fmt.numRows b
    · obtain ⟨b, rfl, hlt⟩ := hmore
      exact advances_of_lt next [] hlt
    · have hdone : ∀ b ∈ batch, fmt.numRows b ≤ idx :=
        fun b hb => not_lt.1 fun hlt => hmore ⟨b, hb, hlt⟩
      rw [advanceFrom_of_done next [] hdone, elim_of_done hdone]
      exact ⟨_, rfl, rfl⟩
  | cons r reader ih =>
    by_cases hmore : ∃ b ∈ batch, idx < fmt.numRows b
    · obtain ⟨b, rfl, hlt⟩ := hmore
      exact advances_of_lt next (r :: reader) hlt
    · have hdone : ∀ b ∈ batch, fmt.numRows b ≤ idx :=
        fun b hb => not_lt.1 fun hlt => hmore ⟨b, hb, hlt⟩
      rw [advanceFrom_of_done next _ hdone, elim_of_done hdone, List.nil_append, List.flatMap_cons]
      cases r with
      | error err => exact ⟨_, rfl, rfl⟩
      | ok r =>
        dsimp only [Format.records]
        cases fmt.load r with
        | error err => exact ⟨_, rfl, rfl⟩
        | ok b => exact ih (some b) 0

theorem advances_advance (fmt : Format E R B α ε) (c : Cursor E R B α) :
    Advances fmt c.next (c.advance fmt) (c.pending fmt) :=
  advances_advanceFrom c.next c.reader c.batch c.idx

/-! ## The calls -/

/-- What call `k` gives of what is still seen : a record, if the one after it could be read. -/
def answer : List (Except ε α) → ℕ → Except ε (Option α)
  | [], _ => .ok none
  | .error err :: _, _ => .error err
  | .ok a :: [], 0 => .ok (some a)
  | .ok _ :: [], _ + 1 => .ok none
  | .ok _ :: .error err :: _, 0 => .error err
  | .ok _ :: .error _ :: _, _ + 1 => .ok none
  | .ok a :: .ok _ :: _, 0 => .ok (some a)
  | .ok _ :: .ok b :: l, k + 1 => answer (.ok b :: l) k

theorem take_of_none {c : Cursor E R B α} (h : c.next = none) : c.take fmt = (.ok none, c) := by
  rw [take, h]

theorem after_of_none {c : Cursor E R B α} (h : c.next = none) (k : ℕ) : c.after fmt k = c := by
  induction k with
  | zero => rfl
  | succ k ih => rw [after, take_of_none h, ih]

theorem result_of_none {c : Cursor E R B α} (h : c.next = none) (k : ℕ) :
    c.result fmt k = .ok none := by
  rw [result, after_of_none h, take_of_none h]

/-- A call that has a record to give. -/
theorem take_cases (fmt : Format E R B α ε) {c : Cursor E R B α} {a : α} (h : c.next = some a) :
    (∃ c', c.pending fmt = [] ∧ c.take fmt = (.ok (some a), c') ∧ c'.next = none) ∨
    (∃ c' b, c.pending fmt = .ok b :: c'.pending fmt ∧ c.take fmt = (.ok (some a), c') ∧
      c'.next = some b) ∨
    ∃ c' err l, c.pending fmt = .error err :: l ∧ c.take fmt = (.error err, c') ∧
      c'.next = none := by
  have hspec := advances_advance fmt { c with next := none }
  have hpending : ({ c with next := none } : Cursor E R B α).pending fmt = c.pending fmt := rfl
  rw [hpending] at hspec
  have htake : c.take fmt = match advance fmt { c with next := none } with
      | (.error err, c) => (.error err, c)
      | (.ok _, c) => (.ok (some a), c) := by
    rw [take, h]
  cases hl : c.pending fmt with
  | nil =>
    rw [hl] at hspec
    obtain ⟨c', hadvance, hnext⟩ := hspec
    rw [hadvance] at htake
    exact .inl ⟨c', rfl, htake, hnext⟩
  | cons x l =>
    rw [hl] at hspec
    cases x with
    | ok b =>
      obtain ⟨c', hadvance, hnext, rfl⟩ := hspec
      rw [hadvance] at htake
      exact .inr (.inl ⟨c', b, rfl, htake, hnext⟩)
    | error err =>
      obtain ⟨c', hadvance, hnext⟩ := hspec
      rw [hadvance] at htake
      exact .inr (.inr ⟨c', err, l, rfl, htake, hnext⟩)

/-- What the calls give depends on what is still seen only. -/
theorem result_eq (c : Cursor E R B α) (k : ℕ) : c.result fmt k = answer (c.view fmt) k := by
  induction k generalizing c with
  | zero =>
    cases hnext : c.next with
    | none => rw [result_of_none hnext, view, hnext, answer]
    | some a =>
      rw [view, hnext, result, after]
      dsimp only
      obtain ⟨c', hl, htake, -⟩ | ⟨c', b, hl, htake, -⟩ | ⟨c', err, l, hl, htake, -⟩ :=
        take_cases fmt hnext
      · rw [hl, htake, answer]
      · rw [hl, htake, answer]
      · rw [hl, htake, answer]
  | succ k ih =>
    cases hnext : c.next with
    | none => rw [result_of_none hnext, view, hnext, answer]
    | some a =>
      have hresult : c.result fmt (k + 1) = (c.take fmt).2.result fmt k := rfl
      rw [view, hnext, hresult]
      dsimp only
      obtain ⟨c', hl, htake, hnext'⟩ | ⟨c', b, hl, htake, hnext'⟩ |
          ⟨c', err, l, hl, htake, hnext'⟩ :=
        take_cases fmt hnext
      · rw [hl, htake, result_of_none hnext', answer]
      · rw [hl, htake, ih, view, hnext', answer]
      · rw [hl, htake, result_of_none hnext', answer]

/-- A call gives the first answer, and unless that is an error the rest is still seen. -/
theorem take_eq (fmt : Format E R B α ε) (c : Cursor E R B α) :
    ∃ c', c.take fmt = (answer (c.view fmt) 0, c') ∧
    ∀ r, answer (c.view fmt) 0 = .ok r → c'.view fmt = (c.view fmt).tail := by
  cases hnext : c.next with
  | none =>
    have hview : c.view fmt = [] := by rw [view, hnext]
    exact ⟨c, by rw [take_of_none hnext, hview, answer], fun _ _ => by rw [hview, List.tail_nil]⟩
  | some a =>
    have hview : c.view fmt = .ok a :: c.pending fmt := by rw [view, hnext]
    rw [hview]
    obtain ⟨c', hl, htake, hnext'⟩ | ⟨c', b, hl, htake, hnext'⟩ | ⟨c', err, l, hl, htake, hnext'⟩ :=
      take_cases fmt hnext
    · exact ⟨c', by rw [htake, hl, answer], fun _ _ => by rw [view, hnext', List.tail_cons, hl]⟩
    · exact ⟨c', by rw [htake, hl, answer], fun _ _ => by rw [view, hnext', List.tail_cons, hl]⟩
    · refine ⟨c', by rw [htake, hl, answer], fun r hr => ?_⟩
      rw [hl, answer] at hr
      cases hr

/-- A cursor is started if the first record can be read, and sees the whole reader then. -/
theorem start_cases (fmt : Format E R B α ε) (reader : List (Except E R)) :
    (∃ c : Cursor E R B α, start fmt reader = .ok c ∧ c.view fmt = reader.flatMap fmt.records ∧
      ∀ err l, reader.flatMap fmt.records ≠ .error err :: l) ∨
    ∃ err l, reader.flatMap fmt.records = .error err :: l ∧ start fmt reader = .error err := by
  have hspec := advances_advance fmt ({ reader := reader } : Cursor E R B α)
  have hpending : ({ reader := reader } : Cursor E R B α).pending fmt =
    reader.flatMap fmt.records := rfl
  rw [hpending] at hspec
  cases hl : reader.flatMap fmt.records with
  | nil =>
    rw [hl] at hspec
    obtain ⟨c, hadvance, hnext⟩ := hspec
    refine .inl ⟨c, by rw [start, hadvance], by rw [view, hnext], by simp⟩
  | cons x l =>
    rw [hl] at hspec
    cases x with
    | ok a =>
      obtain ⟨c, hadvance, hnext, hrest⟩ := hspec
      refine .inl ⟨c, by rw [start, hadvance], ?_, by simp⟩
      rw [view, hnext, ← hrest]
    | error err =>
      obtain ⟨c, hadvance, -⟩ := hspec
      exact .inr ⟨err, l, rfl, by rw [start, hadvance]⟩

/-! ## Streams with and without an error -/

/-- A stream has no error, or a first one. -/
theorem eq_map_ok_or (l : List (Except ε α)) :
    (∃ rows : List α, l = rows.map .ok) ∨
      ∃ (rows : List α) (err : ε) (rest : List (Except ε α)),
      l = rows.map .ok ++ .error err :: rest := by
  induction l with
  | nil => exact .inl ⟨[], rfl⟩
  | cons x l ih =>
    cases x with
    | error err => exact .inr ⟨[], err, l, rfl⟩
    | ok a =>
      obtain ⟨rows, rfl⟩ | ⟨rows, err, rest, rfl⟩ := ih
      · exact .inl ⟨a :: rows, rfl⟩
      · exact .inr ⟨a :: rows, err, rest, rfl⟩

theorem answer_ok (rows : List α) (k : ℕ) :
    answer (rows.map .ok : List (Except ε α)) k = .ok rows[k]? := by
  induction rows generalizing k with
  | nil => rfl
  | cons a rows ih =>
    cases rows with
    | nil => cases k <;> rfl
    | cons b rows =>
      cases k with
      | zero => rfl
      | succ k => exact ih k

/-- The record before an error is lost. -/
theorem answer_error (a : α) (rows : List α) (err : ε) (rest : List (Except ε α)) :
    answer ((a :: rows).map .ok ++ .error err :: rest) rows.length = .error err := by
  induction rows generalizing a with
  | nil => rfl
  | cons b rows ih => exact ih b

/-- Where no error is seen, `peek` shows what `take` gives. -/
theorem peek_eq_result {c : Cursor E R B α} {rows : List α} (h : c.view fmt = rows.map .ok)
    (k : ℕ) :
    (c.after fmt k).peek = c.result fmt k := by
  rw [result_eq, h, answer_ok]
  induction k generalizing c rows with
  | zero =>
    cases hnext : c.next with
    | none =>
      rw [view, hnext, eq_comm, List.map_eq_nil_iff] at h
      rw [after, peek, hnext, h]
      rfl
    | some a =>
      rw [view, hnext] at h
      cases rows with
      | nil => cases h
      | cons b rows =>
        obtain ⟨hab, -⟩ := List.cons.inj h
        rw [after, peek, hnext, Except.ok.inj hab]
        rfl
  | succ k ih =>
    cases hnext : c.next with
    | none =>
      rw [view, hnext, eq_comm, List.map_eq_nil_iff] at h
      rw [after_of_none hnext, peek, hnext, h]
      rfl
    | some a =>
      rw [view, hnext] at h
      cases rows with
      | nil => cases h
      | cons b rows =>
        have hrest : c.pending fmt = rows.map .ok := (List.cons.inj h).2
        have hview : (c.take fmt).2.view fmt = rows.map .ok := by
          obtain ⟨c', hl, htake, hnext'⟩ | ⟨c', b', hl, htake, hnext'⟩ |
              ⟨c', err, l, hl, htake, hnext'⟩ :=
            take_cases fmt hnext
          · rw [htake, view, hnext', ← hrest, hl]
          · rw [htake, view, hnext', ← hrest, hl]
          · rw [hl] at hrest
            cases rows with
            | nil => cases hrest
            | cons b' rows => cases (List.cons.inj hrest).1
        exact ih hview

end Cursor

end ReadAhead
