import Backtester.Library.ReadAhead
import Backtester.Source

/-!
# Record batches

The columns of a batch, as the Arrow sources check and read them. `cast` of the Arrow crate is a
parameter : a column of the wanted type, where a value that does not fit is a null, or an error
text.
-/

namespace Backtester

/-- The types of columns that the sources tell apart. -/
inductive DataType where
  | int8 | int16 | int32 | int64
  | uint8 | uint16 | uint32 | uint64
  | other (name : String)
  deriving DecidableEq, Repr

namespace DataType

/-- The text of the type. -/
def text : DataType → String
  | int8 => "Int8"
  | int16 => "Int16"
  | int32 => "Int32"
  | int64 => "Int64"
  | uint8 => "UInt8"
  | uint16 => "UInt16"
  | uint32 => "UInt32"
  | uint64 => "UInt64"
  | other name => name

/-- The types that `is_integer_type` lists. -/
def isIntegerType : DataType → Bool
  | other _ => false
  | _ => true

/-- The integers of the type. -/
def holds : DataType → ℤ → Bool
  | int8, x => -2 ^ 7 ≤ x && x < 2 ^ 7
  | int16, x => -2 ^ 15 ≤ x && x < 2 ^ 15
  | int32, x => -2 ^ 31 ≤ x && x < 2 ^ 31
  | int64, x => -2 ^ 63 ≤ x && x < 2 ^ 63
  | uint8, x => 0 ≤ x && x < 2 ^ 8
  | uint16, x => 0 ≤ x && x < 2 ^ 16
  | uint32, x => 0 ≤ x && x < 2 ^ 32
  | uint64, x => 0 ≤ x && x < 2 ^ 64
  | other _, _ => false

end DataType

/-- A column. `none` is a null. -/
structure Column where
  dataType : DataType
  values : List (Option ℤ)
  deriving DecidableEq, Repr

/-- The number of missing values. -/
def Column.nullCount (column : Column) : ℕ := column.values.countP Option.isNone

/-- A batch, whose columns all have its number of rows. -/
structure RecordBatch where
  numRows : ℕ
  columns : List (String × Column)
  length_eq : ∀ column ∈ columns, column.2.values.length = numRows

/-- The first column of a name. -/
def RecordBatch.columnByName (batch : RecordBatch) (name : String) : Option Column :=
  (batch.columns.find? (·.1 = name)).map Prod.snd

/-- What a reader gives until it ends. -/
abbrev ArrowReader := List (Except String RecordBatch)

/-! ## Columns of integers -/

/-- What `cast` makes of a column and a type. -/
abbrev Cast := Column → DataType → Except String Column

/-- A column without nulls. -/
def Column.ofValues (dataType : DataType) (values : List ℤ) : Column := ⟨dataType, values.map some⟩

/-- A column of integers is cast to a type of integers value by value, as long as every value
fits. -/
def Cast.KeepsIntegers (cast : Cast) : Prop :=
  ∀ (dataType targetType : DataType) (values : List ℤ), dataType.isIntegerType = true →
    (∀ x ∈ values, targetType.holds x = true) →
    cast (.ofValues dataType values) targetType = .ok (.ofValues targetType values)

/-- A cast between columns of integers that makes a null of what does not fit. It stands for `cast`
where a stream is run. -/
def safeCast : Cast := fun column targetType =>
  .ok ⟨targetType, column.values.map fun value => value.filter targetType.holds⟩

/-- A safe cast keeps the integers that fit. -/
theorem safeCast_keepsIntegers : safeCast.KeepsIntegers := by
  intro dataType targetType values _ hholds
  have hfilter : (values.map some).map (fun value => value.filter targetType.holds) =
      values.map some := by
    rw [List.map_map]
    refine List.map_congr_left fun x hx => ?_
    simp [hholds x hx]
  rw [safeCast, Column.ofValues, hfilter]
  rfl

/-- The first column there is of the names. -/
def requiredColumn (batch : RecordBatch) (names : List String) : Except TickSourceError Column :=
  match names.findSome? batch.columnByName with
  | some column => .ok column
  | none => .error (.missingColumn names)

section

variable (cast : Cast)

/-- A column of integers as another type. Values that are missing or do not fit are errors. -/
def castIntegerArray (column : Column) (name : String) (targetType : DataType) :
    Except TickSourceError Column :=
  if !column.dataType.isIntegerType then .error (.nonIntegerColumn name column.dataType.text)
  else if 0 < column.nullCount then .error (.nullColumn name)
  else
    match cast column targetType with
    | .error source => .error (.cast name targetType.text source)
    | .ok casted =>
      if 0 < casted.nullCount then .error (.outOfRange name targetType.text) else .ok casted

/-- The common part of `integer_array_to_i64` and its siblings : the values of the column, as an
array of `targetType`. -/
def integerArrayTo (targetType : DataType) (column : Column) (name : String) :
    Except TickSourceError (List ℤ) := do
  let array ← castIntegerArray cast column name targetType
  if array.dataType = targetType then .ok (array.values.map (·.getD 0))
  else .error (.cast name targetType.text "cast returned wrong type")

/-- The values of a column as `i64`. -/
def integerArrayToI64 := integerArrayTo cast .int64

/-- The values of a column as `u64`. -/
def integerArrayToU64 := integerArrayTo cast .uint64

/-- The values of a column as `i8`. -/
def integerArrayToI8 := integerArrayTo cast .int8

/-- The column under the first of the names that is there, an error if none is. -/
def getRequiredI64 (batch : RecordBatch) (names : List String) :
    Except TickSourceError (List ℤ) := do
  integerArrayToI64 cast (← requiredColumn batch names) (names.headD "")

/-- The column under the first of the names that is there, as `u64`. -/
def getRequiredU64 (batch : RecordBatch) (names : List String) :
    Except TickSourceError (List ℤ) := do
  integerArrayToU64 cast (← requiredColumn batch names) (names.headD "")

/-- The column of a name, if it is there. -/
def getOptionalI64 (batch : RecordBatch) (name : String) :
    Except TickSourceError (Option (List ℤ)) :=
  match batch.columnByName name with
  | none => .ok none
  | some column => (integerArrayToI64 cast column name).map some

/-- The column of a name as `u64`, if it is there. -/
def getOptionalU64 (batch : RecordBatch) (name : String) :
    Except TickSourceError (Option (List ℤ)) :=
  match batch.columnByName name with
  | none => .ok none
  | some column => (integerArrayToU64 cast column name).map some

end

/-- The value of an array at a row. Casts keep the number of rows. -/
def valueAt (array : List ℤ) (idx : ℕ) : ℤ := array.getD idx 0

/-- The side that a number stands for. -/
def Side.tryFrom (value : ℤ) : Except String Side :=
  if value = 1 then .ok .buy
  else if value = -1 then .ok .sell
  else if value = 0 then .ok .none
  else .error "invalid Side (expected 1, -1, or 0)"

/-- The side of a row. -/
def readSide (value : ℤ) : Except TickSourceError Side :=
  match Side.tryFrom value with
  | .ok side => .ok side
  | .error _ => .error (.invalidSide value)

end Backtester
