import SchemaCatalog.Word

/-!
# Columns

The data types of columns, which type may be widened to which, and column definitions.
-/

namespace SchemaCatalog

/-- The number of a zone, table, index or schema. -/
abbrev ObjectId := Word32

/-- The type of the values in a column. -/
inductive DataType where
  | boolean
  | int8
  | int16
  | int32
  | int64
  | float
  | double
  | decimal
  | date
  | time
  | datetime
  | timestamp
  | uuid
  | string
  | byteArray
  deriving Repr, DecidableEq

namespace DataType

/-- Every data type once. -/
def all : List DataType :=
  [boolean, int8, int16, int32, int64, float, double, decimal, date, time, datetime, timestamp,
    uuid, string, byteArray]

/-- The name by which statements and messages call a type. -/
def text : DataType → String
  | boolean => "BOOLEAN"
  | int8 => "INT8"
  | int16 => "INT16"
  | int32 => "INT32"
  | int64 => "INT64"
  | float => "FLOAT"
  | double => "DOUBLE"
  | decimal => "DECIMAL"
  | date => "DATE"
  | time => "TIME"
  | datetime => "DATETIME"
  | timestamp => "TIMESTAMP"
  | uuid => "UUID"
  | string => "STRING"
  | byteArray => "BYTE_ARRAY"

/-- Whether every value of the first type is one of the second, and the types differ. -/
def widensTo : DataType → DataType → Bool
  | int8, int16 => true
  | int8, int32 => true
  | int8, int64 => true
  | int16, int32 => true
  | int16, int64 => true
  | int32, int64 => true
  | float, double => true
  | _, _ => false

/-- Whether columns of the type have a length. -/
def hasLength : DataType → Bool
  | string => true
  | byteArray => true
  | _ => false

/-- Whether columns of the type have a precision and a scale. -/
def hasPrecision : DataType → Bool
  | decimal => true
  | _ => false

/-- The precision of decimal columns that do not state one. -/
def decimalPrecision : Word32 := 19

/-- The scale of decimal columns that do not state one. -/
def decimalScale : Word32 := 3

/-- The length of columns of variable length that do not state one. -/
def varlenLength : Word32 := 65536

/-- The precision of a column of this type that does not state one. -/
def defaultPrecision (t : DataType) : Word32 := if t.hasPrecision then decimalPrecision else 0

/-- The scale of a column of this type that does not state one. -/
def defaultScale (t : DataType) : Word32 := if t.hasPrecision then decimalScale else 0

/-- The length of a column of this type that does not state one. -/
def defaultLength (t : DataType) : Word32 := if t.hasLength then varlenLength else 0

end DataType

/-- What a column holds where a row states no value. -/
inductive DefaultValue where
  | constant (text : String)
  | functionCall (name : String)
  deriving Repr, DecidableEq

/-- A column of a table. -/
structure Column where
  name : String
  dataType : DataType
  nullable : Bool
  precision : Word32
  scale : Word32
  length : Word32
  default : Option DefaultValue
  deriving Repr, DecidableEq

/-- The column that states nothing but its name, type and nullability. -/
def Column.ofType (name : String) (t : DataType) (nullable : Bool) : Column :=
  ⟨name, t, nullable, t.defaultPrecision, t.defaultScale, t.defaultLength, none⟩

end SchemaCatalog
