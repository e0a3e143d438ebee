import SchemaCatalog.Object.Table
import SchemaCatalog.Object.Index
import SchemaCatalog.Object.Zone

/-!
# Statements

The statements that change a catalog, with everything they state. What is left out takes a default,
or keeps its value where something is altered.
-/

namespace SchemaCatalog

/-- A column as a statement states it. -/
structure ColumnSpec where
  name : String
  dataType : DataType
  nullable : Bool
  precision : Option Word32
  scale : Option Word32
  length : Option Word32
  default : Option DefaultValue
  deriving Repr, DecidableEq

/-- The column that a statement states. -/
def ColumnSpec.column (c : ColumnSpec) : Column :=
  let base := Column.ofType c.name c.dataType c.nullable
  { base with
    precision := c.precision.getD base.precision
    scale := c.scale.getD base.scale
    length := c.length.getD base.length
    default := c.default }

/-- What a statement may state about a zone. -/
structure ZoneSpec where
  partitions : Option Word32
  replicas : Option Word32
  autoAdjust : Option Word32
  scaleUp : Option Word32
  scaleDown : Option Word32
  filter : Option String
  deriving Repr, DecidableEq

/-- A zone with what is stated about it. -/
def ZoneSpec.over (p : ZoneSpec) (z : Zone) : Zone :=
  { z with
    partitions := p.partitions.getD z.partitions
    replicas := p.replicas.getD z.replicas
    autoAdjust := p.autoAdjust.getD z.autoAdjust
    scaleUp := p.scaleUp.getD z.scaleUp
    scaleDown := p.scaleDown.getD z.scaleDown
    filter := p.filter.getD z.filter }

/-- A new table. -/
structure CreateTable where
  schema : Option String
  table : String
  zone : Option String
  columns : List ColumnSpec
  primaryKey : List String
  colocation : Option (List String)
  deriving Repr, DecidableEq

/-- A change of one column. -/
structure AlterColumn where
  schema : Option String
  table : String
  column : String
  dataType : Option DataType
  notNull : Option Bool
  precision : Option Word32
  scale : Option Word32
  length : Option Word32
  default : Option DefaultValue
  deriving Repr, DecidableEq

/-- A column with what is stated about it. -/
def AlterColumn.over (a : AlterColumn) (c : Column) : Column where
  name := c.name
  dataType := a.dataType.getD c.dataType
  nullable := !a.notNull.getD (!c.nullable)
  precision := a.precision.getD c.precision
  scale := a.scale.getD c.scale
  length := a.length.getD c.length
  default := a.default.or c.default

/-- A new hash index. -/
structure CreateHashIndex where
  schema : Option String
  table : String
  index : String
  columns : List String
  unique : Bool
  deriving Repr, DecidableEq

/-- A new sorted index, with a collation for every column. -/
structure CreateSortedIndex where
  schema : Option String
  table : String
  index : String
  columns : List String
  collations : List Collation
  unique : Bool
  deriving Repr, DecidableEq

/-- A statement. -/
inductive Statement where
  | createTable (spec : CreateTable)
  | dropTable (schema : Option String) (table : String)
  | addColumns (schema : Option String) (table : String) (columns : List ColumnSpec)
  | dropColumns (schema : Option String) (table : String) (columns : List String)
  | alterColumn (change : AlterColumn)
  | createHashIndex (spec : CreateHashIndex)
  | createSortedIndex (spec : CreateSortedIndex)
  | dropIndex (schema : Option String) (index : String)
  | createZone (name : String) (spec : ZoneSpec)
  | alterZone (name : String) (spec : ZoneSpec)
  | renameZone (name newName : String)
  | dropZone (name : String)
  deriving Repr, DecidableEq

/-- Whether a statement lists no columns to add or drop, and so changes nothing. -/
def Statement.isVacuous : Statement → Bool
  | addColumns _ _ columns => columns.isEmpty
  | dropColumns _ _ columns => columns.isEmpty
  | _ => false

/-- The table with the columns `ID INT32 NOT NULL` and `VAL STRING` and the primary key `ID`. -/
def CreateTable.simple (table : String) : CreateTable where
  schema := none
  table := table
  zone := none
  columns :=
    [⟨"ID", .int32, false, none, none, none, none⟩, ⟨"VAL", .string, true, none, none, none, none⟩]
  primaryKey := ["ID"]
  colocation := none

end SchemaCatalog
