import SchemaCatalog.Catalog
import SchemaCatalog.Statement.Basic
import SchemaCatalog.Text.Blank

/-!
# Checks of statements

What a statement may name and define. A check that fails says why, and of several faults the one
that is checked first is reported.
-/

namespace SchemaCatalog.Check

/-- Refuses with an error if there is a fault. -/
def refuse (fault : Bool) (e : Error) : Except Error Unit := if fault then .error e else .ok ()

/-- The first name that occurs for the second time. -/
def firstDuplicate (names : List String) : Option String :=
  go [] names
where
  /-- Goes through the names with those already seen. -/
  go (seen : List String) : List String → Option String
    | [] => none
    | n :: ns => if seen.contains n then some n else go (n :: seen) ns

/-- Refuses a name that occurs twice. -/
def distinct (names : List String) (fault : String → DefinitionFault) : Except Error Unit :=
  match firstDuplicate names with
  | some n => .error (.invalidDefinition (fault n))
  | none => .ok ()

/-- A name within a schema. -/
def qualified (s : Schema) (name : String) : String := s.name ++ "." ++ name

/-- The schema of a name, or the default schema. -/
def schema (c : Catalog) (name : Option String) : Except Error Schema :=
  let name := name.getD Schema.defaultName
  match c.schema? name with
  | some s => .ok s
  | none => .error (.notFound .schema name)

/-- The table of a name. -/
def table (s : Schema) (name : String) : Except Error Table :=
  match s.table? name with
  | some t => .ok t
  | none => .error (.notFound .table (qualified s name))

/-- The index of a name. -/
def index (s : Schema) (name : String) : Except Error Index :=
  match s.index? name with
  | some i => .ok i
  | none => .error (.notFound .index (qualified s name))

/-- The zone of a name. -/
def zone (c : Catalog) (name : String) : Except Error Zone :=
  match c.zone? name with
  | some z => .ok z
  | none => .error (.notFound .zone name)

/-- The column of a name. -/
def column (t : Table) (name : String) : Except Error Column :=
  match t.column? name with
  | some c => .ok c
  | none => .error (.notFound .column name)

/-- No table of this name may exist. -/
def tableNameFree (s : Schema) (name : String) : Except Error Unit :=
  refuse (s.table? name).isSome (.duplicateName .table (qualified s name))

/-- No index of this name may exist. -/
def indexNameFree (s : Schema) (name : String) : Except Error Unit :=
  refuse (s.index? name).isSome (.duplicateName .index (qualified s name))

/-- No zone of this name may exist. -/
def zoneNameFree (c : Catalog) (name : String) : Except Error Unit :=
  refuse (c.zone? name).isSome (.duplicateName .zone name)

/-- The colocation columns of a new table are distinct and in its primary key. -/
def colocation (primaryKey : List String) : Option (List String) → Except Error Unit
  | none => .ok ()
  | some names => do
    distinct names .duplicateColocationColumn
    let outside := names.filter fun n => !primaryKey.contains n
    refuse (!outside.isEmpty) (.invalidDefinition (.colocationOutsideKey outside))

/-- A new table has columns of distinct names and a primary key of distinct columns. -/
def tableDefinition (p : CreateTable) : Except Error Unit := do
  let names := p.columns.map ColumnSpec.name
  refuse p.columns.isEmpty (.invalidDefinition .noColumns)
  distinct names .duplicateColumn
  refuse p.primaryKey.isEmpty (.invalidDefinition .noPrimaryKey)
  match p.primaryKey.find? (fun n => !names.contains n) with
  | some n => .error (.invalidDefinition (.unknownKeyColumn n))
  | none => .ok ()
  distinct p.primaryKey .duplicateKeyColumn
  colocation p.primaryKey p.colocation

/-- All names are columns of the table. -/
def allColumns (t : Table) : List String → Except Error Unit
  | [] => .ok ()
  | n :: ns => do
    let _ ← column t n
    allColumns t ns

/-- An index has distinct columns of its table. -/
def indexColumns (t : Table) (names : List String) : Except Error Unit := do
  refuse names.isEmpty (.invalidDefinition .noIndexColumns)
  allColumns t names
  distinct names .duplicateIndexColumn

/-- New columns have names that the table does not have and that are not repeated. -/
def newColumns (t : Table) (seen : List String) : List String → Except Error Unit
  | [] => .ok ()
  | n :: ns => do
    refuse ((t.column? n).isSome || seen.contains n) (.duplicateName .column n)
    newColumns t (n :: seen) ns

/-- Columns to drop exist and are not in the primary key. -/
def droppedColumns (t : Table) : List String → Except Error Unit
  | [] => .ok ()
  | n :: ns => do
    let _ ← column t n
    refuse (t.isKeyColumn n) (.invalidDefinition (.dropsKeyColumn n))
    droppedColumns t ns

/-- Columns to drop are in no index. -/
def notIndexed (names : List String) : List Index → Except Error Unit
  | [] => .ok ()
  | i :: is =>
    match names.find? i.hasColumn with
    | some n => .error (.invalidDefinition (.dropsIndexedColumn n i.name))
    | none => notIndexed names is

/-- The nullability of a column may only be given up, and not that of a key column. -/
def nullabilityChange (origin target : Column) (key : Bool) : Except Error Unit :=
  if origin.nullable = target.nullable then .ok ()
  else if key then .error (.unsupportedColumnChange (.keyNullability origin.name))
  else refuse origin.nullable (.unsupportedColumnChange (.setsNotNull origin.name))

/-- The data type of a column may only be widened, and not that of a key column. -/
def typeChange (origin target : Column) (key : Bool) : Except Error Unit :=
  if origin.dataType = target.dataType then .ok ()
  else if key then .error (.unsupportedColumnChange (.keyType origin.name))
  else
    refuse (!origin.dataType.widensTo target.dataType)
      (.unsupportedColumnChange (.dataType origin.name origin.dataType target.dataType))

/-- The length of a column may only grow, and only where the type has one. -/
def lengthChange (origin target : Column) : Except Error Unit := do
  refuse (origin.length ≠ target.length && !target.dataType.hasLength)
    (.unsupportedColumnChange (.length origin.name))
  refuse (target.length < origin.length)
    (.unsupportedColumnChange (.shorter origin.name target.length))

/-- The precision of a column may only grow, and only where the type has one. -/
def precisionChange (origin target : Column) : Except Error Unit := do
  refuse (origin.precision ≠ target.precision && !target.dataType.hasPrecision)
    (.unsupportedColumnChange (.precision origin.name))
  refuse (target.precision < origin.precision)
    (.unsupportedColumnChange (.lessPrecise origin.name target.precision))

/-- A column may be changed in place to another one. -/
def columnChange (origin target : Column) (key : Bool) : Except Error Unit := do
  nullabilityChange origin target key
  refuse (origin.scale ≠ target.scale) (.unsupportedColumnChange (.scale origin.name))
  typeChange origin target key
  lengthChange origin target
  precisionChange origin target

/-- A zone has a name that is not blank. -/
def zoneName (name : String) : Except Error Unit :=
  refuse (Text.isBlank name) (.invalidDefinition .noZoneName)

/-- Whether a zone states both the common timer and one of the others. -/
def timersConflict (z : Zone) : Bool :=
  z.autoAdjust ≠ Zone.infiniteTimer
    && (z.scaleUp ≠ Zone.infiniteTimer || z.scaleDown ≠ Zone.infiniteTimer)

/-- A zone has a name, a number of partitions, a number of replicas, a filter and timers that go
together. -/
def zoneDefinition (z : Zone) : Except Error Unit := do
  zoneName z.name
  refuse (z.partitions = 0 || Zone.maxPartitions < z.partitions)
    (.invalidDefinition (.partitionCount z.partitions Zone.maxPartitions))
  refuse (z.replicas = 0) (.invalidDefinition .noReplicas)
  refuse (Text.isBlank z.filter) (.invalidDefinition .noFilter)
  refuse (timersConflict z) (.invalidDefinition .conflictingTimers)

end SchemaCatalog.Check
