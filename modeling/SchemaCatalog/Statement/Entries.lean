import SchemaCatalog.Statement.Check
import SchemaCatalog.Update.Entry

/-!
# The entries of a statement

Checked against a catalog, a statement yields the entries that carry it out, or the error for which
it is refused. New objects get the next numbers of the catalog, and the entries say how many were
taken.
-/

namespace SchemaCatalog

namespace Entries

/-- The name of the index on the primary key of a table. -/
def keyIndexName (table : String) : String := table ++ "_PK"

/-- An error as the end of a computation. -/
def orFail {α : Type} (x : Except Error α) : Except Abort α := x.mapError Abort.failed

/-- A new table with the index on its primary key. The catalog has to have a number for each. -/
def createTable (c : Catalog) (p : CreateTable) : Except Abort (List Entry) := do
  let s ← orFail (Check.schema c p.schema)
  orFail (Check.tableNameFree s p.table)
  orFail (Check.tableDefinition p)
  orFail (Check.indexNameFree s (keyIndexName p.table))
  let z ← orFail (Check.zone c (p.zone.getD Zone.defaultName))
  match Word32.ofNat? (c.counter.val + 1) with
  | none => .error .overflow
  | some indexId =>
    .ok
      [.newTable ⟨c.counter, s.id, z.id, p.table, p.columns.map ColumnSpec.column, p.primaryKey,
          p.colocation.getD p.primaryKey⟩,
        .newIndex ⟨indexId, keyIndexName p.table, c.counter, true, .hash p.primaryKey⟩,
        .takeIds 2]

/-- The end of a table and of the indexes on it. -/
def dropTable (c : Catalog) (schema : Option String) (table : String) :
    Except Error (List Entry) := do
  let s ← Check.schema c schema
  let t ← Check.table s table
  .ok ((s.indexesOf t.id).map (fun i => .dropIndex i.id i.tableId) ++ [.dropTable t.id])

/-- New columns behind those of a table. -/
def addColumns (c : Catalog) (schema : Option String) (table : String)
    (columns : List ColumnSpec) : Except Error (List Entry) := do
  let s ← Check.schema c schema
  let t ← Check.table s table
  Check.newColumns t [] (columns.map ColumnSpec.name)
  .ok [.newColumns t.id (columns.map ColumnSpec.column)]

/-- The end of some columns that no key and no index holds. -/
def dropColumns (c : Catalog) (schema : Option String) (table : String) (names : List String) :
    Except Error (List Entry) := do
  let s ← Check.schema c schema
  let t ← Check.table s table
  Check.droppedColumns t names
  Check.notIndexed names (s.indexesOf t.id)
  .ok [.dropColumns t.id names]

/-- A column changed in place. A change that leaves the column as it is yields nothing. -/
def alterColumn (c : Catalog) (a : AlterColumn) : Except Error (List Entry) := do
  let s ← Check.schema c a.schema
  let t ← Check.table s a.table
  let origin ← Check.column t a.column
  let target := a.over origin
  if target = origin then .ok []
  else do
    Check.columnChange origin target (t.isKeyColumn origin.name)
    .ok [.alterColumn t.id target]

/-- A new hash index. -/
def createHashIndex (c : Catalog) (p : CreateHashIndex) : Except Error (List Entry) := do
  let s ← Check.schema c p.schema
  Check.indexNameFree s p.index
  let t ← Check.table s p.table
  Check.indexColumns t p.columns
  .ok [.newIndex ⟨c.counter, p.index, t.id, p.unique, .hash p.columns⟩, .takeIds 1]

/-- A new sorted index. -/
def createSortedIndex (c : Catalog) (p : CreateSortedIndex) : Except Error (List Entry) := do
  let s ← Check.schema c p.schema
  Check.indexNameFree s p.index
  let t ← Check.table s p.table
  Check.indexColumns t p.columns
  Check.refuse (p.collations.length ≠ p.columns.length) (.invalidDefinition .collationCount)
  .ok
    [.newIndex ⟨c.counter, p.index, t.id, p.unique,
        .sorted ((p.columns.zip p.collations).map fun x => ⟨x.1, x.2⟩)⟩,
      .takeIds 1]

/-- The end of an index. -/
def dropIndex (c : Catalog) (schema : Option String) (index : String) :
    Except Error (List Entry) := do
  let s ← Check.schema c schema
  let i ← Check.index s index
  .ok [.dropIndex i.id i.tableId]

/-- A new zone. -/
def createZone (c : Catalog) (name : String) (p : ZoneSpec) : Except Error (List Entry) := do
  Check.zoneName name
  Check.zoneNameFree c name
  let z := p.over (Zone.ofName c.counter name)
  Check.zoneDefinition z
  .ok [.newZone z, .takeIds 1]

/-- A zone changed in place. -/
def alterZone (c : Catalog) (name : String) (p : ZoneSpec) : Except Error (List Entry) := do
  Check.zoneName name
  let origin ← Check.zone c name
  let z := p.over origin
  Check.zoneDefinition z
  .ok [.alterZone z]

/-- Another name for a zone that is not the default one. -/
def renameZone (c : Catalog) (name newName : String) : Except Error (List Entry) := do
  Check.zoneName name
  Check.zoneName newName
  let z ← Check.zone c name
  Check.zoneNameFree c newName
  Check.refuse z.isDefault (.defaultZoneProtected .rename)
  .ok [.alterZone { z with name := newName }]

/-- The end of a zone that is not the default one and that no table is in. -/
def dropZone (c : Catalog) (name : String) : Except Error (List Entry) := do
  Check.zoneName name
  let z ← Check.zone c name
  Check.refuse z.isDefault (.defaultZoneProtected .drop)
  match c.tables.find? (fun t => t.zoneId = z.id) with
  | some t => .error (.zoneBoundToTable z.name t.name)
  | none => .ok [.dropZone z.id]

end Entries

/-- The entries that carry a statement out on a catalog. -/
def Statement.entries (st : Statement) (c : Catalog) : Except Abort (List Entry) :=
  match st with
  | createTable p => Entries.createTable c p
  | dropTable schema table => Entries.orFail (Entries.dropTable c schema table)
  | addColumns schema table columns => Entries.orFail (Entries.addColumns c schema table columns)
  | dropColumns schema table names => Entries.orFail (Entries.dropColumns c schema table names)
  | alterColumn a => Entries.orFail (Entries.alterColumn c a)
  | createHashIndex p => Entries.orFail (Entries.createHashIndex c p)
  | createSortedIndex p => Entries.orFail (Entries.createSortedIndex c p)
  | dropIndex schema index => Entries.orFail (Entries.dropIndex c schema index)
  | createZone name p => Entries.orFail (Entries.createZone c name p)
  | alterZone name p => Entries.orFail (Entries.alterZone c name p)
  | renameZone name newName => Entries.orFail (Entries.renameZone c name newName)
  | dropZone name => Entries.orFail (Entries.dropZone c name)

end SchemaCatalog
