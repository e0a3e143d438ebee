import SchemaCatalog.NatMap
import SchemaCatalog.Error
import SchemaCatalog.Object.Schema
import SchemaCatalog.Object.Zone

/-!
# Catalogs

A catalog is everything that is defined at one version: the zones, and the schemas with their tables
and indexes. Beside the lists it keeps two maps by number, which are made anew whenever the schemas
change. Lists may hold two objects of one number: searching a list finds the first of them, the
maps hold the last.
-/

namespace SchemaCatalog

/-- All definitions at one version. -/
structure Catalog where
  version : Version
  activation : Timestamp
  counter : ObjectId
  zones : List Zone
  schemas : List Schema
  tablesById : NatMap Table
  indexesById : NatMap Index
  deriving Repr, DecidableEq

namespace Catalog

/-- All tables of some schemas, in order. -/
def tablesOf (schemas : List Schema) : List Table := schemas.flatMap Schema.tables

/-- All indexes of some schemas, in order. -/
def indexesOf (schemas : List Schema) : List Index := schemas.flatMap Schema.indexes

/-- The catalog of these zones and schemas. -/
def ofParts (version : Version) (activation : Timestamp) (counter : ObjectId) (zones : List Zone)
    (schemas : List Schema) : Catalog :=
  { version, activation, counter, zones, schemas
    tablesById := NatMap.ofList ((tablesOf schemas).map fun t => (t.id.val, t))
    indexesById := NatMap.ofList ((indexesOf schemas).map fun i => (i.id.val, i)) }

/-- The number of the default schema. -/
def defaultSchemaId : ObjectId := 0

/-- The number of the default zone. -/
def defaultZoneId : ObjectId := 1

/-- The first number that the initial catalog hands out. -/
def firstFreeId : ObjectId := 2

/-- The default schema and the default zone, active from the beginning of time. -/
def initial : Catalog :=
  ofParts Version.initial Timestamp.least firstFreeId [Zone.ofName defaultZoneId Zone.defaultName]
    [Schema.ofName defaultSchemaId Schema.defaultName]

/-- All tables, in the order of the schemas. -/
def tables (c : Catalog) : List Table := tablesOf c.schemas

/-- All indexes, in the order of the schemas. -/
def indexes (c : Catalog) : List Index := indexesOf c.schemas

/-- The first zone of a name. -/
def zone? (c : Catalog) (name : String) : Option Zone := c.zones.find? (fun z => z.name = name)

/-- The first zone of a number. -/
def zoneOfId? (c : Catalog) (id : ObjectId) : Option Zone := c.zones.find? (fun z => z.id = id)

/-- The first schema of a name. -/
def schema? (c : Catalog) (name : String) : Option Schema :=
  c.schemas.find? (fun s => s.name = name)

/-- The first schema of a number. -/
def schemaOfId? (c : Catalog) (id : ObjectId) : Option Schema :=
  c.schemas.find? (fun s => s.id = id)

/-- The table of a number. -/
def tableOfId? (c : Catalog) (id : ObjectId) : Option Table := c.tablesById.get? id.val

/-- The index of a number. -/
def indexOfId? (c : Catalog) (id : ObjectId) : Option Index := c.indexesById.get? id.val

/-- The table of a number, which has to exist. -/
def existingTable (c : Catalog) (id : ObjectId) : Except Error Table :=
  match c.tableOfId? id with
  | some t => .ok t
  | none => .error (.invariant (.noTable id))

/-- The schema of a table, which has to exist. -/
def schemaOfTable (c : Catalog) (id : ObjectId) : Except Error Schema := do
  let t ← c.existingTable id
  match c.schemaOfId? t.schemaId with
  | some s => .ok s
  | none => .error (.invariant (.noSchemaOfTable t.schemaId id))

/-- The first schema that holds an index of this number, which has to exist. -/
def schemaOfIndex (c : Catalog) (id : ObjectId) : Except Error Schema :=
  match c.schemas.find? (fun s => (s.indexOfId? id).isSome) with
  | some s => .ok s
  | none => .error (.invariant (.noIndex id))

/-- The catalog with `s` in the place of the schema of its number, which has to exist. -/
def withSchema (c : Catalog) (s : Schema) : Except Error Catalog :=
  if (c.schemaOfId? s.id).isSome then
    .ok (ofParts c.version c.activation c.counter c.zones
      (c.schemas.map fun r => if r.id = s.id then s else r))
  else
    .error (.invariant (.noSchema s.id))

/-- The catalog with other zones. -/
def withZones (c : Catalog) (zones : List Zone) : Catalog := { c with zones }

/-- The catalog that hands out other numbers. -/
def withCounter (c : Catalog) (counter : ObjectId) : Catalog := { c with counter }

/-- The same definitions as another version, active from another time. -/
def stamp (c : Catalog) (version : Version) (activation : Timestamp) : Catalog :=
  { c with version, activation }

end Catalog

end SchemaCatalog
