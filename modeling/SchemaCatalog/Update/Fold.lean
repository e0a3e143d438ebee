import SchemaCatalog.Catalog
import SchemaCatalog.Update.Entry

/-!
# Applying updates

An entry turns a catalog into another one, or fails because it names something that the catalog
does not have. An update applies its entries one after another and fails with the first of them.
-/

namespace SchemaCatalog

namespace Catalog

/-- The catalog with `t` in the place of the tables of its number in its schema. -/
def replaceTable (c : Catalog) (t : Table) : Except Error Catalog := do
  let s ← c.schemaOfTable t.id
  c.withSchema (s.replaceTable t)

/-- The zone of a number has to exist. -/
def requireZone (c : Catalog) (id : ObjectId) : Except Error Unit :=
  if (c.zoneOfId? id).isSome then .ok () else .error (.invariant (.noZone id))

/-- The catalog after one entry. -/
def applyEntry (c : Catalog) : Entry → Except Error Catalog
  | .newTable t =>
    match c.schemaOfId? t.schemaId with
    | some s => c.withSchema (s.addTable t)
    | none => .error (.invariant (.noSchema t.schemaId))
  | .dropTable id => do
    let s ← c.schemaOfTable id
    c.withSchema (s.removeTable id)
  | .newColumns id columns => do
    let t ← c.existingTable id
    c.replaceTable (t.withColumns (t.columns ++ columns))
  | .dropColumns id names => do
    let t ← c.existingTable id
    c.replaceTable (t.withColumns (t.columns.filter fun col => !names.contains col.name))
  | .alterColumn id column => do
    let t ← c.existingTable id
    if (t.column? column.name).isSome then
      c.replaceTable
        (t.withColumns (t.columns.map fun col => if col.name = column.name then column else col))
    else
      .error (.invariant (.noColumn column.name id))
  | .newIndex i => do
    let s ← c.schemaOfTable i.tableId
    c.withSchema (s.addIndex i)
  | .dropIndex id _ => do
    let s ← c.schemaOfIndex id
    c.withSchema (s.removeIndex id)
  | .newZone z => .ok (c.withZones (c.zones ++ [z]))
  | .alterZone z => do
    c.requireZone z.id
    .ok (c.withZones (c.zones.map fun y => if y.id = z.id then z else y))
  | .dropZone id => do
    c.requireZone id
    .ok (c.withZones (c.zones.filter fun z => z.id ≠ id))
  | .takeIds delta =>
    match Word32.ofNat? (c.counter.val + delta.val) with
    | some counter => .ok (c.withCounter counter)
    | none => .error (.invariant (.counterOverflow c.counter delta))

/-- The catalog after some entries, in order. -/
def applyEntries (c : Catalog) : List Entry → Except Error Catalog
  | [] => .ok c
  | e :: es => do
    let c ← c.applyEntry e
    c.applyEntries es

end Catalog

/-- The catalog that an update makes of the one before it. -/
def Update.apply (u : Update) (c : Catalog) : Except Error Catalog := c.applyEntries u.entries

end SchemaCatalog
