import SchemaCatalog.Object.Table
import SchemaCatalog.Object.Index
import SchemaCatalog.Object.Zone
import SchemaCatalog.Version
import SchemaCatalog.Time.Duration

/-!
# Updates

An update carries a catalog from one version to the next. It is a list of entries, each of them one
change, and states how long after its commit it becomes active.
-/

namespace SchemaCatalog

/-- One change to a catalog. -/
inductive Entry where
  | newTable (table : Table)
  | dropTable (tableId : ObjectId)
  | newColumns (tableId : ObjectId) (columns : List Column)
  | dropColumns (tableId : ObjectId) (columns : List String)
  | alterColumn (tableId : ObjectId) (column : Column)
  | newIndex (index : Index)
  | dropIndex (indexId tableId : ObjectId)
  | newZone (zone : Zone)
  | alterZone (zone : Zone)
  | dropZone (zoneId : ObjectId)
  | takeIds (delta : ObjectId)
  deriving Repr, DecidableEq

/-- The changes that make a version of the version before it. -/
structure Update where
  version : Version
  delay : Duration
  entries : List Entry
  deriving Repr, DecidableEq

end SchemaCatalog
