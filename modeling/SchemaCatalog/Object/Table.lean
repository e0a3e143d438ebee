import SchemaCatalog.Object.Column

/-!
# Tables
-/

namespace SchemaCatalog

/-- A table: where it belongs, its columns in order, and the columns of its primary key and of its
colocation. -/
structure Table where
  id : ObjectId
  schemaId : ObjectId
  zoneId : ObjectId
  name : String
  columns : List Column
  primaryKey : List String
  colocation : List String
  deriving Repr, DecidableEq

namespace Table

/-- The first column of a name. -/
def column? (t : Table) (name : String) : Option Column := t.columns.find? (fun c => c.name = name)

/-- Whether a name is in the primary key. -/
def isKeyColumn (t : Table) (name : String) : Bool := t.primaryKey.contains name

/-- The same table with other columns. -/
def withColumns (t : Table) (columns : List Column) : Table := { t with columns }

end Table

end SchemaCatalog
