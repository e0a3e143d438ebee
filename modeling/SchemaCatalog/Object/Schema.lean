import SchemaCatalog.Object.Table
import SchemaCatalog.Object.Index

/-!
# Schemas

A schema lists its tables and its indexes in the order of their creation. A name or number that
occurs twice means the first object of that name or number.
-/

namespace SchemaCatalog

/-- A schema with the tables and indexes it holds. -/
structure Schema where
  id : ObjectId
  name : String
  tables : List Table
  indexes : List Index
  deriving Repr, DecidableEq

namespace Schema

/-- The name of the schema of statements that name none. -/
def defaultName : String := "PUBLIC"

/-- A schema that holds nothing. -/
def ofName (id : ObjectId) (name : String) : Schema := ⟨id, name, [], []⟩

/-- The first table of a name. -/
def table? (s : Schema) (name : String) : Option Table := s.tables.find? (fun t => t.name = name)

/-- The first table of a number. -/
def tableOfId? (s : Schema) (id : ObjectId) : Option Table := s.tables.find? (fun t => t.id = id)

/-- The first index of a name. -/
def index? (s : Schema) (name : String) : Option Index := s.indexes.find? (fun i => i.name = name)

/-- The first index of a number. -/
def indexOfId? (s : Schema) (id : ObjectId) : Option Index := s.indexes.find? (fun i => i.id = id)

/-- The indexes on a table, in order. -/
def indexesOf (s : Schema) (tableId : ObjectId) : List Index :=
  s.indexes.filter (fun i => i.tableId = tableId)

/-- The schema with one more table at the end. -/
def addTable (s : Schema) (t : Table) : Schema := { s with tables := s.tables ++ [t] }

/-- The schema with `t` in the place of every table of its number. -/
def replaceTable (s : Schema) (t : Table) : Schema :=
  { s with tables := s.tables.map (fun u => if u.id = t.id then t else u) }

/-- The schema without the tables of a number. -/
def removeTable (s : Schema) (id : ObjectId) : Schema :=
  { s with tables := s.tables.filter (fun t => t.id ≠ id) }

/-- The schema with one more index at the end. -/
def addIndex (s : Schema) (i : Index) : Schema := { s with indexes := s.indexes ++ [i] }

/-- The schema without the indexes of a number. -/
def removeIndex (s : Schema) (id : ObjectId) : Schema :=
  { s with indexes := s.indexes.filter (fun i => i.id ≠ id) }

end Schema

end SchemaCatalog
