import SchemaCatalog.Object.Column

/-!
# Indexes
-/

namespace SchemaCatalog

/-- The order of a column in a sorted index, and the place of nulls in it. -/
inductive Collation where
  | ascNullsFirst
  | ascNullsLast
  | descNullsFirst
  | descNullsLast
  deriving Repr, DecidableEq

/-- A column of a sorted index. -/
structure SortedColumn where
  name : String
  collation : Collation
  deriving Repr, DecidableEq

/-- How an index finds its rows, and by which columns. -/
inductive IndexKind where
  | hash (columns : List String)
  | sorted (columns : List SortedColumn)
  deriving Repr, DecidableEq

/-- An index on a table. -/
structure Index where
  id : ObjectId
  name : String
  tableId : ObjectId
  unique : Bool
  kind : IndexKind
  deriving Repr, DecidableEq

namespace Index

/-- The names of the indexed columns, in order. -/
def columns (i : Index) : List String :=
  match i.kind with
  | .hash columns => columns
  | .sorted columns => columns.map SortedColumn.name

/-- Whether a column is indexed. -/
def hasColumn (i : Index) (name : String) : Bool := i.columns.contains name

end Index

end SchemaCatalog
