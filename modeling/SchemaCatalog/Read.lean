import SchemaCatalog.History

/-!
# Reading a history

What a node answers about its catalogs: objects by name at a time, where a name without a schema is
one of the default schema, and objects by number at a time or in a version. A version that is not
registered holds nothing, a time without an active catalog is an error.
-/

namespace SchemaCatalog

namespace History

/-- The schema of a name in a catalog, or the default one. -/
def schemaIn (name : Option String) (c : Catalog) : Option Schema :=
  c.schema? (name.getD Schema.defaultName)

/-- The version active at a time. -/
def activeVersion (h : History) (t : Timestamp) : Except Error Version :=
  (h.catalogAt t).map Catalog.version

/-- The latest version. -/
def latestVersion (h : History) : Except Error Version := h.latest.map Catalog.version

/-- The table of a name at a time. -/
def table (h : History) (name : String) (t : Timestamp) : Except Error (Option Table) :=
  (h.catalogAt t).map fun c => (schemaIn none c).bind fun s => s.table? name

/-- The table of a number at a time. -/
def tableById (h : History) (id : ObjectId) (t : Timestamp) : Except Error (Option Table) :=
  (h.catalogAt t).map fun c => c.tableOfId? id

/-- The table of a number in a version. -/
def tableAtVersion (h : History) (id : ObjectId) (v : Version) : Option Table :=
  (h.catalog? v).bind fun c => c.tableOfId? id

/-- The tables of a version. -/
def tables (h : History) (v : Version) : List Table :=
  ((h.catalog? v).map Catalog.tables).getD []

/-- The index of a name at a time. -/
def index (h : History) (name : String) (t : Timestamp) : Except Error (Option Index) :=
  (h.catalogAt t).map fun c => (schemaIn none c).bind fun s => s.index? name

/-- The index of a number at a time. -/
def indexById (h : History) (id : ObjectId) (t : Timestamp) : Except Error (Option Index) :=
  (h.catalogAt t).map fun c => c.indexOfId? id

/-- The index of a number in a version. -/
def indexAtVersion (h : History) (id : ObjectId) (v : Version) : Option Index :=
  (h.catalog? v).bind fun c => c.indexOfId? id

/-- The indexes of a version. -/
def indexes (h : History) (v : Version) : List Index :=
  ((h.catalog? v).map Catalog.indexes).getD []

/-- The schema of a name in a version. -/
def schema (h : History) (name : Option String) (v : Version) : Option Schema :=
  (h.catalog? v).bind (schemaIn name)

/-- The schema of a name at a time. -/
def activeSchema (h : History) (name : Option String) (t : Timestamp) :
    Except Error (Option Schema) :=
  (h.catalogAt t).map (schemaIn name)

/-- The zone of a name at a time. -/
def zone (h : History) (name : String) (t : Timestamp) : Except Error (Option Zone) :=
  (h.catalogAt t).map fun c => c.zone? name

/-- The zone of a number at a time. -/
def zoneById (h : History) (id : ObjectId) (t : Timestamp) : Except Error (Option Zone) :=
  (h.catalogAt t).map fun c => c.zoneOfId? id

/-- The zones of a version. -/
def zones (h : History) (v : Version) : List Zone := ((h.catalog? v).map Catalog.zones).getD []

end History

/-- A question to a node. -/
inductive Query where
  | catalog (v : Version)
  | latest
  | catalogAt (t : Timestamp)
  | latestVersion
  | activeVersion (t : Timestamp)
  | table (name : String) (t : Timestamp)
  | tableById (id : ObjectId) (t : Timestamp)
  | tableAtVersion (id : ObjectId) (v : Version)
  | tables (v : Version)
  | index (name : String) (t : Timestamp)
  | indexById (id : ObjectId) (t : Timestamp)
  | indexAtVersion (id : ObjectId) (v : Version)
  | indexes (v : Version)
  | schema (name : Option String) (v : Version)
  | activeSchema (name : Option String) (t : Timestamp)
  | zone (name : String) (t : Timestamp)
  | zoneById (id : ObjectId) (t : Timestamp)
  | zones (v : Version)
  deriving Repr, DecidableEq

/-- What a node answers. -/
inductive Answered where
  | catalog (c : Option Catalog)
  | summary (c : Catalog)
  | version (v : Version)
  | table (t : Option Table)
  | tables (ts : List Table)
  | index (i : Option Index)
  | indexes (is : List Index)
  | schema (s : Option Schema)
  | zone (z : Option Zone)
  | zones (zs : List Zone)
  deriving Repr, DecidableEq

/-- The answer of a history to a question. -/
def History.answer (h : History) : Query → Except Error Answered
  | .catalog v => .ok (.catalog (h.catalog? v))
  | .latest => h.latest.map fun c => .catalog (some c)
  | .catalogAt t => (h.catalogAt t).map .summary
  | .latestVersion => h.latestVersion.map .version
  | .activeVersion t => (h.activeVersion t).map .version
  | .table name t => (h.table name t).map .table
  | .tableById id t => (h.tableById id t).map .table
  | .tableAtVersion id v => .ok (.table (h.tableAtVersion id v))
  | .tables v => .ok (.tables (h.tables v))
  | .index name t => (h.index name t).map .index
  | .indexById id t => (h.indexById id t).map .index
  | .indexAtVersion id v => .ok (.index (h.indexAtVersion id v))
  | .indexes v => .ok (.indexes (h.indexes v))
  | .schema name v => .ok (.schema (h.schema name v))
  | .activeSchema name t => (h.activeSchema name t).map .schema
  | .zone name t => (h.zone name t).map .zone
  | .zoneById id t => (h.zoneById id t).map .zone
  | .zones v => .ok (.zones (h.zones v))

end SchemaCatalog
