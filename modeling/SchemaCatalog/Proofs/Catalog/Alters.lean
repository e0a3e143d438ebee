import SchemaCatalog.Proofs.Catalog.Coherent
import SchemaCatalog.Proofs.Catalog.Numbers
import SchemaCatalog.Proofs.Catalog.Stated

/-!
# What a statement changes

What the zones and schemas of a coherent catalog are after a statement, said in full for each
statement (`Statement.Alters`): which object changes, is added or goes, and that every other one is
where it was and as it was. The objects that change are the ones that the statement names, although
the entries name them by their numbers, and what changes about a zone or a column is said property
by property.
-/

namespace SchemaCatalog

/-! ## The change of a statement -/

/-- The zones and schemas after a statement. A statement on tables or indexes changes the first
schema of the name it states, and in it the table or index of the name it states. What is created
comes last in its list, and takes the number of the counter. What is altered takes over the
properties that are stated, and keeps the others. -/
inductive Statement.Alters (c : Catalog) : Statement → List Zone → List Schema → Prop where
  | createTable {p : CreateTable} {s : Schema} {z : Zone} {i : ObjectId} {schemas : List Schema}
      (schema : c.schema? (p.schema.getD Schema.defaultName) = some s)
      (zone : c.zone? (p.zone.getD Zone.defaultName) = some z)
      (next : i.val = c.counter.val + 1)
      (others : Replaces s
        { s with
          tables := s.tables ++ [p.tableIn c.counter s.id z.id]
          indexes := s.indexes ++ [p.keyIndex i c.counter] } c.schemas schemas) :
      Alters c (.createTable p) c.zones schemas
  | dropTable {schema : Option String} {name : String} {s : Schema} {t : Table}
      {tables : List Table} {schemas : List Schema}
      (found : c.schema? (schema.getD Schema.defaultName) = some s)
      (table : s.table? name = some t)
      (otherTables : Removes t s.tables tables)
      (others : Replaces s
        { s with tables := tables, indexes := s.indexes.filter fun i => i.tableId ≠ t.id }
        c.schemas schemas)
      (noIndex : ∀ r ∈ schemas, ∀ i ∈ r.indexes, i.tableId ≠ t.id) :
      Alters c (.dropTable schema name) c.zones schemas
  | addColumns {schema : Option String} {name : String} {columns : List ColumnSpec} {s : Schema}
      {t : Table} {tables : List Table} {schemas : List Schema}
      (found : c.schema? (schema.getD Schema.defaultName) = some s)
      (table : s.table? name = some t)
      (otherTables : Replaces t
        { t with columns := t.columns ++ columns.map ColumnSpec.column } s.tables tables)
      (others : Replaces s { s with tables := tables } c.schemas schemas) :
      Alters c (.addColumns schema name columns) c.zones schemas
  | dropColumns {schema : Option String} {name : String} {names : List String} {s : Schema}
      {t : Table} {tables : List Table} {schemas : List Schema}
      (found : c.schema? (schema.getD Schema.defaultName) = some s)
      (table : s.table? name = some t)
      (otherTables : Replaces t
        { t with columns := t.columns.filter fun col => col.name ∉ names } s.tables tables)
      (others : Replaces s { s with tables := tables } c.schemas schemas) :
      Alters c (.dropColumns schema name names) c.zones schemas
  | alterColumn {a : AlterColumn} {s : Schema} {t : Table} {col target : Column}
      {columns : List Column} {tables : List Table} {schemas : List Schema}
      (found : c.schema? (a.schema.getD Schema.defaultName) = some s)
      (table : s.table? a.table = some t)
      (column : t.column? a.column = some col)
      (stated : a.Alters col target)
      (otherColumns : Replaces col target t.columns columns)
      (otherTables : Replaces t { t with columns := columns } s.tables tables)
      (others : Replaces s { s with tables := tables } c.schemas schemas) :
      Alters c (.alterColumn a) c.zones schemas
  | createHashIndex {p : CreateHashIndex} {s : Schema} {t : Table} {schemas : List Schema}
      (schema : c.schema? (p.schema.getD Schema.defaultName) = some s)
      (table : s.table? p.table = some t)
      (others : Replaces s { s with indexes := s.indexes ++ [p.indexOn c.counter t.id] }
        c.schemas schemas) :
      Alters c (.createHashIndex p) c.zones schemas
  | createSortedIndex {p : CreateSortedIndex} {s : Schema} {t : Table} {schemas : List Schema}
      (schema : c.schema? (p.schema.getD Schema.defaultName) = some s)
      (table : s.table? p.table = some t)
      (others : Replaces s { s with indexes := s.indexes ++ [p.indexOn c.counter t.id] }
        c.schemas schemas) :
      Alters c (.createSortedIndex p) c.zones schemas
  | dropIndex {schema : Option String} {name : String} {s : Schema} {i : Index}
      {indexes : List Index} {schemas : List Schema}
      (found : c.schema? (schema.getD Schema.defaultName) = some s)
      (index : s.index? name = some i)
      (otherIndexes : Removes i s.indexes indexes)
      (others : Replaces s { s with indexes := indexes } c.schemas schemas) :
      Alters c (.dropIndex schema name) c.zones schemas
  | createZone {name : String} {p : ZoneSpec} {z : Zone}
      (stated : p.Alters (Zone.ofName c.counter name) z) :
      Alters c (.createZone name p) (c.zones ++ [z]) c.schemas
  | alterZone {name : String} {p : ZoneSpec} {z target : Zone} {zones : List Zone}
      (zone : c.zone? name = some z)
      (stated : p.Alters z target)
      (others : Replaces z target c.zones zones) :
      Alters c (.alterZone name p) zones c.schemas
  | renameZone {name newName : String} {z : Zone} {zones : List Zone}
      (zone : c.zone? name = some z)
      (others : Replaces z { z with name := newName } c.zones zones) :
      Alters c (.renameZone name newName) zones c.schemas
  | dropZone {name : String} {z : Zone} {zones : List Zone}
      (zone : c.zone? name = some z)
      (others : Removes z c.zones zones) :
      Alters c (.dropZone name) zones c.schemas

namespace Catalog

/-- Entries that give a catalog these zones and schemas, take so many numbers from its counter, and
change nothing else. -/
def LeadsTo (c : Catalog) (es : List Entry) (numbers : Nat) (zones : List Zone)
    (schemas : List Schema) : Prop :=
  ∃ k : ObjectId, k.val = c.counter.val + numbers ∧
    c.applyEntries es = .ok (ofParts c.version c.activation k zones schemas)

namespace LeadsTo

variable {c : Catalog} {s : Schema} {es : List Entry} {zones : List Zone} {k : ObjectId} {n : Nat}

lemma nil (h : c.Keyed) : c.LeadsTo [] 0 c.zones c.schemas :=
  ⟨c.counter, rfl, congrArg Except.ok h.eq_ofParts⟩

lemma put (h : c.applyEntries es = .ok (c.put s)) : c.LeadsTo es 0 c.zones (c.put s).schemas :=
  ⟨c.counter, rfl, h⟩

lemma withZones (h : c.Keyed) (he : c.applyEntries es = .ok (c.withZones zones)) :
    c.LeadsTo es 0 zones c.schemas :=
  ⟨c.counter, rfl, he.trans (congrArg Except.ok (h.withZones_eq zones))⟩

end LeadsTo

end Catalog

/-- Entries that do to a catalog what their statement says. -/
def Statement.CarriedOut (st : Statement) (c : Catalog) (es : List Entry) : Prop :=
  ∃ zones schemas, c.LeadsTo es st.numbers zones schemas ∧ st.Alters c zones schemas

/-! ## Statements that create, add or rename

What they yield, what they made sure of, and the catalog that comes of it.
-/

namespace Entries

open Statement Catalog

variable {c : Catalog} {es : List Entry} {name : String}

lemma createTable_ok {p : CreateTable} (h : c.Coherent) (room : c.counter.val + 2 < 4_294_967_296)
    (he : createTable c p = .ok es) :
    ∃ (s : Schema) (z : Zone) (i k : ObjectId),
      c.schema? (p.schema.getD Schema.defaultName) = some s ∧
      c.zone? (p.zone.getD Zone.defaultName) = some z ∧ i.val = c.counter.val + 1 ∧
      (∀ t ∈ s.tables, t.name ≠ p.table) ∧ k.val = c.counter.val + 2 ∧
      c.applyEntries es = .ok ((c.put ((s.addTable (p.tableIn c.counter s.id z.id)).addIndex
        (p.keyIndex i c.counter))).withCounter k) := by
  have accepted : (Statement.createTable p).Accepted c es := accepted_of_ok he
  cases accepted with
  | @createTable p s z i hs tableFree _ _ hz next =>
    have fold := h.fold_newTable (t := p.tableIn c.counter s.id z.id)
      (i := p.keyIndex i c.counter) (List.mem_of_find?_eq_some hs) rfl
      (h.fresh_table (Nat.le_refl _)) rfl [.takeIds 2]
    obtain ⟨k, hk, taken⟩ := applyEntries_takeIds (c.put _) 2 room
    exact ⟨s, z, i, k, hs, hz, Word32.val_of_ofNat? next, Check.of_tableNameFree tableFree, hk,
      fold.trans taken⟩

/-- Both kinds of index are added alike. -/
lemma newIndex_ok {s : Schema} {t : Table} {i : Index} (h : c.Coherent)
    (room : c.counter.val + 1 < 4_294_967_296) (hs : s ∈ c.schemas) (ht : t ∈ s.tables)
    (e : i.tableId = t.id) :
    ∃ k : ObjectId, k.val = c.counter.val + 1 ∧
      c.applyEntries [.newIndex i, .takeIds 1] = .ok ((c.put (s.addIndex i)).withCounter k) := by
  obtain ⟨k, hk, taken⟩ := applyEntries_takeIds (c.put (s.addIndex i)) 1 room
  exact ⟨k, hk, (applyEntries_cons (h.newIndex hs ht e) _).trans taken⟩

lemma createHashIndex_ok {p : CreateHashIndex} (h : c.Coherent)
    (room : c.counter.val + 1 < 4_294_967_296) (he : createHashIndex c p = .ok es) :
    ∃ (s : Schema) (t : Table) (k : ObjectId),
      c.schema? (p.schema.getD Schema.defaultName) = some s ∧ s.table? p.table = some t ∧
      (∀ i ∈ s.indexes, i.name ≠ p.index) ∧ k.val = c.counter.val + 1 ∧
      c.applyEntries es =
        .ok ((c.put (s.addIndex (p.indexOn c.counter t.id))).withCounter k) := by
  have accepted : (Statement.createHashIndex p).Accepted c es := accepted_of_ok (congrArg orFail he)
  cases accepted with
  | @createHashIndex p s t hs free ht =>
    obtain ⟨k, hk, applied⟩ := newIndex_ok (i := p.indexOn c.counter t.id) h room
      (List.mem_of_find?_eq_some hs) (List.mem_of_find?_eq_some ht) rfl
    exact ⟨s, t, k, hs, ht, Check.of_indexNameFree free, hk, applied⟩

lemma createSortedIndex_ok {p : CreateSortedIndex} (h : c.Coherent)
    (room : c.counter.val + 1 < 4_294_967_296) (he : createSortedIndex c p = .ok es) :
    ∃ (s : Schema) (t : Table) (k : ObjectId),
      c.schema? (p.schema.getD Schema.defaultName) = some s ∧ s.table? p.table = some t ∧
      (∀ i ∈ s.indexes, i.name ≠ p.index) ∧ k.val = c.counter.val + 1 ∧
      c.applyEntries es =
        .ok ((c.put (s.addIndex (p.indexOn c.counter t.id))).withCounter k) := by
  have accepted : (Statement.createSortedIndex p).Accepted c es :=
    accepted_of_ok (congrArg orFail he)
  cases accepted with
  | @createSortedIndex p s t hs free ht =>
    obtain ⟨k, hk, applied⟩ := newIndex_ok (i := p.indexOn c.counter t.id) h room
      (List.mem_of_find?_eq_some hs) (List.mem_of_find?_eq_some ht) rfl
    exact ⟨s, t, k, hs, ht, Check.of_indexNameFree free, hk, applied⟩

lemma createZone_ok {p : ZoneSpec} (room : c.counter.val + 1 < 4_294_967_296)
    (he : createZone c name p = .ok es) :
    ∃ k : ObjectId, Check.zoneName name = .ok () ∧ (∀ z ∈ c.zones, z.name ≠ name) ∧
      k.val = c.counter.val + 1 ∧ c.applyEntries es =
        .ok ((c.withZones (c.zones ++ [p.over (Zone.ofName c.counter name)])).withCounter k) := by
  have accepted : (Statement.createZone name p).Accepted c es := accepted_of_ok (congrArg orFail he)
  cases accepted with
  | createZone blank free valid =>
    obtain ⟨k, hk, taken⟩ := applyEntries_takeIds
      (c.withZones (c.zones ++ [p.over (Zone.ofName c.counter name)])) 1 room
    exact ⟨k, blank, Check.of_zoneNameFree free, hk, taken⟩

lemma addColumns_ok {schema : Option String} {columns : List ColumnSpec} (h : c.Coherent)
    (he : addColumns c schema name columns = .ok es) :
    ∃ (s : Schema) (t : Table), c.schema? (schema.getD Schema.defaultName) = some s ∧
      s.table? name = some t ∧
      (∀ n ∈ columns.map ColumnSpec.name, n ∉ t.columns.map Column.name) ∧
      c.applyEntries es = .ok (c.put (s.replaceTable
        (t.withColumns (t.columns ++ columns.map ColumnSpec.column)))) := by
  have accepted : (Statement.addColumns schema name columns).Accepted c es :=
    accepted_of_ok (congrArg orFail he)
  cases accepted with
  | @addColumns _ _ _ s t hs ht new =>
    obtain ⟨-, new, -⟩ := Check.of_newColumns new
    have added := h.newColumns (List.mem_of_find?_eq_some hs) (List.mem_of_find?_eq_some ht)
      (columns.map ColumnSpec.column)
    exact ⟨s, t, hs, ht, new, applyEntries_cons added []⟩

/-- A zone takes the place of the one of its number. -/
lemma alterZone_ok {y z : Zone} (hy : y ∈ c.zones) (e : z.id = y.id) :
    c.applyEntries [.alterZone z] =
      .ok (c.withZones (c.zones.map fun x => if x.id = z.id then z else x)) := by
  rw [applyEntries, applyEntry, e, requireZone_ok hy]
  rfl

lemma renameZone_ok {newName : String} (he : renameZone c name newName = .ok es) :
    ∃ z, c.zone? name = some z ∧ Check.zoneName name = .ok () ∧
      Check.zoneName newName = .ok () ∧ (∀ y ∈ c.zones, y.name ≠ newName) ∧
      c.applyEntries es = .ok (c.withZones (c.zones.map fun y =>
        if y.id = z.id then { z with name := newName } else y)) := by
  have accepted : (Statement.renameZone name newName).Accepted c es :=
    accepted_of_ok (congrArg orFail he)
  cases accepted with
  | @renameZone _ _ z blank newBlank hz free =>
    exact ⟨z, hz, blank, newBlank, Check.of_zoneNameFree free,
      alterZone_ok (z := { z with name := newName }) (List.mem_of_find?_eq_some hz) rfl⟩

/-! ## Each statement -/

lemma carriedOut_createTable {p : CreateTable} (h : c.Coherent)
    (room : c.counter.val + 2 < 4_294_967_296) (he : createTable c p = .ok es) :
    (Statement.createTable p).CarriedOut c es := by
  obtain ⟨s, z, i, k, hs, hz, hi, -, hk, applied⟩ := createTable_ok h room he
  exact ⟨_, _, ⟨k, hk, applied⟩, .createTable hs hz hi
    (put_schemas h.schemaIds (List.mem_of_find?_eq_some hs) rfl)⟩

lemma carriedOut_dropTable {schema : Option String} (h : c.Coherent)
    (he : dropTable c schema name = .ok es) :
    (Statement.dropTable schema name).CarriedOut c es := by
  have accepted : (Statement.dropTable schema name).Accepted c es :=
    accepted_of_ok (congrArg orFail he)
  cases accepted with
  | @dropTable _ _ s t hs ht =>
    have mem := List.mem_of_find?_eq_some hs
    have table := List.mem_of_find?_eq_some ht
    have noIndex : ∀ r ∈ (c.put (s.dropTable t.id)).schemas, ∀ i ∈ r.indexes,
        i.tableId ≠ t.id := by
      intro r hr i hi e
      rcases mem_put hr with rfl | ⟨hold, ne⟩
      · simpa [e] using (List.mem_filter.1 hi).2
      · rw [h.schema_of_tableId mem hold table hi e] at ne
        exact ne rfl
    exact ⟨_, _, .put (h.fold_dropTable mem table), .dropTable hs ht
      (removes_of_nodup (h.tableIds_of_mem mem) table) (put_schemas h.schemaIds mem rfl) noIndex⟩

/-! ### Columns -/

lemma carriedOut_addColumns {schema : Option String} {columns : List ColumnSpec} (h : c.Coherent)
    (he : addColumns c schema name columns = .ok es) :
    (Statement.addColumns schema name columns).CarriedOut c es := by
  obtain ⟨s, t, hs, ht, -, applied⟩ := addColumns_ok h he
  have mem := List.mem_of_find?_eq_some hs
  exact ⟨_, _, .put applied, .addColumns hs ht
    (replaces_of_nodup (h.tableIds_of_mem mem) (List.mem_of_find?_eq_some ht) rfl)
    (put_schemas h.schemaIds mem rfl)⟩

lemma carriedOut_dropColumns {schema : Option String} {names : List String} (h : c.Coherent)
    (he : dropColumns c schema name names = .ok es) :
    (Statement.dropColumns schema name names).CarriedOut c es := by
  have accepted : (Statement.dropColumns schema name names).Accepted c es :=
    accepted_of_ok (congrArg orFail he)
  cases accepted with
  | @dropColumns _ _ _ s t hs ht =>
    have mem := List.mem_of_find?_eq_some hs
    have table := List.mem_of_find?_eq_some ht
    have fold := applyEntries_cons (h.dropColumns mem table names) []
    have same : (t.columns.filter fun col => !names.contains col.name) =
        t.columns.filter fun col => col.name ∉ names :=
      List.filter_congr fun col _ => by simp
    rw [same] at fold
    exact ⟨_, _, .put fold, .dropColumns hs ht (replaces_of_nodup (h.tableIds_of_mem mem) table rfl)
      (put_schemas h.schemaIds mem rfl)⟩

/-- A change that leaves the column as it is has no entries, and leaves everything as it is. -/
lemma carriedOut_alterColumn {a : AlterColumn} (h : c.Coherent)
    (he : alterColumn c a = .ok es) : (Statement.alterColumn a).CarriedOut c es := by
  have accepted : (Statement.alterColumn a).Accepted c es := accepted_of_ok (congrArg orFail he)
  cases accepted with
  | @sameColumn _ s t col hs ht ho same =>
    have unchanged : Replaces col (a.over col) t.columns t.columns := by
      rw [same]
      exact .refl (List.mem_of_find?_eq_some ho)
    exact ⟨_, _, .nil h.toKeyed, .alterColumn hs ht ho (a.alters_over col) unchanged
      (.refl (List.mem_of_find?_eq_some ht)) (.refl (List.mem_of_find?_eq_some hs))⟩
  | @alterColumn _ s t col hs ht ho =>
    have mem := List.mem_of_find?_eq_some hs
    have table := List.mem_of_find?_eq_some ht
    have column := List.mem_of_find?_eq_some ho
    have isColumn : (t.column? (a.over col).name).isSome :=
      List.find?_isSome.2 ⟨col, column, by simp [AlterColumn.over]⟩
    have fold := applyEntries_cons (h.alterColumn mem table isColumn) []
    exact ⟨_, _, .put fold, .alterColumn hs ht ho (a.alters_over col)
      (replaces_of_nodup (h.columnNames s mem t table) column rfl)
      (replaces_of_nodup (h.tableIds_of_mem mem) table rfl) (put_schemas h.schemaIds mem rfl)⟩

/-! ### Indexes -/

lemma carriedOut_createHashIndex {p : CreateHashIndex} (h : c.Coherent)
    (room : c.counter.val + 1 < 4_294_967_296) (he : createHashIndex c p = .ok es) :
    (Statement.createHashIndex p).CarriedOut c es := by
  obtain ⟨s, t, k, hs, ht, -, hk, applied⟩ := createHashIndex_ok h room he
  exact ⟨_, _, ⟨k, hk, applied⟩, .createHashIndex hs ht
    (put_schemas h.schemaIds (List.mem_of_find?_eq_some hs) rfl)⟩

lemma carriedOut_createSortedIndex {p : CreateSortedIndex} (h : c.Coherent)
    (room : c.counter.val + 1 < 4_294_967_296) (he : createSortedIndex c p = .ok es) :
    (Statement.createSortedIndex p).CarriedOut c es := by
  obtain ⟨s, t, k, hs, ht, -, hk, applied⟩ := createSortedIndex_ok h room he
  exact ⟨_, _, ⟨k, hk, applied⟩, .createSortedIndex hs ht
    (put_schemas h.schemaIds (List.mem_of_find?_eq_some hs) rfl)⟩

lemma carriedOut_dropIndex {schema : Option String} (h : c.Coherent)
    (he : dropIndex c schema name = .ok es) :
    (Statement.dropIndex schema name).CarriedOut c es := by
  have accepted : (Statement.dropIndex schema name).Accepted c es :=
    accepted_of_ok (congrArg orFail he)
  cases accepted with
  | @dropIndex _ _ s i hs hi =>
    have mem := List.mem_of_find?_eq_some hs
    have index := List.mem_of_find?_eq_some hi
    exact ⟨_, _, .put (applyEntries_cons (h.dropIndex mem index i.tableId) []),
      .dropIndex hs hi (removes_of_nodup (h.indexIds_of_mem mem) index)
        (put_schemas h.schemaIds mem rfl)⟩

/-! ### Zones -/

lemma carriedOut_createZone {p : ZoneSpec} (h : c.Coherent)
    (room : c.counter.val + 1 < 4_294_967_296) (he : createZone c name p = .ok es) :
    (Statement.createZone name p).CarriedOut c es := by
  obtain ⟨k, -, -, hk, applied⟩ := createZone_ok room he
  rw [h.withZones_eq] at applied
  exact ⟨_, _, ⟨k, hk, applied⟩, .createZone (p.alters_over _)⟩

lemma carriedOut_alterZone {p : ZoneSpec} (h : c.Coherent) (he : alterZone c name p = .ok es) :
    (Statement.alterZone name p).CarriedOut c es := by
  have accepted : (Statement.alterZone name p).Accepted c es := accepted_of_ok (congrArg orFail he)
  cases accepted with
  | @alterZone _ _ z blank hz =>
    have mem := List.mem_of_find?_eq_some hz
    exact ⟨_, _, .withZones h.toKeyed (alterZone_ok (z := p.over z) mem rfl),
      .alterZone hz (p.alters_over z) (replaces_of_nodup h.zoneIds mem rfl)⟩

lemma carriedOut_renameZone {newName : String} (h : c.Coherent)
    (he : renameZone c name newName = .ok es) :
    (Statement.renameZone name newName).CarriedOut c es := by
  obtain ⟨z, hz, -, -, -, applied⟩ := renameZone_ok he
  exact ⟨_, _, .withZones h.toKeyed applied, .renameZone hz
    (replaces_of_nodup h.zoneIds (List.mem_of_find?_eq_some hz) rfl)⟩

lemma carriedOut_dropZone (h : c.Coherent) (he : dropZone c name = .ok es) :
    (Statement.dropZone name).CarriedOut c es := by
  have accepted : (Statement.dropZone name).Accepted c es := accepted_of_ok (congrArg orFail he)
  cases accepted with
  | dropZone blank hz =>
    have mem := List.mem_of_find?_eq_some hz
    refine ⟨_, _, .withZones h.toKeyed ?_, .dropZone hz (removes_of_nodup h.zoneIds mem)⟩
    rw [applyEntries, applyEntry, requireZone_ok mem]
    rfl

end Entries

/-- A statement changes its target and nothing else.

Let the numbers and names of a catalog be distinct, its references lead to what exists, and its
numbers be below a counter with room for two more. Then what a statement yields can be applied, the
zones and schemas become the ones that the statement says, the counter moves on by the number of new
objects, and the version and the time of activation stay. -/
theorem Statement.alters {c : Catalog} (h : c.Coherent) (room : c.counter.val ≤ 4_294_967_293)
    {st : Statement} {es : List Entry} (he : st.entries c = .ok es) :
    ∃ (k : ObjectId) (zones : List Zone) (schemas : List Schema),
      c.applyEntries es = .ok (Catalog.ofParts c.version c.activation k zones schemas) ∧
      k.val = c.counter.val + st.numbers ∧ st.Alters c zones schemas := by
  have two : c.counter.val + 2 < 4_294_967_296 := by omega
  have one : c.counter.val + 1 < 4_294_967_296 := by omega
  have done : st.CarriedOut c es := by
    cases st with
    | createTable p => exact Entries.carriedOut_createTable h two he
    | dropTable schema table => exact Entries.carriedOut_dropTable h (Entries.of_orFail he)
    | addColumns schema table columns => exact Entries.carriedOut_addColumns h (Entries.of_orFail he)
    | dropColumns schema table names => exact Entries.carriedOut_dropColumns h (Entries.of_orFail he)
    | alterColumn a => exact Entries.carriedOut_alterColumn h (Entries.of_orFail he)
    | createHashIndex p => exact Entries.carriedOut_createHashIndex h one (Entries.of_orFail he)
    | createSortedIndex p => exact Entries.carriedOut_createSortedIndex h one (Entries.of_orFail he)
    | dropIndex schema index => exact Entries.carriedOut_dropIndex h (Entries.of_orFail he)
    | createZone name p => exact Entries.carriedOut_createZone h one (Entries.of_orFail he)
    | alterZone name p => exact Entries.carriedOut_alterZone h (Entries.of_orFail he)
    | renameZone name newName => exact Entries.carriedOut_renameZone h (Entries.of_orFail he)
    | dropZone name => exact Entries.carriedOut_dropZone h (Entries.of_orFail he)
  obtain ⟨zones, schemas, ⟨k, hk, applied⟩, alters⟩ := done
  exact ⟨k, zones, schemas, applied, hk, alters⟩

/-- More replicas of a zone. -/
def ZoneSpec.replicated : ZoneSpec where
  partitions := none
  replicas := some 3
  autoAdjust := none
  scaleUp := none
  scaleDown := none
  filter := none

theorem Statement.alters_initial :
    ∃ es, (Statement.alterZone "Default" .replicated).entries Catalog.initial = .ok es ∧
      ∃ (k : ObjectId) (zones : List Zone) (schemas : List Schema),
        Catalog.initial.applyEntries es =
          .ok (Catalog.ofParts Version.initial Timestamp.least k zones schemas) ∧
        k.val = 2 ∧ schemas = Catalog.initial.schemas ∧
        zones = [⟨1, "Default", 25, 3, 2147483647, 2147483647, 2147483647, "$..*"⟩] := by
  have yields : (Statement.alterZone "Default" .replicated).entries Catalog.initial = .ok _ := rfl
  obtain ⟨k, zones, schemas, applied, hk, alters⟩ :=
    Statement.alters Catalog.initial_wellFormed.coherent (by decide) yields
  refine ⟨_, yields, k, zones, schemas, applied, hk, ?_⟩
  cases alters with
  | @alterZone _ _ z target _ zone stated others =>
    cases zone
    have three : ZoneSpec.replicated.Alters (Zone.ofName 1 "Default")
        ⟨1, "Default", 25, 3, 2147483647, 2147483647, 2147483647, "$..*"⟩ :=
      ⟨rfl, rfl, .kept, .given, .kept, .kept, .kept, .kept⟩
    rw [stated.unique three] at others
    exact ⟨rfl, others.singleton⟩

end SchemaCatalog
