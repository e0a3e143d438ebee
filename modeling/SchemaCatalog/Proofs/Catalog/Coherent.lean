import SchemaCatalog.Proofs.Catalog.Statements

/-!
# Coherent catalogs

Less than well-formed: what the lookups and rewritings of the fold rely on. Numbers and names are
distinct, references lead to what exists, and all numbers are below the counter
(`Catalog.Coherent`). On such a catalog the entries of a statement come down to a single change: the
ones that create a table, or that drop it with the indexes on it, put one schema in the place of
another.
-/

namespace SchemaCatalog

/-- The schema without a table and without the indexes on it. -/
def Schema.dropTable (s : Schema) (id : ObjectId) : Schema :=
  { s with
    tables := s.tables.filter fun t => t.id ≠ id
    indexes := s.indexes.filter fun i => i.tableId ≠ id }

/-- The schema without the indexes of some numbers. -/
def Schema.removeIndexes (s : Schema) (ids : List ObjectId) : Schema :=
  { s with indexes := s.indexes.filter fun i => i.id ∉ ids }

lemma Schema.removeIndexes_nil (s : Schema) : s.removeIndexes [] = s := by
  have all : s.indexes.filter (fun i => i.id ∉ ([] : List ObjectId)) = s.indexes :=
    List.filter_eq_self.2 fun i _ => by simp
  rw [removeIndexes, all]

lemma Schema.removeIndexes_cons (s : Schema) (id : ObjectId) (ids : List ObjectId) :
    (s.removeIndex id).removeIndexes ids = s.removeIndexes (id :: ids) := by
  have both : (s.removeIndex id).indexes.filter (fun i => i.id ∉ ids) =
      s.indexes.filter fun i => i.id ∉ id :: ids := by
    rw [removeIndex, List.filter_filter]
    refine List.filter_congr fun i _ => ?_
    simp [Bool.and_comm]
  rw [removeIndexes, both]
  rfl

namespace Catalog

/-- A catalog whose numbers and names are distinct and whose references lead to what exists, with all
numbers below the counter. Tables, indexes and columns are named within a schema, or a table. -/
structure Coherent (c : Catalog) : Prop extends c.Keyed where
  zoneIds : (c.zones.map Zone.id).Nodup
  zoneNames : (c.zones.map Zone.name).Nodup
  tableNames : ∀ s ∈ c.schemas, (s.tables.map Table.name).Nodup
  indexNames : ∀ s ∈ c.schemas, (s.indexes.map Index.name).Nodup
  columnNames : ∀ s ∈ c.schemas, ∀ t ∈ s.tables, (t.columns.map Column.name).Nodup
  tableZones : ∀ s ∈ c.schemas, ∀ t ∈ s.tables, ∃ z ∈ c.zones, z.id = t.zoneId
  indexTables : ∀ s ∈ c.schemas, ∀ i ∈ s.indexes, ∃ t ∈ s.tables, t.id = i.tableId
  below : ∀ id ∈ c.ids, id.val < c.counter.val

variable {c : Catalog} {s r : Schema} {t : Table} {i : Index} {id : ObjectId} {es : List Entry}

lemma WellFormed.coherent (h : c.WellFormed) : c.Coherent where
  toKeyed := h.keyed
  zoneIds := nodup_of_ascending h.zones.ids
  zoneNames := h.zones.names
  tableNames s hs := (h.schemas s hs).tableNames
  indexNames s hs := (h.schemas s hs).indexNames
  columnNames s hs t ht := ((h.schemas s hs).tables t ht).columnNames
  tableZones := h.tableZones
  indexTables s hs i hi := by
    obtain ⟨t, ht, on⟩ := (h.schemas s hs).indexes i hi
    exact ⟨t, ht, on.table.symm⟩
  below := h.below

/-! ## Numbers from the counter on -/

namespace Coherent

lemma not_mem_ids (h : c.Coherent) (le : c.counter.val ≤ id.val) : id ∉ c.ids :=
  fun hid => absurd (h.below id hid) (Nat.not_lt.2 le)

lemma fresh_zone (h : c.Coherent) (le : c.counter.val ≤ id.val) : id ∉ c.zones.map Zone.id :=
  fun hid => h.not_mem_ids le (List.mem_append_left _ hid)

lemma fresh_table (h : c.Coherent) (le : c.counter.val ≤ id.val) : id ∉ c.tables.map Table.id :=
  fun hid => h.not_mem_ids le (List.mem_append_right _ (ids_tables_sublist.subset hid))

lemma fresh_index (h : c.Coherent) (le : c.counter.val ≤ id.val) : id ∉ c.indexes.map Index.id :=
  fun hid => h.not_mem_ids le (List.mem_append_right _ (ids_indexes_sublist.subset hid))

end Coherent

/-! ## One schema of a catalog -/

namespace Keyed

/-- No table is in two schemas. -/
lemma schema_of_table (h : c.Keyed) (hs : s ∈ c.schemas) (hr : r ∈ c.schemas) (ht : t ∈ s.tables)
    {u : Table} (hu : u ∈ r.tables) (e : u.id = t.id) : r = s := by
  have found := h.schemaOfTable hr hu
  rw [e, h.schemaOfTable hs ht] at found
  cases found
  rfl

end Keyed

/-- An index is on a table of its own schema, and so no other schema has one on that table. -/
lemma Coherent.schema_of_tableId (h : c.Coherent) (hs : s ∈ c.schemas) (hr : r ∈ c.schemas)
    (ht : t ∈ s.tables) (hi : i ∈ r.indexes) (e : i.tableId = t.id) : r = s := by
  obtain ⟨u, hu, eu⟩ := h.indexTables r hr i hi
  exact h.schema_of_table hs hr ht hu (eu.trans e)

/-! ## Several entries -/

namespace Keyed

/-- A table and an index on it. -/
lemma fold_newTable (h : c.Keyed) (hs : s ∈ c.schemas) (et : t.schemaId = s.id)
    (fresh : t.id ∉ c.tables.map Table.id) (ei : i.tableId = t.id) (es : List Entry) :
    c.applyEntries (.newTable t :: .newIndex i :: es) =
      (c.put ((s.addTable t).addIndex i)).applyEntries es := by
  have mem : s.addTable t ∈ (c.put (s.addTable t)).schemas := mem_put_self h.schemaIds hs rfl
  have table : t ∈ (s.addTable t).tables := List.mem_concat_self ..
  have index := (h.addTable (i := i) hs et fresh).1.newIndex mem table ei
  rw [put_put c (s.addTable t) ((s.addTable t).addIndex i) rfl] at index
  rw [applyEntries_cons (h.newTable hs et), applyEntries_cons index]

lemma removeIndexes (h : c.Keyed) (hs : s ∈ c.schemas) (ids : List ObjectId) :
    (c.put (s.removeIndexes ids)).Keyed :=
  h.put [] [] hs rfl (h.schemaId s hs) (List.Subperm.refl _) h.tableIds
    (List.filter_sublist.map _).subperm h.indexIds

/-- Indexes that go one after another go at once, as each is found although the ones before it are
gone already. -/
lemma fold_dropIndexes {l : List Index} (h : c.Keyed) (hs : s ∈ c.schemas) (hl : l ⊆ s.indexes)
    (nodup : (l.map Index.id).Nodup) (es : List Entry) :
    c.applyEntries (l.map (fun i => .dropIndex i.id i.tableId) ++ es) =
      (c.put (s.removeIndexes (l.map Index.id))).applyEntries es := by
  induction l generalizing c s with
  | nil =>
    rw [List.map_nil, List.map_nil, s.removeIndexes_nil, h.put_self hs]
    rfl
  | cons i l ih =>
    obtain ⟨hi, nodup⟩ := List.nodup_cons.1 nodup
    -- The others remain in the schema that is now in the place of this one.
    have remain := subset_removeIndex hl hi
    have kept : s.removeIndex i.id ∈ (c.put (s.removeIndex i.id)).schemas :=
      mem_put_self h.schemaIds hs rfl
    have first := h.dropIndex hs (hl (List.mem_cons_self ..)) i.tableId
    have rest := ih (h.removeIndex hs i.id) kept remain nodup
    rw [s.removeIndexes_cons, put_put c (s.removeIndex i.id) (s.removeIndexes _) rfl] at rest
    exact (applyEntries_cons first _).trans rest

/-- A table goes after the indexes on it. -/
lemma fold_dropTable (h : c.Keyed) (hs : s ∈ c.schemas) (ht : t ∈ s.tables) :
    c.applyEntries
        ((s.indexesOf t.id).map (fun i => .dropIndex i.id i.tableId) ++ [.dropTable t.id]) =
      .ok (c.put (s.dropTable t.id)) := by
  have nodup := h.indexIds_of_mem hs
  generalize hids : (s.indexesOf t.id).map Index.id = ids
  have onTable : (s.removeIndexes ids).indexes = s.indexes.filter fun i => i.tableId ≠ t.id := by
    refine List.filter_congr fun i hi => ?_
    have same : i.id ∈ ids ↔ i.tableId = t.id := by
      rw [← hids]
      constructor
      · intro hm
        obtain ⟨j, hj, e⟩ := List.mem_map.1 hm
        obtain ⟨hj, on⟩ := List.mem_filter.1 hj
        rw [← List.inj_on_of_nodup_map nodup hj hi e]
        simpa using on
      · exact fun on => List.mem_map_of_mem (List.mem_filter.2 ⟨hi, by simpa using on⟩)
    simp [same]
  have subset : s.indexesOf t.id ⊆ s.indexes := List.filter_subset_self ..
  have gone := h.fold_dropIndexes hs subset (nodup.sublist (List.filter_sublist.map _))
    [.dropTable t.id]
  -- The table is still in the schema that has lost its indexes.
  have mem : s.removeIndexes ids ∈ (c.put (s.removeIndexes ids)).schemas :=
    mem_put_self h.schemaIds hs rfl
  have last := (h.removeIndexes hs ids).dropTable mem (t := t) ht
  have whole : (s.removeIndexes ids).removeTable t.id = s.dropTable t.id := by
    rw [Schema.removeTable, onTable]
    rfl
  rw [whole, put_put c (s.removeIndexes ids) (s.dropTable t.id) rfl] at last
  rw [gone, hids, applyEntries_cons last]
  rfl

end Keyed

end Catalog

end SchemaCatalog
