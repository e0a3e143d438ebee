import SchemaCatalog.Proofs.Catalog.WellFormed

/-!
# Changes of tables, schemas and zones

What has to be known of a column, a table, an index or a zone for what holds it to stay well-formed
when it is added, replaced or removed.
-/

namespace SchemaCatalog

/-- A greater number behind ascending ones. -/
lemma pairwise_concat {α : Type} {k : α → ObjectId} {l : List α} {a : α}
    (hl : (l.map k).Pairwise (· < ·)) (ha : ∀ b ∈ l, k b < k a) :
    ((l ++ [a]).map k).Pairwise (· < ·) := by
  rw [List.map_append, List.pairwise_append]
  refine ⟨hl, List.pairwise_singleton .., fun x hx y hy => ?_⟩
  obtain ⟨b, hb, rfl⟩ := List.mem_map.1 hx
  rw [List.map_singleton, List.mem_singleton] at hy
  rw [hy]
  exact ha b hb

/-- Another name behind distinct ones. -/
lemma nodup_concat {α β : Type} {k : α → β} {l : List α} {a : α} (hl : (l.map k).Nodup)
    (ha : ∀ b ∈ l, k b ≠ k a) : ((l ++ [a]).map k).Nodup := by
  rw [List.map_append]
  refine hl.append (List.nodup_singleton _) fun x hx hy => ?_
  obtain ⟨b, hb, rfl⟩ := List.mem_map.1 hx
  exact ha b hb (List.mem_singleton.1 hy)

/-- Numbers in ascending order are distinct. -/
lemma nodup_of_ascending {l : List ObjectId} (h : l.Pairwise (· < ·)) : l.Nodup :=
  h.imp fun hlt => Fin.ne_of_lt hlt

/-- Two members with one number are the same. -/
lemma eq_of_ascending {α : Type} {k : α → ObjectId} {l : List α} {a b : α}
    (h : (l.map k).Pairwise (· < ·)) (ha : a ∈ l) (hb : b ∈ l) (e : k a = k b) : a = b :=
  List.inj_on_of_nodup_map (nodup_of_ascending h) ha hb e

/-! ## Tables -/

namespace Table.WellFormed

variable {t : Table}

lemma addColumns (h : t.WellFormed) {columns : List Column}
    (nodup : (columns.map Column.name).Nodup)
    (new : ∀ n ∈ columns.map Column.name, n ∉ t.columns.map Column.name) :
    (t.withColumns (t.columns ++ columns)).WellFormed where
  columns := List.append_ne_nil_of_left_ne_nil h.columns _
  columnNames := by
    rw [Table.withColumns, List.map_append]
    exact h.columnNames.append nodup fun n hn hn' => new n hn' hn
  key := h.key
  keyNames := h.keyNames
  keyColumns := by
    rw [Table.withColumns, List.map_append]
    exact List.Subset.trans h.keyColumns (List.subset_append_left ..)
  colocationNames := h.colocationNames
  colocationColumns := h.colocationColumns

/-- The names of the columns that stay when some are dropped. -/
lemma mem_remaining {columns : List Column} {names : List String} {n : String}
    (hn : n ∈ columns.map Column.name) (free : n ∉ names) :
    n ∈ (columns.filter fun col => !names.contains col.name).map Column.name := by
  obtain ⟨col, hc, rfl⟩ := List.mem_map.1 hn
  exact List.mem_map_of_mem (List.mem_filter.2 ⟨hc, by simpa using free⟩)

/-- The columns of the key stay, and so there is one. -/
lemma dropColumns (h : t.WellFormed) {names : List String}
    (free : ∀ n ∈ names, n ∉ t.primaryKey) :
    (t.withColumns (t.columns.filter fun col => !names.contains col.name)).WellFormed := by
  have keyColumns : t.primaryKey ⊆
      (t.columns.filter fun col => !names.contains col.name).map Column.name := by
    intro n hn
    exact mem_remaining (h.keyColumns hn) fun hm => free n hm hn
  constructor
  case columns =>
    intro none
    have none : t.columns.filter (fun col => !names.contains col.name) = [] := none
    rw [none, List.map_nil, List.subset_nil] at keyColumns
    exact h.key keyColumns
  case columnNames => exact h.columnNames.sublist (List.filter_sublist.map _)
  case key => exact h.key
  case keyNames => exact h.keyNames
  case keyColumns => exact keyColumns
  case colocationNames => exact h.colocationNames
  case colocationColumns => exact h.colocationColumns

lemma alterColumn (h : t.WellFormed) (column : Column) :
    (t.withColumns (t.columns.map fun c => if c.name = column.name then column else c)).WellFormed ∧
      (t.columns.map fun c => if c.name = column.name then column else c).map Column.name =
        t.columns.map Column.name := by
  have names : (t.columns.map fun c => if c.name = column.name then column else c).map Column.name =
      t.columns.map Column.name := by
    rw [List.map_map]
    refine List.map_congr_left fun c _ => ?_
    simp only [Function.comp_apply]
    split
    · rename_i e
      exact e.symm
    · rfl
  refine ⟨?_, names⟩
  constructor
  case columns =>
    intro none
    exact h.columns (List.map_eq_nil_iff.1 none)
  case columnNames =>
    rw [Table.withColumns, names]
    exact h.columnNames
  case key => exact h.key
  case keyNames => exact h.keyNames
  case keyColumns =>
    rw [Table.withColumns, names]
    exact h.keyColumns
  case colocationNames => exact h.colocationNames
  case colocationColumns => exact h.colocationColumns

end Table.WellFormed

/-! ## Schemas -/

namespace Schema.WellFormed

variable {s : Schema} {t u : Table} {i : Index}

lemma addTable (h : s.WellFormed) (ht : t.WellFormed) (hs : t.schemaId = s.id)
    (ids : ∀ u ∈ s.tables, u.id < t.id) (names : ∀ u ∈ s.tables, u.name ≠ t.name) :
    (s.addTable t).WellFormed where
  tableIds := pairwise_concat h.tableIds ids
  indexIds := h.indexIds
  tableNames := nodup_concat h.tableNames names
  indexNames := h.indexNames
  schemaId u hu := by
    rcases List.mem_append.1 hu with hu | hu
    · exact h.schemaId u hu
    · rw [List.mem_singleton.1 hu]
      exact hs
  tables u hu := by
    rcases List.mem_append.1 hu with hu | hu
    · exact h.tables u hu
    · rw [List.mem_singleton.1 hu]
      exact ht
  indexes j hj := by
    obtain ⟨u, hu, hon⟩ := h.indexes j hj
    exact ⟨u, List.mem_append_left _ hu, hon⟩

lemma addIndex (h : s.WellFormed) (ht : t ∈ s.tables) (hi : i.IsOn t)
    (ids : ∀ j ∈ s.indexes, j.id < i.id) (names : ∀ j ∈ s.indexes, j.name ≠ i.name) :
    (s.addIndex i).WellFormed where
  tableIds := h.tableIds
  indexIds := pairwise_concat h.indexIds ids
  tableNames := h.tableNames
  indexNames := nodup_concat h.indexNames names
  schemaId := h.schemaId
  tables := h.tables
  indexes j hj := by
    rcases List.mem_append.1 hj with hj | hj
    · exact h.indexes j hj
    · rw [List.mem_singleton.1 hj]
      exact ⟨t, ht, hi⟩

/-- An index on a table of the schema has columns of that table. -/
lemma isOn (h : s.WellFormed) (ht : t ∈ s.tables) (hi : i ∈ s.indexes) (e : i.tableId = t.id) :
    i.IsOn t := by
  obtain ⟨u, hu, hon⟩ := h.indexes i hi
  rw [← eq_of_ascending h.tableIds hu ht (hon.table.symm.trans e)]
  exact hon

/-- A table gets other columns, among them all that its indexes have. -/
lemma replaceTable {columns : List Column} (h : s.WellFormed) (ht : t ∈ s.tables)
    (ht' : (t.withColumns columns).WellFormed)
    (hi : ∀ i ∈ s.indexes, i.tableId = t.id → i.columns ⊆ columns.map Column.name) :
    (s.replaceTable (t.withColumns columns)).WellFormed := by
  have e : (t.withColumns columns).id = t.id := rfl
  have mem : t.withColumns columns ∈ (s.replaceTable (t.withColumns columns)).tables :=
    List.mem_map.2 ⟨t, ht, if_pos rfl⟩
  constructor
  case tableIds =>
    rw [Schema.replaceTable, map_replace (nodup_of_ascending h.tableIds) ht e rfl]
    exact h.tableIds
  case indexIds => exact h.indexIds
  case tableNames =>
    rw [Schema.replaceTable, map_replace (nodup_of_ascending h.tableIds) ht e rfl]
    exact h.tableNames
  case indexNames => exact h.indexNames
  case schemaId =>
    intro u hu
    rcases mem_replace hu with rfl | ⟨hu, -⟩
    · exact h.schemaId t ht
    · exact h.schemaId u hu
  case tables =>
    intro u hu
    rcases mem_replace hu with rfl | ⟨hu, -⟩
    · exact ht'
    · exact h.tables u hu
  case indexes =>
    intro j hj
    obtain ⟨u, hu, hon⟩ := h.indexes j hj
    -- What was on the table is on the one in its place, and the rest stays where it was.
    by_cases eu : u.id = t.id
    · obtain rfl := eq_of_ascending h.tableIds hu ht eu
      exact ⟨_, mem, hon.table, hon.columns, hon.columnNames, hi j hj hon.table⟩
    · exact ⟨u, List.mem_map.2 ⟨u, hu, if_neg eu⟩, hon⟩

/-- A table goes that has no index. -/
lemma removeTable (h : s.WellFormed) {id : ObjectId} (hi : ∀ i ∈ s.indexes, i.tableId ≠ id) :
    (s.removeTable id).WellFormed where
  tableIds := h.tableIds.sublist (List.filter_sublist.map _)
  indexIds := h.indexIds
  tableNames := h.tableNames.sublist (List.filter_sublist.map _)
  indexNames := h.indexNames
  schemaId u hu := h.schemaId u (List.mem_filter.1 hu).1
  tables u hu := h.tables u (List.mem_filter.1 hu).1
  indexes j hj := by
    obtain ⟨u, hu, hon⟩ := h.indexes j hj
    have ne : u.id ≠ id := fun e => hi j hj (hon.table.trans e)
    exact ⟨u, List.mem_filter.2 ⟨hu, by simpa using ne⟩, hon⟩

lemma removeIndex (h : s.WellFormed) (id : ObjectId) : (s.removeIndex id).WellFormed where
  tableIds := h.tableIds
  indexIds := h.indexIds.sublist (List.filter_sublist.map _)
  tableNames := h.tableNames
  indexNames := h.indexNames.sublist (List.filter_sublist.map _)
  schemaId := h.schemaId
  tables := h.tables
  indexes j hj := h.indexes j (List.mem_filter.1 hj).1

end Schema.WellFormed

/-! ## Zones -/

namespace Zones.WellFormed

variable {zones : List Zone} {y z : Zone}

lemma add (h : WellFormed zones) (hz : z.WellFormed) (ids : ∀ y ∈ zones, y.id < z.id)
    (names : ∀ y ∈ zones, y.name ≠ z.name) : WellFormed (zones ++ [z]) where
  ids := pairwise_concat h.ids ids
  names := nodup_concat h.names names
  each y hy := by
    rcases List.mem_append.1 hy with hy | hy
    · exact h.each y hy
    · rw [List.mem_singleton.1 hy]
      exact hz
  default := by
    obtain ⟨y, hy, hd⟩ := h.default
    exact ⟨y, List.mem_append_left _ hy, hd⟩

/-- A zone is replaced by one of another name at most, which is no other zone's, unless it is the
default zone. -/
lemma replace (h : WellFormed zones) (hy : y ∈ zones) (e : z.id = y.id) (hz : z.WellFormed)
    (names : z.name = y.name ∨ y.name ≠ Zone.defaultName ∧ ∀ x ∈ zones, x.name ≠ z.name) :
    WellFormed (zones.map fun x => if x.id = z.id then z else x) where
  ids := by
    rw [map_replace (nodup_of_ascending h.ids) hy e e]
    exact h.ids
  names := by
    rcases names with same | ⟨-, free⟩
    · rw [map_replace (nodup_of_ascending h.ids) hy e same]
      exact h.names
    · -- Two zones have one name only if both are replaced or both stay.
      rw [List.map_map]
      refine List.Nodup.map_on ?_ (List.Nodup.of_map _ h.names)
      intro a ha b hb eab
      simp only [Function.comp_apply] at eab
      split at eab
      · rename_i ea
        split at eab
        · rename_i eb
          exact eq_of_ascending h.ids ha hb (ea.trans eb.symm)
        · exact absurd eab.symm (free b hb)
      · split at eab
        · exact absurd eab (free a ha)
        · exact List.inj_on_of_nodup_map h.names ha hb eab
  each x hx := by
    rcases mem_replace hx with rfl | ⟨hx, -⟩
    · exact hz
    · exact h.each x hx
  default := by
    obtain ⟨d, hd, hdn, hdi⟩ := h.default
    by_cases ed : d.id = z.id
    · obtain rfl := eq_of_ascending h.ids hd hy (ed.trans e)
      rcases names with same | ⟨ne, -⟩
      · exact ⟨z, List.mem_map.2 ⟨d, hd, if_pos ed⟩, same.trans hdn, ed.symm.trans hdi⟩
      · exact absurd hdn ne
    · exact ⟨d, List.mem_map.2 ⟨d, hd, if_neg ed⟩, hdn, hdi⟩

/-- A zone goes that is not the default one. -/
lemma remove (h : WellFormed zones) (hz : z ∈ zones) (ne : z.name ≠ Zone.defaultName) :
    WellFormed (zones.filter fun x => x.id ≠ z.id) where
  ids := h.ids.sublist (List.filter_sublist.map _)
  names := h.names.sublist (List.filter_sublist.map _)
  each x hx := h.each x (List.mem_filter.1 hx).1
  default := by
    obtain ⟨d, hd, hdn, hdi⟩ := h.default
    refine ⟨d, List.mem_filter.2 ⟨hd, ?_⟩, hdn, hdi⟩
    have other : d.id ≠ z.id := by
      intro e
      rw [← eq_of_ascending h.ids hd hz e] at ne
      exact ne hdn
    simpa using other

end Zones.WellFormed

end SchemaCatalog
