import SchemaCatalog.Proofs.Catalog.Schema

/-!
# Applying entries to well-formed catalogs

An entry that fits a well-formed catalog can be applied to it, and what comes of it is well-formed
again. A new object takes the number at the bound and moves the bound on by one.
-/

namespace SchemaCatalog

/-- Numbers that are those of before, and a new one each. -/
lemma ids_of_subperm {l old new : List ObjectId} {n m : Nat} (h : l.Subperm (new ++ old))
    (hn : new.Nodup) (fresh : ∀ id ∈ new, n ≤ id.val ∧ id.val < m) (ho : old.Nodup)
    (below : ∀ id ∈ old, id.val < n) (hm : n ≤ m) : l.Nodup ∧ ∀ id ∈ l, id.val < m := by
  constructor
  · obtain ⟨l', hp, hs⟩ := h
    refine hp.nodup_iff.1 (List.Nodup.sublist hs (hn.append ho fun id hi hi' => ?_))
    exact absurd (below id hi') (Nat.not_lt.2 (fresh id hi).1)
  · intro id hid
    rcases List.mem_append.1 (h.subset hid) with hi | hi
    · exact (fresh id hi).2
    · exact Nat.lt_of_lt_of_le (below id hi) hm

namespace Catalog

section

variable {c : Catalog} {n m : Nat} {s s' r : Schema} {t : Table} {i : Index} {z : Zone}

/-- A schema changes, with new numbers from the bound on. -/
lemma WellFormedBelow.put (h : c.WellFormedBelow n) (new : List ObjectId) (hs : s ∈ c.schemas)
    (e : s'.id = s.id) (hs' : s'.WellFormed)
    (hz : ∀ t ∈ s'.tables, ∃ z ∈ c.zones, z.id = t.zoneId)
    (ids : s'.ids.Subperm (new ++ s.ids)) (hn : new.Nodup)
    (fresh : ∀ id ∈ new, n ≤ id.val ∧ id.val < m) (hm : n ≤ m) :
    (c.put s').WellFormedBelow m := by
  obtain ⟨l₁, l₂, hl, hl'⟩ := put_schemas h.schemaIds hs e
  have subperm : (c.put s').ids.Subperm (new ++ c.ids) := by
    have zones : (c.put s').zones = c.zones := rfl
    rw [Catalog.ids, Catalog.ids, zones]
    refine List.Subperm.trans ?_ (List.perm_append_comm_assoc _ _ _).subperm
    rw [List.subperm_append_left]
    exact subperm_put h.schemaIds hs e ids
  obtain ⟨nodup, below⟩ := ids_of_subperm subperm hn fresh h.ids h.below hm
  refine ⟨rfl, rfl, ?_, nodup, below, ?_, h.zones, ?_⟩
  · have same := h.schemaIds
    rw [hl, List.map_append, List.map_cons] at same
    rw [hl', List.map_append, List.map_cons, e]
    exact same
  · intro r hr
    rcases mem_put hr with rfl | ⟨hr, -⟩
    · exact hs'
    · exact h.schemas r hr
  · intro r hr t ht
    rcases mem_put hr with rfl | ⟨hr, -⟩
    · exact hz t ht
    · exact h.tableZones r hr t ht

/-- The zones change, with new numbers from the bound on. -/
lemma WellFormedBelow.withZones {zones : List Zone} (h : c.WellFormedBelow n)
    (new : List ObjectId) (hz : Zones.WellFormed zones)
    (ht : ∀ s ∈ c.schemas, ∀ t ∈ s.tables, ∃ z ∈ zones, z.id = t.zoneId)
    (ids : (zones.map Zone.id).Subperm (new ++ c.zones.map Zone.id)) (hn : new.Nodup)
    (fresh : ∀ id ∈ new, n ≤ id.val ∧ id.val < m) (hm : n ≤ m) :
    (c.withZones zones).WellFormedBelow m := by
  have subperm : (c.withZones zones).ids.Subperm (new ++ c.ids) := by
    rw [Catalog.ids, Catalog.ids, ← List.append_assoc, Catalog.withZones, List.subperm_append_right]
    exact ids
  obtain ⟨nodup, below⟩ := ids_of_subperm subperm hn fresh h.ids h.below hm
  exact ⟨h.tablesById, h.indexesById, h.schemaIds, nodup, below, h.schemas, hz, ht⟩

/-! ## Numbers after a change -/

lemma ids_addTable (s : Schema) (t : Table) : (s.addTable t).ids.Subperm ([t.id] ++ s.ids) := by
  rw [Schema.ids, Schema.ids, Schema.addTable, List.map_append, List.append_assoc]
  exact (List.perm_append_comm_assoc _ _ _).subperm

lemma ids_addIndex (s : Schema) (i : Index) : (s.addIndex i).ids.Subperm ([i.id] ++ s.ids) := by
  rw [Schema.ids, Schema.ids, Schema.addIndex, List.map_append, ← List.append_assoc]
  exact List.perm_append_comm.subperm

lemma ids_removeTable (s : Schema) (id : ObjectId) : (s.removeTable id).ids.Subperm s.ids :=
  ((List.filter_sublist.map _).append_right _).subperm

lemma ids_removeIndex (s : Schema) (id : ObjectId) : (s.removeIndex id).ids.Subperm s.ids :=
  ((List.filter_sublist.map _).append_left _).subperm

/-- Indexes of other numbers remain when one goes. -/
lemma subset_removeIndex {i : Index} {l : List Index} (hl : i :: l ⊆ s.indexes)
    (hi : i.id ∉ l.map Index.id) : l ⊆ (s.removeIndex i.id).indexes := by
  intro j hj
  have ne : j.id ≠ i.id := fun e => hi (e ▸ List.mem_map_of_mem hj)
  exact List.mem_filter.2 ⟨hl (List.mem_cons_of_mem _ hj), by simpa using ne⟩

lemma ids_replaceTable (hs : s.WellFormed) (ht : t ∈ s.tables) (columns : List Column) :
    (s.replaceTable (t.withColumns columns)).ids = s.ids := by
  rw [Schema.ids, Schema.ids, Schema.replaceTable]
  exact congrArg (· ++ s.indexes.map Index.id)
    (map_replace (b := t.withColumns columns) (nodup_of_ascending hs.tableIds) ht rfl rfl)

lemma WellFormedBelow.lt_of_table (h : c.WellFormedBelow n) (hs : s ∈ c.schemas)
    (ht : t ∈ s.tables) : t.id.val < n :=
  h.below _ (mem_ids.2 (.inr ⟨s, hs, List.mem_append_left _ (List.mem_map_of_mem ht)⟩))

lemma WellFormedBelow.lt_of_index (h : c.WellFormedBelow n) (hs : s ∈ c.schemas)
    (hi : i ∈ s.indexes) : i.id.val < n :=
  h.below _ (mem_ids.2 (.inr ⟨s, hs, List.mem_append_right _ (List.mem_map_of_mem hi)⟩))

lemma WellFormedBelow.lt_of_zone (h : c.WellFormedBelow n) (hz : z ∈ c.zones) : z.id.val < n :=
  h.below _ (mem_ids.2 (.inl (List.mem_map_of_mem hz)))

/-! ## Entries -/

lemma applied_newTable (h : c.WellFormedBelow n) (hs : s ∈ c.schemas) (id : t.id.val = n)
    (schema : t.schemaId = s.id) (wf : t.WellFormed) (names : ∀ u ∈ s.tables, u.name ≠ t.name)
    (zone : ∃ z ∈ c.zones, z.id = t.zoneId) :
    c.applyEntry (.newTable t) = .ok (c.put (s.addTable t)) ∧
      (c.put (s.addTable t)).WellFormedBelow (n + 1) := by
  constructor
  · exact h.keyed.newTable hs schema
  · refine h.put [t.id] hs rfl ?_ ?_ (ids_addTable s t) (List.nodup_singleton _) ?_ (Nat.le_succ n)
    · refine (h.schemas s hs).addTable wf schema (fun u hu => ?_) names
      have lt := h.lt_of_table hs hu
      exact Fin.lt_def.2 (id ▸ lt)
    · intro u hu
      rcases List.mem_append.1 hu with hu | hu
      · exact h.tableZones s hs u hu
      · rw [List.mem_singleton.1 hu]
        exact zone
    · intro j hj
      rw [List.mem_singleton.1 hj, id]
      exact ⟨Nat.le_refl n, Nat.lt_succ_self n⟩

lemma applied_newIndex (h : c.WellFormedBelow n) (hs : s ∈ c.schemas) (ht : t ∈ s.tables)
    (id : i.id.val = n) (wf : i.IsOn t) (names : ∀ j ∈ s.indexes, j.name ≠ i.name) :
    c.applyEntry (.newIndex i) = .ok (c.put (s.addIndex i)) ∧
      (c.put (s.addIndex i)).WellFormedBelow (n + 1) := by
  constructor
  · exact h.keyed.newIndex hs ht wf.table
  · refine h.put [i.id] hs rfl ?_ (h.tableZones s hs) (ids_addIndex s i) (List.nodup_singleton _) ?_
      (Nat.le_succ n)
    · refine (h.schemas s hs).addIndex ht wf (fun j hj => ?_) names
      have lt := h.lt_of_index hs hj
      exact Fin.lt_def.2 (id ▸ lt)
    · intro j hj
      rw [List.mem_singleton.1 hj, id]
      exact ⟨Nat.le_refl n, Nat.lt_succ_self n⟩

/-- A table with other columns takes the place of the one that it comes of. -/
lemma applied_replaceTable {columns : List Column} (h : c.WellFormedBelow n) (hs : s ∈ c.schemas)
    (ht : t ∈ s.tables) (wf : (t.withColumns columns).WellFormed)
    (indexed : ∀ i ∈ s.indexes, i.tableId = t.id → i.columns ⊆ columns.map Column.name) :
    ∃ d, c.replaceTable (t.withColumns columns) = .ok d ∧ d.counter = c.counter ∧
      d.WellFormedBelow n := by
  refine ⟨c.put (s.replaceTable (t.withColumns columns)), ?_, rfl, ?_⟩
  · exact h.keyed.replaceTable hs ht rfl
  · refine h.put [] hs rfl ((h.schemas s hs).replaceTable ht wf indexed) ?_ ?_ .nil
      (List.forall_mem_nil _) (Nat.le_refl n)
    · intro u hu
      rcases mem_replace hu with rfl | ⟨hu, -⟩
      · exact h.tableZones s hs t ht
      · exact h.tableZones s hs u hu
    · rw [ids_replaceTable (h.schemas s hs) ht]
      exact List.Subperm.refl _

lemma applied_newColumns {columns : List Column} (h : c.WellFormedBelow n) (hs : s ∈ c.schemas)
    (ht : t ∈ s.tables) (nodup : (columns.map Column.name).Nodup)
    (new : ∀ name ∈ columns.map Column.name, name ∉ t.columns.map Column.name) :
    ∃ d, c.applyEntry (.newColumns t.id columns) = .ok d ∧ d.counter = c.counter ∧
      d.WellFormedBelow n := by
  have wf := h.schemas s hs
  have indexed : ∀ i ∈ s.indexes, i.tableId = t.id →
      i.columns ⊆ (t.columns ++ columns).map Column.name := by
    intro i hi e
    rw [List.map_append]
    exact List.Subset.trans (wf.isOn ht hi e).tableColumns (List.subset_append_left ..)
  obtain ⟨d, applied, counter, hd⟩ :=
    applied_replaceTable h hs ht ((wf.tables t ht).addColumns nodup new) indexed
  refine ⟨d, ?_, counter, hd⟩
  rw [applyEntry, h.keyed.existingTable hs ht]
  exact applied

lemma applied_dropColumns {names : List String} (h : c.WellFormedBelow n) (hs : s ∈ c.schemas)
    (ht : t ∈ s.tables) (key : ∀ name ∈ names, name ∉ t.primaryKey)
    (indexed : ∀ i ∈ s.indexes, i.tableId = t.id → ∀ name ∈ names, name ∉ i.columns) :
    ∃ d, c.applyEntry (.dropColumns t.id names) = .ok d ∧ d.counter = c.counter ∧
      d.WellFormedBelow n := by
  have wf := h.schemas s hs
  have remaining : ∀ i ∈ s.indexes, i.tableId = t.id →
      i.columns ⊆ (t.columns.filter fun col => !names.contains col.name).map Column.name := by
    intro i hi e name hname
    exact Table.WellFormed.mem_remaining ((wf.isOn ht hi e).tableColumns hname)
      fun hm => indexed i hi e name hm hname
  obtain ⟨d, applied, counter, hd⟩ :=
    applied_replaceTable h hs ht ((wf.tables t ht).dropColumns key) remaining
  refine ⟨d, ?_, counter, hd⟩
  rw [applyEntry, h.keyed.existingTable hs ht]
  exact applied

lemma applied_alterColumn {column : Column} (h : c.WellFormedBelow n) (hs : s ∈ c.schemas)
    (ht : t ∈ s.tables) (found : (t.column? column.name).isSome) :
    ∃ d, c.applyEntry (.alterColumn t.id column) = .ok d ∧ d.counter = c.counter ∧
      d.WellFormedBelow n := by
  have wf := h.schemas s hs
  obtain ⟨table, names⟩ := (wf.tables t ht).alterColumn column
  have indexed : ∀ i ∈ s.indexes, i.tableId = t.id →
      i.columns ⊆
        (t.columns.map fun c => if c.name = column.name then column else c).map Column.name := by
    intro i hi e
    rw [names]
    exact (wf.isOn ht hi e).tableColumns
  obtain ⟨d, applied, counter, hd⟩ := applied_replaceTable h hs ht table indexed
  refine ⟨d, ?_, counter, hd⟩
  rw [applyEntry, h.keyed.existingTable hs ht]
  exact (if_pos found).trans applied

lemma applied_dropIndex (h : c.WellFormedBelow n) (hs : s ∈ c.schemas) (hi : i ∈ s.indexes)
    (tableId : ObjectId) :
    c.applyEntry (.dropIndex i.id tableId) = .ok (c.put (s.removeIndex i.id)) ∧
      (c.put (s.removeIndex i.id)).WellFormedBelow n := by
  constructor
  · exact h.keyed.dropIndex hs hi tableId
  · exact h.put [] hs rfl ((h.schemas s hs).removeIndex i.id) (h.tableZones s hs)
      (ids_removeIndex s i.id) .nil (List.forall_mem_nil _) (Nat.le_refl n)

lemma applied_dropTable (h : c.WellFormedBelow n) (hs : s ∈ c.schemas) (ht : t ∈ s.tables)
    (free : ∀ i ∈ s.indexes, i.tableId ≠ t.id) :
    c.applyEntry (.dropTable t.id) = .ok (c.put (s.removeTable t.id)) ∧
      (c.put (s.removeTable t.id)).WellFormedBelow n := by
  constructor
  · exact h.keyed.dropTable hs ht
  · refine h.put [] hs rfl ((h.schemas s hs).removeTable free) ?_
      (ids_removeTable s t.id) .nil (List.forall_mem_nil _) (Nat.le_refl n)
    exact fun u hu => h.tableZones s hs u (List.mem_filter.1 hu).1

/-- Indexes of a schema go one after another, and each is found although the ones before it are gone
already. -/
lemma applied_dropIndexes {l : List Index} (h : c.WellFormedBelow n) (hs : s ∈ c.schemas)
    (hl : l ⊆ s.indexes) (nodup : (l.map Index.id).Nodup) (es : List Entry) :
    ∃ (d : Catalog) (s' : Schema),
      c.applyEntries (l.map (fun i => .dropIndex i.id i.tableId) ++ es) = d.applyEntries es ∧
      d.counter = c.counter ∧ d.WellFormedBelow n ∧ s' ∈ d.schemas ∧ s'.tables = s.tables ∧
      ∀ i ∈ s'.indexes, i ∈ s.indexes ∧ i.id ∉ l.map Index.id := by
  induction l generalizing c s with
  | nil => exact ⟨c, s, rfl, rfl, h, hs, rfl, fun i hi => ⟨hi, List.not_mem_nil⟩⟩
  | cons i l ih =>
    obtain ⟨hi, nodup⟩ := List.nodup_cons.1 nodup
    -- The others remain in the schema that is now in the place of this one.
    have applied := applied_dropIndex h hs (hl (List.mem_cons_self ..)) i.tableId
    have remain := subset_removeIndex hl hi
    have kept : s.removeIndex i.id ∈ (c.put (s.removeIndex i.id)).schemas :=
      mem_put_self h.schemaIds hs rfl
    obtain ⟨d, s', e, counter, hd, hs', tables, rest⟩ := ih applied.2 kept remain nodup
    refine ⟨d, s', (applyEntries_cons applied.1 _).trans e, counter, hd, hs', tables, ?_⟩
    intro j hj
    obtain ⟨hj, hjl⟩ := rest j hj
    obtain ⟨hj, ne⟩ := List.mem_filter.1 hj
    have ne : j.id ≠ i.id := by simpa using ne
    refine ⟨hj, fun hm => ?_⟩
    rcases List.mem_cons.1 hm with e | hm
    · exact ne e
    · exact hjl hm

lemma applied_newZone (h : c.WellFormedBelow n) (id : z.id.val = n) (wf : z.WellFormed)
    (names : ∀ y ∈ c.zones, y.name ≠ z.name) :
    (c.withZones (c.zones ++ [z])).WellFormedBelow (n + 1) := by
  refine h.withZones [z.id] ?_ ?_ ?_ (List.nodup_singleton _) ?_ (Nat.le_succ n)
  · refine h.zones.add wf (fun y hy => ?_) names
    have lt := h.lt_of_zone hy
    exact Fin.lt_def.2 (id ▸ lt)
  · intro s hs t ht
    obtain ⟨y, hy, e⟩ := h.tableZones s hs t ht
    exact ⟨y, List.mem_append_left _ hy, e⟩
  · rw [List.map_append]
    exact List.perm_append_comm.subperm
  · intro j hj
    rw [List.mem_singleton.1 hj, id]
    exact ⟨Nat.le_refl n, Nat.lt_succ_self n⟩

lemma applied_alterZone {y : Zone} (h : c.WellFormedBelow n) (hy : y ∈ c.zones) (e : z.id = y.id)
    (wf : z.WellFormed)
    (names : z.name = y.name ∨ y.name ≠ Zone.defaultName ∧ ∀ x ∈ c.zones, x.name ≠ z.name) :
    ∃ d, c.applyEntry (.alterZone z) = .ok d ∧ d.counter = c.counter ∧ d.WellFormedBelow n := by
  refine ⟨c.withZones (c.zones.map fun x => if x.id = z.id then z else x), ?_, rfl, ?_⟩
  · rw [applyEntry, e, requireZone_ok hy]
    rfl
  · refine h.withZones [] (h.zones.replace hy e wf names) ?_ ?_ .nil (List.forall_mem_nil _)
      (Nat.le_refl n)
    · intro s hs t ht
      obtain ⟨x, hx, ex⟩ := h.tableZones s hs t ht
      by_cases same : x.id = z.id
      · exact ⟨z, List.mem_map.2 ⟨x, hx, if_pos same⟩, same.symm.trans ex⟩
      · exact ⟨x, List.mem_map.2 ⟨x, hx, if_neg same⟩, ex⟩
    · rw [map_replace (nodup_of_ascending h.zones.ids) hy e e]
      exact List.Subperm.refl _

lemma applied_dropZone (h : c.WellFormedBelow n) (hz : z ∈ c.zones)
    (ne : z.name ≠ Zone.defaultName) (free : ∀ t ∈ c.tables, t.zoneId ≠ z.id) :
    ∃ d, c.applyEntry (.dropZone z.id) = .ok d ∧ d.counter = c.counter ∧ d.WellFormedBelow n := by
  refine ⟨c.withZones (c.zones.filter fun x => x.id ≠ z.id), ?_, rfl, ?_⟩
  · rw [applyEntry, requireZone_ok hz]
    rfl
  · refine h.withZones [] (h.zones.remove hz ne) ?_
      ((List.filter_sublist.map _).subperm) .nil (List.forall_mem_nil _) (Nat.le_refl n)
    intro s hs t ht
    obtain ⟨x, hx, ex⟩ := h.tableZones s hs t ht
    have other : x.id ≠ z.id := fun e => free t (List.mem_flatMap.2 ⟨s, hs, ht⟩) (ex.symm.trans e)
    exact ⟨x, List.mem_filter.2 ⟨hx, by simpa using other⟩, ex⟩

end

end Catalog

end SchemaCatalog
