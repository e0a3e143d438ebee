import SchemaCatalog.Proofs.Catalog.Alters
import SchemaCatalog.Proofs.Catalog.Objects

/-!
# Statements that take each other back

What a statement created, a second one can drop: it finds the new object by its name in the catalog
that the first one left, no check stands in its way, and the zones and schemas are those of before,
in the order of before. That the lists are the same again rests on the new numbers and names, which
nothing else has.
-/

namespace SchemaCatalog

/-! ## Lists with one more at the end -/

section

variable {α β : Type} [DecidableEq β] {k : α → β} {l : List α} {a : α} {p : α → Bool}

lemma find?_concat (new : ∀ b ∈ l, k b ≠ k a) :
    (l ++ [a]).find? (fun b => k b = k a) = some a := by
  refine find?_of_unique (List.mem_concat_self ..) fun b hb e => ?_
  rcases List.mem_append.1 hb with hb | hb
  · exact absurd e (new b hb)
  · exact List.mem_singleton.1 hb

omit [DecidableEq β] in
lemma filter_concat (hl : ∀ b ∈ l, p b = true) (ha : p a = false) : (l ++ [a]).filter p = l := by
  rw [List.filter_append, List.filter_eq_self.2 hl, List.filter_cons_of_neg (by simp [ha])]
  exact List.append_nil l

/-- What has a key that nothing before it has goes with that key alone. -/
lemma filter_ne_concat (new : k a ∉ l.map k) : (l ++ [a]).filter (fun b => k b ≠ k a) = l := by
  refine filter_concat (fun b hb => ?_) (by simp)
  have ne : k b ≠ k a := fun e => new (e ▸ List.mem_map_of_mem hb)
  simpa using ne

end

/-! ## Schemas -/

namespace Schema

variable {s : Schema} {t : Table} {i : Index}

lemma dropTable_addTable (ht : t.id ∉ s.tables.map Table.id)
    (hi : ∀ j ∈ s.indexes, j.tableId ≠ t.id) (e : i.tableId = t.id) :
    ((s.addTable t).addIndex i).dropTable t.id = s := by
  have tables : (s.tables ++ [t]).filter (fun u => u.id ≠ t.id) = s.tables := filter_ne_concat ht
  have indexes : (s.indexes ++ [i]).filter (fun j => j.tableId ≠ t.id) = s.indexes :=
    filter_concat (fun j hj => by simpa using hi j hj) (by simp [e])
  rw [dropTable, addIndex, addTable, tables, indexes]

lemma removeIndex_addIndex (hi : i.id ∉ s.indexes.map Index.id) :
    (s.addIndex i).removeIndex i.id = s := by
  have indexes : (s.indexes ++ [i]).filter (fun j => j.id ≠ i.id) = s.indexes := filter_ne_concat hi
  rw [removeIndex, addIndex, indexes]

/-- A table that is put back is the one that there was. -/
lemma replaceTable_withColumns (hn : (s.tables.map Table.id).Nodup) (ht : t ∈ s.tables)
    (columns : List Column) : (s.replaceTable (t.withColumns columns)).replaceTable t = s := by
  have tables : (s.tables.map fun u => if u.id = t.id then t.withColumns columns else u).map
      (fun u => if u.id = t.id then t else u) = s.tables :=
    (replace_replace (a := t.withColumns columns) (b := t) s.tables rfl).trans (replace_self hn ht)
  exact congrArg (fun l => { s with tables := l }) tables

end Schema

/-! ## Checks that pass -/

namespace Check

variable {t : Table} {names : List String} {l : List Index}

lemma droppedColumns_ok (columns : names ⊆ t.columns.map Column.name)
    (key : ∀ n ∈ names, n ∉ t.primaryKey) : droppedColumns t names = .ok () := by
  induction names with
  | nil => rfl
  | cons n ns ih =>
    obtain ⟨col, hcol, e⟩ := List.mem_map.1 (columns (List.mem_cons_self ..))
    have found : (t.column? n).isSome := List.find?_isSome.2 ⟨col, hcol, by simpa using e⟩
    obtain ⟨col, hcol⟩ := Option.isSome_iff_exists.1 found
    have free : t.isKeyColumn n = false := by
      simpa [Table.isKeyColumn] using key n (List.mem_cons_self ..)
    simp only [droppedColumns, column_eq_ok.2 hcol, refuse, free, bind, Except.bind]
    exact ih (fun _ hm => columns (List.mem_cons_of_mem _ hm))
      fun m hm => key m (List.mem_cons_of_mem _ hm)

lemma notIndexed_ok (free : ∀ i ∈ l, ∀ n ∈ names, n ∉ i.columns) :
    notIndexed names l = .ok () := by
  induction l with
  | nil => rfl
  | cons i l ih =>
    have none : names.find? i.hasColumn = none := by
      refine List.find?_eq_none.2 fun n hn => ?_
      simpa [Index.hasColumn] using free i (List.mem_cons_self ..) n hn
    rw [notIndexed, none]
    exact ih fun j hj => free j (List.mem_cons_of_mem _ hj)

end Check

namespace Catalog

/-- A coherent catalog in which tables and indexes obey the rules for them, and that has the default
zone. -/
structure Sound (c : Catalog) : Prop extends c.Coherent where
  tables : ∀ s ∈ c.schemas, ∀ t ∈ s.tables, t.WellFormed
  indexes : ∀ s ∈ c.schemas, ∀ i ∈ s.indexes, ∃ t ∈ s.tables, i.IsOn t
  default : ∃ z ∈ c.zones, z.name = Zone.defaultName

variable {c d : Catalog} {s s' : Schema} {t : Table} {i : Index} {k : ObjectId} {es : List Entry}
  {name : String} {schema : Option String}

lemma WellFormed.sound (h : c.WellFormed) : c.Sound where
  toCoherent := h.coherent
  tables s hs := (h.schemas s hs).tables
  indexes s hs := (h.schemas s hs).indexes
  default := by
    obtain ⟨z, hz, e, -⟩ := h.zones.default
    exact ⟨z, hz, e⟩

/-- A statement is accepted on a later catalog, whatever version that is, and leads back to the zones
and schemas of the first one. -/
def RestoredBy (c d : Catalog) (st : Statement) : Prop :=
  ∀ (v : Version) (a : Timestamp), ∃ es, st.entries (d.stamp v a) = .ok es ∧
    (d.stamp v a).applyEntries es = .ok (ofParts v a d.counter c.zones c.schemas)

/-! ## One schema put and put back -/

namespace Keyed

lemma stamp (h : c.Keyed) (v : Version) (a : Timestamp) : (c.stamp v a).Keyed :=
  ⟨h.tablesById, h.indexesById, h.schemaIds, h.tableIds, h.indexIds, h.schemaId⟩

lemma withCounter (h : c.Keyed) (k : ObjectId) : (c.withCounter k).Keyed :=
  ⟨h.tablesById, h.indexesById, h.schemaIds, h.tableIds, h.indexIds, h.schemaId⟩

lemma put_back (h : c.Keyed) (s' : Schema) (hs : s ∈ c.schemas) (e : s'.id = s.id) (v : Version)
    (a : Timestamp) :
    (((c.put s').withCounter k).stamp v a).put s = ofParts v a k c.zones c.schemas :=
  congrArg (ofParts v a k c.zones)
    ((replace_replace c.schemas e.symm).trans (replace_self h.schemaIds hs))

end Keyed

/-- The schema of a name, whether it is stated or left out, is the one that was put. -/
lemma Keyed.schema_put {other : Option String} (h : c.Keyed) (s' : Schema) (k : ObjectId)
    (hs : c.schema? (other.getD Schema.defaultName) = some s) (e : s'.id = s.id)
    (en : s'.name = s.name) (same : schema.getD Schema.defaultName = other.getD Schema.defaultName)
    (v : Version) (a : Timestamp) :
    Check.schema (((c.put s').withCounter k).stamp v a) schema = .ok s' := by
  rw [Check.schema_eq_ok, same]
  exact put_schema? h.schemaIds hs e en

end Catalog

/-! ## Each pair -/

namespace Entries

open Statement Catalog

variable {c : Catalog} {es : List Entry} {name : String} {schema other : Option String} {s : Schema}
  {t : Table} {i : Index} {z : Zone} {k : ObjectId}

/-- A new table with its index is found by its name, and both have numbers that nothing else has. -/
lemma restored_newTable (h : c.Coherent)
    (hs : c.schema? (other.getD Schema.defaultName) = some s)
    (same : schema.getD Schema.defaultName = other.getD Schema.defaultName)
    (et : t.schemaId = s.id) (id : t.id = c.counter) (ei : i.tableId = t.id)
    (next : i.id.val = c.counter.val + 1) (names : ∀ u ∈ s.tables, u.name ≠ t.name) :
    c.RestoredBy ((c.put ((s.addTable t).addIndex i)).withCounter k)
      (.dropTable schema t.name) := by
  intro v a
  have mem := List.mem_of_find?_eq_some hs
  have newTable : t.id ∉ c.tables.map Table.id := id ▸ h.fresh_table (Nat.le_refl _)
  have newIndex : i.id ∉ c.indexes.map Index.id := h.fresh_index (by omega)
  have keyed := (((h.addTable mem et newTable).2 newIndex).withCounter k).stamp v a
  have found := h.schema_put ((s.addTable t).addIndex i) k hs rfl rfl same v a
  have table : ((s.addTable t).addIndex i).table? t.name = some t := find?_concat names
  have back := keyed.fold_dropTable (Check.of_schema found) (List.mem_concat_self ..)
  have whole : ((s.addTable t).addIndex i).dropTable t.id = s := by
    refine Schema.dropTable_addTable (fun ht => ?_) (fun j hj e => ?_) ei
    · obtain ⟨u, hu, e⟩ := List.mem_map.1 ht
      exact newTable (e ▸ List.mem_map_of_mem (mem_tables.2 ⟨s, mem, hu⟩))
    · obtain ⟨u, hu, eu⟩ := h.indexTables s mem j hj
      exact newTable ((eu.trans e) ▸ List.mem_map_of_mem (mem_tables.2 ⟨s, mem, hu⟩))
  rw [whole, h.put_back ((s.addTable t).addIndex i) mem rfl] at back
  exact ⟨_, entries_eq_ok.2 (.dropTable (Check.schema_eq_ok.1 found) table), back⟩

/-- What holds of both kinds of index. -/
lemma restored_newIndex (h : c.Coherent)
    (hs : c.schema? (other.getD Schema.defaultName) = some s)
    (same : schema.getD Schema.defaultName = other.getD Schema.defaultName)
    (id : i.id = c.counter) (names : ∀ j ∈ s.indexes, j.name ≠ i.name) :
    c.RestoredBy ((c.put (s.addIndex i)).withCounter k) (.dropIndex schema i.name) := by
  intro v a
  have mem := List.mem_of_find?_eq_some hs
  have newIndex : i.id ∉ c.indexes.map Index.id := id ▸ h.fresh_index (Nat.le_refl _)
  have keyed := ((h.addIndex mem newIndex).withCounter k).stamp v a
  have found := h.schema_put (s.addIndex i) k hs rfl rfl same v a
  have index : (s.addIndex i).index? i.name = some i := find?_concat names
  have back := keyed.dropIndex (Check.of_schema found) (List.mem_concat_self ..) i.tableId
  have whole : (s.addIndex i).removeIndex i.id = s := by
    refine Schema.removeIndex_addIndex fun hi => ?_
    obtain ⟨j, hj, e⟩ := List.mem_map.1 hi
    exact newIndex (e ▸ List.mem_map_of_mem (mem_indexes.2 ⟨s, mem, hj⟩))
  rw [whole, h.put_back (s.addIndex i) mem rfl] at back
  exact ⟨_, entries_eq_ok.2 (.dropIndex (Check.schema_eq_ok.1 found) index),
    applyEntries_cons back []⟩

/-- A new zone is not the default zone, which there was before, and no table is in it. -/
lemma restored_newZone (h : c.Sound) (id : z.id = c.counter)
    (blank : Check.zoneName z.name = .ok ()) (names : ∀ y ∈ c.zones, y.name ≠ z.name) :
    c.RestoredBy ((c.withZones (c.zones ++ [z])).withCounter k) (.dropZone z.name) := by
  intro v a
  obtain ⟨y, hy, default⟩ := h.default
  have notDefault : z.isDefault = false := by
    simpa [Zone.isDefault, ← default] using (names y hy).symm
  have new : z.id ∉ c.zones.map Zone.id := id ▸ h.fresh_zone (Nat.le_refl _)
  have unbound : ∀ t ∈ c.tables, t.zoneId ≠ z.id := by
    intro t ht e
    obtain ⟨s, hs, ht⟩ := mem_tables.1 ht
    obtain ⟨x, hx, ex⟩ := h.tableZones s hs t ht
    exact new ((ex.trans e) ▸ List.mem_map_of_mem hx)
  have others : (c.zones ++ [z]).filter (fun x => x.id ≠ z.id) = c.zones := filter_ne_concat new
  generalize hb : ((c.withZones (c.zones ++ [z])).withCounter k).stamp v a = b
  have zones : b.zones = c.zones ++ [z] := by rw [← hb]; rfl
  have tables : b.tables = c.tables := by rw [← hb]; rfl
  have mem : z ∈ b.zones := zones ▸ List.mem_concat_self ..
  have found : b.zone? z.name = some z := by
    rw [zone?, zones]
    exact find?_concat names
  refine ⟨[.dropZone z.id], ?_, ?_⟩
  · rw [← tables] at unbound
    exact entries_eq_ok.2 (.dropZone blank found notDefault unbound)
  · rw [applyEntries, applyEntry, requireZone_ok mem]
    show Except.ok (b.withZones (b.zones.filter fun x => x.id ≠ z.id)) = _
    rw [zones, others, ← hb]
    exact congrArg Except.ok ((h.withCounter k).stamp v a).eq_ofParts

/-- The columns that were added are in no key and no index, as those hold older columns only. -/
lemma restored_newColumns {columns : List Column} {names : List String} (h : c.Sound)
    (hs : c.schema? (other.getD Schema.defaultName) = some s)
    (same : schema.getD Schema.defaultName = other.getD Schema.defaultName)
    (ht : s.table? name = some t)
    (new : ∀ n ∈ columns.map Column.name, n ∉ t.columns.map Column.name)
    (hn : ∀ n, n ∈ names ↔ n ∈ columns.map Column.name) :
    c.RestoredBy (c.put (s.replaceTable (t.withColumns (t.columns ++ columns))))
      (.dropColumns schema name names) := by
  intro v a
  have mem := List.mem_of_find?_eq_some hs
  have table := List.mem_of_find?_eq_some ht
  set u := t.withColumns (t.columns ++ columns) with hu
  have keyed := (h.withColumns mem table (t.columns ++ columns)).stamp v a
  -- The schema and the table are found, the table with the columns that were added.
  have found : Check.schema ((c.put (s.replaceTable u)).stamp v a) schema =
      .ok (s.replaceTable u) :=
    h.schema_put (s.replaceTable u) c.counter hs rfl rfl same v a
  have table' : (s.replaceTable u).table? name = some u :=
    find?_replace (h.tableIds_of_mem mem) ht rfl rfl
  -- These columns may be dropped: they are there, and no key and no index holds one.
  have dropped : Check.droppedColumns u names = .ok () := by
    refine Check.droppedColumns_ok (fun n hm => ?_) fun n hm hk => ?_
    · rw [hu, Table.withColumns, List.map_append]
      exact List.mem_append_right _ ((hn n).1 hm)
    · exact new n ((hn n).1 hm) ((h.tables s mem t table).keyColumns hk)
  have free : Check.notIndexed names ((s.replaceTable u).indexesOf u.id) = .ok () := by
    refine Check.notIndexed_ok fun i hi n hm hc => ?_
    obtain ⟨hi, on⟩ := List.mem_filter.1 hi
    obtain ⟨w, hw, isOn⟩ := h.indexes s mem i hi
    have on : i.tableId = u.id := by simpa using on
    have same : w = t :=
      List.inj_on_of_nodup_map (h.tableIds_of_mem mem) hw table (isOn.table.symm.trans on)
    exact new n ((hn n).1 hm) (same ▸ isOn.tableColumns hc)
  -- The columns of before are left, so that the table and its schema are back.
  have kept : (t.columns ++ columns).filter (fun col => !names.contains col.name) = t.columns := by
    have old : t.columns.filter (fun col => !names.contains col.name) = t.columns := by
      refine List.filter_eq_self.2 fun col hcol => ?_
      simpa using fun hm => new col.name ((hn _).1 hm) (List.mem_map_of_mem hcol)
    have added : columns.filter (fun col => !names.contains col.name) = [] := by
      refine List.filter_eq_nil_iff.2 fun col hcol => ?_
      simpa using (hn _).2 (List.mem_map_of_mem hcol)
    rw [List.filter_append, old, added, List.append_nil]
  have back := keyed.dropColumns (Check.of_schema found)
    (Check.of_table (Check.table_eq_ok.2 table')) names
  have whole : (s.replaceTable u).replaceTable
      (u.withColumns (u.columns.filter fun col => !names.contains col.name)) = s := by
    show (s.replaceTable u).replaceTable
      (t.withColumns ((t.columns ++ columns).filter fun col => !names.contains col.name)) = s
    rw [kept]
    exact Schema.replaceTable_withColumns (h.tableIds_of_mem mem) table _
  rw [whole] at back
  refine ⟨_, ?_, applyEntries_cons (back.trans ?_) []⟩
  · exact entries_eq_ok.2 (.dropColumns (Check.schema_eq_ok.1 found) table' dropped free)
  · exact congrArg Except.ok (h.put_back (s.replaceTable u) mem rfl v a)

/-- A zone that was renamed is found by its new name, and its old name is free again. -/
lemma restored_renamedZone {newName : String} (h : c.Sound) (hz : c.zone? name = some z)
    (blank : Check.zoneName name = .ok ()) (newBlank : Check.zoneName newName = .ok ())
    (names : ∀ y ∈ c.zones, y.name ≠ newName) :
    c.RestoredBy (c.withZones (c.zones.map fun y => if y.id = z.id then { z with name := newName }
      else y)) (.renameZone newName name) := by
  intro v a
  have hzone := List.mem_of_find?_eq_some hz
  have named : z.name = name := by simpa using List.find?_some hz
  obtain ⟨y, hy, default⟩ := h.default
  set w : Zone := { z with name := newName } with hw
  -- The default zone is another one, as it has kept its name.
  have notDefault : w.isDefault = false := by
    simpa [Zone.isDefault, ← default] using (names y hy).symm
  generalize hb : (c.withZones (c.zones.map fun y => if y.id = z.id then w else y)).stamp v a = b
  have zones : b.zones = c.zones.map fun y => if y.id = w.id then w else y := by rw [← hb]; rfl
  have mem : w ∈ b.zones := by
    rw [zones]
    exact List.mem_map.2 ⟨z, hzone, if_pos rfl⟩
  -- The zones are the renamed one and the others, as they were.
  have others : ∀ x ∈ b.zones, x = w ∨ x ∈ c.zones ∧ x.id ≠ w.id := by
    rw [zones]
    exact fun x hx => mem_replace hx
  have found : b.zone? newName = some w := by
    refine find?_of_unique (k := Zone.name) mem fun x hx e => ?_
    rcases others x hx with rfl | ⟨hx, -⟩
    · rfl
    · exact absurd e (names x hx)
  have free : Check.zoneNameFree b name = .ok () := by
    have none : b.zone? name = none := by
      refine List.find?_eq_none.2 fun x hx e => ?_
      have e : x.name = name := by simpa using e
      rcases others x hx with rfl | ⟨hx, ne⟩
      · exact names z hzone (named.trans e.symm)
      · rw [List.inj_on_of_nodup_map h.zoneNames hx hzone (e.trans named.symm)] at ne
        exact ne rfl
    rw [Check.zoneNameFree, none]
    rfl
  -- The zone under its old name, in its old place, makes the list of before.
  have back : { w with name := name } = z := by rw [hw, ← named]
  have restored : b.zones.map (fun x => if x.id = z.id then z else x) = c.zones := by
    rw [zones]
    exact (replace_replace (a := w) (b := z) c.zones rfl).trans (replace_self h.zoneIds hzone)
  refine ⟨[.alterZone z], ?_, ?_⟩
  · rw [← back]
    exact entries_eq_ok.2 (.renameZone newBlank blank found free notDefault)
  · rw [applyEntries, applyEntry, requireZone_ok (z := w) mem]
    show Except.ok (b.withZones (b.zones.map fun x => if x.id = z.id then z else x)) = _
    rw [restored, ← hb]
    exact congrArg Except.ok (h.stamp v a).eq_ofParts

end Entries

/-! ## All pairs -/

/-- The second statement takes back what the first one does. It may state the schema that the first
one leaves out, and leave out the one that it states. -/
inductive Statement.TakenBackBy : Statement → Statement → Prop where
  | createTable {p : CreateTable} {schema : Option String}
      (same : schema.getD Schema.defaultName = p.schema.getD Schema.defaultName) :
      TakenBackBy (.createTable p) (.dropTable schema p.table)
  | createHashIndex {p : CreateHashIndex} {schema : Option String}
      (same : schema.getD Schema.defaultName = p.schema.getD Schema.defaultName) :
      TakenBackBy (.createHashIndex p) (.dropIndex schema p.index)
  | createSortedIndex {p : CreateSortedIndex} {schema : Option String}
      (same : schema.getD Schema.defaultName = p.schema.getD Schema.defaultName) :
      TakenBackBy (.createSortedIndex p) (.dropIndex schema p.index)
  | createZone {name : String} {p : ZoneSpec} :
      TakenBackBy (.createZone name p) (.dropZone name)
  | addColumns {schema other : Option String} {table : String} {columns : List ColumnSpec}
      {names : List String}
      (same : schema.getD Schema.defaultName = other.getD Schema.defaultName)
      (all : ∀ n, n ∈ names ↔ n ∈ columns.map ColumnSpec.name) :
      TakenBackBy (.addColumns other table columns) (.dropColumns schema table names)
  | renameZone {name newName : String} :
      TakenBackBy (.renameZone name newName) (.renameZone newName name)

/-- Drops undo creates.

Let a sound catalog have room for two more numbers. What was accepted on it of a statement that
creates an object, adds columns or renames a zone can be applied, and takes a number for each new
object. The statement that takes it back is then accepted, whatever version that catalog became, and
gives the zones and schemas of before. Where no number was taken the catalog of before is back. -/
theorem Statement.undone {c : Catalog} (h : c.Sound) (room : c.counter.val ≤ 4_294_967_293)
    {st st' : Statement} (back : st.TakenBackBy st') {es : List Entry}
    (he : st.entries c = .ok es) :
    ∃ d, c.applyEntries es = .ok d ∧ d.counter.val = c.counter.val + st.numbers ∧
      ∀ (v : Version) (a : Timestamp), ∃ es', st'.entries (d.stamp v a) = .ok es' ∧
        (d.stamp v a).applyEntries es' = .ok (Catalog.ofParts v a d.counter c.zones c.schemas) ∧
        (st.numbers = 0 → (d.stamp v a).applyEntries es' = .ok (c.stamp v a)) := by
  have one : c.counter.val + 1 < 4_294_967_296 := by omega
  have two : c.counter.val + 2 < 4_294_967_296 := by omega
  -- It is enough that zones and schemas come back. The counter stays where it is, and without new
  -- objects that is where it was.
  suffices ∃ d, c.applyEntries es = .ok d ∧ d.counter.val = c.counter.val + st.numbers ∧
      c.RestoredBy d st' by
    obtain ⟨d, applied, counter, restored⟩ := this
    refine ⟨d, applied, counter, fun v a => ?_⟩
    obtain ⟨es', accepted, applied'⟩ := restored v a
    refine ⟨es', accepted, applied', fun none => applied'.trans (congrArg Except.ok ?_)⟩
    have same : d.counter = c.counter := Fin.ext (by rw [counter, none, Nat.add_zero])
    rw [same]
    exact (h.stamp v a).eq_ofParts.symm
  cases back with
  | @createTable p schema same =>
    obtain ⟨s, z, i, k, hs, -, hi, names, hk, applied⟩ := Entries.createTable_ok h.toCoherent two he
    exact ⟨_, applied, hk, Entries.restored_newTable h.toCoherent hs same rfl rfl rfl hi names⟩
  | @createHashIndex p schema same =>
    obtain ⟨s, t, k, hs, -, names, hk, applied⟩ :=
      Entries.createHashIndex_ok h.toCoherent one (Entries.of_orFail he)
    exact ⟨_, applied, hk, Entries.restored_newIndex (i := p.indexOn c.counter t.id) h.toCoherent hs
      same rfl names⟩
  | @createSortedIndex p schema same =>
    obtain ⟨s, t, k, hs, -, names, hk, applied⟩ :=
      Entries.createSortedIndex_ok h.toCoherent one (Entries.of_orFail he)
    exact ⟨_, applied, hk, Entries.restored_newIndex (i := p.indexOn c.counter t.id) h.toCoherent hs
      same rfl names⟩
  | @createZone name p =>
    obtain ⟨k, blank, names, hk, applied⟩ := Entries.createZone_ok one (Entries.of_orFail he)
    exact ⟨_, applied, hk, Entries.restored_newZone (z := p.over (Zone.ofName c.counter name)) h rfl
      blank names⟩
  | @addColumns schema other table columns names same all =>
    obtain ⟨s, t, hs, ht, new, applied⟩ := Entries.addColumns_ok h.toCoherent (Entries.of_orFail he)
    rw [← Check.names_of_specs] at new
    refine ⟨_, applied, rfl, Entries.restored_newColumns h hs same ht new fun n => ?_⟩
    rw [Check.names_of_specs, all n]
  | renameZone =>
    obtain ⟨z, hz, blank, newBlank, names, applied⟩ := Entries.renameZone_ok (Entries.of_orFail he)
    exact ⟨_, applied, rfl, Entries.restored_renamedZone h hz blank newBlank names⟩

theorem Statement.undone_initial :
    ∃ es, (Statement.createTable (.simple "T")).entries Catalog.initial = .ok es ∧
      ∃ d, Catalog.initial.applyEntries es = .ok d ∧ d.counter.val = 4 ∧
        ∀ (v : Version) (a : Timestamp), ∃ es',
          (Statement.dropTable (some Schema.defaultName) "T").entries (d.stamp v a) = .ok es' ∧
          (d.stamp v a).applyEntries es' = .ok
            (Catalog.ofParts v a d.counter Catalog.initial.zones Catalog.initial.schemas) := by
  have yields : (Statement.createTable (.simple "T")).entries Catalog.initial = .ok _ := rfl
  have back : (Statement.createTable (.simple "T")).TakenBackBy
      (.dropTable (some Schema.defaultName) "T") := .createTable rfl
  obtain ⟨d, applied, counter, restored⟩ :=
    Statement.undone Catalog.initial_wellFormed.sound (by decide) back yields
  refine ⟨_, yields, d, applied, counter, fun v a => ?_⟩
  obtain ⟨es', accepted, applied', -⟩ := restored v a
  exact ⟨es', accepted, applied'⟩

end SchemaCatalog
