import SchemaCatalog.Proofs.Catalog.Checks
import SchemaCatalog.Statement.Entries

/-!
# What entries and statements come to

All that an entry can make of a catalog (`Entry.Gives`), and all that a statement can yield on a
catalog that accepts it (`Statement.Accepted`), each with what was looked up and checked on the way.
What holds of every entry that was applied, or of every statement that was accepted, is shown by
cases of these, without another look at the order of the checks.
-/

namespace SchemaCatalog

/-! ## Entries -/

namespace Catalog

variable {c d : Catalog} {s : Schema} {t : Table} {id : ObjectId}

lemma of_schemaOfId? (h : c.schemaOfId? id = some s) : s ∈ c.schemas := List.mem_of_find?_eq_some h

lemma of_schemaOfTable (h : c.schemaOfTable id = .ok s) : s ∈ c.schemas := by
  obtain ⟨t, -, h⟩ := bind_ok h
  split at h
  · rename_i hs
    cases h
    exact of_schemaOfId? hs
  · cases h

lemma of_schemaOfIndex (h : c.schemaOfIndex id = .ok s) : s ∈ c.schemas := by
  unfold schemaOfIndex at h
  split at h
  · rename_i hs
    cases h
    exact List.mem_of_find?_eq_some hs
  · cases h

lemma of_withSchema (h : c.withSchema s = .ok d) : d = c.put s := by
  unfold withSchema at h
  split at h
  · cases h
    rfl
  · cases h

/-- A table takes the place of those of its number. -/
lemma of_replaceTable (h : c.replaceTable t = .ok d) :
    ∃ s ∈ c.schemas, d = c.put (s.replaceTable t) := by
  obtain ⟨s, hs, h⟩ := bind_ok h
  exact ⟨s, of_schemaOfTable hs, of_withSchema h⟩

end Catalog

/-- What an entry makes of a catalog. An entry on tables or indexes puts another schema in the place
of one of the schemas, an entry on zones gives the catalog other zones, and taking numbers moves its
counter on. -/
inductive Entry.Gives (c : Catalog) : Entry → Catalog → Prop where
  | newTable {t : Table} {s : Schema} (schema : s ∈ c.schemas) :
      Gives c (.newTable t) (c.put (s.addTable t))
  | dropTable {id : ObjectId} {s : Schema} (schema : s ∈ c.schemas) :
      Gives c (.dropTable id) (c.put (s.removeTable id))
  | newColumns {id : ObjectId} {columns : List Column} {s : Schema} {t : Table}
      (schema : s ∈ c.schemas) (table : c.existingTable id = .ok t) :
      Gives c (.newColumns id columns)
        (c.put (s.replaceTable (t.withColumns (t.columns ++ columns))))
  | dropColumns {id : ObjectId} {names : List String} {s : Schema} {t : Table}
      (schema : s ∈ c.schemas) (table : c.existingTable id = .ok t) :
      Gives c (.dropColumns id names) (c.put (s.replaceTable
        (t.withColumns (t.columns.filter fun col => !names.contains col.name))))
  | alterColumn {id : ObjectId} {target : Column} {s : Schema} {t : Table}
      (schema : s ∈ c.schemas) (table : c.existingTable id = .ok t)
      (column : (t.column? target.name).isSome) :
      Gives c (.alterColumn id target) (c.put (s.replaceTable
        (t.withColumns (t.columns.map fun col => if col.name = target.name then target else col))))
  | newIndex {i : Index} {s : Schema} (schema : s ∈ c.schemas) :
      Gives c (.newIndex i) (c.put (s.addIndex i))
  | dropIndex {id tableId : ObjectId} {s : Schema} (schema : s ∈ c.schemas) :
      Gives c (.dropIndex id tableId) (c.put (s.removeIndex id))
  | newZone {z : Zone} : Gives c (.newZone z) (c.withZones (c.zones ++ [z]))
  | alterZone {z : Zone} (zone : c.requireZone z.id = .ok ()) :
      Gives c (.alterZone z) (c.withZones (c.zones.map fun y => if y.id = z.id then z else y))
  | dropZone {id : ObjectId} (zone : c.requireZone id = .ok ()) :
      Gives c (.dropZone id) (c.withZones (c.zones.filter fun z => z.id ≠ id))
  | takeIds {delta k : ObjectId} (next : k.val = c.counter.val + delta.val) :
      Gives c (.takeIds delta) (c.withCounter k)

lemma Word32.val_of_ofNat? {n : Nat} {k : Word32} (h : Word32.ofNat? n = some k) : k.val = n := by
  unfold Word32.ofNat? at h
  split at h
  · cases h
    rfl
  · cases h

lemma Entry.gives_of_ok {e : Entry} {c d : Catalog} (h : c.applyEntry e = .ok d) :
    e.Gives c d := by
  cases e with
  | newTable t =>
    rw [Catalog.applyEntry] at h
    split at h
    · rename_i s hs
      rw [Catalog.of_withSchema h]
      exact .newTable (Catalog.of_schemaOfId? hs)
    · cases h
  | dropTable id =>
    obtain ⟨s, hs, h⟩ := bind_ok h
    rw [Catalog.of_withSchema h]
    exact .dropTable (Catalog.of_schemaOfTable hs)
  | newColumns id columns =>
    obtain ⟨t, ht, h⟩ := bind_ok h
    obtain ⟨s, hs, rfl⟩ := Catalog.of_replaceTable h
    exact .newColumns hs ht
  | dropColumns id names =>
    obtain ⟨t, ht, h⟩ := bind_ok h
    obtain ⟨s, hs, rfl⟩ := Catalog.of_replaceTable h
    exact .dropColumns hs ht
  | alterColumn id target =>
    obtain ⟨t, ht, h⟩ := bind_ok h
    split at h
    · rename_i found
      obtain ⟨s, hs, rfl⟩ := Catalog.of_replaceTable h
      exact .alterColumn hs ht found
    · cases h
  | newIndex i =>
    obtain ⟨s, hs, h⟩ := bind_ok h
    rw [Catalog.of_withSchema h]
    exact .newIndex (Catalog.of_schemaOfTable hs)
  | dropIndex id tableId =>
    obtain ⟨s, hs, h⟩ := bind_ok h
    rw [Catalog.of_withSchema h]
    exact .dropIndex (Catalog.of_schemaOfIndex hs)
  | newZone z =>
    cases h
    exact .newZone
  | alterZone z =>
    obtain ⟨_, hz, h⟩ := bind_ok h
    cases h
    exact .alterZone hz
  | dropZone id =>
    obtain ⟨_, hz, h⟩ := bind_ok h
    cases h
    exact .dropZone hz
  | takeIds delta =>
    rw [Catalog.applyEntry] at h
    split at h
    · rename_i k hk
      cases h
      exact .takeIds (Word32.val_of_ofNat? hk)
    · cases h

/-! ## Statements -/

/-- The table that a statement creates. -/
def CreateTable.tableIn (p : CreateTable) (id schemaId zoneId : ObjectId) : Table :=
  ⟨id, schemaId, zoneId, p.table, p.columns.map ColumnSpec.column, p.primaryKey,
    p.colocation.getD p.primaryKey⟩

/-- The index on the primary key of a table that a statement creates. -/
def CreateTable.keyIndex (p : CreateTable) (id tableId : ObjectId) : Index :=
  ⟨id, Entries.keyIndexName p.table, tableId, true, .hash p.primaryKey⟩

/-- The hash index that a statement creates. -/
def CreateHashIndex.indexOn (p : CreateHashIndex) (id tableId : ObjectId) : Index :=
  ⟨id, p.index, tableId, p.unique, .hash p.columns⟩

/-- The sorted index that a statement creates. -/
def CreateSortedIndex.indexOn (p : CreateSortedIndex) (id tableId : ObjectId) : Index :=
  ⟨id, p.index, tableId, p.unique, .sorted ((p.columns.zip p.collations).map fun x => ⟨x.1, x.2⟩)⟩

/-- A statement is accepted on a catalog, and yields these entries. A change that leaves a column as
it is yields none. -/
inductive Statement.Accepted (c : Catalog) : Statement → List Entry → Prop where
  | createTable {p : CreateTable} {s : Schema} {z : Zone} {i : ObjectId}
      (schema : c.schema? (p.schema.getD Schema.defaultName) = some s)
      (tableFree : Check.tableNameFree s p.table = .ok ())
      (definition : Check.tableDefinition p = .ok ())
      (indexFree : Check.indexNameFree s (Entries.keyIndexName p.table) = .ok ())
      (zone : c.zone? (p.zone.getD Zone.defaultName) = some z)
      (next : Word32.ofNat? (c.counter.val + 1) = some i) :
      Accepted c (.createTable p)
        [.newTable (p.tableIn c.counter s.id z.id), .newIndex (p.keyIndex i c.counter), .takeIds 2]
  | dropTable {o : Option String} {name : String} {s : Schema} {t : Table}
      (schema : c.schema? (o.getD Schema.defaultName) = some s) (table : s.table? name = some t) :
      Accepted c (.dropTable o name)
        ((s.indexesOf t.id).map (fun i => .dropIndex i.id i.tableId) ++ [.dropTable t.id])
  | addColumns {o : Option String} {name : String} {columns : List ColumnSpec} {s : Schema}
      {t : Table} (schema : c.schema? (o.getD Schema.defaultName) = some s)
      (table : s.table? name = some t)
      (new : Check.newColumns t [] (columns.map ColumnSpec.name) = .ok ()) :
      Accepted c (.addColumns o name columns) [.newColumns t.id (columns.map ColumnSpec.column)]
  | dropColumns {o : Option String} {name : String} {names : List String} {s : Schema} {t : Table}
      (schema : c.schema? (o.getD Schema.defaultName) = some s) (table : s.table? name = some t)
      (dropped : Check.droppedColumns t names = .ok ())
      (notIndexed : Check.notIndexed names (s.indexesOf t.id) = .ok ()) :
      Accepted c (.dropColumns o name names) [.dropColumns t.id names]
  | sameColumn {a : AlterColumn} {s : Schema} {t : Table} {origin : Column}
      (schema : c.schema? (a.schema.getD Schema.defaultName) = some s)
      (table : s.table? a.table = some t) (column : t.column? a.column = some origin)
      (same : a.over origin = origin) : Accepted c (.alterColumn a) []
  | alterColumn {a : AlterColumn} {s : Schema} {t : Table} {origin : Column}
      (schema : c.schema? (a.schema.getD Schema.defaultName) = some s)
      (table : s.table? a.table = some t) (column : t.column? a.column = some origin)
      (other : a.over origin ≠ origin)
      (allowed : Check.columnChange origin (a.over origin) (t.isKeyColumn origin.name) = .ok ()) :
      Accepted c (.alterColumn a) [.alterColumn t.id (a.over origin)]
  | createHashIndex {p : CreateHashIndex} {s : Schema} {t : Table}
      (schema : c.schema? (p.schema.getD Schema.defaultName) = some s)
      (free : Check.indexNameFree s p.index = .ok ()) (table : s.table? p.table = some t)
      (columns : Check.indexColumns t p.columns = .ok ()) :
      Accepted c (.createHashIndex p) [.newIndex (p.indexOn c.counter t.id), .takeIds 1]
  | createSortedIndex {p : CreateSortedIndex} {s : Schema} {t : Table}
      (schema : c.schema? (p.schema.getD Schema.defaultName) = some s)
      (free : Check.indexNameFree s p.index = .ok ()) (table : s.table? p.table = some t)
      (columns : Check.indexColumns t p.columns = .ok ())
      (count : p.collations.length = p.columns.length) :
      Accepted c (.createSortedIndex p) [.newIndex (p.indexOn c.counter t.id), .takeIds 1]
  | dropIndex {o : Option String} {name : String} {s : Schema} {i : Index}
      (schema : c.schema? (o.getD Schema.defaultName) = some s) (index : s.index? name = some i) :
      Accepted c (.dropIndex o name) [.dropIndex i.id i.tableId]
  | createZone {name : String} {p : ZoneSpec} (blank : Check.zoneName name = .ok ())
      (free : Check.zoneNameFree c name = .ok ())
      (valid : Check.zoneDefinition (p.over (Zone.ofName c.counter name)) = .ok ()) :
      Accepted c (.createZone name p) [.newZone (p.over (Zone.ofName c.counter name)), .takeIds 1]
  | alterZone {name : String} {p : ZoneSpec} {z : Zone} (blank : Check.zoneName name = .ok ())
      (zone : c.zone? name = some z) (valid : Check.zoneDefinition (p.over z) = .ok ()) :
      Accepted c (.alterZone name p) [.alterZone (p.over z)]
  | renameZone {name newName : String} {z : Zone} (blank : Check.zoneName name = .ok ())
      (newBlank : Check.zoneName newName = .ok ()) (zone : c.zone? name = some z)
      (free : Check.zoneNameFree c newName = .ok ()) (notDefault : z.isDefault = false) :
      Accepted c (.renameZone name newName) [.alterZone { z with name := newName }]
  | dropZone {name : String} {z : Zone} (blank : Check.zoneName name = .ok ())
      (zone : c.zone? name = some z) (notDefault : z.isDefault = false)
      (unbound : ∀ t ∈ c.tables, t.zoneId ≠ z.id) :
      Accepted c (.dropZone name) [.dropZone z.id]

lemma Entries.of_orFail {α : Type} {x : Except Error α} {a : α} (h : orFail x = .ok a) :
    x = .ok a := by
  cases x with
  | error e => cases h
  | ok b =>
    cases h
    rfl

namespace Statement

variable {st : Statement} {c : Catalog} {es : List Entry}

lemma accepted_of_ok (h : st.entries c = .ok es) : st.Accepted c es := by
  -- Every check of the statement has passed, in the order in which it makes them.
  cases st with
  | createTable p =>
    obtain ⟨s, hs, h⟩ := bind_ok h
    obtain ⟨_, tableFree, h⟩ := bind_ok h
    obtain ⟨_, definition, h⟩ := bind_ok h
    obtain ⟨_, indexFree, h⟩ := bind_ok h
    obtain ⟨z, hz, h⟩ := bind_ok h
    split at h
    · cases h
    · rename_i i next
      cases h
      exact .createTable (Check.schema_eq_ok.1 (Entries.of_orFail hs))
        (Entries.of_orFail tableFree) (Entries.of_orFail definition) (Entries.of_orFail indexFree)
        (Check.zone_eq_ok.1 (Entries.of_orFail hz)) next
  | dropTable o name =>
    obtain ⟨s, hs, h⟩ := bind_ok (Entries.of_orFail h)
    obtain ⟨t, ht, h⟩ := bind_ok h
    cases h
    exact .dropTable (Check.schema_eq_ok.1 hs) (Check.table_eq_ok.1 ht)
  | addColumns o name columns =>
    obtain ⟨s, hs, h⟩ := bind_ok (Entries.of_orFail h)
    obtain ⟨t, ht, h⟩ := bind_ok h
    obtain ⟨_, new, h⟩ := bind_ok h
    cases h
    exact .addColumns (Check.schema_eq_ok.1 hs) (Check.table_eq_ok.1 ht) new
  | dropColumns o name names =>
    obtain ⟨s, hs, h⟩ := bind_ok (Entries.of_orFail h)
    obtain ⟨t, ht, h⟩ := bind_ok h
    obtain ⟨_, dropped, h⟩ := bind_ok h
    obtain ⟨_, notIndexed, h⟩ := bind_ok h
    cases h
    exact .dropColumns (Check.schema_eq_ok.1 hs) (Check.table_eq_ok.1 ht) dropped notIndexed
  | alterColumn a =>
    obtain ⟨s, hs, h⟩ := bind_ok (Entries.of_orFail h)
    obtain ⟨t, ht, h⟩ := bind_ok h
    obtain ⟨origin, ho, h⟩ := bind_ok h
    have hs := Check.schema_eq_ok.1 hs
    have ht := Check.table_eq_ok.1 ht
    have ho := Check.column_eq_ok.1 ho
    dsimp only at h
    split at h
    · rename_i same
      cases h
      exact .sameColumn hs ht ho same
    · rename_i other
      obtain ⟨_, allowed, h⟩ := bind_ok h
      cases h
      exact .alterColumn hs ht ho other allowed
  | createHashIndex p =>
    obtain ⟨s, hs, h⟩ := bind_ok (Entries.of_orFail h)
    obtain ⟨_, free, h⟩ := bind_ok h
    obtain ⟨t, ht, h⟩ := bind_ok h
    obtain ⟨_, columns, h⟩ := bind_ok h
    cases h
    exact .createHashIndex (Check.schema_eq_ok.1 hs) free (Check.table_eq_ok.1 ht) columns
  | createSortedIndex p =>
    obtain ⟨s, hs, h⟩ := bind_ok (Entries.of_orFail h)
    obtain ⟨_, free, h⟩ := bind_ok h
    obtain ⟨t, ht, h⟩ := bind_ok h
    obtain ⟨_, columns, h⟩ := bind_ok h
    obtain ⟨_, count, h⟩ := bind_ok h
    cases h
    exact .createSortedIndex (Check.schema_eq_ok.1 hs) free (Check.table_eq_ok.1 ht) columns
      (by simpa using Check.of_refuse count)
  | dropIndex o name =>
    obtain ⟨s, hs, h⟩ := bind_ok (Entries.of_orFail h)
    obtain ⟨i, hi, h⟩ := bind_ok h
    cases h
    exact .dropIndex (Check.schema_eq_ok.1 hs) (Check.index_eq_ok.1 hi)
  | createZone name p =>
    obtain ⟨_, blank, h⟩ := bind_ok (Entries.of_orFail h)
    obtain ⟨_, free, h⟩ := bind_ok h
    obtain ⟨_, valid, h⟩ := bind_ok h
    cases h
    exact .createZone blank free valid
  | alterZone name p =>
    obtain ⟨_, blank, h⟩ := bind_ok (Entries.of_orFail h)
    obtain ⟨z, hz, h⟩ := bind_ok h
    obtain ⟨_, valid, h⟩ := bind_ok h
    cases h
    exact .alterZone blank (Check.zone_eq_ok.1 hz) valid
  | renameZone name newName =>
    obtain ⟨_, blank, h⟩ := bind_ok (Entries.of_orFail h)
    obtain ⟨_, newBlank, h⟩ := bind_ok h
    obtain ⟨z, hz, h⟩ := bind_ok h
    obtain ⟨_, free, h⟩ := bind_ok h
    obtain ⟨_, notDefault, h⟩ := bind_ok h
    cases h
    exact .renameZone blank newBlank (Check.zone_eq_ok.1 hz) free (Check.of_refuse notDefault)
  | dropZone name =>
    obtain ⟨_, blank, h⟩ := bind_ok (Entries.of_orFail h)
    obtain ⟨z, hz, h⟩ := bind_ok h
    obtain ⟨_, notDefault, h⟩ := bind_ok h
    split at h
    · cases h
    · rename_i none
      cases h
      refine .dropZone blank (Check.zone_eq_ok.1 hz) (Check.of_refuse notDefault) fun t ht => ?_
      simpa using List.find?_eq_none.1 none t ht

/-- The entries of a statement are those with which it is accepted. -/
theorem entries_eq_ok : st.entries c = .ok es ↔ st.Accepted c es := by
  refine ⟨accepted_of_ok, fun h => ?_⟩
  -- Conversely each check that the statement makes is known to pass, so it runs to its end.
  cases h with
  | createTable hs tableFree definition indexFree hz next =>
    simp only [entries, Entries.createTable, Check.schema_eq_ok.2 hs, tableFree, definition,
      indexFree, Check.zone_eq_ok.2 hz, next, Entries.orFail, bind, Except.bind, Except.mapError]
    rfl
  | dropTable hs ht =>
    simp only [entries, Entries.dropTable, Check.schema_eq_ok.2 hs, Check.table_eq_ok.2 ht,
      Entries.orFail, bind, Except.bind, Except.mapError]
  | addColumns hs ht new =>
    simp only [entries, Entries.addColumns, Check.schema_eq_ok.2 hs, Check.table_eq_ok.2 ht, new,
      Entries.orFail, bind, Except.bind, Except.mapError]
  | dropColumns hs ht dropped notIndexed =>
    simp only [entries, Entries.dropColumns, Check.schema_eq_ok.2 hs, Check.table_eq_ok.2 ht,
      dropped, notIndexed, Entries.orFail, bind, Except.bind, Except.mapError]
  | sameColumn hs ht ho same =>
    simp only [entries, Entries.alterColumn, Check.schema_eq_ok.2 hs, Check.table_eq_ok.2 ht,
      Check.column_eq_ok.2 ho, if_pos same, Entries.orFail, bind, Except.bind, Except.mapError]
  | alterColumn hs ht ho other allowed =>
    simp only [entries, Entries.alterColumn, Check.schema_eq_ok.2 hs, Check.table_eq_ok.2 ht,
      Check.column_eq_ok.2 ho, if_neg other, allowed, Entries.orFail, bind, Except.bind,
      Except.mapError]
  | createHashIndex hs free ht columns =>
    simp only [entries, Entries.createHashIndex, Check.schema_eq_ok.2 hs, free,
      Check.table_eq_ok.2 ht, columns, Entries.orFail, bind, Except.bind, Except.mapError]
    rfl
  | @createSortedIndex p s t hs free ht columns count =>
    have counted : decide (p.collations.length ≠ p.columns.length) = false := by simpa using count
    simp only [entries, Entries.createSortedIndex, Check.schema_eq_ok.2 hs, free,
      Check.table_eq_ok.2 ht, columns, counted, Check.refuse, Entries.orFail, bind, Except.bind,
      Except.mapError]
    rfl
  | dropIndex hs hi =>
    simp only [entries, Entries.dropIndex, Check.schema_eq_ok.2 hs, Check.index_eq_ok.2 hi,
      Entries.orFail, bind, Except.bind, Except.mapError]
  | createZone blank free valid =>
    simp only [entries, Entries.createZone, blank, free, valid, Entries.orFail, bind, Except.bind,
      Except.mapError]
  | alterZone blank hz valid =>
    simp only [entries, Entries.alterZone, blank, Check.zone_eq_ok.2 hz, valid, Entries.orFail,
      bind, Except.bind, Except.mapError]
  | renameZone blank newBlank hz free notDefault =>
    simp only [entries, Entries.renameZone, blank, newBlank, Check.zone_eq_ok.2 hz, free,
      Check.refuse, notDefault, Entries.orFail, bind, Except.bind, Except.mapError,
      Bool.false_eq_true, if_false]
  | @dropZone name z blank hz notDefault unbound =>
    have none : c.tables.find? (fun t => t.zoneId = z.id) = none :=
      List.find?_eq_none.2 fun t ht => by simpa using unbound t ht
    simp only [entries, Entries.dropZone, blank, Check.zone_eq_ok.2 hz, Check.refuse, notDefault,
      none, Entries.orFail, bind, Except.bind, Except.mapError, Bool.false_eq_true, if_false]

end Statement

end SchemaCatalog
