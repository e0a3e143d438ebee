import SchemaCatalog.Proofs.Catalog.References
import SchemaCatalog.Proofs.Catalog.Refusals

/-!
# Refusals for a reason

No statement is refused that would have done no harm. Had it been carried out without its checks, as
`Statement.unchecked` says, then something it names would have been missing, or a rule for
well-formed catalogs would have been broken: the ones that `Catalog.Flawed` lists.

Three statements are checked for more. A column changed in place is compared with what it was, a
sorted index needs a collation for each of its columns, and no zone gets the name that it has.
-/

namespace SchemaCatalog

/-- A catalog in which a rule for names or definitions is broken. -/
inductive Catalog.Flawed (c : Catalog) : Prop where
  | tableNames {s : Schema} (schema : s ∈ c.schemas)
      (repeated : ¬ (s.tables.map Table.name).Nodup)
  | indexNames {s : Schema} (schema : s ∈ c.schemas)
      (repeated : ¬ (s.indexes.map Index.name).Nodup)
  | zoneNames (repeated : ¬ (c.zones.map Zone.name).Nodup)
  | table {s : Schema} {t : Table} (schema : s ∈ c.schemas) (table : t ∈ s.tables)
      (invalid : ¬ t.WellFormed)
  | index {s : Schema} {i : Index} (schema : s ∈ c.schemas) (index : i ∈ s.indexes)
      (invalid : ∀ t ∈ s.tables, ¬ i.IsOn t)
  | zone {z : Zone} (zone : z ∈ c.zones) (invalid : ¬ z.WellFormed)
  | tableZone {s : Schema} {t : Table} (schema : s ∈ c.schemas) (table : t ∈ s.tables)
      (missing : ∀ z ∈ c.zones, z.id ≠ t.zoneId)
  | defaultZone (missing : ∀ z ∈ c.zones, z.name ≠ Zone.defaultName)

namespace Statement

/-- Whether a statement is checked for nothing but what it names and what it makes of a catalog. -/
def checksResult : Statement → Bool
  | alterColumn _ => false
  | createSortedIndex _ => false
  | renameZone _ _ => false
  | _ => true

/-- The entries of a statement without its checks, where all is found that they refer to. -/
def unchecked (c : Catalog) : Statement → Option (List Entry)
  | createTable p => do
    let s ← c.schema? (p.schema.getD Schema.defaultName)
    let z ← c.zone? (p.zone.getD Zone.defaultName)
    let i ← Word32.ofNat? (c.counter.val + 1)
    some [.newTable (p.tableIn c.counter s.id z.id), .newIndex (p.keyIndex i c.counter), .takeIds 2]
  | dropTable schema table => do
    let s ← c.schema? (schema.getD Schema.defaultName)
    let t ← s.table? table
    some ((s.indexesOf t.id).map (fun i => .dropIndex i.id i.tableId) ++ [.dropTable t.id])
  | addColumns schema table columns => do
    let s ← c.schema? (schema.getD Schema.defaultName)
    let t ← s.table? table
    some [.newColumns t.id (columns.map ColumnSpec.column)]
  | dropColumns schema table names => do
    let s ← c.schema? (schema.getD Schema.defaultName)
    let t ← s.table? table
    some [.dropColumns t.id names]
  | alterColumn a => do
    let s ← c.schema? (a.schema.getD Schema.defaultName)
    let t ← s.table? a.table
    let origin ← t.column? a.column
    some (if a.over origin = origin then [] else [.alterColumn t.id (a.over origin)])
  | createHashIndex p => do
    let s ← c.schema? (p.schema.getD Schema.defaultName)
    let t ← s.table? p.table
    some [.newIndex (p.indexOn c.counter t.id), .takeIds 1]
  | createSortedIndex p => do
    let s ← c.schema? (p.schema.getD Schema.defaultName)
    let t ← s.table? p.table
    some [.newIndex (p.indexOn c.counter t.id), .takeIds 1]
  | dropIndex schema index => do
    let s ← c.schema? (schema.getD Schema.defaultName)
    let i ← s.index? index
    some [.dropIndex i.id i.tableId]
  | createZone name p => some [.newZone (p.over (Zone.ofName c.counter name)), .takeIds 1]
  | alterZone name p => do
    let z ← c.zone? name
    some [.alterZone (p.over z)]
  | renameZone name newName => do
    let z ← c.zone? name
    some [.alterZone { z with name := newName }]
  | dropZone name => do
    let z ← c.zone? name
    some [.dropZone z.id]

end Statement

/-! ## Accepted statements -/

namespace Entries

variable {α β : Type} {x : Except Error α} {k : α → Except Abort β}

lemma orFail_ne_overflow : orFail x ≠ .error .overflow := by
  cases x <;> exact nofun

lemma overflow_of_bind (h : (orFail x >>= k) = .error .overflow) : ∃ a, k a = .error .overflow := by
  cases x with
  | error e => cases h
  | ok a => exact ⟨a, h⟩

end Entries

/-- A number leaves its range only where the counter is at its end. -/
lemma Statement.overflow {st : Statement} {c : Catalog} (h : st.entries c = .error .overflow) :
    4_294_967_296 ≤ c.counter.val + 1 := by
  cases st with
  | createTable p =>
    obtain ⟨_, h⟩ := Entries.overflow_of_bind h
    obtain ⟨_, h⟩ := Entries.overflow_of_bind h
    obtain ⟨_, h⟩ := Entries.overflow_of_bind h
    obtain ⟨_, h⟩ := Entries.overflow_of_bind h
    obtain ⟨_, h⟩ := Entries.overflow_of_bind h
    split at h
    · rename_i none
      by_contra room
      rw [Word32.ofNat?, dif_pos (Nat.lt_of_not_le room)] at none
      cases none
    · cases h
  | _ => exact absurd h Entries.orFail_ne_overflow

/-- Where the checks pass the entries are those without them. -/
theorem Statement.unchecked_of_ok {st : Statement} {c : Catalog} {es : List Entry}
    (h : st.entries c = .ok es) : st.unchecked c = some es := by
  cases accepted_of_ok h with
  | createTable hs _ _ _ hz next =>
    simp only [unchecked, hs, hz, next, bind, Option.bind_some]
  | dropTable hs ht => simp only [unchecked, hs, ht, bind, Option.bind_some]
  | addColumns hs ht => simp only [unchecked, hs, ht, bind, Option.bind_some]
  | dropColumns hs ht => simp only [unchecked, hs, ht, bind, Option.bind_some]
  | sameColumn hs ht ho same =>
    simp only [unchecked, hs, ht, ho, if_pos same, bind, Option.bind_some]
  | alterColumn hs ht ho other =>
    simp only [unchecked, hs, ht, ho, if_neg other, bind, Option.bind_some]
  | createHashIndex hs _ ht => simp only [unchecked, hs, ht, bind, Option.bind_some]
  | createSortedIndex hs _ ht => simp only [unchecked, hs, ht, bind, Option.bind_some]
  | dropIndex hs hi => simp only [unchecked, hs, hi, bind, Option.bind_some]
  | createZone => rfl
  | alterZone _ hz => simp only [unchecked, hz, bind, Option.bind_some]
  | renameZone _ _ hz => simp only [unchecked, hz, bind, Option.bind_some]
  | dropZone _ hz => simp only [unchecked, hz, bind, Option.bind_some]

/-! ## Statements without their checks -/

/-- A name behind distinct ones is another one. -/
lemma ne_of_nodup_concat {α β : Type} {k : α → β} {l : List α} {a : α}
    (h : ((l ++ [a]).map k).Nodup) : ∀ b ∈ l, k b ≠ k a := by
  intro b hb e
  rw [List.map_append] at h
  exact (List.nodup_append.1 h).2.2 _ (List.mem_map_of_mem hb) _ (List.mem_singleton_self _) e

namespace Catalog

variable {c d : Catalog} {es : List Entry} {st : Statement} {name : String}

/-- No flawed catalog is well-formed. -/
lemma Flawed.not_wellFormed (flawed : c.Flawed) : ¬ c.WellFormed := by
  intro h
  cases flawed with
  | tableNames hs repeated => exact repeated (h.schemas _ hs).tableNames
  | indexNames hs repeated => exact repeated (h.schemas _ hs).indexNames
  | zoneNames repeated => exact repeated h.zones.names
  | table hs ht invalid => exact invalid ((h.schemas _ hs).tables _ ht)
  | index hs hi invalid =>
    obtain ⟨t, ht, isOn⟩ := (h.schemas _ hs).indexes _ hi
    exact invalid t ht isOn
  | zone hz invalid => exact invalid (h.zones.each _ hz)
  | tableZone hs ht missing =>
    obtain ⟨z, hz, e⟩ := h.tableZones _ hs _ ht
    exact missing z hz e
  | defaultZone missing =>
    obtain ⟨z, hz, e, -⟩ := h.zones.default
    exact missing z hz e

/-- The entries of a statement without its checks can be applied, and if nothing is wrong with what
comes of them then the checks pass. -/
def Bears (c : Catalog) (st : Statement) : Prop :=
  ∃ es d, st.unchecked c = some es ∧ c.applyEntries es = .ok d ∧
    (¬ d.Flawed → st.entries c = .ok es)

/-! ### Tables -/

lemma bears_createTable {p : CreateTable} (h : c.Coherent)
    (room : c.counter.val + 2 < 4_294_967_296)
    (named : c.HasAll (Statement.createTable p).references) : c.Bears (.createTable p) := by
  obtain ⟨named, rest⟩ := hasAll_cons.1 named
  obtain ⟨s, hs⟩ := has_schema.1 named
  obtain ⟨z, hz⟩ := has_zone.1 (hasAll_cons.1 rest).1
  have next : c.counter.val + 1 < 4_294_967_296 := by omega
  have hi : Word32.ofNat? (c.counter.val + 1) = some ⟨_, next⟩ := dif_pos next
  have mem := List.mem_of_find?_eq_some hs
  have fold := h.fold_newTable (t := p.tableIn c.counter s.id z.id)
    (i := p.keyIndex ⟨_, next⟩ c.counter) mem rfl (h.fresh_table (Nat.le_refl _)) rfl [.takeIds 2]
  obtain ⟨k, -, taken⟩ := applyEntries_takeIds (c.put _) 2 room
  refine ⟨_, _, ?_, fold.trans taken, fun sound => ?_⟩
  · simp only [Statement.unchecked, hs, hz, hi, bind, Option.bind_some]
  -- All of the new definition is in the schema that holds the table and the index now.
  have held : (s.addTable (p.tableIn c.counter s.id z.id)).addIndex
      (p.keyIndex ⟨_, next⟩ c.counter) ∈ (c.put _).schemas := mem_put_self h.schemaIds mem rfl
  have tableNames := by_contra fun repeated => sound (.tableNames held repeated)
  have indexNames := by_contra fun repeated => sound (.indexNames held repeated)
  have wf : (p.tableIn c.counter s.id z.id).WellFormed :=
    by_contra fun invalid => sound (.table held (List.mem_concat_self ..) invalid)
  have tableFree : Check.tableNameFree s p.table = .ok () :=
    Check.tableNameFree_eq_ok.2 (ne_of_nodup_concat tableNames)
  have indexFree : Check.indexNameFree s (Entries.keyIndexName p.table) = .ok () :=
    Check.indexNameFree_eq_ok.2 (ne_of_nodup_concat indexNames)
  have definition : Check.tableDefinition p = .ok () := (Check.tableDefinition_eq_ok _ _ _).2 wf
  exact Statement.entries_eq_ok.2 (.createTable hs tableFree definition indexFree hz hi)

lemma bears_dropTable {schema : Option String} (h : c.Keyed)
    (named : c.HasAll (Statement.dropTable schema name).references) :
    c.Bears (.dropTable schema name) := by
  obtain ⟨s, t, hs, ht, -⟩ := hasAll_table.1 named
  have fold := h.fold_dropTable (List.mem_of_find?_eq_some hs) (List.mem_of_find?_eq_some ht)
  refine ⟨_, _, ?_, fold, fun _ => ?_⟩
  · simp only [Statement.unchecked, hs, ht, bind, Option.bind_some]
  · exact Statement.entries_eq_ok.2 (.dropTable hs ht)

lemma bears_addColumns {schema : Option String} {columns : List ColumnSpec} (h : c.Keyed)
    (named : c.HasAll (Statement.addColumns schema name columns).references) :
    c.Bears (.addColumns schema name columns) := by
  obtain ⟨s, t, hs, ht, -⟩ := hasAll_table.1 named
  have mem := List.mem_of_find?_eq_some hs
  have table := List.mem_of_find?_eq_some ht
  refine ⟨_, _, ?_, applyEntries_cons (h.newColumns mem table (columns.map ColumnSpec.column)) [],
    fun sound => ?_⟩
  · simp only [Statement.unchecked, hs, ht, bind, Option.bind_some]
  have wf := by_contra fun invalid => sound (.table (mem_put_self h.schemaIds mem rfl)
    (List.mem_map.2 ⟨t, table, if_pos rfl⟩) invalid)
  have names := wf.columnNames
  rw [Table.withColumns, List.map_append, Check.names_of_specs] at names
  obtain ⟨-, nodup, apart⟩ := List.nodup_append.1 names
  have new : Check.newColumns t [] (columns.map ColumnSpec.name) = .ok () := by
    refine Check.newColumns_eq_ok.2 ⟨nodup, fun n hn hn' => ?_, fun _ _ => List.not_mem_nil⟩
    exact apart n hn' n hn rfl
  exact Statement.entries_eq_ok.2 (.addColumns hs ht new)

lemma bears_dropColumns {schema : Option String} {names : List String} (h : c.Keyed)
    (named : c.HasAll (Statement.dropColumns schema name names).references) :
    c.Bears (.dropColumns schema name names) := by
  obtain ⟨s, t, hs, ht, subset⟩ := hasAll_table.1 named
  have mem := List.mem_of_find?_eq_some hs
  have table := List.mem_of_find?_eq_some ht
  refine ⟨_, _, ?_, applyEntries_cons (h.dropColumns mem table names) [], fun sound => ?_⟩
  · simp only [Statement.unchecked, hs, ht, bind, Option.bind_some]
  have held : s.replaceTable
      (t.withColumns (t.columns.filter fun col => !names.contains col.name)) ∈ (c.put _).schemas :=
    mem_put_self h.schemaIds mem rfl
  have wf := by_contra fun invalid => sound (.table held
    (List.mem_map.2 ⟨t, table, if_pos rfl⟩) invalid)
  -- A column that is dropped is none of those that remain.
  have gone : ∀ n ∈ names,
      n ∉ (t.columns.filter fun col => !names.contains col.name).map Column.name := by
    intro n hn hm
    obtain ⟨col, hcol, rfl⟩ := List.mem_map.1 hm
    simpa [hn] using (List.mem_filter.1 hcol).2
  have dropped : Check.droppedColumns t names = .ok () :=
    Check.droppedColumns_ok subset fun n hn hk => gone n hn (wf.keyColumns hk)
  have free : Check.notIndexed names (s.indexesOf t.id) = .ok () := by
    refine Check.notIndexed_ok fun i hi n hn hc => ?_
    obtain ⟨hi, on⟩ := List.mem_filter.1 hi
    have on : i.tableId = t.id := by simpa using on
    obtain ⟨u, hu, isOn⟩ : ∃ u ∈ (s.replaceTable _).tables, i.IsOn u := by
      by_contra invalid
      exact sound (.index held hi fun u hu isOn => invalid ⟨u, hu, isOn⟩)
    have same : u.id = t.id := isOn.table.symm.trans on
    rcases mem_replace hu with rfl | ⟨-, ne⟩
    · exact gone n hn (isOn.tableColumns hc)
    · exact ne same
  exact Statement.entries_eq_ok.2 (.dropColumns hs ht dropped free)

/-! ### Indexes -/

lemma bears_createHashIndex {p : CreateHashIndex} (h : c.Keyed)
    (room : c.counter.val + 1 < 4_294_967_296)
    (named : c.HasAll (Statement.createHashIndex p).references) : c.Bears (.createHashIndex p) := by
  obtain ⟨s, t, hs, ht, -⟩ := hasAll_table.1 named
  have mem := List.mem_of_find?_eq_some hs
  have table := List.mem_of_find?_eq_some ht
  obtain ⟨k, -, taken⟩ := applyEntries_takeIds (c.put _) 1 room
  have added := h.newIndex mem table (i := p.indexOn c.counter t.id) rfl
  refine ⟨_, _, ?_, (applyEntries_cons added _).trans taken, fun sound => ?_⟩
  · simp only [Statement.unchecked, hs, ht, bind, Option.bind_some]
  have held : s.addIndex (p.indexOn c.counter t.id) ∈ (c.put _).schemas :=
    mem_put_self h.schemaIds mem rfl
  have names := by_contra fun repeated => sound (.indexNames held repeated)
  obtain ⟨u, hu, isOn⟩ : ∃ u ∈ s.tables, (p.indexOn c.counter t.id).IsOn u := by
    by_contra invalid
    exact sound (.index held (List.mem_concat_self ..) fun u hu isOn => invalid ⟨u, hu, isOn⟩)
  obtain rfl : u = t := List.inj_on_of_nodup_map (h.tableIds_of_mem mem) hu table isOn.table.symm
  have free : Check.indexNameFree s p.index = .ok () :=
    Check.indexNameFree_eq_ok.2 (ne_of_nodup_concat names)
  have columns : Check.indexColumns u p.columns = .ok () :=
    Check.indexColumns_eq_ok.2 ⟨isOn.columns, isOn.columnNames, isOn.tableColumns⟩
  exact Statement.entries_eq_ok.2 (.createHashIndex hs free ht columns)

lemma bears_dropIndex {schema : Option String} (h : c.Keyed)
    (named : c.HasAll (Statement.dropIndex schema name).references) :
    c.Bears (.dropIndex schema name) := by
  obtain ⟨-, rest⟩ := hasAll_cons.1 named
  obtain ⟨s, i, hs, hi⟩ := has_index.1 (hasAll_cons.1 rest).1
  have gone := h.dropIndex (List.mem_of_find?_eq_some hs) (List.mem_of_find?_eq_some hi) i.tableId
  refine ⟨_, _, ?_, applyEntries_cons gone [], fun _ => ?_⟩
  · simp only [Statement.unchecked, hs, hi, bind, Option.bind_some]
  · exact Statement.entries_eq_ok.2 (.dropIndex hs hi)

/-! ### Zones -/

lemma bears_createZone {p : ZoneSpec} (room : c.counter.val + 1 < 4_294_967_296) :
    c.Bears (.createZone name p) := by
  obtain ⟨k, -, taken⟩ := applyEntries_takeIds
    (c.withZones (c.zones ++ [p.over (Zone.ofName c.counter name)])) 1 room
  refine ⟨_, _, rfl, taken, fun sound => ?_⟩
  have names : ((c.zones ++ [p.over (Zone.ofName c.counter name)]).map Zone.name).Nodup :=
    by_contra fun repeated => sound (.zoneNames repeated)
  have wf : (p.over (Zone.ofName c.counter name)).WellFormed :=
    by_contra fun invalid => sound (.zone (List.mem_concat_self ..) invalid)
  have blank : Check.zoneName name = .ok () := Check.refuse_eq_ok.2 wf.name
  have free : Check.zoneNameFree c name = .ok () :=
    Check.zoneNameFree_eq_ok.2 (ne_of_nodup_concat names)
  exact Statement.entries_eq_ok.2 (.createZone blank free (Check.zoneDefinition_eq_ok.2 wf))

lemma bears_alterZone {p : ZoneSpec} (named : c.HasAll (Statement.alterZone name p).references) :
    c.Bears (.alterZone name p) := by
  obtain ⟨z, hz⟩ := has_zone.1 (hasAll_cons.1 named).1
  have mem := List.mem_of_find?_eq_some hz
  refine ⟨_, _, ?_, Entries.alterZone_ok (z := p.over z) mem rfl, fun sound => ?_⟩
  · simp only [Statement.unchecked, hz, bind, Option.bind_some]
  have wf : (p.over z).WellFormed := by_contra fun invalid =>
    sound (.zone (List.mem_map.2 ⟨z, mem, if_pos rfl⟩) invalid)
  have e : z.name = name := by simpa using List.find?_some hz
  have blank : Check.zoneName name = .ok () := Check.refuse_eq_ok.2 (e ▸ wf.name)
  exact Statement.entries_eq_ok.2 (.alterZone blank hz (Check.zoneDefinition_eq_ok.2 wf))

/-- A zone that goes leaves the default zone and the zones of all tables. -/
lemma bears_dropZone (h : c.WellFormed) (named : c.HasAll (Statement.dropZone name).references) :
    c.Bears (.dropZone name) := by
  obtain ⟨z, hz⟩ := has_zone.1 (hasAll_cons.1 named).1
  have mem := List.mem_of_find?_eq_some hz
  have gone : c.applyEntries [.dropZone z.id] =
      .ok (c.withZones (c.zones.filter fun y => y.id ≠ z.id)) := by
    rw [applyEntries, applyEntry, requireZone_ok mem]
    rfl
  refine ⟨_, _, ?_, gone, fun sound => ?_⟩
  · simp only [Statement.unchecked, hz, bind, Option.bind_some]
  have e : z.name = name := by simpa using List.find?_some hz
  have blank : Check.zoneName name = .ok () :=
    Check.refuse_eq_ok.2 (e ▸ (h.zones.each z mem).name)
  have notDefault : z.isDefault = false := by
    by_contra default
    have default : z.name = Zone.defaultName := by simpa [Zone.isDefault] using default
    refine sound (.defaultZone fun y hy ey => ?_)
    obtain ⟨hy, ne⟩ := List.mem_filter.1 hy
    rw [List.inj_on_of_nodup_map h.zones.names hy mem (ey.trans default.symm)] at ne
    simp at ne
  have unbound : ∀ t ∈ c.tables, t.zoneId ≠ z.id := by
    intro t ht bound
    obtain ⟨s, hs, ht⟩ := List.mem_flatMap.1 ht
    refine sound (.tableZone hs ht fun y hy ey => ?_)
    simpa [ey.trans bound] using (List.mem_filter.1 hy).2
  exact Statement.entries_eq_ok.2 (.dropZone blank hz notDefault unbound)

lemma bears (h : c.WellFormed) (room : c.counter.val ≤ 4_294_967_293)
    (hst : st.checksResult = true) (named : c.HasAll st.references) : c.Bears st := by
  have one : c.counter.val + 1 < 4_294_967_296 := by omega
  have two : c.counter.val + 2 < 4_294_967_296 := by omega
  cases st with
  | createTable p => exact bears_createTable h.coherent two named
  | dropTable schema table => exact bears_dropTable h.keyed named
  | addColumns schema table columns => exact bears_addColumns h.keyed named
  | dropColumns schema table names => exact bears_dropColumns h.keyed named
  | createHashIndex p => exact bears_createHashIndex h.keyed one named
  | dropIndex schema index => exact bears_dropIndex h.keyed named
  | createZone name p => exact bears_createZone one
  | alterZone name p => exact bears_alterZone named
  | dropZone name => exact bears_dropZone h named
  | alterColumn => cases hst
  | createSortedIndex => cases hst
  | renameZone => cases hst

end Catalog

/-- Statements are refused only for a reason, and whenever there is one.

On a well-formed catalog with room for two more numbers, a statement that is checked for nothing but
what it names and what it makes of the catalog is refused exactly if something it names does not
exist, or if its entries, made without the checks, lead to a catalog that is not well-formed, as a
name occurs twice, a definition is invalid, a table is in no zone, or the default zone is
missing. -/
theorem Statement.refused_iff {st : Statement} (hst : st.checksResult = true) {c : Catalog}
    (h : c.WellFormed) (room : c.counter.val ≤ 4_294_967_293) :
    (∃ e, e.isValidation = true ∧ st.entries c = .error (.failed e)) ↔
      (∃ r ∈ st.references, c.has r = false) ∨
        ∃ es d, st.unchecked c = some es ∧ c.applyEntries es = .ok d ∧
          ¬ d.WellFormed ∧ d.Flawed := by
  constructor
  · rintro ⟨e, -, refused⟩
    -- If all that is named exists, only a flaw of the outcome is left as the reason.
    by_cases named : c.HasAll st.references
    · obtain ⟨es, d, entries, applied, passes⟩ := Catalog.bears h room hst named
      have flawed : d.Flawed := by
        by_contra sound
        rw [passes sound] at refused
        cases refused
      exact .inr ⟨es, d, entries, applied, flawed.not_wellFormed, flawed⟩
    · left
      simpa [Catalog.HasAll] using named
  · intro reason
    cases entries : st.entries c with
    | ok es =>
      exfalso
      rcases reason with ⟨r, hr, missing⟩ | ⟨es', d, unchecked, applied, ill, -⟩
      · rw [references_of_ok entries r hr] at missing
        cases missing
      · rw [unchecked_of_ok entries] at unchecked
        cases unchecked
        obtain ⟨d', applied', wf⟩ := (admits h entries).ok (by omega)
        rw [applied] at applied'
        cases applied'
        exact ill wf
    | error abort =>
      cases abort with
      | failed e => exact ⟨e, entries_error entries, rfl⟩
      | overflow =>
        -- There is room for the numbers of new objects, so the counter does not overflow.
        have full := overflow entries
        omega

/-- A table whose rows are placed by a column outside its key. -/
def CreateTable.misplaced : CreateTable := { simple "T" with colocation := some ["VAL"] }

theorem Statement.refused_iff_misplaced :
    (∃ e, e.isValidation = true ∧
      (Statement.createTable .misplaced).entries Catalog.initial = .error (.failed e)) ∧
      ∃ es d, (Statement.createTable .misplaced).unchecked Catalog.initial = some es ∧
        Catalog.initial.applyEntries es = .ok d ∧ ¬ d.WellFormed ∧ d.Flawed := by
  have refused : ∃ e, e.isValidation = true ∧
      (Statement.createTable .misplaced).entries Catalog.initial = .error (.failed e) :=
    ⟨.invalidDefinition (.colocationOutsideKey ["VAL"]), rfl, by rfl⟩
  refine ⟨refused, ?_⟩
  have checked : (Statement.createTable .misplaced).checksResult = true := rfl
  rcases (Statement.refused_iff checked Catalog.initial_wellFormed (by decide)).1 refused
    with missing | reason
  · exact absurd missing (by decide)
  · exact reason

end SchemaCatalog
