import SchemaCatalog.Proofs.Catalog.Apply
import SchemaCatalog.Proofs.Catalog.Inversion

/-!
# Statements on well-formed catalogs

The entries that a statement yields on a well-formed catalog can all be applied to it, one after
another, and lead to a well-formed catalog again. The one thing that can fail is the last of them,
where the counter has no numbers left.
-/

namespace SchemaCatalog

namespace Catalog

/-- Entries that lead to a well-formed catalog, unless the numbers they take are too many. No
statement takes more than two. -/
def Admits (c : Catalog) (es : List Entry) : Prop :=
  (∃ d, c.applyEntries es = .ok d ∧ d.WellFormed) ∨
    ∃ delta : ObjectId, delta.val ≤ 2 ∧ 4_294_967_296 ≤ c.counter.val + delta.val ∧
      c.applyEntries es = .error (.invariant (.counterOverflow c.counter delta))

namespace Admits

variable {c d : Catalog} {e : Entry} {es : List Entry}

lemma nil (h : c.WellFormed) : c.Admits [] := .inl ⟨c, rfl, h⟩

/-- Entries that come to the entries of another catalog with the same counter. -/
lemma of_eq {es' : List Entry} (h : d.Admits es') (counter : d.counter = c.counter)
    (applied : c.applyEntries es = d.applyEntries es') : c.Admits es := by
  rw [Admits, applied, ← counter]
  exact h

lemma cons (h : d.Admits es) (applied : c.applyEntry e = .ok d) (counter : d.counter = c.counter) :
    c.Admits (e :: es) :=
  h.of_eq counter (applyEntries_cons applied es)

/-- A single entry that leaves the counter alone. -/
lemma single (h : ∃ d, c.applyEntry e = .ok d ∧ d.counter = c.counter ∧
    d.WellFormedBelow c.counter.val) : c.Admits [e] := by
  obtain ⟨d, applied, counter, hd⟩ := h
  rw [← counter] at hd
  exact (nil hd).cons applied counter

/-- The counter catches up with the numbers that were taken from it. -/
lemma takeIds {delta : ObjectId} (h : c.WellFormedBelow (c.counter.val + delta.val))
    (hd : delta.val ≤ 2) : c.Admits [.takeIds delta] := by
  rcases Nat.lt_or_ge (c.counter.val + delta.val) 4_294_967_296 with lt | ge
  · obtain ⟨k, hk, taken⟩ := applyEntries_takeIds c delta lt
    rw [← hk] at h
    exact .inl ⟨c.withCounter k, taken, h.tablesById, h.indexesById, h.schemaIds, h.ids, h.below,
      h.schemas, h.zones, h.tableZones⟩
  · have none : Word32.ofNat? (c.counter.val + delta.val) = none := dif_neg (Nat.not_lt.2 ge)
    refine .inr ⟨delta, hd, ge, ?_⟩
    rw [applyEntries, applyEntry, none]
    rfl

/-- With two numbers left nothing fails. -/
lemma ok (h : c.Admits es) (room : c.counter.val + 2 < 4_294_967_296) :
    ∃ d, c.applyEntries es = .ok d ∧ d.WellFormed := by
  rcases h with h | ⟨delta, hd, ge, -⟩
  · exact h
  · omega

end Admits

end Catalog

namespace Statement

open Entries

variable {c : Catalog} {es : List Entry} {name : String} {o : Option String}

/-! ## Tables -/

lemma admits_createTable {p : CreateTable} (h : c.WellFormed)
    (accepted : (createTable p).Accepted c es) : c.Admits es := by
  cases accepted with
  | @createTable p s z i hs tableFree definition indexFree hz next =>
    have mem := List.mem_of_find?_eq_some hs
    have wf := Check.of_tableDefinition definition c.counter s.id z.id
    obtain ⟨table, afterTable⟩ := c.applied_newTable (t := p.tableIn c.counter s.id z.id) h mem rfl
      rfl wf (Check.of_tableNameFree tableFree) ⟨z, List.mem_of_find?_eq_some hz, rfl⟩
    -- The index is on the table that was just added, in the schema that holds it now.
    obtain ⟨index, afterIndex⟩ := Catalog.applied_newIndex (i := p.keyIndex i c.counter) afterTable
      (Catalog.mem_put_self h.schemaIds mem rfl) (List.mem_concat_self ..)
      (Word32.val_of_ofNat? next) ⟨rfl, wf.key, wf.keyNames, wf.keyColumns⟩
      (Check.of_indexNameFree indexFree)
    refine Catalog.Admits.cons ?_ table rfl
    refine Catalog.Admits.cons ?_ index rfl
    exact Catalog.Admits.takeIds afterIndex (Nat.le_refl 2)

lemma admits_dropTable (h : c.WellFormed) (accepted : (dropTable o name).Accepted c es) :
    c.Admits es := by
  cases accepted with
  | @dropTable o name s t hs ht =>
    have hs := List.mem_of_find?_eq_some hs
    have ht := List.mem_of_find?_eq_some ht
    have wf := h.schemas s hs
    have nodup : ((s.indexesOf t.id).map Index.id).Nodup :=
      (nodup_of_ascending wf.indexIds).sublist (List.filter_sublist.map _)
    obtain ⟨d, s', applied, counter, hd, hs', tables, rest⟩ :=
      Catalog.applied_dropIndexes h hs (List.filter_subset_self ..) nodup [.dropTable t.id]
    refine Catalog.Admits.of_eq ?_ counter applied
    rw [← tables] at ht
    have free : ∀ i ∈ s'.indexes, i.tableId ≠ t.id := by
      intro i hi e
      obtain ⟨hi, gone⟩ := rest i hi
      exact gone (List.mem_map_of_mem (List.mem_filter.2 ⟨hi, by simpa using e⟩))
    obtain ⟨table, afterTable⟩ := Catalog.applied_dropTable hd hs' ht free
    rw [← counter] at afterTable
    exact (Catalog.Admits.nil afterTable).cons table rfl

lemma admits_addColumns {columns : List ColumnSpec} (h : c.WellFormed)
    (accepted : (addColumns o name columns).Accepted c es) : c.Admits es := by
  cases accepted with
  | addColumns hs ht new =>
    obtain ⟨nodup, new, -⟩ := Check.of_newColumns new
    rw [← Check.names_of_specs] at nodup new
    exact .single (Catalog.applied_newColumns h (List.mem_of_find?_eq_some hs)
      (List.mem_of_find?_eq_some ht) nodup new)

lemma admits_dropColumns {names : List String} (h : c.WellFormed)
    (accepted : (dropColumns o name names).Accepted c es) : c.Admits es := by
  cases accepted with
  | @dropColumns o name names s t hs ht dropped notIndexed =>
    have indexed : ∀ i ∈ s.indexes, i.tableId = t.id → ∀ n ∈ names, n ∉ i.columns := by
      intro i hi e
      exact Check.of_notIndexed notIndexed i (List.mem_filter.2 ⟨hi, by simpa using e⟩)
    exact .single (Catalog.applied_dropColumns h (List.mem_of_find?_eq_some hs)
      (List.mem_of_find?_eq_some ht) (Check.of_droppedColumns dropped) indexed)

lemma admits_alterColumn {a : AlterColumn} (h : c.WellFormed)
    (accepted : (alterColumn a).Accepted c es) : c.Admits es := by
  cases accepted with
  | sameColumn => exact .nil h
  | @alterColumn a s t origin hs ht ho other allowed =>
    obtain ⟨ho, -, e⟩ := Check.of_column (Check.column_eq_ok.2 ho)
    have found : (t.column? (a.over origin).name).isSome := by
      rw [← e] at ho
      exact Option.isSome_of_mem ho
    exact .single (Catalog.applied_alterColumn h (List.mem_of_find?_eq_some hs)
      (List.mem_of_find?_eq_some ht) found)

/-! ## Indexes -/

/-- What both kinds of index have in common. -/
lemma admits_newIndex {s : Schema} {t : Table} {i : Index} {columns : List String}
    (h : c.WellFormed) (hs : s ∈ c.schemas) (ht : t ∈ s.tables) (id : i.id = c.counter)
    (free : Check.indexNameFree s i.name = .ok ()) (hc : Check.indexColumns t columns = .ok ())
    (hk : i.columns = columns) (on : i.tableId = t.id) : c.Admits [.newIndex i, .takeIds 1] := by
  obtain ⟨nonempty, nodup, subset⟩ := Check.of_indexColumns hc
  rw [← hk] at nonempty nodup subset
  obtain ⟨index, afterIndex⟩ := Catalog.applied_newIndex h hs ht (congrArg Fin.val id)
    ⟨on, nonempty, nodup, subset⟩ (Check.of_indexNameFree free)
  refine Catalog.Admits.cons ?_ index rfl
  exact Catalog.Admits.takeIds afterIndex (Nat.le_succ 1)

lemma admits_createHashIndex {p : CreateHashIndex} (h : c.WellFormed)
    (accepted : (createHashIndex p).Accepted c es) : c.Admits es := by
  cases accepted with
  | createHashIndex hs free ht columns =>
    exact admits_newIndex h (List.mem_of_find?_eq_some hs) (List.mem_of_find?_eq_some ht) rfl free
      columns rfl rfl

lemma admits_createSortedIndex {p : CreateSortedIndex} (h : c.WellFormed)
    (accepted : (createSortedIndex p).Accepted c es) : c.Admits es := by
  cases accepted with
  | createSortedIndex hs free ht columns count =>
    refine admits_newIndex h (List.mem_of_find?_eq_some hs) (List.mem_of_find?_eq_some ht) rfl free
      columns ?_ rfl
    -- No column is lost where there is a collation for each.
    show ((p.columns.zip p.collations).map _).map SortedColumn.name = p.columns
    rw [List.map_map]
    exact List.map_fst_zip (Nat.le_of_eq count.symm)

lemma admits_dropIndex (h : c.WellFormed) (accepted : (dropIndex o name).Accepted c es) :
    c.Admits es := by
  cases accepted with
  | @dropIndex o name s i hs hi =>
    obtain ⟨index, afterIndex⟩ := Catalog.applied_dropIndex h (List.mem_of_find?_eq_some hs)
      (List.mem_of_find?_eq_some hi) i.tableId
    exact (Catalog.Admits.nil afterIndex).cons index rfl

/-! ## Zones -/

lemma admits_createZone {p : ZoneSpec} (h : c.WellFormed)
    (accepted : (createZone name p).Accepted c es) : c.Admits es := by
  cases accepted with
  | createZone blank free valid =>
    have afterZone := Catalog.applied_newZone h (z := p.over (Zone.ofName c.counter name)) rfl
      (Check.of_zoneDefinition valid) (Check.of_zoneNameFree free)
    exact (Catalog.Admits.takeIds afterZone (Nat.le_succ 1)).cons rfl rfl

lemma admits_alterZone {p : ZoneSpec} (h : c.WellFormed)
    (accepted : (alterZone name p).Accepted c es) : c.Admits es := by
  cases accepted with
  | @alterZone name p z blank hz valid =>
    exact .single (Catalog.applied_alterZone (z := p.over z) h (List.mem_of_find?_eq_some hz) rfl
      (Check.of_zoneDefinition valid) (.inl rfl))

lemma ne_default {z : Zone} (h : z.isDefault = false) : z.name ≠ Zone.defaultName := by
  simpa [Zone.isDefault] using h

lemma admits_renameZone {newName : String} (h : c.WellFormed)
    (accepted : (renameZone name newName).Accepted c es) : c.Admits es := by
  cases accepted with
  | @renameZone name newName z blank newBlank hz free notDefault =>
    have hz := List.mem_of_find?_eq_some hz
    have wf := h.zones.each z hz
    have renamed : Zone.WellFormed { z with name := newName } :=
      ⟨Check.of_zoneName newBlank, wf.partitions, wf.replicas, wf.filter, wf.timers⟩
    exact .single (Catalog.applied_alterZone h hz rfl renamed
      (.inr ⟨ne_default notDefault, Check.of_zoneNameFree free⟩))

lemma admits_dropZone (h : c.WellFormed) (accepted : (dropZone name).Accepted c es) :
    c.Admits es := by
  cases accepted with
  | dropZone blank hz notDefault unbound =>
    exact .single (Catalog.applied_dropZone h (List.mem_of_find?_eq_some hz)
      (ne_default notDefault) unbound)

/-- What a statement yields on a well-formed catalog leads to a well-formed one. -/
theorem admits {st : Statement} (h : c.WellFormed) (he : st.entries c = .ok es) :
    c.Admits es := by
  have accepted := accepted_of_ok he
  cases st with
  | createTable => exact admits_createTable h accepted
  | dropTable => exact admits_dropTable h accepted
  | addColumns => exact admits_addColumns h accepted
  | dropColumns => exact admits_dropColumns h accepted
  | alterColumn => exact admits_alterColumn h accepted
  | createHashIndex => exact admits_createHashIndex h accepted
  | createSortedIndex => exact admits_createSortedIndex h accepted
  | dropIndex => exact admits_dropIndex h accepted
  | createZone => exact admits_createZone h accepted
  | alterZone => exact admits_alterZone h accepted
  | renameZone => exact admits_renameZone h accepted
  | dropZone => exact admits_dropZone h accepted

end Statement

namespace Catalog

/-- A catalog is what a statement makes of another one, as some version. -/
inductive Becomes (c : Catalog) : Catalog → Prop where
  | intro {st : Statement} {es : List Entry} {d : Catalog} (v : Version) (a : Timestamp)
      (entries : st.entries c = .ok es) (applied : c.applyEntries es = .ok d) :
      Becomes c (d.stamp v a)

lemma Becomes.wellFormed {c d : Catalog} (h : c.Becomes d) (wf : c.WellFormed) : d.WellFormed := by
  cases h with
  | intro v a entries applied =>
    rcases Statement.admits wf entries with ⟨e, he, wf⟩ | ⟨delta, -, -, failed⟩
    · rw [applied] at he
      cases he
      exact wf.stamp v a
    · rw [applied] at failed
      cases failed

end Catalog

end SchemaCatalog
