import SchemaCatalog.Proofs.Catalog.WellFormed
import SchemaCatalog.Proofs.Fold

/-!
# What checks make sure of

A check that passes says something about the catalog or about what a statement states. One lemma for
each check says what.
-/

namespace SchemaCatalog.Check

variable {c : Catalog} {s : Schema} {t : Table} {name : String} {names : List String}

lemma of_refuse {b : Bool} {e : Error} (h : refuse b e = .ok ()) : b = false := by
  cases b with
  | false => rfl
  | true => cases h

lemma of_firstDuplicate {seen : List String} (h : firstDuplicate.go seen names = none) :
    names.Nodup ∧ ∀ n ∈ names, n ∉ seen := by
  induction names generalizing seen with
  | nil => exact ⟨.nil, nofun⟩
  | cons n ns ih =>
    rw [firstDuplicate.go] at h
    split at h
    · cases h
    · rename_i hn
      have hn : n ∉ seen := by simpa using hn
      obtain ⟨nodup, free⟩ := ih h
      refine ⟨List.nodup_cons.2 ⟨fun hm => free n hm (List.mem_cons_self ..), nodup⟩, ?_⟩
      intro m hm
      rcases List.mem_cons.1 hm with rfl | hm
      · exact hn
      · exact fun hs => free m hm (List.mem_cons_of_mem _ hs)

lemma of_distinct {fault : String → DefinitionFault} (h : distinct names fault = .ok ()) :
    names.Nodup := by
  unfold distinct at h
  split at h
  · cases h
  · rename_i hd
    exact (of_firstDuplicate hd).1

/-! ## What exists, and what does not -/

lemma schema_eq_ok {o : Option String} :
    schema c o = .ok s ↔ c.schema? (o.getD Schema.defaultName) = some s := by
  unfold schema
  dsimp only
  cases c.schema? (o.getD Schema.defaultName) <;> simp

lemma table_eq_ok : table s name = .ok t ↔ s.table? name = some t := by
  unfold table
  cases s.table? name <;> simp

lemma index_eq_ok {i : Index} : index s name = .ok i ↔ s.index? name = some i := by
  unfold index
  cases s.index? name <;> simp

lemma zone_eq_ok {z : Zone} : zone c name = .ok z ↔ c.zone? name = some z := by
  unfold zone
  cases c.zone? name <;> simp

lemma column_eq_ok {col : Column} : column t name = .ok col ↔ t.column? name = some col := by
  unfold column
  cases t.column? name <;> simp

lemma of_schema {o : Option String} (h : schema c o = .ok s) : s ∈ c.schemas :=
  List.mem_of_find?_eq_some (schema_eq_ok.1 h)

lemma of_table (h : table s name = .ok t) : t ∈ s.tables :=
  List.mem_of_find?_eq_some (table_eq_ok.1 h)

lemma of_column {col : Column} (h : column t name = .ok col) :
    t.column? name = some col ∧ col ∈ t.columns ∧ col.name = name := by
  have hc := column_eq_ok.1 h
  exact ⟨hc, List.mem_of_find?_eq_some hc, by simpa using List.find?_some hc⟩

lemma ne_of_find? {α : Type} {l : List α} {k : α → String}
    (h : (l.find? fun a => k a = name).isSome = false) : ∀ a ∈ l, k a ≠ name := by
  intro a ha e
  have some : (l.find? fun a => k a = name).isSome := List.find?_isSome.2 ⟨a, ha, by simpa using e⟩
  rw [h] at some
  cases some

lemma of_tableNameFree (h : tableNameFree s name = .ok ()) : ∀ t ∈ s.tables, t.name ≠ name :=
  ne_of_find? (of_refuse h)

lemma of_indexNameFree (h : indexNameFree s name = .ok ()) : ∀ i ∈ s.indexes, i.name ≠ name :=
  ne_of_find? (of_refuse h)

lemma of_zoneNameFree (h : zoneNameFree c name = .ok ()) : ∀ z ∈ c.zones, z.name ≠ name :=
  ne_of_find? (of_refuse h)

/-! ## Tables -/

lemma names_of_specs (l : List ColumnSpec) :
    (l.map ColumnSpec.column).map Column.name = l.map ColumnSpec.name := by
  rw [List.map_map]
  rfl

/-- Columns of a new table or index that are all found are among those searched. -/
lemma subset_of_find? {l : List String} (h : l.find? (fun n => !names.contains n) = none) :
    l ⊆ names := by
  intro n hn
  have := List.find?_eq_none.1 h n hn
  simpa using this

lemma of_colocation {key : List String} {o : Option (List String)} (h : colocation key o = .ok ())
    (hk : key.Nodup) : (o.getD key).Nodup ∧ o.getD key ⊆ key := by
  cases o with
  | none => exact ⟨hk, List.Subset.refl _⟩
  | some l =>
    obtain ⟨_, hd, h⟩ := bind_ok h
    refine ⟨of_distinct hd, fun n hn => ?_⟩
    have none := of_refuse h
    simp only [Bool.not_eq_false', List.isEmpty_iff, List.filter_eq_nil_iff] at none
    simpa using none n hn

/-- What a new table states makes a well-formed table. -/
lemma of_tableDefinition {p : CreateTable} (h : tableDefinition p = .ok ())
    (id schemaId zoneId : ObjectId) :
    Table.WellFormed ⟨id, schemaId, zoneId, p.table, p.columns.map ColumnSpec.column, p.primaryKey,
      p.colocation.getD p.primaryKey⟩ := by
  unfold tableDefinition at h
  dsimp only at h
  obtain ⟨_, hempty, h⟩ := bind_ok h
  obtain ⟨_, hnames, h⟩ := bind_ok h
  obtain ⟨_, hkey, h⟩ := bind_ok h
  split at h
  · cases h
  · rename_i hfound
    obtain ⟨_, -, h⟩ := bind_ok h
    obtain ⟨_, hdistinct, h⟩ := bind_ok h
    have nodup := of_distinct hdistinct
    obtain ⟨colocationNames, colocationColumns⟩ := of_colocation h nodup
    constructor
    case columns => simpa using of_refuse hempty
    case columnNames =>
      rw [names_of_specs]
      exact of_distinct hnames
    case key => simpa using of_refuse hkey
    case keyNames => exact nodup
    case keyColumns =>
      rw [names_of_specs]
      exact subset_of_find? hfound
    case colocationNames => exact colocationNames
    case colocationColumns => exact colocationColumns

lemma of_allColumns (h : allColumns t names = .ok ()) : names ⊆ t.columns.map Column.name := by
  induction names with
  | nil => exact nofun
  | cons n ns ih =>
    obtain ⟨col, hc, h⟩ := bind_ok h
    obtain ⟨-, hcol, e⟩ := of_column hc
    intro m hm
    rcases List.mem_cons.1 hm with rfl | hm
    · exact List.mem_map.2 ⟨col, hcol, e⟩
    · exact ih h hm

lemma of_indexColumns (h : indexColumns t names = .ok ()) :
    names ≠ [] ∧ names.Nodup ∧ names ⊆ t.columns.map Column.name := by
  obtain ⟨_, hempty, h⟩ := bind_ok h
  obtain ⟨_, hall, h⟩ := bind_ok h
  exact ⟨by simpa using of_refuse hempty, of_distinct h, of_allColumns hall⟩

lemma of_newColumns {seen : List String} (h : newColumns t seen names = .ok ()) :
    names.Nodup ∧ (∀ n ∈ names, n ∉ t.columns.map Column.name) ∧ ∀ n ∈ names, n ∉ seen := by
  induction names generalizing seen with
  | nil => exact ⟨.nil, nofun, nofun⟩
  | cons n ns ih =>
    obtain ⟨_, hn, h⟩ := bind_ok h
    obtain ⟨nodup, new, free⟩ := ih h
    obtain ⟨hnew, hseen⟩ := Bool.or_eq_false_iff.1 (of_refuse hn)
    have hseen : n ∉ seen := by simpa using hseen
    have absent : n ∉ t.columns.map Column.name := by
      intro hm
      obtain ⟨col, hc, e⟩ := List.mem_map.1 hm
      exact ne_of_find? hnew col hc e
    refine ⟨List.nodup_cons.2 ⟨fun hm => free n hm (List.mem_cons_self ..), nodup⟩, ?_, ?_⟩
    · intro m hm
      rcases List.mem_cons.1 hm with rfl | hm
      · exact absent
      · exact new m hm
    · intro m hm
      rcases List.mem_cons.1 hm with rfl | hm
      · exact hseen
      · exact fun hs => free m hm (List.mem_cons_of_mem _ hs)

lemma of_droppedColumns (h : droppedColumns t names = .ok ()) : ∀ n ∈ names, n ∉ t.primaryKey := by
  induction names with
  | nil => exact nofun
  | cons n ns ih =>
    obtain ⟨_, -, h⟩ := bind_ok h
    obtain ⟨_, hn, h⟩ := bind_ok h
    have free : n ∉ t.primaryKey := by simpa [Table.isKeyColumn] using of_refuse hn
    intro m hm
    rcases List.mem_cons.1 hm with rfl | hm
    · exact free
    · exact ih h m hm

lemma of_notIndexed {l : List Index} (h : notIndexed names l = .ok ()) :
    ∀ i ∈ l, ∀ n ∈ names, n ∉ i.columns := by
  induction l with
  | nil => exact nofun
  | cons i l ih =>
    rw [notIndexed] at h
    split at h
    · cases h
    · rename_i hfound
      have free : ∀ n ∈ names, n ∉ i.columns := by
        intro n hn
        simpa [Index.hasColumn] using List.find?_eq_none.1 hfound n hn
      intro j hj
      rcases List.mem_cons.1 hj with rfl | hj
      · exact free
      · exact ih h j hj

/-! ## Zones -/

lemma of_zoneName (h : zoneName name = .ok ()) : Text.isBlank name = false := of_refuse h

lemma of_timersConflict {z : Zone} (h : timersConflict z = false) :
    z.autoAdjust = Zone.infiniteTimer ∨
      z.scaleUp = Zone.infiniteTimer ∧ z.scaleDown = Zone.infiniteTimer := by
  rcases Bool.and_eq_false_iff.1 h with h | h
  · exact .inl (by simpa using h)
  · obtain ⟨hup, hdown⟩ := Bool.or_eq_false_iff.1 h
    exact .inr ⟨by simpa using hup, by simpa using hdown⟩

lemma of_zoneDefinition {z : Zone} (h : zoneDefinition z = .ok ()) : z.WellFormed := by
  obtain ⟨_, hname, h⟩ := bind_ok h
  obtain ⟨_, hpartitions, h⟩ := bind_ok h
  obtain ⟨_, hreplicas, h⟩ := bind_ok h
  obtain ⟨_, hfilter, h⟩ := bind_ok h
  constructor
  case name => exact of_zoneName hname
  case partitions =>
    obtain ⟨hzero, hmax⟩ := Bool.or_eq_false_iff.1 (of_refuse hpartitions)
    have hzero : z.partitions ≠ 0 := by simpa using hzero
    have hmax : z.partitions ≤ Zone.maxPartitions := by simpa using hmax
    exact ⟨Fin.pos_iff_ne_zero.2 hzero, hmax⟩
  case replicas =>
    have hzero : z.replicas ≠ 0 := by simpa using of_refuse hreplicas
    exact Fin.pos_iff_ne_zero.2 hzero
  case filter => exact of_refuse hfilter
  case timers => exact of_timersConflict (of_refuse h)

end SchemaCatalog.Check
