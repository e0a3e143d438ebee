import SchemaCatalog.Proofs.Catalog.Exactness

/-!
# What statements name

A statement names the schema, the table, the columns, the index or the zone that it is about, and is
accepted only where all of them exist. A schema or zone that is left out is the default one.
-/

namespace SchemaCatalog

/-- Something in a catalog, by the names that lead to it. -/
inductive Reference where
  | schema (name : String)
  | table (schema name : String)
  | column (schema table name : String)
  | index (schema name : String)
  | zone (name : String)
  deriving Repr, DecidableEq

/-- Whether what is named exists. -/
def Catalog.has (c : Catalog) : Reference → Bool
  | .schema name => (c.schema? name).isSome
  | .table schema name => ((c.schema? schema).bind (·.table? name)).isSome
  | .column schema table name =>
    (((c.schema? schema).bind (·.table? table)).bind (·.column? name)).isSome
  | .index schema name => ((c.schema? schema).bind (·.index? name)).isSome
  | .zone name => (c.zone? name).isSome

namespace Statement

/-- What a statement on a table names: the schema, the table, and some columns. -/
def tableReferences (schema : Option String) (table : String) (columns : List String) :
    List Reference :=
  let schema := schema.getD Schema.defaultName
  .schema schema :: .table schema table :: columns.map (.column schema table)

/-- What a statement names as something that exists. -/
def references : Statement → List Reference
  | createTable p =>
    [.schema (p.schema.getD Schema.defaultName), .zone (p.zone.getD Zone.defaultName)]
  | dropTable schema table => tableReferences schema table []
  | addColumns schema table _ => tableReferences schema table []
  | dropColumns schema table columns => tableReferences schema table columns
  | alterColumn a => tableReferences a.schema a.table [a.column]
  | createHashIndex p => tableReferences p.schema p.table p.columns
  | createSortedIndex p => tableReferences p.schema p.table p.columns
  | dropIndex schema index =>
    [.schema (schema.getD Schema.defaultName), .index (schema.getD Schema.defaultName) index]
  | createZone _ _ => []
  | alterZone name _ => [.zone name]
  | renameZone name _ => [.zone name]
  | dropZone name => [.zone name]

end Statement

namespace Catalog

variable {c : Catalog} {s : Schema} {t : Table} {schema : Option String} {table name : String}
  {columns : List String}

/-- All of some references exist. -/
def HasAll (c : Catalog) (l : List Reference) : Prop := ∀ r ∈ l, c.has r = true

lemma hasAll_cons {r : Reference} {l : List Reference} :
    c.HasAll (r :: l) ↔ c.has r = true ∧ c.HasAll l := List.forall_mem_cons

@[simp] lemma hasAll_nil : c.HasAll [] := List.forall_mem_nil _

lemma has_schema : c.has (.schema name) = true ↔ ∃ s, c.schema? name = some s :=
  Option.isSome_iff_exists

lemma has_zone : c.has (.zone name) = true ↔ ∃ z, c.zone? name = some z :=
  Option.isSome_iff_exists

lemma has_index {schema : String} : c.has (.index schema name) = true ↔
    ∃ s i, c.schema? schema = some s ∧ s.index? name = some i := by
  rw [has, Option.isSome_iff_exists]
  simp only [Option.bind_eq_some_iff]
  exact exists_comm

/-- What a statement on a table names exists exactly if the table does and has the columns. -/
lemma hasAll_table : c.HasAll (Statement.tableReferences schema table columns) ↔
    ∃ s t, c.schema? (schema.getD Schema.defaultName) = some s ∧ s.table? table = some t ∧
      columns ⊆ t.columns.map Column.name := by
  have column : ∀ (t : Table) n, (t.column? n).isSome ↔ n ∈ t.columns.map Column.name := by
    intro t n
    simp [Table.column?]
  rw [Statement.tableReferences, hasAll_cons, hasAll_cons]
  simp only [HasAll, List.forall_mem_map, has]
  constructor
  · rintro ⟨-, ht, hcolumns⟩
    obtain ⟨t, ht⟩ := Option.isSome_iff_exists.1 ht
    obtain ⟨s, hs, ht'⟩ := Option.bind_eq_some_iff.1 ht
    refine ⟨s, t, hs, ht', fun n hn => (column t n).1 ?_⟩
    have found := hcolumns n hn
    rw [ht] at found
    exact found
  · rintro ⟨s, t, hs, ht, hcolumns⟩
    rw [hs, Option.bind_some, ht]
    exact ⟨rfl, rfl, fun n hn => (column t n).2 (hcolumns hn)⟩

lemma hasAll_column {s : Schema} {t : Table} {origin : Column}
    (hs : c.schema? (schema.getD Schema.defaultName) = some s) (ht : s.table? table = some t)
    (ho : t.column? name = some origin) :
    c.HasAll (Statement.tableReferences schema table [name]) := by
  obtain ⟨-, ho, named⟩ := Check.of_column (Check.column_eq_ok.2 ho)
  refine hasAll_table.2 ⟨s, t, hs, ht, fun n hn => ?_⟩
  rw [List.mem_singleton.1 hn]
  exact List.mem_map.2 ⟨origin, ho, named⟩

lemma hasAll_zone {z : Zone} (hz : c.zone? name = some z) : c.HasAll [.zone name] :=
  hasAll_cons.2 ⟨has_zone.2 ⟨z, hz⟩, hasAll_nil⟩

end Catalog

namespace Check

variable {t : Table} {names : List String}

lemma columns_of_droppedColumns (h : droppedColumns t names = .ok ()) :
    names ⊆ t.columns.map Column.name := by
  induction names with
  | nil => exact nofun
  | cons n ns ih =>
    obtain ⟨col, hc, h⟩ := bind_ok h
    obtain ⟨_, -, h⟩ := bind_ok h
    obtain ⟨-, hcol, e⟩ := of_column hc
    intro m hm
    rcases List.mem_cons.1 hm with rfl | hm
    · exact List.mem_map.2 ⟨col, hcol, e⟩
    · exact ih h hm

end Check

/-! ## Accepted statements -/

section

variable {c : Catalog} {es : List Entry}

/-- What an accepted statement names exists. -/
theorem Statement.references_of_ok {st : Statement} (h : st.entries c = .ok es) :
    c.HasAll st.references := by
  cases accepted_of_ok h with
  | createTable hs _ _ _ hz =>
    exact Catalog.hasAll_cons.2 ⟨Catalog.has_schema.2 ⟨_, hs⟩,
      Catalog.hasAll_cons.2 ⟨Catalog.has_zone.2 ⟨_, hz⟩, Catalog.hasAll_nil⟩⟩
  | dropTable hs ht => exact Catalog.hasAll_table.2 ⟨_, _, hs, ht, List.nil_subset _⟩
  | addColumns hs ht => exact Catalog.hasAll_table.2 ⟨_, _, hs, ht, List.nil_subset _⟩
  | dropColumns hs ht dropped =>
    exact Catalog.hasAll_table.2 ⟨_, _, hs, ht, Check.columns_of_droppedColumns dropped⟩
  | sameColumn hs ht ho => exact Catalog.hasAll_column hs ht ho
  | alterColumn hs ht ho => exact Catalog.hasAll_column hs ht ho
  | createHashIndex hs _ ht columns =>
    exact Catalog.hasAll_table.2 ⟨_, _, hs, ht, (Check.of_indexColumns columns).2.2⟩
  | createSortedIndex hs _ ht columns =>
    exact Catalog.hasAll_table.2 ⟨_, _, hs, ht, (Check.of_indexColumns columns).2.2⟩
  | dropIndex hs hi =>
    exact Catalog.hasAll_cons.2 ⟨Catalog.has_schema.2 ⟨_, hs⟩,
      Catalog.hasAll_cons.2 ⟨Catalog.has_index.2 ⟨_, _, hs, hi⟩, Catalog.hasAll_nil⟩⟩
  | createZone => exact Catalog.hasAll_nil
  | alterZone _ hz => exact Catalog.hasAll_zone hz
  | renameZone _ _ hz => exact Catalog.hasAll_zone hz
  | dropZone _ hz => exact Catalog.hasAll_zone hz

end

end SchemaCatalog
