import Mathlib.Data.List.Flatten
import SchemaCatalog.Proofs.Catalog.Lookup
import SchemaCatalog.Statement.Check

/-!
# Well-formed catalogs

What every catalog satisfies that statements made: numbers and names are distinct, tables and
indexes refer to what exists, and every definition obeys the rules of its kind. While the entries of
a statement are applied the new numbers are not yet taken from the counter, so the bound of the
numbers is a parameter of the definition.
-/

namespace SchemaCatalog

/-! ## Definitions by themselves -/

/-- A table with distinct columns, a key of some of them, and colocation columns in the key. -/
structure Table.WellFormed (t : Table) : Prop where
  columns : t.columns ≠ []
  columnNames : (t.columns.map Column.name).Nodup
  key : t.primaryKey ≠ []
  keyNames : t.primaryKey.Nodup
  keyColumns : t.primaryKey ⊆ t.columns.map Column.name
  colocationNames : t.colocation.Nodup
  colocationColumns : t.colocation ⊆ t.primaryKey

/-- An index on a table with distinct columns of that table. -/
structure Index.IsOn (i : Index) (t : Table) : Prop where
  table : i.tableId = t.id
  columns : i.columns ≠ []
  columnNames : i.columns.Nodup
  tableColumns : i.columns ⊆ t.columns.map Column.name

/-- A zone that passes the rules for zones. -/
structure Zone.WellFormed (z : Zone) : Prop where
  name : Text.isBlank z.name = false
  partitions : 1 ≤ z.partitions.val ∧ z.partitions.val ≤ 65000
  replicas : 1 ≤ z.replicas.val
  filter : Text.isBlank z.filter = false
  timers : z.autoAdjust = Zone.infiniteTimer ∨
    z.scaleUp = Zone.infiniteTimer ∧ z.scaleDown = Zone.infiniteTimer

/-- A schema with its tables and indexes in the order of their numbers. -/
structure Schema.WellFormed (s : Schema) : Prop where
  tableIds : (s.tables.map Table.id).Pairwise (· < ·)
  indexIds : (s.indexes.map Index.id).Pairwise (· < ·)
  tableNames : (s.tables.map Table.name).Nodup
  indexNames : (s.indexes.map Index.name).Nodup
  schemaId : ∀ t ∈ s.tables, t.schemaId = s.id
  tables : ∀ t ∈ s.tables, t.WellFormed
  indexes : ∀ i ∈ s.indexes, ∃ t ∈ s.tables, i.IsOn t

/-- Zones in the order of their numbers, one of which is the default zone. -/
structure Zones.WellFormed (zones : List Zone) : Prop where
  ids : (zones.map Zone.id).Pairwise (· < ·)
  names : (zones.map Zone.name).Nodup
  each : ∀ z ∈ zones, z.WellFormed
  default : ∃ z ∈ zones, z.name = Zone.defaultName ∧ z.id = Catalog.defaultZoneId

/-! ## Catalogs -/

/-- The numbers of the tables and indexes of a schema. -/
def Schema.ids (s : Schema) : List ObjectId := s.tables.map Table.id ++ s.indexes.map Index.id

namespace Catalog

/-- The numbers of the zones, tables and indexes of a catalog. -/
def ids (c : Catalog) : List ObjectId := c.zones.map Zone.id ++ c.schemas.flatMap Schema.ids

/-- A catalog whose definitions are well-formed and fit together, with numbers below a bound. The
maps are the ones of the lists, and schemas are told apart by their numbers. -/
structure WellFormedBelow (c : Catalog) (bound : Nat) : Prop where
  tablesById : c.tablesById = NatMap.ofList (c.tables.map fun t => (t.id.val, t))
  indexesById : c.indexesById = NatMap.ofList (c.indexes.map fun i => (i.id.val, i))
  schemaIds : (c.schemas.map Schema.id).Nodup
  ids : c.ids.Nodup
  below : ∀ id ∈ c.ids, id.val < bound
  schemas : ∀ s ∈ c.schemas, s.WellFormed
  zones : Zones.WellFormed c.zones
  tableZones : ∀ s ∈ c.schemas, ∀ t ∈ s.tables, ∃ z ∈ c.zones, z.id = t.zoneId

/-- A catalog that is well-formed, with all numbers below the counter. -/
def WellFormed (c : Catalog) : Prop := c.WellFormedBelow c.counter.val

lemma WellFormed.stamp {c : Catalog} (h : c.WellFormed) (v : Version) (a : Timestamp) :
    (c.stamp v a).WellFormed :=
  ⟨h.tablesById, h.indexesById, h.schemaIds, h.ids, h.below, h.schemas, h.zones, h.tableZones⟩

lemma initial_wellFormed : initial.WellFormed where
  tablesById := rfl
  indexesById := rfl
  schemaIds := List.nodup_singleton _
  ids := List.nodup_singleton _
  below id hid := by
    obtain rfl := List.mem_singleton.1 hid
    exact Nat.lt_succ_self 1
  schemas s hs := by
    obtain rfl := List.mem_singleton.1 hs
    exact ⟨.nil, .nil, .nil, .nil, nofun, nofun, nofun⟩
  zones := by
    refine ⟨List.pairwise_singleton .., List.nodup_singleton _, fun z hz => ?_, ?_⟩
    · obtain rfl := List.mem_singleton.1 hz
      exact ⟨by decide, by decide, by decide, by decide, .inl rfl⟩
    · exact ⟨_, List.mem_singleton_self _, rfl, rfl⟩
  tableZones s hs := by
    obtain rfl := List.mem_singleton.1 hs
    exact nofun

/-! ## Numbers -/

section

variable {c : Catalog} {n : Nat}

lemma mem_ids {id : ObjectId} : id ∈ c.ids ↔
    id ∈ c.zones.map Zone.id ∨ ∃ s ∈ c.schemas, id ∈ s.ids := by
  rw [ids, List.mem_append, List.mem_flatMap]

lemma ids_tables_sublist : (c.tables.map Table.id).Sublist (c.schemas.flatMap Schema.ids) := by
  rw [map_tables]
  exact List.Sublist.flatMap_right _ fun s _ => List.sublist_append_left ..

lemma ids_indexes_sublist : (c.indexes.map Index.id).Sublist (c.schemas.flatMap Schema.ids) := by
  rw [map_indexes]
  exact List.Sublist.flatMap_right _ fun s _ => List.sublist_append_right ..

lemma WellFormedBelow.keyed (h : c.WellFormedBelow n) : c.Keyed where
  tablesById := h.tablesById
  indexesById := h.indexesById
  schemaIds := h.schemaIds
  tableIds := h.ids.sublist (ids_tables_sublist.trans (List.sublist_append_right ..))
  indexIds := h.ids.sublist (ids_indexes_sublist.trans (List.sublist_append_right ..))
  schemaId s hs := (h.schemas s hs).schemaId

end

end Catalog

end SchemaCatalog
