import SchemaCatalog.Proofs.Catalog.Numbers

/-!
# Objects after a statement

What the zones, tables and indexes of a catalog are after an entry was applied, whatever the catalog
is (`Catalog.applyEntry_makes`). Objects come into a catalog as new ones, and a statement numbers
its new objects from the counter on. So the counter of the catalog before tells apart by their
numbers the objects that it had and those that it did not have (`Catalog.Becomes.draws`).
-/

namespace SchemaCatalog

namespace Catalog

/-- The kinds of objects that take their numbers from the counter. -/
inductive Kind where
  | zone
  | table
  | index
  deriving Repr, DecidableEq

/-- Every kind once. -/
def Kind.all : List Kind := [zone, table, index]

/-- The numbers of the objects of a kind. -/
def idsOf (c : Catalog) : Kind → List ObjectId
  | .zone => c.zones.map Zone.id
  | .table => c.tables.map Table.id
  | .index => c.indexes.map Index.id

end Catalog

namespace Entry

/-- The kind and the number of the object that an entry adds. -/
def created? : Entry → Option (Catalog.Kind × ObjectId)
  | .newTable t => some (.table, t.id)
  | .newIndex i => some (.index, i.id)
  | .newZone z => some (.zone, z.id)
  | _ => none

/-- Whether an entry gives other columns to a table. -/
def revises : Entry → Bool
  | .newColumns .. => true
  | .dropColumns .. => true
  | .alterColumn .. => true
  | _ => false

end Entry

namespace Catalog

variable {b c d : Catalog} {s s' : Schema} {t u : Table} {i : Index} {e : Entry} {es : List Entry}
  {k k' : Kind} {id : ObjectId}

/-! ## Numbers by kind -/

lemma Kind.mem_all (k : Kind) : k ∈ all := by cases k <;> decide

/-- The numbers of a catalog are those of all kinds. -/
lemma ids_perm (c : Catalog) : c.ids.Perm (Kind.all.flatMap c.idsOf) := by
  have split := (List.flatMap_append_perm c.schemas (fun s => s.tables.map Table.id)
    fun s => s.indexes.map Index.id).symm.append_left (c.zones.map Zone.id)
  simp only [Kind.all, List.flatMap_cons, List.flatMap_nil, List.append_nil, idsOf, tables, indexes,
    tablesOf, indexesOf, List.map_flatMap]
  exact split

lemma mem_ids_iff : id ∈ c.ids ↔ ∃ k, id ∈ c.idsOf k := by
  rw [c.ids_perm.mem_iff, List.mem_flatMap]
  exact ⟨fun ⟨k, _, h⟩ => ⟨k, h⟩, fun ⟨k, h⟩ => ⟨k, k.mem_all, h⟩⟩

/-- Objects of one kind have distinct numbers. -/
lemma WellFormed.idsOf_nodup (h : c.WellFormed) (k : Kind) : (c.idsOf k).Nodup := by
  obtain ⟨nodup, -⟩ := List.nodup_flatMap.1 (c.ids_perm.nodup_iff.1 h.ids)
  exact nodup k k.mem_all

/-- Objects of two kinds have two numbers. -/
lemma WellFormed.kind_unique (h : c.WellFormed) (hk : id ∈ c.idsOf k) (hk' : id ∈ c.idsOf k') :
    k = k' := by
  obtain ⟨-, disjoint⟩ := List.nodup_flatMap.1 (c.ids_perm.nodup_iff.1 h.ids)
  have symm : Std.Symm (Function.onFun List.Disjoint c.idsOf) :=
    ⟨fun _ _ hd id hr hs => hd hs hr⟩
  by_contra ne
  exact disjoint.forall k.mem_all k'.mem_all ne hk hk'

lemma WellFormed.lt_counter (h : c.WellFormed) (hid : id ∈ c.idsOf k) : id < c.counter :=
  h.below id (mem_ids_iff.2 ⟨k, hid⟩)

lemma idsOf_stamp (c : Catalog) (v : Version) (a : Timestamp) (k : Kind) :
    (c.stamp v a).idsOf k = c.idsOf k := by
  cases k <;> rfl

/-! ## Objects after an entry -/

lemma mem_tables : t ∈ c.tables ↔ ∃ s ∈ c.schemas, t ∈ s.tables := List.mem_flatMap

lemma mem_indexes : i ∈ c.indexes ↔ ∃ s ∈ c.schemas, i ∈ s.indexes := List.mem_flatMap

/-- What an entry makes of the objects of a catalog. It adds one, gives other columns to a table, or
changes a zone, and all other objects stay as they are or go. -/
structure Makes (c : Catalog) (e : Entry) (d : Catalog) : Prop where
  zones : ∀ z ∈ d.zones, z.id ∈ c.zones.map Zone.id ∨ e = .newZone z
  tables : ∀ u ∈ d.tables, u ∈ c.tables ∨ e = .newTable u ∨
    e.revises = true ∧ u.id ∈ c.tables.map Table.id
  indexes : ∀ i ∈ d.indexes, i ∈ c.indexes ∨ e = .newIndex i

/-- Zones with the numbers of before, and nothing else. -/
lemma Makes.of_withZones {zones : List Zone}
    (h : ∀ z ∈ zones, z.id ∈ c.zones.map Zone.id ∨ e = .newZone z) :
    c.Makes e (c.withZones zones) :=
  ⟨h, fun _ ht => .inl ht, fun _ hi => .inl hi⟩

/-- A schema with other tables and indexes, and nothing else. -/
lemma Makes.of_put (hs : s ∈ c.schemas)
    (tables : ∀ u ∈ s'.tables, u ∈ s.tables ∨ e = .newTable u ∨
      e.revises = true ∧ u.id ∈ s.tables.map Table.id)
    (indexes : ∀ i ∈ s'.indexes, i ∈ s.indexes ∨ e = .newIndex i) : c.Makes e (c.put s') := by
  constructor
  case zones => exact fun z hm => .inl (List.mem_map_of_mem hm)
  case tables =>
    intro u hu
    obtain ⟨r, hr, held⟩ := mem_tables.1 hu
    rcases mem_put hr with rfl | ⟨hr, -⟩
    · rcases tables u held with old | hnew | ⟨hrev, hid⟩
      · exact .inl (mem_tables.2 ⟨s, hs, old⟩)
      · exact .inr (.inl hnew)
      · obtain ⟨t, ht, e⟩ := List.mem_map.1 hid
        exact .inr (.inr ⟨hrev, List.mem_map.2 ⟨t, mem_tables.2 ⟨s, hs, ht⟩, e⟩⟩)
    · exact .inl (mem_tables.2 ⟨r, hr, held⟩)
  case indexes =>
    intro i hi
    obtain ⟨r, hr, held⟩ := mem_indexes.1 hi
    rcases mem_put hr with rfl | ⟨hr, -⟩
    · rcases indexes i held with old | hnew
      · exact .inl (mem_indexes.2 ⟨s, hs, old⟩)
      · exact .inr hnew
    · exact .inl (mem_indexes.2 ⟨r, hr, held⟩)

lemma mem_replaceTable (hu : u ∈ (s.replaceTable t).tables) :
    u ∈ s.tables ∨ u = t ∧ t.id ∈ s.tables.map Table.id := by
  obtain ⟨y, hy, rfl⟩ := List.mem_map.1 hu
  split
  · rename_i same
    exact .inr ⟨rfl, same ▸ List.mem_map_of_mem hy⟩
  · exact .inl hy

lemma Makes.of_replaceTable (hs : s ∈ c.schemas) (he : e.revises = true) :
    c.Makes e (c.put (s.replaceTable t)) := by
  refine .of_put hs (fun u hu => ?_) fun i hi => .inl hi
  rcases mem_replaceTable hu with hu | ⟨rfl, hid⟩
  · exact .inl hu
  · exact .inr (.inr ⟨he, hid⟩)

lemma applyEntry_makes (h : c.applyEntry e = .ok d) : c.Makes e d := by
  cases Entry.gives_of_ok h with
  | newTable hs =>
    refine .of_put hs (fun u hu => ?_) fun i hi => .inl hi
    rcases List.mem_append.1 hu with hu | hu
    · exact .inl hu
    · exact .inr (.inl (congrArg _ (List.mem_singleton.1 hu).symm))
  | dropTable hs =>
    exact .of_put hs (fun u hu => .inl (List.mem_of_mem_filter hu)) fun i hi => .inl hi
  | newColumns hs => exact .of_replaceTable hs rfl
  | dropColumns hs => exact .of_replaceTable hs rfl
  | alterColumn hs => exact .of_replaceTable hs rfl
  | newIndex hs =>
    refine .of_put hs (fun u hu => .inl hu) fun j hj => ?_
    rcases List.mem_append.1 hj with hj | hj
    · exact .inl hj
    · exact .inr (congrArg _ (List.mem_singleton.1 hj).symm)
  | dropIndex hs =>
    exact .of_put hs (fun u hu => .inl hu) fun j hj => .inl (List.mem_of_mem_filter hj)
  | newZone =>
    refine .of_withZones fun y hy => ?_
    rcases List.mem_append.1 hy with hy | hy
    · exact .inl (List.mem_map_of_mem hy)
    · exact .inr (congrArg _ (List.mem_singleton.1 hy).symm)
  | alterZone =>
    refine .of_withZones fun y hy => .inl ?_
    obtain ⟨x, hx, rfl⟩ := List.mem_map.1 hy
    split
    · rename_i same
      exact same ▸ List.mem_map_of_mem hx
    · exact List.mem_map_of_mem hx
  | dropZone =>
    exact .of_withZones fun y hy => .inl (List.mem_map_of_mem (List.mem_of_mem_filter hy))
  | takeIds =>
    exact ⟨fun z hz => .inl (List.mem_map_of_mem hz), fun _ ht => .inl ht, fun _ hi => .inl hi⟩

/-- A number that was not there is the one of the object that was added. -/
lemma Makes.ids (h : c.Makes e d) (hid : id ∈ d.idsOf k) :
    id ∈ c.idsOf k ∨ e.created? = some (k, id) := by
  cases k with
  | zone =>
    obtain ⟨z, hz, rfl⟩ := List.mem_map.1 hid
    rcases h.zones z hz with hz | rfl
    · exact .inl hz
    · exact .inr rfl
  | table =>
    obtain ⟨u, hu, rfl⟩ := List.mem_map.1 hid
    rcases h.tables u hu with hu | rfl | ⟨-, hid⟩
    · exact .inl (List.mem_map_of_mem hu)
    · exact .inr rfl
    · exact .inl hid
  | index =>
    obtain ⟨i, hi, rfl⟩ := List.mem_map.1 hid
    rcases h.indexes i hi with hi | rfl
    · exact .inl (List.mem_map_of_mem hi)
    · exact .inr rfl

/-! ## Objects after some entries -/

lemma applyEntries_ids (h : c.applyEntries es = .ok d) (hid : id ∈ d.idsOf k) :
    id ∈ c.idsOf k ∨ ∃ e ∈ es, e.created? = some (k, id) := by
  induction es generalizing c with
  | nil =>
    cases h
    exact .inl hid
  | cons e es ih =>
    obtain ⟨b, hb, h⟩ := bind_ok h
    rcases ih h with hid | ⟨e', he', created⟩
    · rcases (applyEntry_makes hb).ids hid with hid | created
      · exact .inl hid
      · exact .inr ⟨e, List.mem_cons_self, created⟩
    · exact .inr ⟨e', List.mem_cons_of_mem _ he', created⟩

lemma applyEntries_indexes (h : c.applyEntries es = .ok d) (hi : i ∈ d.indexes) :
    i ∈ c.indexes ∨ .newIndex i ∈ es := by
  induction es generalizing c with
  | nil =>
    cases h
    exact .inl hi
  | cons e es ih =>
    obtain ⟨b, hb, h⟩ := bind_ok h
    rcases ih h with hi | hi
    · rcases (applyEntry_makes hb).indexes i hi with hi | rfl
      · exact .inl hi
      · exact .inr List.mem_cons_self
    · exact .inr (List.mem_cons_of_mem _ hi)

lemma applyEntries_tables (h : c.applyEntries es = .ok d) (he : ∀ e ∈ es, e.revises = false)
    (hu : u ∈ d.tables) : u ∈ c.tables ∨ .newTable u ∈ es := by
  induction es generalizing c with
  | nil =>
    cases h
    exact .inl hu
  | cons e es ih =>
    obtain ⟨b, hb, h⟩ := bind_ok h
    obtain ⟨first, rest⟩ := List.forall_mem_cons.1 he
    rcases ih h rest with hu | hu
    · rcases (applyEntry_makes hb).tables u hu with hu | rfl | ⟨revises, -⟩
      · exact .inl hu
      · exact .inr List.mem_cons_self
      · rw [first] at revises
        cases revises
    · exact .inr (List.mem_cons_of_mem _ hu)

/-! ## What statements ask for -/

end Catalog

/-- An entry that leaves all tables their columns and numbers what it adds from a counter on. -/
structure Entry.Fresh (e : Entry) (counter : ObjectId) : Prop where
  columns : e.revises = false
  ids : ∀ k id, e.created? = some (k, id) → counter ≤ id

namespace Entry.Fresh

variable {e : Entry} {counter id : ObjectId} {k : Catalog.Kind}

lemma of_none (columns : e.revises = false) (none : e.created? = none) : e.Fresh counter := by
  refine ⟨columns, fun k id created => ?_⟩
  rw [none] at created
  cases created

lemma of_created (columns : e.revises = false) (created : e.created? = some (k, id))
    (le : counter ≤ id) : e.Fresh counter := by
  refine ⟨columns, fun k' id' created' => ?_⟩
  rw [created] at created'
  cases created'
  exact le

end Entry.Fresh

namespace Catalog

variable {c d : Catalog} {e : Entry} {es : List Entry} {k : Kind} {id : ObjectId}

/-- What a statement asks for: other columns of a table of the catalog, or any other changes, among
them new objects that are numbered from the counter on. -/
inductive Plan (c : Catalog) : List Entry → Prop where
  | addColumns {s : Schema} {t : Table} {columns : List Column} (hs : s ∈ c.schemas)
      (ht : t ∈ s.tables) : Plan c [.newColumns t.id columns]
  | dropColumns {s : Schema} {t : Table} {names : List String} (hs : s ∈ c.schemas)
      (ht : t ∈ s.tables) : Plan c [.dropColumns t.id names]
  | alterColumn {s : Schema} {t : Table} {origin target : Column} (hs : s ∈ c.schemas)
      (ht : t ∈ s.tables) (found : t.column? target.name = some origin)
      (allowed : Check.columnChange origin target (t.isKeyColumn target.name) = .ok ()) :
      Plan c [.alterColumn t.id target]
  | others {es : List Entry} (fresh : ∀ e ∈ es, e.Fresh c.counter) : Plan c es

namespace Plan

/-- A single entry that neither adds an object nor gives a table other columns. -/
lemma single (columns : e.revises = false) (none : e.created? = none) : c.Plan [e] :=
  .others (List.forall_mem_singleton.2 (.of_none columns none))

/-- A new object, numbered by the counter, and the number that is taken for it. -/
lemma create (columns : e.revises = false) (created : e.created? = some (k, c.counter)) :
    c.Plan [e, .takeIds 1] :=
  .others (List.forall_mem_cons.2 ⟨.of_created columns created (Nat.le_refl _),
    List.forall_mem_singleton.2 (.of_none rfl rfl)⟩)

lemma fresh (h : c.Plan es) (he : e ∈ es) (created : e.created? = some (k, id)) :
    c.counter ≤ id := by
  cases h with
  | others fresh => exact (fresh e he).ids k id created
  | _ =>
    rw [List.mem_singleton.1 he] at created
    cases created

end Plan

end Catalog

/-- The entries of a statement by what they ask for. -/
lemma Statement.plan {st : Statement} {c : Catalog} {es : List Entry} (h : st.entries c = .ok es) :
    c.Plan es := by
  cases accepted_of_ok h with
  | @createTable p s z i _ _ _ _ _ next =>
    have le : c.counter.val ≤ i.val := by
      rw [Word32.val_of_ofNat? next]
      exact Nat.le_succ _
    -- The table and its index are new, and the last entry takes their numbers.
    refine .others (List.forall_mem_cons.2 ⟨.of_created rfl rfl (Nat.le_refl _), ?_⟩)
    refine List.forall_mem_cons.2 ⟨.of_created rfl rfl le, ?_⟩
    exact List.forall_mem_singleton.2 (.of_none rfl rfl)
  | dropTable =>
    refine .others fun e he => ?_
    rcases List.mem_append.1 he with he | he
    · obtain ⟨i, -, rfl⟩ := List.mem_map.1 he
      exact .of_none rfl rfl
    · rw [List.mem_singleton.1 he]
      exact .of_none rfl rfl
  | addColumns hs ht =>
    exact .addColumns (List.mem_of_find?_eq_some hs) (List.mem_of_find?_eq_some ht)
  | dropColumns hs ht =>
    exact .dropColumns (List.mem_of_find?_eq_some hs) (List.mem_of_find?_eq_some ht)
  | sameColumn => exact .others (List.forall_mem_nil _)
  | alterColumn hs ht ho other allowed =>
    obtain ⟨found, -, e⟩ := Check.of_column (Check.column_eq_ok.2 ho)
    rw [← e] at found
    exact .alterColumn (List.mem_of_find?_eq_some hs) (List.mem_of_find?_eq_some ht) found allowed
  | createHashIndex => exact .create rfl rfl
  | createSortedIndex => exact .create rfl rfl
  | dropIndex => exact .single rfl rfl
  | createZone => exact .create rfl rfl
  | alterZone => exact .single rfl rfl
  | renameZone => exact .single rfl rfl
  | dropZone => exact .single rfl rfl

namespace Catalog

variable {b c d : Catalog} {i : Index} {k k' : Kind} {id : ObjectId}

/-- A statement leaves the indexes as they are that it does not drop. -/
lemma Becomes.indexes (h : c.Becomes d) (hi : i ∈ d.indexes) :
    i ∈ c.indexes ∨ c.counter ≤ i.id := by
  cases h with
  | intro v a entries applied =>
    rcases applyEntries_indexes applied hi with hi | hi
    · exact .inl hi
    · exact .inr ((Statement.plan entries).fresh hi rfl)

/-! ## The counter between old and new numbers -/

/-- A catalog and a later one. The counter has not gone back in between, and every object of the
later catalog that the first one does not have is numbered from its counter on. -/
structure Draws (c d : Catalog) : Prop where
  counter : c.counter ≤ d.counter
  fresh : ∀ k, ∀ id ∈ d.idsOf k, id ∈ c.idsOf k ∨ c.counter ≤ id

namespace Draws

lemma refl (c : Catalog) : c.Draws c := ⟨Nat.le_refl _, fun _ _ h => .inl h⟩

lemma trans (h : b.Draws c) (h' : c.Draws d) : b.Draws d := by
  refine ⟨Nat.le_trans h.counter h'.counter, fun k id hid => ?_⟩
  rcases h'.fresh k id hid with hid | le
  · exact h.fresh k id hid
  · exact .inr (Nat.le_trans h.counter le)

/-- What was numbered before was there before. -/
lemma of_lt (h : c.Draws d) (hid : id ∈ d.idsOf k) (lt : id < c.counter) : id ∈ c.idsOf k := by
  rcases h.fresh k id hid with hid | le
  · exact hid
  · exact absurd lt (Nat.not_lt.2 le)

/-- What was not there before has a number that the counter gave since. -/
lemma new (h : c.Draws d) (wf : d.WellFormed) (hd : id ∈ d.idsOf k) (hc : id ∉ c.idsOf k) :
    c.counter ≤ id ∧ id < d.counter :=
  ⟨(h.fresh k id hd).resolve_left hc, wf.lt_counter hd⟩

/-- A number stands for objects of one kind only. -/
lemma kind (h : c.Draws d) (wf : c.WellFormed) (hc : id ∈ c.idsOf k) (hd : id ∈ d.idsOf k') :
    k = k' :=
  wf.kind_unique hc (h.of_lt hd (wf.lt_counter hc))

/-- What has gone does not come back. -/
lemma gone (h : b.Draws c) (h' : c.Draws d) (wf : b.WellFormed) (hb : id ∈ b.ids)
    (hc : id ∉ c.ids) : id ∉ d.ids := by
  intro hd
  obtain ⟨k, hd⟩ := mem_ids_iff.1 hd
  have lt : id < c.counter := Nat.lt_of_lt_of_le (wf.below id hb) h.counter
  exact hc (mem_ids_iff.2 ⟨k, h'.of_lt hd lt⟩)

end Draws

/-- A statement numbers what is new from the counter on. -/
lemma Becomes.draws (h : c.Becomes d) : c.Draws d := by
  cases h with
  | intro v a entries applied =>
    constructor
    case counter =>
      rw [Fin.le_def, stamp, applyEntries_counter applied]
      exact Nat.le_add_right _ _
    case fresh =>
      intro k id hid
      rw [idsOf_stamp] at hid
      rcases applyEntries_ids applied hid with hid | ⟨e, he, created⟩
      · exact .inl hid
      · exact .inr ((Statement.plan entries).fresh he created)

end Catalog

end SchemaCatalog
