import Mathlib.Data.List.Find
import Mathlib.Data.List.Nodup
import Mathlib.Data.List.Pairwise
import Mathlib.Data.List.Perm.Subperm
import Mathlib.Tactic.ByContra
import SchemaCatalog.Proofs.NatMap
import SchemaCatalog.Update.Fold

/-!
# Finding and replacing by number

An entry names what it changes by its number, and the fold looks that up in the lists and maps of a
catalog and rewrites whole lists by number again. Where no number occurs twice (`Catalog.Keyed`),
each lookup finds the one object that has the number and each rewriting changes a single place of
its list. So an entry comes down to one schema that takes the place of another (`Catalog.put`), or
to another list of zones.
-/

namespace SchemaCatalog

/-! ## Lists without repeated keys -/

section

variable {α β : Type} {k : α → β} {l l' : List α} {a b : α}

/-- The second list is the first one with `b` in the place of one `a`. -/
def Replaces (a b : α) (l l' : List α) : Prop := ∃ l₁ l₂, l = l₁ ++ a :: l₂ ∧ l' = l₁ ++ b :: l₂

/-- The second list is the first one without one `a`. -/
def Removes (a : α) (l l' : List α) : Prop := ∃ l₁ l₂, l = l₁ ++ a :: l₂ ∧ l' = l₁ ++ l₂

/-- What has a key in a list without repeated keys is at one place only. -/
lemma exists_place (hn : (l.map k).Nodup) (ha : a ∈ l) :
    ∃ l₁ l₂, l = l₁ ++ a :: l₂ ∧ (∀ u ∈ l₁, k u ≠ k a) ∧ ∀ u ∈ l₂, k u ≠ k a := by
  obtain ⟨l₁, l₂, rfl⟩ := List.append_of_mem ha
  rw [List.map_append, List.map_cons] at hn
  obtain ⟨-, h₂, disjoint⟩ := List.nodup_append.1 hn
  obtain ⟨notin, -⟩ := List.nodup_cons.1 h₂
  refine ⟨l₁, l₂, rfl, fun u hu => ?_, fun u hu e => notin (e ▸ List.mem_map_of_mem hu)⟩
  exact disjoint _ (List.mem_map_of_mem hu) _ (List.mem_cons_self ..)

/-- The only one there is gives way. -/
lemma Replaces.singleton {x : α} (h : Replaces a b [x] l') : l' = [b] := by
  obtain ⟨l₁, l₂, before, rfl⟩ := h
  cases l₁ with
  | nil =>
    cases before
    rfl
  | cons y l₁ => simp at before

lemma Replaces.refl (ha : a ∈ l) : Replaces a a l l := by
  obtain ⟨l₁, l₂, hl⟩ := List.append_of_mem ha
  exact ⟨l₁, l₂, hl, hl⟩

lemma subperm_concat (k : α → β) (l : List α) (a : α) :
    ((l ++ [a]).map k).Subperm ([k a] ++ l.map k) := by
  rw [List.map_append]
  exact List.perm_append_comm.subperm

variable [DecidableEq β]

/-- A search by a key finds the only member that has it. -/
lemma find?_of_unique (ha : a ∈ l) (hu : ∀ b ∈ l, k b = k a → b = a) :
    l.find? (fun b => k b = k a) = some a := by
  have found : (l.find? fun b => k b = k a).isSome := List.find?_isSome.2 ⟨a, ha, by simp⟩
  obtain ⟨b, hb⟩ := Option.isSome_iff_exists.1 found
  have e : k b = k a := by simpa using List.find?_some hb
  rw [hb, hu b (List.mem_of_find?_eq_some hb) e]

/-- A search by a key that is in the list once finds what has that key. -/
lemma find?_of_nodup (hn : (l.map k).Nodup) (ha : a ∈ l) :
    l.find? (fun b => k b = k a) = some a :=
  find?_of_unique ha fun _ hb e => List.inj_on_of_nodup_map hn hb ha e

lemma replaces_of_nodup (hn : (l.map k).Nodup) (ha : a ∈ l) (e : k b = k a) :
    Replaces a b l (l.map fun u => if k u = k b then b else u) := by
  obtain ⟨l₁, l₂, rfl, h₁, h₂⟩ := exists_place hn ha
  have keep : ∀ r : List α, (∀ u ∈ r, k u ≠ k a) →
      r.map (fun u => if k u = k b then b else u) = r := by
    intro r hr
    refine (List.map_congr_left fun u hu => ?_).trans (List.map_id r)
    exact if_neg fun eu => hr u hu (eu.trans e)
  refine ⟨l₁, l₂, rfl, ?_⟩
  rw [List.map_append, List.map_cons, if_pos e.symm, keep l₁ h₁, keep l₂ h₂]

lemma removes_of_nodup (hn : (l.map k).Nodup) (ha : a ∈ l) :
    Removes a l (l.filter fun u => k u ≠ k a) := by
  obtain ⟨l₁, l₂, rfl, h₁, h₂⟩ := exists_place hn ha
  have keep : ∀ r : List α, (∀ u ∈ r, k u ≠ k a) → r.filter (fun u => k u ≠ k a) = r :=
    fun r hr => List.filter_eq_self.2 fun u hu => by simpa using hr u hu
  refine ⟨l₁, l₂, rfl, ?_⟩
  rw [List.filter_append, List.filter_cons_of_neg (by simp), keep l₁ h₁, keep l₂ h₂]

lemma mem_replace {u : α} (hu : u ∈ l.map fun u => if k u = k b then b else u) :
    u = b ∨ u ∈ l ∧ k u ≠ k b := by
  obtain ⟨v, hv, rfl⟩ := List.mem_map.1 hu
  split
  · exact .inl rfl
  · rename_i ne
    exact .inr ⟨hv, ne⟩

/-- Of two replacements under one key the second remains. -/
lemma replace_replace (l : List α) (e : k b = k a) :
    (l.map fun u => if k u = k a then a else u).map (fun u => if k u = k b then b else u) =
      l.map fun u => if k u = k b then b else u := by
  rw [List.map_map]
  refine List.map_congr_left fun u _ => ?_
  simp only [Function.comp_apply]
  by_cases eu : k u = k a
  · rw [if_pos eu, if_pos e.symm, if_pos (eu.trans e.symm)]
  · rw [if_neg eu]

lemma replace_self (hn : (l.map k).Nodup) (ha : a ∈ l) :
    l.map (fun u => if k u = k a then a else u) = l := by
  obtain ⟨l₁, l₂, hl, hl'⟩ := replaces_of_nodup hn ha rfl
  exact hl'.trans hl.symm

/-- A replacement that keeps something of what it replaces keeps it of all. -/
lemma map_replace {γ : Type} {g : α → γ} (hn : (l.map k).Nodup) (ha : a ∈ l) (e : k b = k a)
    (eg : g b = g a) : (l.map fun u => if k u = k b then b else u).map g = l.map g := by
  rw [List.map_map]
  refine List.map_congr_left fun u hu => ?_
  simp only [Function.comp_apply]
  split
  · rename_i eu
    rw [List.inj_on_of_nodup_map hn hu ha (eu.trans e), eg]
  · rfl

/-- A search by something else than the key finds the replacement where it found what is replaced, as
both have what is searched for. -/
lemma find?_replace {γ : Type} [DecidableEq γ] {g : α → γ} {n : γ} (hn : (l.map k).Nodup)
    (ha : l.find? (fun u => g u = n) = some a) (e : k b = k a) (eg : g b = g a) :
    (l.map fun u => if k u = k b then b else u).find? (fun u => g u = n) = some b := by
  have mem := List.mem_of_find?_eq_some ha
  have same : l.find? ((fun u => decide (g u = n)) ∘ fun u => if k u = k b then b else u) =
      l.find? fun u => g u = n := by
    refine List.find?_congr fun u hu => ?_
    simp only [Function.comp_apply]
    split
    · rename_i eu
      rw [List.inj_on_of_nodup_map hn hu mem (eu.trans e), eg]
    · rfl
  rw [List.find?_map, same, ha, Option.map_some, if_pos e.symm]

end

namespace Catalog

/-- A catalog in which no number occurs twice. The maps are the ones of the lists, schemas are told
apart by their numbers, and tables state the schema that they are in. -/
structure Keyed (c : Catalog) : Prop where
  tablesById : c.tablesById = NatMap.ofList (c.tables.map fun t => (t.id.val, t))
  indexesById : c.indexesById = NatMap.ofList (c.indexes.map fun i => (i.id.val, i))
  schemaIds : (c.schemas.map Schema.id).Nodup
  tableIds : (c.tables.map Table.id).Nodup
  indexIds : (c.indexes.map Index.id).Nodup
  schemaId : ∀ s ∈ c.schemas, ∀ t ∈ s.tables, t.schemaId = s.id

/-- The catalog with a schema in the place of the one of its number. -/
def put (c : Catalog) (s : Schema) : Catalog :=
  ofParts c.version c.activation c.counter c.zones
    (c.schemas.map fun r => if r.id = s.id then s else r)

variable {c : Catalog} {s s' r : Schema} {t u : Table} {i : Index} {z : Zone}

lemma map_tables (c : Catalog) :
    c.tables.map Table.id = c.schemas.flatMap fun s => s.tables.map Table.id :=
  List.map_flatMap ..

lemma map_indexes (c : Catalog) :
    c.indexes.map Index.id = c.schemas.flatMap fun s => s.indexes.map Index.id :=
  List.map_flatMap ..

/-! ## Lookups -/

namespace Keyed

lemma tableIds_of_mem (h : c.Keyed) (hs : s ∈ c.schemas) : (s.tables.map Table.id).Nodup := by
  have distinct := h.tableIds
  rw [map_tables] at distinct
  exact (List.nodup_flatMap.1 distinct).1 s hs

lemma indexIds_of_mem (h : c.Keyed) (hs : s ∈ c.schemas) : (s.indexes.map Index.id).Nodup := by
  have distinct := h.indexIds
  rw [map_indexes] at distinct
  exact (List.nodup_flatMap.1 distinct).1 s hs

lemma schemaOfId? (h : c.Keyed) (hs : s ∈ c.schemas) : c.schemaOfId? s.id = some s :=
  find?_of_nodup h.schemaIds hs

lemma existingTable (h : c.Keyed) (hs : s ∈ c.schemas) (ht : t ∈ s.tables) :
    c.existingTable t.id = .ok t := by
  have mem : t ∈ c.tables := List.mem_flatMap.2 ⟨s, hs, ht⟩
  have keys : ((c.tables.map fun t => (t.id.val, t)).map Prod.fst).Nodup := by
    rw [List.map_map]
    have e : c.tables.map (Prod.fst ∘ fun t => (t.id.val, t)) =
        (c.tables.map Table.id).map Fin.val := by
      rw [List.map_map]
      rfl
    rw [e]
    exact h.tableIds.map fun _ _ => Fin.ext
  have found : c.tableOfId? t.id = some t := by
    rw [tableOfId?, h.tablesById, NatMap.get?_ofList keys]
    exact List.mem_map.2 ⟨t, mem, rfl⟩
  rw [Catalog.existingTable, found]

lemma schemaOfTable (h : c.Keyed) (hs : s ∈ c.schemas) (ht : t ∈ s.tables) :
    c.schemaOfTable t.id = .ok s := by
  have schema := h.schemaOfId? hs
  rw [← h.schemaId s hs t ht] at schema
  simp only [Catalog.schemaOfTable, h.existingTable hs ht, bind, Except.bind, schema]

/-- No index is in two schemas. -/
lemma schema_unique (h : c.Keyed) (hs : s ∈ c.schemas) (hr : r ∈ c.schemas) {id : ObjectId}
    (his : id ∈ s.indexes.map Index.id) (hir : id ∈ r.indexes.map Index.id) : r = s := by
  have distinct := h.indexIds
  rw [map_indexes] at distinct
  obtain ⟨-, disjoint⟩ := List.nodup_flatMap.1 distinct
  have symm : Std.Symm
      (Function.onFun List.Disjoint fun s : Schema => s.indexes.map Index.id) :=
    ⟨fun _ _ hd id hr hs => hd hs hr⟩
  by_contra ne
  exact disjoint.forall hr hs ne hir his

lemma schemaOfIndex (h : c.Keyed) (hs : s ∈ c.schemas) (hi : i ∈ s.indexes) :
    c.schemaOfIndex i.id = .ok s := by
  have holds : (s.indexOfId? i.id).isSome := by
    rw [Schema.indexOfId?, List.find?_isSome]
    exact ⟨i, hi, by simp⟩
  have found : (c.schemas.find? fun s => (s.indexOfId? i.id).isSome).isSome :=
    List.find?_isSome.2 ⟨s, hs, holds⟩
  obtain ⟨r, hr⟩ := Option.isSome_iff_exists.1 found
  have hir := List.find?_some hr
  rw [Schema.indexOfId?, List.find?_isSome] at hir
  obtain ⟨j, hj, e⟩ := hir
  have e : j.id = i.id := by simpa using e
  have same : r = s := by
    refine h.schema_unique hs (List.mem_of_find?_eq_some hr) (List.mem_map_of_mem hi) ?_
    rw [← e]
    exact List.mem_map_of_mem hj
  rw [Catalog.schemaOfIndex, hr, same]

end Keyed

/-! ## A schema in the place of another one -/

/-- One schema is replaced, and the others stay where they are. -/
lemma put_schemas (h : (c.schemas.map Schema.id).Nodup) (hs : s ∈ c.schemas) (e : s'.id = s.id) :
    Replaces s s' c.schemas (c.put s').schemas :=
  replaces_of_nodup h hs e

lemma mem_put (hr : r ∈ (c.put s).schemas) : r = s ∨ r ∈ c.schemas ∧ r.id ≠ s.id :=
  mem_replace hr

lemma mem_put_self (h : (c.schemas.map Schema.id).Nodup) (hs : s ∈ c.schemas)
    (e : s'.id = s.id) : s' ∈ (c.put s').schemas := by
  obtain ⟨l₁, l₂, -, hl'⟩ := put_schemas h hs e
  rw [hl']
  exact List.mem_append_right _ (List.mem_cons_self ..)

/-- Of two schemas that are put in one place the second remains. -/
lemma put_put (c : Catalog) (s s' : Schema) (e : s'.id = s.id) : (c.put s).put s' = c.put s' :=
  congrArg (ofParts c.version c.activation c.counter c.zones) (replace_replace c.schemas e)

/-- A schema of the same name is found where the one was that it replaces. -/
lemma put_schema? {name : String} (h : (c.schemas.map Schema.id).Nodup)
    (hs : c.schema? name = some s) (e : s'.id = s.id) (en : s'.name = s.name) :
    (c.put s').schema? name = some s' :=
  find?_replace h hs e en

/-- What schemas hold stays the same but for what the new one holds, and what is new in it. -/
lemma subperm_put {α : Type} {g : Schema → List α} {new : List α}
    (h : (c.schemas.map Schema.id).Nodup) (hs : s ∈ c.schemas) (e : s'.id = s.id)
    (hg : (g s').Subperm (new ++ g s)) :
    ((c.put s').schemas.flatMap g).Subperm (new ++ c.schemas.flatMap g) := by
  obtain ⟨l₁, l₂, hl, hl'⟩ := put_schemas h hs e
  rw [hl, hl']
  simp only [List.flatMap_append, List.flatMap_cons]
  refine List.Subperm.trans ?_ (List.perm_append_comm_assoc _ _ _).subperm
  rw [List.subperm_append_left, ← List.append_assoc, List.subperm_append_right]
  exact hg

lemma nodup_put {α : Type} {g : Schema → List α} {new : List α}
    (h : (c.schemas.map Schema.id).Nodup) (hs : s ∈ c.schemas) (e : s'.id = s.id)
    (hg : (g s').Subperm (new ++ g s)) (hn : (new ++ c.schemas.flatMap g).Nodup) :
    ((c.put s').schemas.flatMap g).Nodup := by
  obtain ⟨l, hp, hl⟩ := subperm_put h hs e hg
  exact hp.nodup_iff.1 (List.Nodup.sublist hl hn)

namespace Keyed

/-- A schema changes, with new numbers that no other object of the kind has. -/
lemma put (h : c.Keyed) (newTables newIndexes : List ObjectId) (hs : s ∈ c.schemas)
    (e : s'.id = s.id) (schemaId : ∀ t ∈ s'.tables, t.schemaId = s'.id)
    (tables : (s'.tables.map Table.id).Subperm (newTables ++ s.tables.map Table.id))
    (freshTables : (newTables ++ c.tables.map Table.id).Nodup)
    (indexes : (s'.indexes.map Index.id).Subperm (newIndexes ++ s.indexes.map Index.id))
    (freshIndexes : (newIndexes ++ c.indexes.map Index.id).Nodup) : (c.put s').Keyed where
  tablesById := rfl
  indexesById := rfl
  schemaIds := by
    obtain ⟨l₁, l₂, hl, hl'⟩ := put_schemas h.schemaIds hs e
    have same := h.schemaIds
    rw [hl, List.map_append, List.map_cons] at same
    rw [hl', List.map_append, List.map_cons, e]
    exact same
  tableIds := by
    rw [map_tables] at freshTables ⊢
    exact nodup_put h.schemaIds hs e tables freshTables
  indexIds := by
    rw [map_indexes] at freshIndexes ⊢
    exact nodup_put h.schemaIds hs e indexes freshIndexes
  schemaId r hr := by
    rcases mem_put hr with rfl | ⟨hr, -⟩
    · exact schemaId
    · exact h.schemaId r hr

/-- A table is added alone, or with an index. -/
lemma addTable (h : c.Keyed) (hs : s ∈ c.schemas) (e : t.schemaId = s.id)
    (fresh : t.id ∉ c.tables.map Table.id) : (c.put (s.addTable t)).Keyed ∧
      (i.id ∉ c.indexes.map Index.id → (c.put ((s.addTable t).addIndex i)).Keyed) := by
  have schemaId : ∀ u ∈ (s.addTable t).tables, u.schemaId = s.id := by
    intro u hu
    rcases List.mem_append.1 hu with hu | hu
    · exact h.schemaId s hs u hu
    · rw [List.mem_singleton.1 hu]
      exact e
  have tables := List.nodup_cons.2 ⟨fresh, h.tableIds⟩
  constructor
  · exact h.put [t.id] [] hs rfl schemaId (subperm_concat ..) tables (List.Subperm.refl _) h.indexIds
  · intro new
    exact h.put [t.id] [i.id] hs rfl schemaId (subperm_concat ..) tables (subperm_concat ..)
      (List.nodup_cons.2 ⟨new, h.indexIds⟩)

lemma addIndex (h : c.Keyed) (hs : s ∈ c.schemas) (fresh : i.id ∉ c.indexes.map Index.id) :
    (c.put (s.addIndex i)).Keyed :=
  h.put [] [i.id] hs rfl (h.schemaId s hs) (List.Subperm.refl _) h.tableIds (subperm_concat ..)
    (List.nodup_cons.2 ⟨fresh, h.indexIds⟩)

/-- A table gets other columns. -/
lemma withColumns (h : c.Keyed) (hs : s ∈ c.schemas) (ht : t ∈ s.tables)
    (columns : List Column) :
    (c.put (s.replaceTable (t.withColumns columns))).Keyed := by
  refine h.put [] [] hs rfl ?_ ?_ h.tableIds (List.Subperm.refl _) h.indexIds
  · intro u hu
    rcases mem_replace hu with rfl | ⟨hu, -⟩
    · exact h.schemaId s hs t ht
    · exact h.schemaId s hs u hu
  · have same : (s.replaceTable (t.withColumns columns)).tables.map Table.id =
        s.tables.map Table.id :=
      map_replace (h.tableIds_of_mem hs) ht rfl rfl
    rw [same]
    exact List.Subperm.refl _

lemma removeIndex (h : c.Keyed) (hs : s ∈ c.schemas) (id : ObjectId) :
    (c.put (s.removeIndex id)).Keyed :=
  h.put [] [] hs rfl (h.schemaId s hs) (List.Subperm.refl _)
    h.tableIds (List.filter_sublist.map _).subperm h.indexIds

/-- Nothing is lost with the maps. -/
lemma eq_ofParts (h : c.Keyed) :
    c = ofParts c.version c.activation c.counter c.zones c.schemas := by
  obtain ⟨v, a, k, zones, schemas, tables, indexes⟩ := c
  have tables := h.tablesById
  have indexes := h.indexesById
  dsimp only at tables indexes
  rw [tables, indexes]
  rfl

lemma withZones_eq (h : c.Keyed) (zones : List Zone) :
    c.withZones zones = ofParts c.version c.activation c.counter zones c.schemas :=
  congrArg (Catalog.withZones · zones) h.eq_ofParts

lemma put_self (h : c.Keyed) (hs : s ∈ c.schemas) : c.put s = c := by
  rw [Catalog.put, replace_self h.schemaIds hs]
  exact h.eq_ofParts.symm

end Keyed

/-! ## Single entries -/

lemma applyEntries_cons {d : Catalog} {e : Entry} (h : c.applyEntry e = .ok d) (es : List Entry) :
    c.applyEntries (e :: es) = d.applyEntries es := by
  rw [applyEntries, h]
  rfl

lemma applyEntries_takeIds (c : Catalog) (delta : ObjectId)
    (room : c.counter.val + delta.val < 4_294_967_296) :
    ∃ k : ObjectId, k.val = c.counter.val + delta.val ∧
      c.applyEntries [.takeIds delta] = .ok (c.withCounter k) := by
  have taken : Word32.ofNat? (c.counter.val + delta.val) = some ⟨_, room⟩ := dif_pos room
  refine ⟨⟨_, room⟩, rfl, ?_⟩
  rw [applyEntries, applyEntry, taken]
  rfl

lemma requireZone_ok (hz : z ∈ c.zones) : c.requireZone z.id = .ok () := by
  have found : (c.zoneOfId? z.id).isSome := by
    rw [zoneOfId?, List.find?_isSome]
    exact ⟨z, hz, by simp⟩
  exact if_pos found

namespace Keyed

lemma withSchema (h : c.Keyed) (hs : s ∈ c.schemas) (e : s'.id = s.id) :
    c.withSchema s' = .ok (c.put s') := by
  have found : (c.schemaOfId? s'.id).isSome := by
    rw [e, h.schemaOfId? hs]
    rfl
  exact if_pos found

lemma newTable (h : c.Keyed) (hs : s ∈ c.schemas) (e : t.schemaId = s.id) :
    c.applyEntry (.newTable t) = .ok (c.put (s.addTable t)) := by
  rw [applyEntry, e, h.schemaOfId? hs]
  exact h.withSchema hs rfl

lemma dropTable (h : c.Keyed) (hs : s ∈ c.schemas) (ht : t ∈ s.tables) :
    c.applyEntry (.dropTable t.id) = .ok (c.put (s.removeTable t.id)) := by
  rw [applyEntry, h.schemaOfTable hs ht]
  exact h.withSchema hs rfl

lemma newIndex (h : c.Keyed) (hs : s ∈ c.schemas) (ht : t ∈ s.tables) (e : i.tableId = t.id) :
    c.applyEntry (.newIndex i) = .ok (c.put (s.addIndex i)) := by
  rw [applyEntry, e, h.schemaOfTable hs ht]
  exact h.withSchema hs rfl

lemma dropIndex (h : c.Keyed) (hs : s ∈ c.schemas) (hi : i ∈ s.indexes) (tableId : ObjectId) :
    c.applyEntry (.dropIndex i.id tableId) = .ok (c.put (s.removeIndex i.id)) := by
  rw [applyEntry, h.schemaOfIndex hs hi]
  exact h.withSchema hs rfl

/-- A table takes the place of the one of its number. -/
lemma replaceTable (h : c.Keyed) (hs : s ∈ c.schemas) (ht : t ∈ s.tables) (e : u.id = t.id) :
    c.replaceTable u = .ok (c.put (s.replaceTable u)) := by
  rw [Catalog.replaceTable, e, h.schemaOfTable hs ht]
  exact h.withSchema hs rfl

lemma newColumns (h : c.Keyed) (hs : s ∈ c.schemas) (ht : t ∈ s.tables) (columns : List Column) :
    c.applyEntry (.newColumns t.id columns) =
      .ok (c.put (s.replaceTable (t.withColumns (t.columns ++ columns)))) := by
  rw [applyEntry, h.existingTable hs ht]
  exact h.replaceTable hs ht rfl

lemma dropColumns (h : c.Keyed) (hs : s ∈ c.schemas) (ht : t ∈ s.tables) (names : List String) :
    c.applyEntry (.dropColumns t.id names) = .ok (c.put (s.replaceTable
      (t.withColumns (t.columns.filter fun col => !names.contains col.name)))) := by
  rw [applyEntry, h.existingTable hs ht]
  exact h.replaceTable hs ht rfl

lemma alterColumn (h : c.Keyed) (hs : s ∈ c.schemas) (ht : t ∈ s.tables) {column : Column}
    (found : (t.column? column.name).isSome) :
    c.applyEntry (.alterColumn t.id column) = .ok (c.put (s.replaceTable
      (t.withColumns
        (t.columns.map fun col => if col.name = column.name then column else col)))) := by
  rw [applyEntry, h.existingTable hs ht]
  exact (if_pos found).trans (h.replaceTable hs ht rfl)

end Keyed

end Catalog

end SchemaCatalog
