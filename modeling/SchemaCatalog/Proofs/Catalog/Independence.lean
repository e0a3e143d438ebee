import SchemaCatalog.Proofs.Catalog.InPlace
import SchemaCatalog.Proofs.Catalog.References
import SchemaCatalog.Proofs.Snapshot

/-!
# Statements that do not meet

Of two statements that change different things in place, or drop different tables, neither stands in
the way of the other, and it does not matter which comes first. What such a statement does is a
change of the members of one number in a list (`Change`), made by a function of what is there. Two
of these commute where the numbers differ, or the functions commute; and as no change touches a
name, each statement finds after the other one what it finds before it.
-/

namespace SchemaCatalog

/-! ## Changes of the members of a key -/

section

variable {α β : Type} [DecidableEq β] {k : α → β} {n m : β} {f g : α → α} {l : List α} {a : α}

/-- The list with the members of one key changed. -/
def alterAt (k : α → β) (n : β) (f : α → α) (l : List α) : List α :=
  l.map fun a => if k a = n then f a else a

/-- Changes under different keys commute, and so do changes under one key that commute. -/
lemma alterAt_comm (hf : ∀ a, k a = n → k (f a) = n) (hg : ∀ a, k a = m → k (g a) = m)
    (comm : n = m → ∀ a, f (g a) = g (f a)) :
    alterAt k n f (alterAt k m g l) = alterAt k m g (alterAt k n f l) := by
  rw [alterAt, alterAt, alterAt, alterAt, List.map_map, List.map_map]
  refine List.map_congr_left fun a _ => ?_
  simp only [Function.comp_apply]
  by_cases en : k a = n <;> by_cases em : k a = m
  · rw [if_pos en, if_pos em, if_pos ((hg a em).trans (em.symm.trans en)),
      if_pos ((hf a en).trans (en.symm.trans em)), comm (en.symm.trans em)]
  · have em' : k (f a) ≠ m := fun e => em (en.trans ((hf a en).symm.trans e))
    rw [if_pos en, if_neg em, if_pos en, if_neg em']
  · have en' : k (g a) ≠ n := fun e => en (em.trans ((hg a em).symm.trans e))
    rw [if_neg en, if_pos em, if_neg en']
  · rw [if_neg en, if_neg em, if_neg en]

/-- A search by what is not changed finds the changed member. -/
lemma find?_alterAt {p : α → Bool} (hf : ∀ a ∈ l, k a = n → p (f a) = p a) :
    (alterAt k n f l).find? p = (l.find? p).map fun a => if k a = n then f a else a := by
  rw [alterAt, List.find?_map]
  refine congrArg _ (List.find?_congr fun a ha => ?_)
  simp only [Function.comp_apply]
  split
  · rename_i e
    exact hf a ha e
  · rfl

/-- A member that takes the place of what it is made of. -/
lemma replace_eq_alterAt (hn : (l.map k).Nodup) (ha : a ∈ l) (hf : k (f a) = k a) :
    (l.map fun b => if k b = k (f a) then f a else b) = alterAt k (k a) f l := by
  refine List.map_congr_left fun b hb => ?_
  rw [hf]
  split
  · rename_i e
    rw [List.inj_on_of_nodup_map hn hb ha e]
  · rfl

/-- What is found and stays is found among what stays. -/
lemma find?_filter_of {p q : α → Bool} (found : l.find? p = some a) (stays : q a = true) :
    (l.filter q).find? p = some a := by
  induction l with
  | nil => cases found
  | cons b l ih =>
    rw [List.find?_cons] at found
    split at found
    · rename_i hb
      cases found
      rw [List.filter_cons_of_pos stays, List.find?_cons, hb]
    · rename_i hb
      by_cases kept : q b = true
      · rw [List.filter_cons_of_pos kept, List.find?_cons, hb]
        exact ih found
      · rw [List.filter_cons_of_neg kept]
        exact ih found

end

/-! ## Changes of a catalog -/

/-- The schema with a column changed in a table. -/
def Schema.alterColumn (s : Schema) (tableId : ObjectId) (column : Column) : Schema :=
  { s with tables := alterAt Table.id tableId (·.alterColumn column) s.tables }

/-- A place in a catalog, by the numbers that lead to it. -/
inductive Place where
  | column (tableId : ObjectId) (name : String)
  | table (tableId : ObjectId)
  | zone (zoneId : ObjectId)
  deriving Repr, DecidableEq

/-- The table of a column. -/
def Place.owner? : Place → Option Place
  | column tableId _ => some (table tableId)
  | _ => none

/-- One place is within another if it is that or a part of it. -/
def Place.Within (p p' : Place) : Prop := p = p' ∨ p.owner? = some p'

/-- A change of one thing in a catalog: a column or a zone gets another definition, or a table goes
with its indexes. A column may be left as it is. -/
inductive Change where
  | none (tableId : ObjectId) (column : String)
  | column (schemaId tableId : ObjectId) (column : Column)
  | table (schemaId tableId : ObjectId)
  | zone (zone : Zone)
  deriving Repr, DecidableEq

namespace Change

/-- Where a change is made. -/
def place : Change → Place
  | none tableId name => .column tableId name
  | column _ tableId col => .column tableId col.name
  | table _ tableId => .table tableId
  | zone z => .zone z.id

/-- Two changes of which neither is made within the place of the other. -/
def Apart (ch ch' : Change) : Prop := ¬ ch.place.Within ch'.place ∧ ¬ ch'.place.Within ch.place

/-- The zones after a change. -/
def zones : Change → List Zone → List Zone
  | zone z, l => alterAt Zone.id z.id (fun _ => z) l
  | _, l => l

/-- The schemas after a change. -/
def schemas : Change → List Schema → List Schema
  | column schemaId tableId col, l => alterAt Schema.id schemaId (·.alterColumn tableId col) l
  | table schemaId tableId, l => alterAt Schema.id schemaId (·.dropTable tableId) l
  | _, l => l

/-- The catalog after a change. -/
def on (ch : Change) (c : Catalog) : Catalog :=
  .ofParts c.version c.activation c.counter (ch.zones c.zones) (ch.schemas c.schemas)

lemma Apart.columns {i i' j j' : ObjectId} {a b : Column}
    (apart : (column i j a).Apart (column i' j' b)) : j = j' → a.name ≠ b.name := by
  intro e names
  refine apart.1 ?_
  rw [place, place, e, names]
  exact .inl rfl

lemma Apart.zones {z z' : Zone} (apart : (zone z).Apart (zone z')) : z.id ≠ z'.id := by
  intro e
  refine apart.1 ?_
  rw [place, place, e]
  exact .inl rfl

end Change

/-! ### Changes commute -/

lemma Table.alterColumn_comm {a b : Column} (ne : a.name ≠ b.name) (t : Table) :
    (t.alterColumn a).alterColumn b = (t.alterColumn b).alterColumn a := by
  have comm := alterAt_comm (k := Column.name) (f := fun _ => b) (g := fun _ => a) (n := b.name)
    (m := a.name) (l := t.columns) (fun _ _ => rfl) (fun _ _ => rfl) fun e => absurd e.symm ne
  exact congrArg t.withColumns comm

namespace Schema

lemma alterColumn_comm {i j : ObjectId} {a b : Column} (apart : i = j → a.name ≠ b.name)
    (s : Schema) :
    (s.alterColumn i a).alterColumn j b = (s.alterColumn j b).alterColumn i a := by
  have comm := alterAt_comm (k := Table.id) (f := (·.alterColumn b)) (g := (·.alterColumn a))
    (n := j) (m := i) (l := s.tables) (fun _ e => e) (fun _ e => e)
    fun e t => t.alterColumn_comm (apart e.symm)
  exact congrArg (fun tables => { s with tables := tables }) comm

lemma alterColumn_dropTable (i j : ObjectId) (a : Column) (s : Schema) :
    (s.alterColumn i a).dropTable j = (s.dropTable j).alterColumn i a := by
  have comm : (alterAt Table.id i (·.alterColumn a) s.tables).filter (fun t => t.id ≠ j) =
      alterAt Table.id i (·.alterColumn a) (s.tables.filter fun t => t.id ≠ j) := by
    rw [alterAt, alterAt, List.filter_map]
    refine congrArg (List.map _) (List.filter_congr fun t _ => ?_)
    simp only [Function.comp_apply]
    split <;> rfl
  exact congrArg (fun tables => { s with
    tables := tables, indexes := s.indexes.filter fun i => i.tableId ≠ j }) comm

lemma dropTable_comm (i j : ObjectId) (s : Schema) :
    (s.dropTable i).dropTable j = (s.dropTable j).dropTable i := by
  simp only [dropTable, List.filter_filter, Bool.and_comm]

end Schema

namespace Change

variable {ch ch' : Change}

lemma zones_comm (apart : ch.Apart ch') (l : List Zone) :
    ch.zones (ch'.zones l) = ch'.zones (ch.zones l) := by
  cases ch with
  | zone z =>
    cases ch' with
    | zone z' =>
      exact alterAt_comm (fun _ _ => rfl) (fun _ _ => rfl) fun e => absurd e apart.zones
    | _ => rfl
  | _ => rfl

lemma schemas_comm (apart : ch.Apart ch') (l : List Schema) :
    ch.schemas (ch'.schemas l) = ch'.schemas (ch.schemas l) := by
  cases ch with
  | column s i a =>
    cases ch' with
    | column s' j b =>
      exact alterAt_comm (fun _ e => e) (fun _ e => e) fun _ r =>
        r.alterColumn_comm fun e => (apart.columns e.symm).symm
    | table s' j =>
      exact alterAt_comm (fun _ e => e) (fun _ e => e) fun _ r =>
        (r.alterColumn_dropTable i j a).symm
    | _ => rfl
  | table s i =>
    cases ch' with
    | column s' j b =>
      exact alterAt_comm (fun _ e => e) (fun _ e => e) fun _ r => r.alterColumn_dropTable j i b
    | table s' j => exact alterAt_comm (fun _ e => e) (fun _ e => e) fun _ r => r.dropTable_comm j i
    | _ => rfl
  | _ => rfl

/-- Changes that do not meet may be made in either order. -/
lemma on_comm (apart : ch.Apart ch') (c : Catalog) : ch.on (ch'.on c) = ch'.on (ch.on c) :=
  congrArg₂ (Catalog.ofParts c.version c.activation c.counter) (zones_comm apart _)
    (schemas_comm apart _)

/-! ### What a change leaves alone -/

/-- A schema and a table in it as far as a change somewhere else leaves them alone. -/
structure Keeps (s s' : Schema) (t t' : Table) : Prop where
  schemaId : s'.id = s.id
  tableId : t'.id = t.id
  primaryKey : t'.primaryKey = t.primaryKey
  indexes : s'.indexesOf t.id = s.indexesOf t.id

variable {c : Catalog} {s : Schema} {t : Table} {schema name : String}

lemma find?_schemas {f : Schema → Schema} {i : ObjectId} (hf : ∀ r, (f r).name = r.name)
    {l : List Schema} (hs : l.find? (fun r => r.name = schema) = some s) :
    (alterAt Schema.id i f l).find? (fun r => r.name = schema) =
      some (if s.id = i then f s else s) := by
  rw [find?_alterAt fun r _ _ => by rw [hf], hs]
  rfl

/-- A table is found by its names after a change, unless it is dropped, and so are its columns,
except for one that is changed. -/
lemma table_kept (ch : Change) (hs : c.schema? schema = some s) (ht : s.table? name = some t)
    (stays : ∀ i, ch ≠ .table i t.id) :
    ∃ s' t', (ch.on c).schema? schema = some s' ∧ s'.table? name = some t' ∧ Keeps s s' t t' ∧
      ∀ n, (∀ i col, ch = .column i t.id col → n ≠ col.name) → t'.column? n = t.column? n := by
  cases ch with
  | none i n => exact ⟨s, t, hs, ht, ⟨rfl, rfl, rfl, rfl⟩, fun _ _ => rfl⟩
  | zone z => exact ⟨s, t, hs, ht, ⟨rfl, rfl, rfl, rfl⟩, fun _ _ => rfl⟩
  | column i j col =>
    have found := find?_schemas (f := (·.alterColumn j col)) (i := i) (fun _ => rfl) hs
    by_cases here : s.id = i
    · rw [if_pos here] at found
      -- The table is found by its name as before, whether or not it is the one that changes.
      have table : (s.alterColumn j col).table? name =
          some (if t.id = j then t.alterColumn col else t) := by
        have ht : s.tables.find? (fun u => u.name = name) = some t := ht
        have same := find?_alterAt (k := Table.id) (n := j) (f := (·.alterColumn col))
          (p := fun u => u.name = name) (l := s.tables) fun _ _ _ => rfl
        rw [ht] at same
        exact same
      by_cases same : t.id = j
      · rw [if_pos same] at table
        refine ⟨_, _, found, table, ⟨rfl, rfl, rfl, rfl⟩, fun n other => ?_⟩
        exact Table.column?_alterColumn_of_ne (other i col (same ▸ rfl))
      · rw [if_neg same] at table
        exact ⟨_, t, found, table, ⟨rfl, rfl, rfl, rfl⟩, fun _ _ => rfl⟩
    · rw [if_neg here] at found
      exact ⟨s, t, found, ht, ⟨rfl, rfl, rfl, rfl⟩, fun _ _ => rfl⟩
  | table i j =>
    have found := find?_schemas (f := (·.dropTable j)) (i := i) (fun _ => rfl) hs
    by_cases here : s.id = i
    · rw [if_pos here] at found
      have ne : t.id ≠ j := fun e => stays i (e ▸ rfl)
      have table : (s.dropTable j).table? name = some t := find?_filter_of ht (by simpa using ne)
      refine ⟨_, t, found, table, ⟨rfl, rfl, rfl, ?_⟩, fun _ _ => rfl⟩
      -- The indexes that go are those of the table that is dropped.
      rw [Schema.indexesOf, Schema.dropTable, List.filter_filter]
      refine List.filter_congr fun x _ => ?_
      by_cases on : x.tableId = t.id
      · simp [on, ne]
      · simp [on]
    · rw [if_neg here] at found
      exact ⟨s, t, found, ht, ⟨rfl, rfl, rfl, rfl⟩, fun _ _ => rfl⟩

/-- A zone is found by its name after a change of another one, which keeps its name. -/
lemma zone_kept {z y : Zone} (hz : (c.zones.map Zone.id).Nodup) (hy : y ∈ c.zones)
    (e : z.id = y.id) (en : z.name = y.name) {x : Zone} (hx : c.zone? name = some x)
    (ne : x.id ≠ z.id) : ((Change.zone z).on c).zone? name = some x := by
  have hx : c.zones.find? (fun x => x.name = name) = some x := hx
  show (alterAt Zone.id z.id (fun _ => z) c.zones).find? (fun x => x.name = name) = some x
  rw [find?_alterAt fun w hw ew => ?_, hx, Option.map_some, if_neg ne]
  rw [List.inj_on_of_nodup_map hz hw hy (ew.trans e), en]

end Change

/-! ## What statements do -/

/-- The table of a column. -/
def Reference.owner? : Reference → Option Reference
  | column s t _ => some (table s t)
  | _ => none

/-- One thing is within another if it is that or a part of it. -/
def Reference.Within (r r' : Reference) : Prop := r = r' ∨ r.owner? = some r'

/-- Two things of which neither is within the other. -/
def Reference.Apart (r r' : Reference) : Prop := ¬ r.Within r' ∧ ¬ r'.Within r

instance (r r' : Reference) : Decidable (r.Within r') :=
  inferInstanceAs (Decidable (r = r' ∨ r.owner? = some r'))

instance (r r' : Reference) : Decidable (r.Apart r') :=
  inferInstanceAs (Decidable (¬ r.Within r' ∧ ¬ r'.Within r))

/-- What a statement changes in place, or the table that it drops. Other statements have no such
target. -/
def Statement.target : Statement → Option Reference
  | alterColumn a => some (.column (a.schema.getD Schema.defaultName) a.table a.column)
  | alterZone name _ => some (.zone name)
  | dropTable schema table => some (.table (schema.getD Schema.defaultName) table)
  | _ => none

/-- A statement with a target is accepted on a catalog with these entries, and makes this change. -/
inductive Statement.Makes (c : Catalog) : Statement → List Entry → Change → Prop where
  | none {a : AlterColumn} {s : Schema} {t : Table} {origin : Column}
      (schema : c.schema? (a.schema.getD Schema.defaultName) = some s)
      (table : s.table? a.table = some t) (column : t.column? a.column = some origin)
      (same : a.over origin = origin) : Makes c (.alterColumn a) [] (.none t.id a.column)
  | column {a : AlterColumn} {s : Schema} {t : Table} {origin : Column}
      (schema : c.schema? (a.schema.getD Schema.defaultName) = some s)
      (table : s.table? a.table = some t) (column : t.column? a.column = some origin)
      (other : a.over origin ≠ origin)
      (allowed : Check.columnChange origin (a.over origin) (t.isKeyColumn origin.name) = .ok ()) :
      Makes c (.alterColumn a) [.alterColumn t.id (a.over origin)]
        (.column s.id t.id (a.over origin))
  | table {o : Option String} {name : String} {s : Schema} {t : Table}
      (schema : c.schema? (o.getD Schema.defaultName) = some s) (table : s.table? name = some t) :
      Makes c (.dropTable o name)
        ((s.indexesOf t.id).map (fun i => .dropIndex i.id i.tableId) ++ [.dropTable t.id])
        (.table s.id t.id)
  | zone {name : String} {p : ZoneSpec} {z : Zone} (blank : Check.zoneName name = .ok ())
      (zone : c.zone? name = some z) (valid : Check.zoneDefinition (p.over z) = .ok ()) :
      Makes c (.alterZone name p) [.alterZone (p.over z)] (.zone (p.over z))

namespace Catalog

variable {c : Catalog} {st st' : Statement} {es es' : List Entry} {ch ch' : Change}
  {r r' : Reference}

lemma makes_of_ok (target : st.target = some r) (h : st.entries c = .ok es) :
    ∃ ch, st.Makes c es ch := by
  cases Statement.accepted_of_ok h with
  | sameColumn hs ht ho same => exact ⟨_, .none hs ht ho same⟩
  | alterColumn hs ht ho other allowed => exact ⟨_, .column hs ht ho other allowed⟩
  | dropTable hs ht => exact ⟨_, .table hs ht⟩
  | alterZone blank hz valid => exact ⟨_, .zone blank hz valid⟩
  | _ => cases target

/-- What a statement makes it makes with these entries. -/
lemma entries_of_makes (h : st.Makes c es ch) : st.entries c = .ok es := by
  refine Statement.entries_eq_ok.2 ?_
  cases h with
  | none hs ht ho same => exact .sameColumn hs ht ho same
  | column hs ht ho other allowed => exact .alterColumn hs ht ho other allowed
  | table hs ht => exact .dropTable hs ht
  | zone blank hz valid => exact .alterZone blank hz valid

/-- The entries come to the change, which leaves no number in two places. -/
lemma Keyed.makes (h : c.Keyed) (hm : st.Makes c es ch) :
    c.applyEntries es = .ok (ch.on c) ∧ (ch.on c).Keyed := by
  cases hm with
  | @none a s t =>
    have same : (Change.none t.id a.column).on c = c := h.eq_ofParts.symm
    rw [same]
    exact ⟨rfl, h⟩
  | @column a s t origin hs ht ho =>
    have mem := List.mem_of_find?_eq_some hs
    have table := List.mem_of_find?_eq_some ht
    have named : (a.over origin).name = a.column := Table.name_of_column? (a := origin) ho
    have found : (t.column? (a.over origin).name).isSome := by
      rw [named, ho]
      rfl
    -- As numbers are distinct, to replace the table is to alter it where it is.
    have inSchema : s.replaceTable (t.alterColumn (a.over origin)) =
        s.alterColumn t.id (a.over origin) :=
      congrArg (fun tables => { s with tables := tables }) (replace_eq_alterAt
        (f := (·.alterColumn (a.over origin))) (h.tableIds_of_mem mem) table rfl)
    have whole : (Change.column s.id t.id (a.over origin)).on c =
        c.put (s.replaceTable (t.alterColumn (a.over origin))) := by
      rw [inSchema]
      exact (congrArg (ofParts c.version c.activation c.counter c.zones) (replace_eq_alterAt
        (f := (·.alterColumn t.id (a.over origin))) h.schemaIds mem rfl)).symm
    rw [whole]
    exact ⟨applyEntries_cons (h.alterColumn mem table found) [], h.withColumns mem table _⟩
  | @table o name s t hs ht =>
    have mem := List.mem_of_find?_eq_some hs
    have table := List.mem_of_find?_eq_some ht
    have whole : (Change.table s.id t.id).on c = c.put (s.dropTable t.id) :=
      (congrArg (ofParts c.version c.activation c.counter c.zones) (replace_eq_alterAt
        (f := fun r : Schema => r.dropTable t.id) h.schemaIds mem rfl)).symm
    rw [whole]
    refine ⟨h.fold_dropTable mem table, h.put [] [] mem rfl ?_ ?_ h.tableIds ?_ h.indexIds⟩
    · exact fun u hu => h.schemaId s mem u (List.mem_filter.1 hu).1
    · exact (List.filter_sublist.map _).subperm
    · exact (List.filter_sublist.map _).subperm
  | @zone name p z blank hz valid =>
    have applied := Entries.alterZone_ok (z := p.over z) (List.mem_of_find?_eq_some hz) rfl
    rw [h.withZones_eq] at applied
    exact ⟨applied, rfl, rfl, h.schemaIds, h.tableIds, h.indexIds, h.schemaId⟩

/-- One table is found by one name in one schema only. -/
lemma Keyed.names_eq {s s' : Schema} {t t' : Table} {schema schema' name name' : String}
    (h : c.Keyed) (hs : c.schema? schema = some s) (ht : s.table? name = some t)
    (hs' : c.schema? schema' = some s') (ht' : s'.table? name' = some t') (e : t.id = t'.id) :
    schema = schema' ∧ name = name' := by
  have mem := List.mem_of_find?_eq_some hs
  have table := List.mem_of_find?_eq_some ht
  have table' := List.mem_of_find?_eq_some ht'
  obtain rfl := h.schema_of_table mem (List.mem_of_find?_eq_some hs') table table' e.symm
  obtain rfl := List.inj_on_of_nodup_map (h.tableIds_of_mem mem) table table' e
  have schemaName : s'.name = schema := by simpa using List.find?_some hs
  have schemaName' : s'.name = schema' := by simpa using List.find?_some hs'
  have tableName : t.name = name := by simpa using List.find?_some ht
  have tableName' : t.name = name' := by simpa using List.find?_some ht'
  exact ⟨schemaName.symm.trans schemaName', tableName.symm.trans tableName'⟩

/-- What is named is at a place. -/
inductive Locates (c : Catalog) : Reference → Place → Prop where
  | column {schema table : String} {s : Schema} {t : Table} {i : ObjectId} (name : String)
      (found : c.schema? schema = some s) (holds : s.table? table = some t) (id : t.id = i) :
      Locates c (.column schema table name) (.column i name)
  | table {schema name : String} {s : Schema} {t : Table} {i : ObjectId}
      (found : c.schema? schema = some s) (holds : s.table? name = some t) (id : t.id = i) :
      Locates c (.table schema name) (.table i)
  | zone {name : String} {z : Zone} {i : ObjectId} (found : c.zone? name = some z) (id : z.id = i) :
      Locates c (.zone name) (.zone i)

lemma locates_of_makes (target : st.target = some r) (hm : st.Makes c es ch) :
    c.Locates r ch.place := by
  cases hm with
  | none hs ht =>
    cases target
    exact .column _ hs ht rfl
  | @column a s t origin hs ht ho =>
    cases target
    have named : (a.over origin).name = a.column := Table.name_of_column? (a := origin) ho
    rw [Change.place, named]
    exact .column _ hs ht rfl
  | table hs ht =>
    cases target
    exact .table hs ht rfl
  | zone blank hz =>
    cases target
    exact .zone hz rfl

/-- Where numbers are distinct, what is named is within something else if its place is. -/
lemma Keyed.within {p p' : Place} (h : c.Keyed) (hz : (c.zones.map Zone.id).Nodup)
    (at' : c.Locates r p) (other : c.Locates r' p') (within : p.Within p') : r.Within r' := by
  -- The places are the same, or the first is a column of the table that is the second.
  rcases within with rfl | owner
  · cases at' with
    | column name hs ht id =>
      cases other with
      | column _ hs' ht' id' =>
        obtain ⟨rfl, rfl⟩ := h.names_eq hs ht hs' ht' (id.trans id'.symm)
        exact .inl rfl
    | table hs ht id =>
      cases other with
      | table hs' ht' id' =>
        obtain ⟨rfl, rfl⟩ := h.names_eq hs ht hs' ht' (id.trans id'.symm)
        exact .inl rfl
    | @zone name z _ found id =>
      cases other with
      | @zone name' _ _ found' id' =>
        obtain rfl := List.inj_on_of_nodup_map hz (List.mem_of_find?_eq_some found)
          (List.mem_of_find?_eq_some found') (id.trans id'.symm)
        have e : z.name = name := by simpa using List.find?_some found
        have e' : z.name = name' := by simpa using List.find?_some found'
        rw [← e, ← e']
        exact .inl rfl
  · cases at' with
    | table => cases owner
    | zone => cases owner
    | column name hs ht id =>
      cases owner
      cases other with
      | table hs' ht' id' =>
        obtain ⟨rfl, rfl⟩ := h.names_eq hs ht hs' ht' (id.trans id'.symm)
        exact .inr rfl

/-- Statements with targets apart make changes that do not meet. -/
lemma Keyed.apart (h : c.Keyed) (hz : (c.zones.map Zone.id).Nodup) (target : st.target = some r)
    (target' : st'.target = some r') (apart : r.Apart r') (hm : st.Makes c es ch)
    (hm' : st'.Makes c es' ch') : ch.Apart ch' := by
  have at' := locates_of_makes target hm
  have other := locates_of_makes target' hm'
  exact ⟨fun within => apart.1 (h.within hz at' other within),
    fun within => apart.2 (h.within hz other at' within)⟩

/-- The column of a statement, where a change that it does not meet leaves it. -/
lemma column_after {schema table name : String} {s : Schema} {t : Table} {origin : Column}
    (hs : c.schema? schema = some s) (ht : s.table? table = some t)
    (ho : t.column? name = some origin) (away : ¬ ch.place.Within (.column t.id name))
    (away' : ¬ (Place.column t.id name).Within ch.place) :
    ∃ s' t', (ch.on c).schema? schema = some s' ∧ s'.table? table = some t' ∧
      t'.column? name = some origin ∧ Change.Keeps s s' t t' := by
  have stays : ∀ i, ch ≠ .table i t.id := by
    rintro i rfl
    exact away' (.inr rfl)
  obtain ⟨s', t', hs', ht', kept, columns⟩ := ch.table_kept hs ht stays
  refine ⟨s', t', hs', ht', (columns name ?_).trans ho, kept⟩
  rintro i col rfl rfl
  exact away (.inl rfl)

/-- What a statement makes it makes as well after a change that it does not meet. -/
lemma makes_after (hz : (c.zones.map Zone.id).Nodup) (hm : st.Makes c es ch)
    (hm' : st'.Makes c es' ch') (apart : ch.Apart ch') (v : Version) (time : Timestamp) :
    st'.Makes ((ch.on c).stamp v time) es' ch' := by
  -- What the second statement names is found after the first change as it was before.
  cases hm' with
  | none hs ht ho same =>
    obtain ⟨s', t', hs', ht', ho', kept⟩ := column_after hs ht ho apart.1 apart.2
    have makes := Statement.Makes.none (c := (ch.on c).stamp v time) hs' ht' ho' same
    rw [kept.tableId] at makes
    exact makes
  | @column a s t origin hs ht ho other allowed =>
    have named : (a.over origin).name = a.column := Table.name_of_column? (a := origin) ho
    obtain ⟨away, away'⟩ := apart
    rw [Change.place, named] at away away'
    obtain ⟨s', t', hs', ht', ho', kept⟩ := column_after hs ht ho away away'
    have allowed : Check.columnChange origin (a.over origin) (t'.isKeyColumn origin.name) =
        .ok () := by
      rw [Table.isKeyColumn, kept.primaryKey]
      exact allowed
    have makes := Statement.Makes.column (c := (ch.on c).stamp v time) hs' ht' ho' other allowed
    rw [kept.schemaId, kept.tableId] at makes
    exact makes
  | @table o name s t hs ht =>
    have stays : ∀ i, ch ≠ .table i t.id := by
      rintro i rfl
      exact apart.1 (.inl rfl)
    obtain ⟨s', t', hs', ht', kept, -⟩ := ch.table_kept hs ht stays
    have makes := Statement.Makes.table (c := (ch.on c).stamp v time) hs' ht'
    rw [kept.schemaId, kept.tableId, kept.indexes] at makes
    exact makes
  | @zone name p z blank hx valid =>
    refine .zone blank ?_ valid
    -- Zones are changed by a change of a zone only, which is another one here.
    cases hm with
    | @zone name' p' y blank' hy valid' =>
      exact Change.zone_kept (z := p'.over y) hz (List.mem_of_find?_eq_some hy) rfl rfl hx
        apart.zones.symm
    | none => exact hx
    | column => exact hx
    | table => exact hx

/-- Statements with targets apart make changes that do not meet, and each makes its own after the
other one as well. Whichever comes first, both changes are made. -/
lemma Keyed.independent (h : c.Keyed) (hz : (c.zones.map Zone.id).Nodup)
    (target : st.target = some r) (target' : st'.target = some r') (apart : r.Apart r')
    (accepted : st.entries c = .ok es) (accepted' : st'.entries c = .ok es') :
    ∃ ch ch' : Change, c.applyEntries es = .ok (ch.on c) ∧ c.applyEntries es' = .ok (ch'.on c) ∧
      ∀ (v : Version) (time : Timestamp),
        (st'.entries ((ch.on c).stamp v time) = .ok es' ∧
          ((ch.on c).stamp v time).applyEntries es' = .ok (ch'.on (ch.on (c.stamp v time)))) ∧
        (st.entries ((ch'.on c).stamp v time) = .ok es ∧
          ((ch'.on c).stamp v time).applyEntries es = .ok (ch'.on (ch.on (c.stamp v time)))) := by
  obtain ⟨ch, hm⟩ := makes_of_ok target accepted
  obtain ⟨ch', hm'⟩ := makes_of_ok target' accepted'
  have away := h.apart hz target target' apart hm hm'
  obtain ⟨applied, keyed⟩ := h.makes hm
  obtain ⟨applied', keyed'⟩ := h.makes hm'
  refine ⟨ch, ch', applied, applied', fun v time => ⟨?_, ?_⟩⟩
  · have after := makes_after hz hm hm' away v time
    exact ⟨entries_of_makes after, ((keyed.stamp v time).makes after).1⟩
  · have after := makes_after hz hm' hm away.symm v time
    have both := ((keyed'.stamp v time).makes after).1
    exact ⟨entries_of_makes after,
      both.trans (congrArg Except.ok (Change.on_comm away (c.stamp v time)))⟩

end Catalog

/-- The version after two more updates of a log. -/
lemma snapshot_both {log : List Committed} {c d : Catalog} {x y : Committed} {zones : List Zone}
    {schemas : List Schema} (hc : snapshot log log.length = .ok c)
    (first : c.applyEntries x.update.entries = .ok d)
    (second : ∀ (v : Version) (time : Timestamp), (d.stamp v time).applyEntries y.update.entries =
      .ok (Catalog.ofParts v time c.counter zones schemas)) :
    ∃ (v : Version) (time : Timestamp), snapshot (log ++ [x, y]) (log.length + 2) =
      .ok (Catalog.ofParts v time c.counter zones schemas) := by
  have last : snapshot (log ++ [x, y]) log.length = .ok c :=
    (snapshot_append [x, y] (Nat.le_refl _)).trans hc
  have next : snapshot (log ++ [x, y]) (log.length + 1) =
      .ok (d.stamp x.update.version (x.activation c.activation)) := by
    rw [snapshot_succ_ok (x := x) (by simp) last, Committed.successor, first]
    rfl
  refine ⟨y.update.version, y.activation (x.activation c.activation), ?_⟩
  rw [snapshot_succ_ok (x := y) (by simp) next, Committed.successor, second]
  rfl

/-- Statements that do not meet may come in either order.

Let the numbers of a catalog be distinct, and let each of two statements change a column or a zone
in place or drop a table, neither within what the other changes or drops. If both are accepted on
the catalog then each is accepted after the other, whatever version the catalog became with that,
and yields the entries that it yields before. Both orders lead to the same zones and schemas, and
take no numbers. So it is where the catalog is the last version of a log: whichever statement the
next update carries out, if the one after it carries out the other then these are the zones and
schemas of the version after both. -/
theorem Statement.commute {c : Catalog} (h : c.Keyed) (hz : (c.zones.map Zone.id).Nodup)
    {st st' : Statement} {r r' : Reference} (target : st.target = some r)
    (target' : st'.target = some r') (apart : r.Apart r') {es es' : List Entry}
    (accepted : st.entries c = .ok es) (accepted' : st'.entries c = .ok es') :
    ∃ d d' zones schemas, c.applyEntries es = .ok d ∧ c.applyEntries es' = .ok d' ∧
      (∀ (v : Version) (time : Timestamp),
        (st'.entries (d.stamp v time) = .ok es' ∧ (d.stamp v time).applyEntries es' =
          .ok (Catalog.ofParts v time c.counter zones schemas)) ∧
        (st.entries (d'.stamp v time) = .ok es ∧ (d'.stamp v time).applyEntries es =
          .ok (Catalog.ofParts v time c.counter zones schemas))) ∧
      ∀ (log : List Committed) (x y : Committed), snapshot log log.length = .ok c →
        x.update.entries = es ∧ y.update.entries = es' ∨
          x.update.entries = es' ∧ y.update.entries = es →
        ∃ (v : Version) (time : Timestamp), snapshot (log ++ [x, y]) (log.length + 2) =
          .ok (Catalog.ofParts v time c.counter zones schemas) := by
  obtain ⟨ch, ch', applied, applied', both⟩ :=
    h.independent hz target target' apart accepted accepted'
  refine ⟨ch.on c, ch'.on c, ch'.zones (ch.zones c.zones), ch'.schemas (ch.schemas c.schemas),
    applied, applied', both, fun log x y hc order => ?_⟩
  rcases order with ⟨rfl, rfl⟩ | ⟨rfl, rfl⟩
  · exact snapshot_both hc applied fun v time => (both v time).1.2
  · exact snapshot_both hc applied' fun v time => (both v time).2.2

/-- A default for `ID`. -/
def AlterColumn.defaulted : AlterColumn where
  schema := some Schema.defaultName
  table := "T"
  column := "ID"
  dataType := none
  notNull := none
  precision := none
  scale := none
  length := none
  default := some (.constant "0")

theorem Statement.commute_longer_defaulted :
    ∃ es es' d d' zones schemas, Catalog.withT.applyEntries es = .ok d ∧
      Catalog.withT.applyEntries es' = .ok d' ∧
      ∀ (v : Version) (time : Timestamp),
        ((Statement.alterColumn .defaulted).entries (d.stamp v time) = .ok es' ∧
          (d.stamp v time).applyEntries es' = .ok (Catalog.ofParts v time 4 zones schemas)) ∧
        ((Statement.alterColumn .longer).entries (d'.stamp v time) = .ok es ∧
          (d'.stamp v time).applyEntries es = .ok (Catalog.ofParts v time 4 zones schemas)) := by
  have apart : (Reference.column "PUBLIC" "T" "VAL").Apart (.column "PUBLIC" "T" "ID") :=
    by decide
  have longer : (Statement.alterColumn .longer).entries Catalog.withT = .ok _ := rfl
  have defaulted : (Statement.alterColumn .defaulted).entries Catalog.withT = .ok _ := rfl
  have wf := Catalog.withT_wellFormed
  obtain ⟨d, d', zones, schemas, applied, applied', both, -⟩ :=
    Statement.commute wf.keyed wf.coherent.zoneIds rfl rfl apart longer defaulted
  exact ⟨_, _, d, d', zones, schemas, applied, applied', both⟩

end SchemaCatalog
