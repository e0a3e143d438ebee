import SchemaCatalog.Proofs.Run.Ids
import SchemaCatalog.Proofs.Run.Reading

/-!
# Ways to read

An object can be read by its name or by its number, at a time or in a version, and in a list of all.
The list finds the first object of a name, and the maps hold the last one of a number, so that all
ways agree only as long as neither occurs twice. A name without a schema means the default schema,
which is the only one that there is where only statements commit (`Catalog.IsSingle`).
-/

namespace SchemaCatalog

/-! ## Lookups that find what they should -/

section

variable {α : Type} {l : List α} {k : α → ObjectId} {a : α}

/-- A search by a key finds exactly the member that has it. -/
lemma find?_eq_some_of_nodup {β : Type} [DecidableEq β] {k : α → β} {n : β}
    (hn : (l.map k).Nodup) : l.find? (fun b => k b = n) = some a ↔ a ∈ l ∧ k a = n := by
  constructor
  · intro found
    exact ⟨List.mem_of_find?_eq_some found, by simpa using List.find?_some found⟩
  · rintro ⟨ha, rfl⟩
    exact find?_of_nodup hn ha

/-- So does the map of a list by number. -/
lemma get?_ofIds (hn : (l.map k).Nodup) {i : ObjectId} :
    (NatMap.ofList (l.map fun a => ((k a).val, a))).get? i.val = some a ↔ a ∈ l ∧ k a = i := by
  have keys : ((l.map fun a => ((k a).val, a)).map Prod.fst).Nodup := by
    have e : (l.map fun a => ((k a).val, a)).map Prod.fst = (l.map k).map Fin.val := by
      rw [List.map_map, List.map_map]
      rfl
    rw [e]
    exact hn.map fun _ _ => Fin.ext
  rw [NatMap.get?_ofList keys, List.mem_map]
  constructor
  · rintro ⟨b, hb, e⟩
    obtain ⟨number, rfl⟩ := Prod.mk.inj e
    exact ⟨hb, Fin.ext number⟩
  · rintro ⟨ha, rfl⟩
    exact ⟨a, ha, rfl⟩

end

/-- The members of a list are found by their names and by their numbers: each of the two lookups
finds exactly the member that has what is looked for, and what the first one finds the second one
finds by its number. -/
structure LooksUp {α : Type} (all : List α) (name : α → String) (id : α → ObjectId)
    (byName : String → Except Error (Option α)) (byId : ObjectId → Except Error (Option α)) :
    Prop where
  named : ∀ n, ∃ o, byName n = .ok o ∧ ∀ a, o = some a ↔ a ∈ all ∧ name a = n
  numbered : ∀ i, ∃ o, byId i = .ok o ∧ ∀ a, o = some a ↔ a ∈ all ∧ id a = i
  same : ∀ n a, byName n = .ok (some a) → byId (id a) = .ok (some a)

/-- Searches by distinct names and lookups by distinct numbers. -/
lemma LooksUp.of_nodup {α : Type} {all : List α} {name : α → String} {id : α → ObjectId}
    {byName : String → Except Error (Option α)} {byId : ObjectId → Except Error (Option α)}
    (lookup : ObjectId → Option α) (hn : ∀ n, byName n = .ok (all.find? fun a => name a = n))
    (hi : ∀ i, byId i = .ok (lookup i)) (names : (all.map name).Nodup)
    (ids : ∀ i a, lookup i = some a ↔ a ∈ all ∧ id a = i) : LooksUp all name id byName byId where
  named n := ⟨_, hn n, fun _ => find?_eq_some_of_nodup names⟩
  numbered i := ⟨_, hi i, ids i⟩
  same n a found := by
    have found : all.find? (fun a => name a = n) = some a := Except.ok.inj ((hn n).symm.trans found)
    exact (hi _).trans (congrArg Except.ok ((ids _ a).2 ⟨List.mem_of_find?_eq_some found, rfl⟩))

namespace Catalog

variable {c d : Catalog} {s s' : Schema} {e : Entry} {es : List Entry}

lemma Keyed.tableOfId?_eq_some (h : c.Keyed) (id : ObjectId) (t : Table) :
    c.tableOfId? id = some t ↔ t ∈ c.tables ∧ t.id = id := by
  rw [tableOfId?, h.tablesById]
  exact get?_ofIds h.tableIds

lemma Keyed.indexOfId?_eq_some (h : c.Keyed) (id : ObjectId) (i : Index) :
    c.indexOfId? id = some i ↔ i ∈ c.indexes ∧ i.id = id := by
  rw [indexOfId?, h.indexesById]
  exact get?_ofIds h.indexIds

/-! ## The only schema -/

/-- The default schema is the only one. -/
def IsSingle (c : Catalog) (s : Schema) : Prop := c.schemas = [s] ∧ s.name = Schema.defaultName

/-- A schema is put in the place of one of its number and name, and there is no other. -/
lemma IsSingle.put {r : Schema} (h : c.IsSingle s) (hr : r ∈ c.schemas) (id : s'.id = r.id)
    (name : s'.name = r.name) : ∃ u, (c.put s').IsSingle u := by
  obtain ⟨schemas, default⟩ := h
  rw [schemas, List.mem_singleton] at hr
  subst hr
  refine ⟨s', ?_, name.trans default⟩
  show c.schemas.map (fun u => if u.id = s'.id then s' else u) = [s']
  rw [schemas, List.map_singleton, if_pos id.symm]

/-- An entry leaves the schemas alone, or changes what one of them holds. -/
lemma IsSingle.applyEntry (h : c.IsSingle s) (he : c.applyEntry e = .ok d) :
    ∃ u, d.IsSingle u := by
  cases Entry.gives_of_ok he with
  | newTable hs => exact h.put hs rfl rfl
  | dropTable hs => exact h.put hs rfl rfl
  | newColumns hs => exact h.put hs rfl rfl
  | dropColumns hs => exact h.put hs rfl rfl
  | alterColumn hs => exact h.put hs rfl rfl
  | newIndex hs => exact h.put hs rfl rfl
  | dropIndex hs => exact h.put hs rfl rfl
  | _ => exact ⟨s, h⟩

lemma IsSingle.applyEntries (h : c.IsSingle s) (he : c.applyEntries es = .ok d) :
    ∃ s', d.IsSingle s' := by
  induction es generalizing c s with
  | nil =>
    cases he
    exact ⟨s, h⟩
  | cons e es ih =>
    obtain ⟨b, hb, he⟩ := bind_ok he
    obtain ⟨s', h'⟩ := h.applyEntry hb
    exact ih h' he

/-- No statement creates or drops a schema. -/
lemma Becomes.isSingle (hb : c.Becomes d) (h : ∃ s, c.IsSingle s) : ∃ s, d.IsSingle s := by
  obtain ⟨s, h⟩ := h
  cases hb with
  | intro v a entries applied =>
    obtain ⟨s', schemas, name⟩ := h.applyEntries applied
    exact ⟨s', schemas, name⟩

namespace IsSingle

lemma mem (h : c.IsSingle s) : s ∈ c.schemas := by
  rw [h.1]
  exact List.mem_singleton_self s

lemma tables (h : c.IsSingle s) : c.tables = s.tables := by
  rw [Catalog.tables, h.1]
  exact List.append_nil _

lemma indexes (h : c.IsSingle s) : c.indexes = s.indexes := by
  rw [Catalog.indexes, h.1]
  exact List.append_nil _

lemma schemaIn_none (h : c.IsSingle s) : History.schemaIn none c = some s := by
  show c.schemas.find? (fun r => r.name = Schema.defaultName) = some s
  rw [h.1, List.find?_singleton, if_pos (by simpa using h.2)]

/-- A schema that is found is the only one. -/
lemma of_schemaIn {name : Option String} {r : Schema} (h : c.IsSingle s)
    (found : History.schemaIn name c = some r) : r = s := by
  have mem := List.mem_of_find?_eq_some found
  rw [h.1] at mem
  exact List.mem_singleton.1 mem

end IsSingle

end Catalog

/-! ## Reads of a version and at a time -/

namespace History

variable {y : History} {c : Catalog} {s : Schema} {v : Version} {t : Timestamp}

lemma looksUp_tables (hat : y.catalogAt t = .ok c) (registered : y.catalog? v = some c)
    (wf : c.WellFormed) (single : c.IsSingle s) :
    LooksUp (y.tables v) Table.name Table.id (y.table · t) (y.tableById · t) := by
  have listed : y.tables v = c.tables := by rw [tables, registered]; rfl
  rw [listed]
  refine .of_nodup c.tableOfId? (fun n => ?_) (fun id => ?_) ?_ wf.keyed.tableOfId?_eq_some
  · rw [table, hat, Except.map, single.schemaIn_none, single.tables]
    rfl
  · rw [tableById, hat]
    rfl
  · rw [single.tables]
    exact (wf.schemas s single.mem).tableNames

lemma looksUp_indexes (hat : y.catalogAt t = .ok c) (registered : y.catalog? v = some c)
    (wf : c.WellFormed) (single : c.IsSingle s) :
    LooksUp (y.indexes v) Index.name Index.id (y.index · t) (y.indexById · t) := by
  have listed : y.indexes v = c.indexes := by rw [indexes, registered]; rfl
  rw [listed]
  refine .of_nodup c.indexOfId? (fun n => ?_) (fun id => ?_) ?_ wf.keyed.indexOfId?_eq_some
  · rw [index, hat, Except.map, single.schemaIn_none, single.indexes]
    rfl
  · rw [indexById, hat]
    rfl
  · rw [single.indexes]
    exact (wf.schemas s single.mem).indexNames

lemma looksUp_zones (hat : y.catalogAt t = .ok c) (registered : y.catalog? v = some c)
    (wf : c.WellFormed) :
    LooksUp (y.zones v) Zone.name Zone.id (y.zone · t) (y.zoneById · t) := by
  have listed : y.zones v = c.zones := by rw [zones, registered]; rfl
  rw [listed]
  refine .of_nodup c.zoneOfId? (fun n => ?_) (fun id => ?_) wf.zones.names fun id z => ?_
  · rw [zone, hat]
    rfl
  · rw [zoneById, hat]
    rfl
  · exact find?_eq_some_of_nodup (nodup_of_ascending wf.zones.ids)

/-- What a schema of a version has on a table is in the list of the version, and in its order. -/
lemma indexesOf_schema (registered : y.catalog? v = some c) (single : c.IsSingle s)
    {name : Option String} {s' : Schema} (found : y.schema name v = some s') (id : ObjectId) :
    s'.indexesOf id = (y.indexes v).filter fun i => i.tableId = id := by
  rw [schema, registered] at found
  obtain rfl := single.of_schemaIn found
  rw [indexes, registered]
  exact congrArg (List.filter fun i => i.tableId = id) single.indexes.symm

end History

namespace Run

variable {r : Run} {i n v : Nat} {c : Catalog}

/-- Where only statements commit, the default schema is the only one of each version. -/
lemma CommitsStatements.isSingle (hr : r.CommitsStatements)
    (hc : snapshot (r.fleet i).storage.log v = .ok c) : ∃ s, c.IsSingle s :=
  hr.induction (P := fun _ c => ∃ s, c.IsSingle s) (i := i) (v := 0) rfl ⟨_, rfl, rfl⟩
    (fun _ _ _ h => h) (fun _ _ _ _ _ _ becomes h => becomes.isSingle h) (Nat.zero_le v) hc

/-- A version that is active at a time is registered, and is what the node answers with. -/
lemma active_registered {v : Version} {t : Timestamp}
    (active : ((r.fleet i).node n).history.activeVersion t = .ok v) :
    ∃ c, ((r.fleet i).node n).history.catalogAt t = .ok c ∧
      ((r.fleet i).node n).history.catalog? v = some c := by
  have ht := r.tracks i
  have nothing : ((r.fleet i).node n).history ≠ History.empty := by
    intro e
    rw [e] at active
    cases active
  have hn : n < (r.fleet i).nodes.length := by
    by_contra hge
    exact nothing (by rw [Fleet.node_of_le (Nat.not_lt.1 hge)]; rfl)
  have hs : ((r.fleet i).node n).started = true := by
    cases hst : ((r.fleet i).node n).started with
    | true => rfl
    | false => exact absurd (ht.unstarted n hn hst) nothing
  obtain ⟨c, hc, activeAt⟩ := r.activeAt hn hs t
  rw [History.activeVersion_of hc] at active
  cases active
  exact ⟨c, hc, activeAt.registered⟩

/-- All ways to read an object agree.

Where only statements commit, take any node at any moment, and a version that is active on it at
some time. At that time a table is found by its name exactly if the version lists one of that name,
and by its number exactly if it lists one of that number, and both find the one that is listed; in
the version a number leads to the same table as at the time. The same holds of indexes, and of
zones, which are not read by number in a version. The schema of a name at the time is the one in the
version, and what it has on a table is the part of the indexes of the version that is on that table,
in their order. -/
theorem reads_agree (r : Run) (hr : r.CommitsStatements) (i n : Nat) {v : Version} {t : Timestamp}
    (active : ((r.fleet i).node n).history.activeVersion t = .ok v) :
    let y := ((r.fleet i).node n).history
    (LooksUp (y.tables v) Table.name Table.id (y.table · t) (y.tableById · t) ∧
      ∀ id, y.tableById id t = .ok (y.tableAtVersion id v)) ∧
    (LooksUp (y.indexes v) Index.name Index.id (y.index · t) (y.indexById · t) ∧
      ∀ id, y.indexById id t = .ok (y.indexAtVersion id v)) ∧
    LooksUp (y.zones v) Zone.name Zone.id (y.zone · t) (y.zoneById · t) ∧
    ∀ name, y.activeSchema name t = .ok (y.schema name v) ∧
      ∀ s, y.schema name v = some s →
        ∀ id, s.indexesOf id = (y.indexes v).filter fun i => i.tableId = id := by
  intro y
  obtain ⟨c, hat, registered⟩ := active_registered active
  have hc := ((r.tracks i).snapshot registered).2
  have wf := hr.wellFormed hc
  obtain ⟨s, single⟩ := hr.isSingle hc
  have hat : y.catalogAt t = .ok c := hat
  have registered : y.catalog? v = some c := registered
  refine ⟨⟨History.looksUp_tables hat registered wf single, fun id => ?_⟩,
    ⟨History.looksUp_indexes hat registered wf single, fun id => ?_⟩,
    History.looksUp_zones hat registered wf, fun name => ⟨?_, fun s' found id => ?_⟩⟩
  · rw [History.tableById, History.tableAtVersion, hat, registered]
    rfl
  · rw [History.indexById, History.indexAtVersion, hat, registered]
    rfl
  · rw [History.activeSchema, History.schema, hat, registered]
    rfl
  · exact History.indexesOf_schema registered single found id

/-- The table that was created again is the only one of its name, and is read by its new number. -/
theorem reads_agree_recreated :
    recreated.CommitsStatements ∧
    ((recreated.fleet 22).node 0).history.activeVersion Timestamp.greatest = .ok ⟨4⟩ ∧
    ∃ u, ((recreated.fleet 22).node 0).history.table "T" Timestamp.greatest = .ok (some u) ∧
      ((recreated.fleet 22).node 0).history.tableById 4 Timestamp.greatest = .ok (some u) ∧
      ((recreated.fleet 22).node 0).history.tableAtVersion 4 ⟨4⟩ = some u := by
  have active : ((recreated.fleet 22).node 0).history.activeVersion Timestamp.greatest =
      .ok ⟨4⟩ := by
    decide +kernel
  have listed : (((recreated.fleet 22).node 0).history.tables ⟨4⟩).map (fun u => (u.name, u.id)) =
      [("T", 4)] := by
    decide +kernel
  obtain ⟨⟨tables, inVersion⟩, -⟩ := reads_agree recreated recreated_commits 22 0 active
  obtain ⟨u, hu, named⟩ : ∃ u ∈ ((recreated.fleet 22).node 0).history.tables ⟨4⟩,
      (u.name, u.id) = ("T", 4) := by
    rw [← List.mem_map, listed]
    exact List.mem_singleton_self _
  obtain ⟨name, id⟩ := Prod.mk.inj named
  obtain ⟨o, found, finds⟩ := tables.named "T"
  obtain rfl := (finds u).2 ⟨hu, name⟩
  have byId := tables.same "T" u found
  rw [id] at byId
  refine ⟨recreated_commits, active, u, found, byId, ?_⟩
  exact Except.ok.inj ((inVersion 4).symm.trans byId)

end Run

end SchemaCatalog
