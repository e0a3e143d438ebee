import SchemaCatalog.Proofs.Catalog.Inversion

/-!
# Maps by number

The maps of a catalog are made anew whenever its schemas change, and are taken over when they do not.
So they always mirror the lists, also where a number occurs twice: a lookup by number finds the last
object of that number in the list of all (`Catalog.Mirrors`). What this rests on is that entries put
a table back into the schema that holds it (`Filed.applyEntry`), and that a list of entries, applied
or refused, keeps what each of them keeps (`Filed.afterAll`).
-/

namespace SchemaCatalog

/-- A map by number has the last member of each number. -/
lemma get?_ofIds_last {α : Type} (number : α → ObjectId) (l : List α) (id : ObjectId) :
    (NatMap.ofList (l.map fun a => ((number a).val, a))).get? id.val =
      (l.filter fun a => number a = id).getLast? := by
  have same : (l.map fun a => ((number a).val, a)).filter (fun e => e.1 = id.val) =
      (l.filter fun a => number a = id).map fun a => ((number a).val, a) := by
    rw [List.filter_map]
    congr 1
    refine List.filter_congr fun a _ => ?_
    simp [Fin.ext_iff]
  rw [NatMap.get?_ofList_last, same, List.getLast?_map, Option.map_map]
  exact Option.map_id'

namespace Catalog

/-- A lookup by number finds the last object of that number in the list of all, and tables state the
schema that holds them. -/
structure Mirrors (c : Catalog) : Prop where
  table : ∀ id, c.tableOfId? id = (c.tables.filter fun t => t.id = id).getLast?
  noTable : ∀ id, c.tableOfId? id = none ↔ ∀ t ∈ c.tables, t.id ≠ id
  index : ∀ id, c.indexOfId? id = (c.indexes.filter fun i => i.id = id).getLast?
  noIndex : ∀ id, c.indexOfId? id = none ↔ ∀ i ∈ c.indexes, i.id ≠ id
  schemaId : ∀ s ∈ c.schemas, ∀ t ∈ s.tables, t.schemaId = s.id

/-- The numbers and names of the schemas, in order. -/
def labels (c : Catalog) : List (ObjectId × String) := c.schemas.map fun s => (s.id, s.name)

/-- The catalog after an entry. One that cannot be applied leaves it as it is. -/
def attempt (c : Catalog) (e : Entry) : Catalog := (c.applyEntry e).toOption.getD c

/-- The catalog after some entries, as far as they can be applied. -/
def attemptAll (c : Catalog) (es : List Entry) : Catalog := es.foldl attempt c

/-- A catalog whose maps are the ones of the lists, whose schemas are told apart by their numbers and
whose tables state the schema that they are in. Numbers of tables and indexes may occur twice. -/
structure Filed (c : Catalog) : Prop where
  tablesById : c.tablesById = NatMap.ofList (c.tables.map fun t => (t.id.val, t))
  indexesById : c.indexesById = NatMap.ofList (c.indexes.map fun i => (i.id.val, i))
  schemaIds : (c.schemas.map Schema.id).Nodup
  schemaId : ∀ s ∈ c.schemas, ∀ t ∈ s.tables, t.schemaId = s.id

variable {c d : Catalog} {s s' : Schema} {t : Table} {id : ObjectId} {e : Entry}

lemma schemaOfId?_id (h : c.schemaOfId? id = some s) : s.id = id := by
  simpa using List.find?_some h

lemma existingTable_eq_ok (h : c.existingTable id = .ok t) : c.tableOfId? id = some t := by
  unfold existingTable at h
  split at h
  · rename_i found
    cases h
    exact found
  · cases h

namespace Filed

lemma tableOfId? (h : c.Filed) (id : ObjectId) :
    c.tableOfId? id = (c.tables.filter fun t => t.id = id).getLast? := by
  rw [Catalog.tableOfId?, h.tablesById]
  exact get?_ofIds_last Table.id c.tables id

lemma indexOfId? (h : c.Filed) (id : ObjectId) :
    c.indexOfId? id = (c.indexes.filter fun i => i.id = id).getLast? := by
  rw [Catalog.indexOfId?, h.indexesById]
  exact get?_ofIds_last Index.id c.indexes id

lemma mirrors (h : c.Filed) : c.Mirrors where
  table := h.tableOfId?
  noTable id := by
    rw [h.tableOfId?, List.getLast?_eq_none_iff, List.filter_eq_nil_iff]
    simp
  index := h.indexOfId?
  noIndex id := by
    rw [h.indexOfId?, List.getLast?_eq_none_iff, List.filter_eq_nil_iff]
    simp
  schemaId := h.schemaId

/-- The table that is found by a number has that number. -/
lemma id_of_existingTable (h : c.Filed) (ht : c.existingTable id = .ok t) : t.id = id := by
  have found := existingTable_eq_ok ht
  rw [h.tableOfId?] at found
  have mem := List.mem_of_getLast? found
  simpa using (List.mem_filter.1 mem).2

/-! ## Entries -/

/-- A schema takes the place of the one of its number, whose name it keeps. -/
lemma put (h : c.Filed) (hs : s ∈ c.schemas) (id : s'.id = s.id) (name : s'.name = s.name)
    (schemaId : ∀ t ∈ s'.tables, t.schemaId = s.id) :
    (c.put s').Filed ∧ (c.put s').labels = c.labels := by
  have ids : (c.put s').schemas.map Schema.id = c.schemas.map Schema.id :=
    map_replace h.schemaIds hs id id
  refine ⟨⟨rfl, rfl, ids ▸ h.schemaIds, fun r hr => ?_⟩, ?_⟩
  · rcases mem_put hr with rfl | ⟨hr, -⟩
    · exact id ▸ schemaId
    · exact h.schemaId r hr
  · exact map_replace h.schemaIds hs id (by rw [id, name])

/-- A table gets other columns. It is put into the schema that it states, which is the one where it
was found, although others of its number may be in other schemas. -/
lemma replaceTable {columns : List Column} (h : c.Filed) (ht : c.existingTable id = .ok t)
    (hd : c.replaceTable (t.withColumns columns) = .ok d) : d.Filed ∧ d.labels = c.labels := by
  obtain ⟨s, hs, hd⟩ := bind_ok hd
  obtain ⟨u, hu, hs⟩ := bind_ok hs
  have same : u = t := by
    rw [← h.id_of_existingTable ht] at ht
    exact Except.ok.inj (hu.symm.trans ht)
  subst same
  split at hs
  · rename_i found
    cases hs
    rw [of_withSchema hd]
    refine h.put (of_schemaOfId? found) rfl rfl fun r hr => ?_
    rcases mem_replace hr with rfl | ⟨hr, -⟩
    · exact (schemaOfId?_id found).symm
    · exact h.schemaId s (of_schemaOfId? found) r hr
  · cases hs

/-- An entry that is applied keeps what the maps rest on. By cases of the entry: it adds a table to
the schema that the table states, gives a table other columns where it is, takes something away, or
leaves tables and indexes alone together with their maps. -/
lemma applyEntry (h : c.Filed) (hd : c.applyEntry e = .ok d) :
    d.Filed ∧ d.labels = c.labels := by
  cases e with
  | newTable t =>
    rw [Catalog.applyEntry] at hd
    split at hd
    · rename_i s found
      rw [of_withSchema hd]
      refine h.put (of_schemaOfId? found) rfl rfl fun u hu => ?_
      rcases List.mem_append.1 hu with hu | hu
      · exact h.schemaId s (of_schemaOfId? found) u hu
      · rw [List.mem_singleton.1 hu]
        exact (schemaOfId?_id found).symm
    · cases hd
  | newColumns id columns =>
    obtain ⟨t, ht, hd⟩ := bind_ok hd
    exact h.replaceTable ht hd
  | dropColumns id names =>
    obtain ⟨t, ht, hd⟩ := bind_ok hd
    exact h.replaceTable ht hd
  | alterColumn id target =>
    obtain ⟨t, ht, hd⟩ := bind_ok hd
    split at hd
    · exact h.replaceTable ht hd
    · cases hd
  | dropTable id =>
    cases Entry.gives_of_ok hd with
    | dropTable hs =>
      exact h.put hs rfl rfl fun u hu => h.schemaId _ hs u (List.mem_of_mem_filter hu)
  | newIndex i =>
    cases Entry.gives_of_ok hd with
    | newIndex hs => exact h.put hs rfl rfl fun u hu => h.schemaId _ hs u hu
  | dropIndex id tableId =>
    cases Entry.gives_of_ok hd with
    | dropIndex hs => exact h.put hs rfl rfl fun u hu => h.schemaId _ hs u hu
  | _ =>
    cases Entry.gives_of_ok hd
    exact ⟨⟨h.tablesById, h.indexesById, h.schemaIds, h.schemaId⟩, rfl⟩

lemma attempt (h : c.Filed) (e : Entry) :
    (c.attempt e).Filed ∧ (c.attempt e).labels = c.labels := by
  rw [Catalog.attempt]
  cases hd : c.applyEntry e with
  | ok d => exact h.applyEntry hd
  | error _ => exact ⟨h, rfl⟩

lemma attemptAll (h : c.Filed) (es : List Entry) :
    (c.attemptAll es).Filed ∧ (c.attemptAll es).labels = c.labels := by
  induction es generalizing c with
  | nil => exact ⟨h, rfl⟩
  | cons e es ih =>
    obtain ⟨filed, labels⟩ := h.attempt e
    obtain ⟨filed', labels'⟩ := ih filed
    exact ⟨filed', labels'.trans labels⟩

end Filed

/-- What a list of entries makes of a catalog that takes all of them. -/
lemma applyEntries_eq_attemptAll {es : List Entry} (h : c.applyEntries es = .ok d) :
    d = c.attemptAll es := by
  induction es generalizing c with
  | nil =>
    cases h
    rfl
  | cons e es ih =>
    obtain ⟨b, hb, h⟩ := bind_ok h
    have first : c.attempt e = b := by
      rw [attempt, hb]
      rfl
    rw [ih h, attemptAll, attemptAll, List.foldl_cons, first]

/-- The maps of a catalog by number always mirror its lists. Whatever entries come to a catalog that
was made of zones and schemas, whichever of them it takes, its lookups by number find the last objects
in its lists, its tables state the schemas that hold them, and no schema comes, goes or changes its
number or name. An update that it takes as a whole makes of it what its entries make of it. -/
theorem mirrors_of_entries (version : Version) (activation : Timestamp) (counter : ObjectId)
    (zones : List Zone) (schemas : List Schema) (ids : (schemas.map Schema.id).Nodup)
    (held : ∀ s ∈ schemas, ∀ t ∈ s.tables, t.schemaId = s.id) (es : List Entry) :
    let c := ofParts version activation counter zones schemas
    (c.attemptAll es).Mirrors ∧ (c.attemptAll es).labels = c.labels ∧
      ∀ d, c.applyEntries es = .ok d → d = c.attemptAll es := by
  intro c
  have filed : c.Filed := ⟨rfl, rfl, ids, held⟩
  obtain ⟨filed, labels⟩ := filed.attemptAll es
  exact ⟨filed.mirrors, labels, fun _ => applyEntries_eq_attemptAll⟩

/-- A table without columns, of a number that others have too. -/
def namesake (schemaId : ObjectId) (name : String) : Table := ⟨5, schemaId, 1, name, [], [], []⟩

/-- Two schemas that each hold a table of this number. -/
def namesakes : List Schema :=
  [⟨0, "A", [namesake 0 "T"], []⟩, ⟨1, "B", [namesake 1 "U"], []⟩]

/-- A third table of the number comes, a table that there is not should go, an index is made on the
table of the number, and the table gets a column. -/
def crossings : List Entry :=
  [.newTable (namesake 0 "V"), .dropTable 9, .newIndex ⟨5, "I", 5, false, .hash []⟩,
    .newColumns 5 [.ofType "C" .boolean true]]

/-- The last table of the number is the one in the second schema, where the index goes and which gets
the column. Without the entry that is refused, the entries are an update that is taken as a whole. -/
theorem mirrors_of_entries_crossings :
    let b := ofParts ⟨0⟩ ⟨0⟩ 6 [] namesakes
    let c := b.attemptAll crossings
    (∃ d, b.applyEntries (crossings.eraseIdx 1) = .ok d ∧
      d = b.attemptAll (crossings.eraseIdx 1)) ∧
    c.tables.map Table.name = ["T", "V", "U"] ∧
      c.tableOfId? 5 =
        some ((namesake 1 "U").withColumns [.ofType "C" .boolean true]) ∧
      c.indexOfId? 5 = some ⟨5, "I", 5, false, .hash []⟩ ∧ c.tableOfId? 9 = none ∧
      c.labels = [(0, "A"), (1, "B")] := by
  obtain ⟨mirrors, labels, -⟩ := mirrors_of_entries ⟨0⟩ ⟨0⟩ 6 [] namesakes (by decide)
    (by decide) crossings
  obtain ⟨-, -, whole⟩ := mirrors_of_entries ⟨0⟩ ⟨0⟩ 6 [] namesakes (by decide) (by decide)
    (crossings.eraseIdx 1)
  refine ⟨?_, by decide +kernel, (mirrors.table 5).trans ?_, (mirrors.index 5).trans ?_,
    (mirrors.noTable 9).2 ?_, labels⟩
  · have applied : ((ofParts ⟨0⟩ ⟨0⟩ 6 [] namesakes).applyEntries
        (crossings.eraseIdx 1)).toOption.isSome = true := by
      decide +kernel
    cases taken : (ofParts ⟨0⟩ ⟨0⟩ 6 [] namesakes).applyEntries (crossings.eraseIdx 1) with
    | ok d => exact ⟨d, rfl, whole d taken⟩
    | error e =>
      rw [taken] at applied
      cases applied
  all_goals decide +kernel

end Catalog

end SchemaCatalog
