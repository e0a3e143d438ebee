import SchemaCatalog.Proofs.Notices
import SchemaCatalog.Proofs.Run.Ids

/-!
# A catalog from its events

An event tells everything that its entry does, so the entry can be read off it. Taking numbers has
no event and changes nothing but the counter, on which no other entry depends. So the events of a
log make the definitions of each of its versions anew (`Run.rebuilt_from_events`).
-/

namespace SchemaCatalog

/-! ## Entries and what they make happen -/

/-- The entry that makes it happen. -/
def Occurrence.entry : Occurrence → Entry
  | .tableCreated t => .newTable t
  | .tableDropped id => .dropTable id
  | .tableAltered id (.columnsAdded columns) => .newColumns id columns
  | .tableAltered id (.columnsDropped names) => .dropColumns id names
  | .tableAltered id (.columnAltered column) => .alterColumn id column
  | .indexCreated i => .newIndex i
  | .indexDropped id tableId => .dropIndex id tableId
  | .zoneCreated z => .newZone z
  | .zoneAltered z => .alterZone z
  | .zoneDropped id => .dropZone id

/-- The entry whose event it is. -/
def Event.entry (x : Event) : Entry := x.occurrence.entry

namespace Entry

lemma occurrence?_entry (o : Occurrence) : o.entry.occurrence? = some o := by
  cases o with
  | tableAltered id change => cases change <;> rfl
  | _ => rfl

/-- What an entry makes happen tells which entry it is. -/
lemma eq_entry {e : Entry} {o : Occurrence} (h : e.occurrence? = some o) : e = o.entry := by
  cases e with
  | takeIds delta => cases h
  | _ =>
    cases h
    rfl

/-- Only the taking of numbers makes nothing happen. -/
lemma occurrence?_eq_none {e : Entry} (h : e.occurrence? = none) : ∃ delta, e = .takeIds delta := by
  cases e with
  | takeIds delta => exact ⟨delta, rfl⟩
  | _ => cases h

/-- An event is that of an entry if it carries the token and the version, and tells the entry. -/
lemma event?_eq_some_iff {e : Entry} {token : Token} {version : Version} {x : Event} :
    e.event? token version = some x ↔
      x.token = token ∧ x.version = version ∧ e = x.entry := by
  rw [event?, Option.map_eq_some_iff]
  constructor
  · rintro ⟨o, ho, rfl⟩
    exact ⟨rfl, rfl, eq_entry ho⟩
  · rintro ⟨rfl, rfl, rfl⟩
    exact ⟨x.occurrence, occurrence?_entry x.occurrence, rfl⟩

lemma event?_eq_none_iff {e : Entry} {token : Token} {version : Version} :
    e.event? token version = none ↔ ∃ delta, e = .takeIds delta := by
  rw [event?, Option.map_eq_none_iff]
  refine ⟨occurrence?_eq_none, ?_⟩
  rintro ⟨delta, rfl⟩
  rfl

end Entry

/-! ## Folding without the counter -/

namespace Catalog

/-- The definitions of a catalog, with the counter, the version and the activation of the initial
catalog. -/
def definitions (c : Catalog) : Catalog :=
  (c.withCounter initial.counter).stamp initial.version initial.activation

variable {c d : Catalog}

lemma withSchema_definitions (s : Schema) :
    c.definitions.withSchema s = (c.withSchema s).map definitions := by
  unfold withSchema
  have same : c.definitions.schemaOfId? s.id = c.schemaOfId? s.id := rfl
  rw [same]
  split
  · rfl
  · rfl

lemma schemaOfTable_definitions (id : ObjectId) :
    c.definitions.schemaOfTable id = c.schemaOfTable id := rfl

lemma replaceTable_definitions (t : Table) :
    c.definitions.replaceTable t = (c.replaceTable t).map definitions := by
  unfold replaceTable
  rw [schemaOfTable_definitions]
  cases c.schemaOfTable t.id with
  | error e => rfl
  | ok s => exact withSchema_definitions _

/-- What an entry that makes something happen does to the definitions depends on nothing else. -/
lemma applyEntry_definitions (o : Occurrence) :
    c.definitions.applyEntry o.entry = (c.applyEntry o.entry).map definitions := by
  -- What an entry looks up is in the zones and schemas, and those are the same.
  have table (id : ObjectId) : c.definitions.existingTable id = c.existingTable id := rfl
  have schemaOfTable (id : ObjectId) : c.definitions.schemaOfTable id = c.schemaOfTable id := rfl
  have schemaOfIndex (id : ObjectId) : c.definitions.schemaOfIndex id = c.schemaOfIndex id := rfl
  have zone (id : ObjectId) : c.definitions.requireZone id = c.requireZone id := rfl
  have schema (id : ObjectId) : c.definitions.schemaOfId? id = c.schemaOfId? id := rfl
  cases o with
  | tableCreated t =>
    simp only [Occurrence.entry, applyEntry, schema]
    cases c.schemaOfId? t.schemaId with
    | none => rfl
    | some s => exact withSchema_definitions _
  | tableDropped id =>
    simp only [Occurrence.entry, applyEntry, schemaOfTable]
    cases c.schemaOfTable id with
    | error e => rfl
    | ok s => exact withSchema_definitions _
  | tableAltered id change =>
    cases change with
    | columnsAdded columns =>
      simp only [Occurrence.entry, applyEntry, table]
      cases c.existingTable id with
      | error e => rfl
      | ok t => exact replaceTable_definitions _
    | columnsDropped names =>
      simp only [Occurrence.entry, applyEntry, table]
      cases c.existingTable id with
      | error e => rfl
      | ok t => exact replaceTable_definitions _
    | columnAltered column =>
      simp only [Occurrence.entry, applyEntry, table]
      cases c.existingTable id with
      | error e => rfl
      | ok t =>
        show (if _ then _ else _) = Except.map _ (if _ then _ else _)
        split
        · exact replaceTable_definitions _
        · rfl
  | indexCreated i =>
    simp only [Occurrence.entry, applyEntry, schemaOfTable]
    cases c.schemaOfTable i.tableId with
    | error e => rfl
    | ok s => exact withSchema_definitions _
  | indexDropped id tableId =>
    simp only [Occurrence.entry, applyEntry, schemaOfIndex]
    cases c.schemaOfIndex id with
    | error e => rfl
    | ok s => exact withSchema_definitions _
  | zoneCreated z => rfl
  | zoneAltered z =>
    simp only [Occurrence.entry, applyEntry, zone]
    cases c.requireZone z.id with
    | error e => rfl
    | ok _ => rfl
  | zoneDropped id =>
    simp only [Occurrence.entry, applyEntry, zone]
    cases c.requireZone id with
    | error e => rfl
    | ok _ => rfl

/-- Taking numbers leaves the definitions alone. -/
lemma definitions_takeIds {delta : ObjectId} (h : c.applyEntry (.takeIds delta) = .ok d) :
    d.definitions = c.definitions := by
  simp only [applyEntry] at h
  split at h
  · cases h
    rfl
  · cases h

/-- Entries that can be folded into a catalog can be folded into its definitions without the counter
bumps, and come to the same definitions. -/
lemma applyEntries_definitions {es : List Entry} (h : c.applyEntries es = .ok d) :
    c.definitions.applyEntries ((es.filterMap Entry.occurrence?).map Occurrence.entry) =
      .ok d.definitions := by
  induction es generalizing c with
  | nil =>
    cases h
    rfl
  | cons e es ih =>
    obtain ⟨b, hb, rest⟩ := bind_ok h
    have ih := ih rest
    cases ho : e.occurrence? with
    | none =>
      obtain ⟨delta, rfl⟩ := Entry.occurrence?_eq_none ho
      rw [List.filterMap_cons_none ho, ← definitions_takeIds hb]
      exact ih
    | some o =>
      obtain rfl := Entry.eq_entry ho
      rw [List.filterMap_cons_some ho, List.map_cons]
      refine (applyEntries_cons ?_ _).trans ih
      rw [applyEntry_definitions, hb]
      rfl

lemma applyEntries_append {es : List Entry} (h : c.applyEntries es = .ok d) (es' : List Entry) :
    c.applyEntries (es ++ es') = d.applyEntries es' := by
  induction es generalizing c with
  | nil =>
    cases h
    rfl
  | cons e es ih =>
    obtain ⟨b, hb, rest⟩ := bind_ok h
    exact (applyEntries_cons hb _).trans (ih rest)

end Catalog

/-! ## The events of a log -/

/-- The events of an update tell its entries but the counter bumps. -/
lemma Committed.entries_events (x : Committed) : x.events.map Event.entry =
    (x.update.entries.filterMap Entry.occurrence?).map Occurrence.entry := by
  simp only [events, ← List.map_filterMap, List.map_map]
  rfl

/-- The entries that the events of a log tell come to the definitions of its snapshots. -/
lemma definitions_of_events {log : List Committed} {v : Nat} {c : Catalog}
    (h : snapshot log v = .ok c) :
    Catalog.initial.applyEntries ((eventsUpTo log v).map Event.entry) = .ok c.definitions := by
  induction v generalizing c with
  | zero =>
    cases h
    rfl
  | succ v ih =>
    obtain ⟨b, hb, last⟩ := bind_ok h
    have ih := ih hb
    cases hx : log[v]? with
    | none =>
      rw [hx] at last
      cases last
      rw [eventsUpTo, List.take_add_one, hx, Option.toList_none, List.append_nil]
      exact ih
    | some x =>
      rw [hx] at last
      obtain ⟨d, hd, rfl⟩ := Committed.successor_ok last
      rw [eventsUpTo_succ hx, List.map_append, Catalog.applyEntries_append ih,
        Committed.entries_events]
      have stamped : (d.stamp x.update.version (x.activation b.activation)).definitions =
          d.definitions := rfl
      rw [stamped]
      exact Catalog.applyEntries_definitions hd

namespace Run

/-- The events of the log are enough to make its catalogs anew. Every entry but a counter bump has an
event, which tells the entry. Whatever catalog a node has registered as a version, the entries that
the events of the log up to that version tell can be folded into the initial catalog, and come to the
same zones, schemas and maps by number; the counter, the version and the activation are those of the
initial catalog still. -/
theorem rebuilt_from_events :
    (∀ (e : Entry) (token : Token) (version : Version),
      (e.event? token version = none ↔ ∃ delta, e = .takeIds delta) ∧
      ∀ x, e.event? token version = some x ↔
        x.token = token ∧ x.version = version ∧ e = x.entry) ∧
    (∀ (e e' : Entry) (token : Token) (version : Version), (∀ delta, e ≠ .takeIds delta) →
      e.event? token version = e'.event? token version → e = e') ∧
    ∀ (r : Run) (i n : Nat) (v : Version) (c : Catalog),
      ((r.fleet i).node n).history.catalog? v = some c →
      ∃ d, Catalog.initial.applyEntries
          ((eventsUpTo (r.fleet i).storage.log v.number.val).map Event.entry) = .ok d ∧
        d.zones = c.zones ∧ d.schemas = c.schemas ∧
        d = (c.withCounter Catalog.initial.counter).stamp Catalog.initial.version
          Catalog.initial.activation := by
  refine ⟨fun e token version => ⟨Entry.event?_eq_none_iff, fun x => Entry.event?_eq_some_iff⟩,
    fun e e' token version observed same => ?_, fun r i n v c registered => ?_⟩
  · -- An entry without an event takes numbers only, which is excluded here.
    cases hx : e.event? token version with
    | none =>
      obtain ⟨delta, rfl⟩ := Entry.event?_eq_none_iff.1 hx
      exact absurd rfl (observed delta)
    | some x =>
      obtain ⟨-, -, first⟩ := Entry.event?_eq_some_iff.1 hx
      obtain ⟨-, -, second⟩ := Entry.event?_eq_some_iff.1 (same.symm.trans hx)
      exact first.trans second.symm
  · obtain ⟨-, hc⟩ := (r.tracks i).snapshot registered
    exact ⟨c.definitions, definitions_of_events hc, rfl, rfl, rfl⟩

/-- A table is dropped with its index and made again, and each time the numbers are taken. The
events of all that come to the last catalog, in which the counter is at six and not at two. -/
theorem rebuilt_from_events_recreated :
    Entry.dropIndex 3 2 = Event.entry ⟨⟨3⟩, ⟨3⟩, .indexDropped 3 2⟩ ∧
    ∃ c d, ((recreated.fleet 22).node 0).history.catalog? ⟨4⟩ = some c ∧
      Catalog.initial.applyEntries
        ((eventsUpTo (recreated.fleet 22).storage.log 4).map Event.entry) = .ok d ∧
      d.schemas = c.schemas ∧ c.ids = [1, 4, 5] ∧ c.counter = 6 ∧ d.counter = 2 := by
  obtain ⟨-, unique, rebuilt⟩ := rebuilt_from_events
  have registered : (((recreated.fleet 22).node 0).history.catalog? ⟨4⟩).map
      (fun c => (c.ids, c.counter)) = some ([1, 4, 5], 6) := by decide +kernel
  obtain ⟨c, hc, e⟩ := Option.map_eq_some_iff.1 registered
  obtain ⟨ids, counter⟩ := Prod.mk.inj e
  obtain ⟨d, hd, -, schemas, same⟩ := rebuilt recreated 22 0 ⟨4⟩ c hc
  exact ⟨unique _ _ ⟨3⟩ ⟨3⟩ nofun rfl, c, d, hc, hd, schemas, ids, counter, same ▸ rfl⟩

end Run

end SchemaCatalog
