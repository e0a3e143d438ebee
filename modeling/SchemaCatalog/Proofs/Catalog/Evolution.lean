import SchemaCatalog.Proofs.Catalog.Objects

/-!
# Tables after a statement

A statement that changes a table leaves all of it but the columns, and each column that stays is one
into which it may be changed in place (`Catalog.Becomes.tables`). The checks compare a column only
with the one that it replaces. That they bind it to every earlier one as well is since such changes
add up: `Column.Evolves` is transitive.
-/

namespace SchemaCatalog

/-! ## Columns -/

lemma DataType.widensTo_trans {a b c : DataType} (h : a.widensTo b = true)
    (h' : b.widensTo c = true) : a.widensTo c = true := by
  cases a <;> cases b <;> cases h <;> cases c <;> cases h' <;> rfl

/-- A column and what it has become by changes in place, within the primary key of its table or
outside it. -/
structure Column.Evolves (key : Bool) (a b : Column) : Prop where
  dataType : a.dataType = b.dataType ∨ a.dataType.widensTo b.dataType = true
  nullable : a.nullable = true → b.nullable = true
  scale : a.scale = b.scale
  length : a.length ≤ b.length
  precision : a.precision ≤ b.precision
  key : key = true → a.dataType = b.dataType ∧ a.nullable = b.nullable

namespace Column.Evolves

variable {key : Bool} {a b c : Column}

lemma refl (key : Bool) (a : Column) : a.Evolves key a :=
  ⟨.inl rfl, id, rfl, Nat.le_refl _, Nat.le_refl _, fun _ => ⟨rfl, rfl⟩⟩

lemma trans (h : a.Evolves key b) (h' : b.Evolves key c) : a.Evolves key c := by
  constructor
  case dataType =>
    rcases h.dataType with e | widens
    · rw [e]
      exact h'.dataType
    · rcases h'.dataType with e | widens'
      · exact .inr (e ▸ widens)
      · exact .inr (DataType.widensTo_trans widens widens')
  case nullable => exact fun ha => h'.nullable (h.nullable ha)
  case scale => exact h.scale.trans h'.scale
  case length => exact Nat.le_trans h.length h'.length
  case precision => exact Nat.le_trans h.precision h'.precision
  case key =>
    intro hk
    obtain ⟨dataType, nullable⟩ := h.key hk
    obtain ⟨dataType', nullable'⟩ := h'.key hk
    exact ⟨dataType.trans dataType', nullable.trans nullable'⟩

/-- A column of the key has evolved like any other column, and more. -/
lemma outsideKey (h : a.Evolves key b) : a.Evolves false b :=
  { h with key := nofun }

end Column.Evolves

namespace Check

variable {a b : Column} {key : Bool}

lemma of_nullabilityChange (h : nullabilityChange a b key = .ok ()) :
    a.nullable = b.nullable ∨ key = false ∧ a.nullable = false := by
  unfold nullabilityChange at h
  split at h
  · rename_i e
    exact .inl e
  · split at h
    · cases h
    · rename_i hk
      exact .inr ⟨by simpa using hk, of_refuse h⟩

lemma of_typeChange (h : typeChange a b key = .ok ()) :
    a.dataType = b.dataType ∨ key = false ∧ a.dataType.widensTo b.dataType = true := by
  unfold typeChange at h
  split at h
  · rename_i e
    exact .inl e
  · split at h
    · cases h
    · rename_i hk
      exact .inr ⟨by simpa using hk, by simpa using of_refuse h⟩

lemma of_lengthChange (h : lengthChange a b = .ok ()) : a.length ≤ b.length := by
  obtain ⟨_, -, h⟩ := bind_ok h
  simpa using of_refuse h

lemma of_precisionChange (h : precisionChange a b = .ok ()) : a.precision ≤ b.precision := by
  obtain ⟨_, -, h⟩ := bind_ok h
  simpa using of_refuse h

/-- What may take the place of a column. -/
lemma of_columnChange (h : columnChange a b key = .ok ()) : a.Evolves key b := by
  obtain ⟨_, hnullable, h⟩ := bind_ok h
  obtain ⟨_, hscale, h⟩ := bind_ok h
  obtain ⟨_, htype, h⟩ := bind_ok h
  obtain ⟨_, hlength, h⟩ := bind_ok h
  have nullable := of_nullabilityChange hnullable
  have dataType := of_typeChange htype
  constructor
  case dataType => exact dataType.imp id And.right
  case nullable =>
    intro ha
    rcases nullable with e | ⟨-, none⟩
    · exact e ▸ ha
    · rw [ha] at none
      cases none
  case scale => simpa using of_refuse hscale
  case length => exact of_lengthChange hlength
  case precision => exact of_precisionChange h
  case key =>
    rintro rfl
    exact ⟨dataType.resolve_right nofun, nullable.resolve_right nofun⟩

end Check

/-! ## Tables -/

namespace Table

/-- What of a table no statement changes. -/
structure Keeps (t u : Table) : Prop where
  id : u.id = t.id
  name : u.name = t.name
  schemaId : u.schemaId = t.schemaId
  zoneId : u.zoneId = t.zoneId
  primaryKey : u.primaryKey = t.primaryKey
  colocation : u.colocation = t.colocation

/-- A table and what it has become by one statement. -/
structure Evolves (t u : Table) : Prop where
  keeps : t.Keeps u
  columns : ∀ n a b, t.column? n = some a → u.column? n = some b →
    a.Evolves (t.isKeyColumn n) b

variable {t u y : Table} {n : String} {a b : Column}

lemma Keeps.refl (t : Table) : t.Keeps t := ⟨rfl, rfl, rfl, rfl, rfl, rfl⟩

lemma Keeps.trans (h : t.Keeps u) (h' : u.Keeps y) : t.Keeps y :=
  ⟨h'.id.trans h.id, h'.name.trans h.name, h'.schemaId.trans h.schemaId, h'.zoneId.trans h.zoneId,
    h'.primaryKey.trans h.primaryKey, h'.colocation.trans h.colocation⟩

lemma isKeyColumn_iff : t.isKeyColumn n = true ↔ n ∈ t.primaryKey := List.contains_iff_mem

lemma Keeps.isKeyColumn (h : t.Keeps u) (n : String) : u.isKeyColumn n = t.isKeyColumn n := by
  rw [Table.isKeyColumn, h.primaryKey, Table.isKeyColumn]

lemma keeps_withColumns (t : Table) (columns : List Column) : t.Keeps (t.withColumns columns) :=
  ⟨rfl, rfl, rfl, rfl, rfl, rfl⟩

/-- A table whose columns are what they were, as far as there are any of their names. -/
lemma evolves_of_same {columns : List Column}
    (h : ∀ n a b, t.column? n = some a → (t.withColumns columns).column? n = some b → a = b) :
    t.Evolves (t.withColumns columns) := by
  refine ⟨t.keeps_withColumns columns, fun n a b ha hb => ?_⟩
  obtain rfl := h n a b ha hb
  exact .refl _ _

lemma Evolves.refl (t : Table) : t.Evolves t := by
  refine ⟨.refl t, fun n a b ha hb => ?_⟩
  rw [ha] at hb
  cases hb
  exact .refl _ _

lemma name_of_column? (h : t.column? n = some a) : a.name = n := by
  simpa using List.find?_some h

/-- Where columns are replaced by one of their name, they are found by the same names. -/
lemma column?_replaced (t : Table) (target : Column) (n : String) :
    (t.withColumns (t.columns.map fun col =>
        if col.name = target.name then target else col)).column? n =
      (t.column? n).map fun col => if col.name = target.name then target else col := by
  have names : (fun col : Column => decide (col.name = n)) ∘
      (fun col => if col.name = target.name then target else col) =
      fun col => decide (col.name = n) := by
    funext col
    simp only [Function.comp_apply]
    split
    · rename_i e
      rw [e]
    · rfl
  rw [column?, withColumns, List.find?_map, names]
  rfl

/-- New columns are behind the old ones, so that an old one is found before them. -/
lemma evolves_newColumns (t : Table) (columns : List Column) :
    t.Evolves (t.withColumns (t.columns ++ columns)) := by
  refine evolves_of_same fun n a b ha hb => ?_
  have ha : t.columns.find? (fun c => c.name = n) = some a := ha
  rw [column?, withColumns, List.find?_append, ha] at hb
  exact Option.some.inj hb

/-- A column that is not dropped is found as before, since those of its name stay. -/
lemma evolves_dropColumns (t : Table) (names : List String) :
    t.Evolves (t.withColumns (t.columns.filter fun col => !names.contains col.name)) := by
  refine evolves_of_same fun n a b ha hb => ?_
  have stays : names.contains n = false := by
    have kept := (List.mem_filter.1 (List.mem_of_find?_eq_some hb)).2
    rw [name_of_column? hb] at kept
    simpa using kept
  have same : (fun col : Column => decide ((!names.contains col.name) = true ∧
      decide (col.name = n) = true)) = fun col => decide (col.name = n) := by
    funext col
    by_cases e : col.name = n
    · simp only [e, stays, Bool.not_false, decide_true, and_self]
    · simp only [e, decide_false, Bool.false_eq_true, and_false]
  rw [column?, withColumns, List.find?_filter, same] at hb
  have ha : t.columns.find? (fun c => c.name = n) = some a := ha
  rw [ha] at hb
  exact Option.some.inj hb

/-- One column may be changed in place and the others stay. -/
lemma evolves_alterColumn {origin target : Column} (found : t.column? target.name = some origin)
    (allowed : Check.columnChange origin target (t.isKeyColumn target.name) = .ok ()) :
    t.Evolves (t.withColumns
      (t.columns.map fun col => if col.name = target.name then target else col)) := by
  refine ⟨t.keeps_withColumns _, fun n a b ha hb => ?_⟩
  rw [column?_replaced, ha] at hb
  rw [← Option.some.inj hb]
  dsimp only
  split
  · rename_i e
    obtain rfl : n = target.name := (name_of_column? ha).symm.trans e
    obtain rfl : origin = a := Option.some.inj (found.symm.trans ha)
    exact Check.of_columnChange allowed
  · exact .refl _ _

end Table

/-! ## Catalogs -/

namespace Catalog

variable {c d : Catalog} {t u : Table} {e : Entry}

lemma of_single (h : c.applyEntries [e] = .ok d) : c.applyEntry e = .ok d := by
  obtain ⟨b, hb, h⟩ := bind_ok h
  cases h
  exact hb

lemma tables_replaceTable (h : c.replaceTable t = .ok d) (hu : u ∈ d.tables) :
    u ∈ c.tables ∨ u = t := by
  obtain ⟨s, hs, rfl⟩ := of_replaceTable h
  obtain ⟨r, hr, held⟩ := mem_tables.1 hu
  rcases mem_put hr with rfl | ⟨hr, -⟩
  · rcases mem_replaceTable held with old | ⟨e, -⟩
    · exact .inl (mem_tables.2 ⟨s, hs, old⟩)
    · exact .inr e
  · exact .inl (mem_tables.2 ⟨r, hr, held⟩)

/-- A table after another one has taken the place of one of its number. -/
lemma evolves_replaceTable (ht : t ∈ c.tables) (he : t.Evolves u)
    (h : c.replaceTable u = .ok d) {y : Table} (hy : y ∈ d.tables) :
    ∃ x ∈ c.tables, x.Evolves y := by
  rcases tables_replaceTable h hy with hy | rfl
  · exact ⟨y, hy, .refl y⟩
  · exact ⟨t, ht, he⟩

/-- A table after a statement is new, or was there before and has only been changed in place. -/
lemma Becomes.tables (h : c.Becomes d) (wf : c.WellFormed) (hu : u ∈ d.tables) :
    (∃ t ∈ c.tables, t.Evolves u) ∨ c.counter ≤ u.id := by
  cases h with
  | intro v a entries applied =>
    cases Statement.plan entries with
    | addColumns hs ht =>
      have h := of_single applied
      rw [applyEntry, wf.keyed.existingTable hs ht] at h
      exact .inl
        (evolves_replaceTable (mem_tables.2 ⟨_, hs, ht⟩) (Table.evolves_newColumns _ _) h hu)
    | dropColumns hs ht =>
      have h := of_single applied
      rw [applyEntry, wf.keyed.existingTable hs ht] at h
      exact .inl
        (evolves_replaceTable (mem_tables.2 ⟨_, hs, ht⟩) (Table.evolves_dropColumns _ _) h hu)
    | alterColumn hs ht found allowed =>
      have h := of_single applied
      rw [applyEntry, wf.keyed.existingTable hs ht] at h
      have h := (if_pos (Option.isSome_of_mem found)).symm.trans h
      exact .inl (evolves_replaceTable (mem_tables.2 ⟨_, hs, ht⟩)
        (Table.evolves_alterColumn found allowed) h hu)
    | others fresh =>
      rcases applyEntries_tables applied (fun e he => (fresh e he).columns) hu with hu | hu
      · exact .inl ⟨u, hu, .refl u⟩
      · exact .inr ((fresh _ hu).ids _ _ rfl)

end Catalog

end SchemaCatalog
