import SchemaCatalog.Proofs.Fold
import SchemaCatalog.Statement.Entries

/-!
# Why statements are refused

A statement that is checked against a catalog fails with the error of a check, or runs out of
numbers for its objects. A check is built of single refusals, so what holds of those and is kept
when one check follows another holds of all of them.
-/

namespace SchemaCatalog

/-- All errors of a computation are those of checks. -/
def Checked {α : Type} (x : Except Error α) : Prop := ∀ e, x = .error e → e.isValidation = true

namespace Checked

variable {α β : Type} {e : Error}

@[simp] lemma ok (a : α) : Checked (.ok a) := nofun

@[simp] lemma error : Checked (α := α) (.error e) ↔ e.isValidation = true := by
  constructor
  · exact fun h => h e rfl
  · rintro h e' h'
    cases h'
    exact h

/-- One check follows another. -/
lemma bind {x : Except Error α} {k : α → Except Error β} (hx : Checked x)
    (hk : ∀ a, Checked (k a)) : Checked (x >>= k) := by
  intro e he
  rcases bind_error he with he | ⟨a, -, he⟩
  · exact hx e he
  · exact hk a e he

end Checked

namespace Check

lemma checked_refuse {fault : Bool} {e : Error} (h : e.isValidation = true) :
    Checked (refuse fault e) := by
  unfold refuse
  split
  · exact Checked.error.2 h
  · exact .ok ()

lemma checked_distinct (names : List String) (fault : String → DefinitionFault) :
    Checked (distinct names fault) := by
  unfold distinct
  split
  · exact Checked.error.2 rfl
  · exact .ok ()

lemma checked_schema (c : Catalog) (o : Option String) : Checked (schema c o) := by
  unfold schema
  dsimp only
  split
  · exact .ok _
  · exact Checked.error.2 rfl

lemma checked_table (s : Schema) (name : String) : Checked (table s name) := by
  unfold table
  split
  · exact .ok _
  · exact Checked.error.2 rfl

lemma checked_index (s : Schema) (name : String) : Checked (index s name) := by
  unfold index
  split
  · exact .ok _
  · exact Checked.error.2 rfl

lemma checked_zone (c : Catalog) (name : String) : Checked (zone c name) := by
  unfold zone
  split
  · exact .ok _
  · exact Checked.error.2 rfl

lemma checked_column (t : Table) (name : String) : Checked (column t name) := by
  unfold column
  split
  · exact .ok _
  · exact Checked.error.2 rfl

lemma checked_colocation (key : List String) (o : Option (List String)) :
    Checked (colocation key o) := by
  cases o with
  | none => exact .ok ()
  | some names => exact (checked_distinct _ _).bind fun _ => checked_refuse rfl

lemma checked_tableDefinition (p : CreateTable) : Checked (tableDefinition p) := by
  refine (checked_refuse rfl).bind fun _ => ?_
  refine (checked_distinct _ _).bind fun _ => ?_
  refine (checked_refuse rfl).bind fun _ => ?_
  split
  · exact Checked.error.2 rfl
  · exact (checked_distinct _ _).bind fun _ => checked_colocation _ _

lemma checked_allColumns (t : Table) (names : List String) : Checked (allColumns t names) := by
  induction names with
  | nil => exact .ok ()
  | cons n ns ih => exact (checked_column t n).bind fun _ => ih

lemma checked_indexColumns (t : Table) (names : List String) : Checked (indexColumns t names) :=
  (checked_refuse rfl).bind fun _ =>
    (checked_allColumns t names).bind fun _ => checked_distinct _ _

lemma checked_newColumns (t : Table) (seen names : List String) :
    Checked (newColumns t seen names) := by
  induction names generalizing seen with
  | nil => exact .ok ()
  | cons n ns ih => exact (checked_refuse rfl).bind fun _ => ih _

lemma checked_droppedColumns (t : Table) (names : List String) :
    Checked (droppedColumns t names) := by
  induction names with
  | nil => exact .ok ()
  | cons n ns ih => exact (checked_column t n).bind fun _ => (checked_refuse rfl).bind fun _ => ih

lemma checked_notIndexed (names : List String) (l : List Index) : Checked (notIndexed names l) := by
  induction l with
  | nil => exact .ok ()
  | cons i l ih =>
    rw [notIndexed]
    split
    · exact Checked.error.2 rfl
    · exact ih

lemma checked_nullabilityChange (origin target : Column) (key : Bool) :
    Checked (nullabilityChange origin target key) := by
  unfold nullabilityChange
  split
  · exact .ok ()
  · split
    · exact Checked.error.2 rfl
    · exact checked_refuse rfl

lemma checked_typeChange (origin target : Column) (key : Bool) :
    Checked (typeChange origin target key) := by
  unfold typeChange
  split
  · exact .ok ()
  · split
    · exact Checked.error.2 rfl
    · exact checked_refuse rfl

lemma checked_columnChange (origin target : Column) (key : Bool) :
    Checked (columnChange origin target key) := by
  refine (checked_nullabilityChange _ _ _).bind fun _ => ?_
  refine (checked_refuse rfl).bind fun _ => ?_
  refine (checked_typeChange _ _ _).bind fun _ => ?_
  refine ((checked_refuse rfl).bind fun _ => checked_refuse rfl).bind fun _ => ?_
  exact (checked_refuse rfl).bind fun _ => checked_refuse rfl

lemma checked_zoneDefinition (z : Zone) : Checked (zoneDefinition z) := by
  refine (checked_refuse rfl).bind fun _ => ?_
  refine (checked_refuse rfl).bind fun _ => ?_
  refine (checked_refuse rfl).bind fun _ => ?_
  exact (checked_refuse rfl).bind fun _ => checked_refuse rfl

end Check

namespace Entries

open Check

lemma checked_dropTable (c : Catalog) (schema : Option String) (table : String) :
    Checked (dropTable c schema table) :=
  (checked_schema _ _).bind fun _ => (checked_table _ _).bind fun _ => .ok _

lemma checked_addColumns (c : Catalog) (schema : Option String) (table : String)
    (columns : List ColumnSpec) : Checked (addColumns c schema table columns) :=
  (checked_schema _ _).bind fun _ => (checked_table _ _).bind fun _ =>
    (checked_newColumns _ _ _).bind fun _ => .ok _

lemma checked_dropColumns (c : Catalog) (schema : Option String) (table : String)
    (names : List String) : Checked (dropColumns c schema table names) :=
  (checked_schema _ _).bind fun _ => (checked_table _ _).bind fun _ =>
    (checked_droppedColumns _ _).bind fun _ => (checked_notIndexed _ _).bind fun _ => .ok _

lemma checked_alterColumn (c : Catalog) (a : AlterColumn) : Checked (alterColumn c a) := by
  refine (checked_schema _ _).bind fun s => ?_
  refine (checked_table _ _).bind fun t => ?_
  refine (checked_column _ _).bind fun origin => ?_
  dsimp only
  split
  · exact .ok _
  · exact (checked_columnChange _ _ _).bind fun _ => .ok _

lemma checked_createHashIndex (c : Catalog) (p : CreateHashIndex) :
    Checked (createHashIndex c p) :=
  (checked_schema _ _).bind fun _ => (checked_refuse rfl).bind fun _ =>
    (checked_table _ _).bind fun _ => (checked_indexColumns _ _).bind fun _ => .ok _

lemma checked_createSortedIndex (c : Catalog) (p : CreateSortedIndex) :
    Checked (createSortedIndex c p) :=
  (checked_schema _ _).bind fun _ => (checked_refuse rfl).bind fun _ =>
    (checked_table _ _).bind fun _ => (checked_indexColumns _ _).bind fun _ =>
      (checked_refuse rfl).bind fun _ => .ok _

lemma checked_dropIndex (c : Catalog) (schema : Option String) (index : String) :
    Checked (dropIndex c schema index) :=
  (checked_schema _ _).bind fun _ => (checked_index _ _).bind fun _ => .ok _

lemma checked_createZone (c : Catalog) (name : String) (p : ZoneSpec) :
    Checked (createZone c name p) :=
  (checked_refuse rfl).bind fun _ => (checked_refuse rfl).bind fun _ =>
    (checked_zoneDefinition _).bind fun _ => .ok _

lemma checked_alterZone (c : Catalog) (name : String) (p : ZoneSpec) :
    Checked (alterZone c name p) :=
  (checked_refuse rfl).bind fun _ => (checked_zone _ _).bind fun _ =>
    (checked_zoneDefinition _).bind fun _ => .ok _

lemma checked_renameZone (c : Catalog) (name newName : String) :
    Checked (renameZone c name newName) :=
  (checked_refuse rfl).bind fun _ => (checked_refuse rfl).bind fun _ =>
    (checked_zone _ _).bind fun _ => (checked_refuse rfl).bind fun _ =>
      (checked_refuse rfl).bind fun _ => .ok _

lemma checked_dropZone (c : Catalog) (name : String) : Checked (dropZone c name) := by
  refine (checked_refuse rfl).bind fun _ => ?_
  refine (checked_zone _ _).bind fun z => ?_
  refine (checked_refuse rfl).bind fun _ => ?_
  split
  · exact Checked.error.2 rfl
  · exact .ok _

variable {α : Type} {e : Error}

/-- An error that ends a computation was the error of the check before it. -/
lemma of_orFail_bind {β : Type} {x : Except Error α} {k : α → Except Abort β}
    (h : (orFail x >>= k) = .error (.failed e)) :
    x = .error e ∨ ∃ a, k a = .error (.failed e) := by
  cases x with
  | error e' =>
    cases h
    exact .inl rfl
  | ok a => exact .inr ⟨a, h⟩

lemma createTable_error {c : Catalog} {p : CreateTable}
    (h : createTable c p = .error (.failed e)) : e.isValidation = true := by
  rcases of_orFail_bind h with h | ⟨s, h⟩
  · exact checked_schema _ _ e h
  rcases of_orFail_bind h with h | ⟨_, h⟩
  · exact checked_refuse rfl e h
  rcases of_orFail_bind h with h | ⟨_, h⟩
  · exact checked_tableDefinition p e h
  rcases of_orFail_bind h with h | ⟨_, h⟩
  · exact checked_refuse rfl e h
  rcases of_orFail_bind h with h | ⟨z, h⟩
  · exact checked_zone _ _ e h
  · split at h
    · cases h
    · cases h

lemma orFail_error {x : Except Error α} (hx : Checked x) (h : orFail x = .error (.failed e)) :
    e.isValidation = true := by
  cases x with
  | error e' =>
    cases h
    exact hx e rfl
  | ok a => cases h

end Entries

/-- The error for which a statement is refused is one of a check. -/
theorem Statement.entries_error {st : Statement} {c : Catalog} {e : Error}
    (h : st.entries c = .error (.failed e)) : e.isValidation = true := by
  cases st with
  | createTable p => exact Entries.createTable_error h
  | dropTable => exact Entries.orFail_error (Entries.checked_dropTable _ _ _) h
  | addColumns => exact Entries.orFail_error (Entries.checked_addColumns _ _ _ _) h
  | dropColumns => exact Entries.orFail_error (Entries.checked_dropColumns _ _ _ _) h
  | alterColumn => exact Entries.orFail_error (Entries.checked_alterColumn _ _) h
  | createHashIndex => exact Entries.orFail_error (Entries.checked_createHashIndex _ _) h
  | createSortedIndex => exact Entries.orFail_error (Entries.checked_createSortedIndex _ _) h
  | dropIndex => exact Entries.orFail_error (Entries.checked_dropIndex _ _ _) h
  | createZone => exact Entries.orFail_error (Entries.checked_createZone _ _ _) h
  | alterZone => exact Entries.orFail_error (Entries.checked_alterZone _ _ _) h
  | renameZone => exact Entries.orFail_error (Entries.checked_renameZone _ _ _) h
  | dropZone => exact Entries.orFail_error (Entries.checked_dropZone _ _) h

end SchemaCatalog
