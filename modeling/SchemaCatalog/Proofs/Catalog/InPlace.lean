import SchemaCatalog.Proofs.Catalog.Evolution
import SchemaCatalog.Proofs.Catalog.Exactness
import SchemaCatalog.Proofs.Catalog.Stated

/-!
# Columns changed in place

A column may be changed in place to a wider one, and the checks of such a change let through exactly
what `Column.MayBecome` says, whatever the order in which they look at the properties of the column.
A change that was made is not made again: stated once more it finds the column as it wants it. What
a statement wants of a column is `AlterColumn.Alters`.
-/

namespace SchemaCatalog

namespace DataType

/-- The number of bits of an integer type. -/
def bits? : DataType → Option Nat
  | int8 => some 8
  | int16 => some 16
  | int32 => some 32
  | int64 => some 64
  | _ => none

/-- The second type has all values of the first one: an integer type of more bits, or doubles where
there were floats. -/
inductive Widens : DataType → DataType → Prop where
  | integer {a b : DataType} {m n : Nat} :
      a.bits? = some m → b.bits? = some n → m < n → Widens a b
  | floating : Widens float double

lemma widensTo_iff {a b : DataType} : a.widensTo b = true ↔ a.Widens b := by
  constructor
  · intro h
    cases a <;> cases b <;> cases h <;>
      first | exact .floating | exact .integer rfl rfl (by decide)
  · intro h
    cases h with
    | integer ha hb lt =>
      cases a <;> cases ha <;> cases b <;> cases hb <;> first | rfl | exact absurd lt (by decide)
    | floating => rfl

lemma hasLength_iff {a : DataType} : a.hasLength = true ↔ a = string ∨ a = byteArray := by
  cases a <;> simp [hasLength]

lemma hasPrecision_iff {a : DataType} : a.hasPrecision = true ↔ a = decimal := by
  cases a <;> simp [hasPrecision]

end DataType

/-- What a column may be changed to in place, within the primary key of its table or outside it. -/
structure Column.MayBecome (key : Prop) (origin target : Column) : Prop where
  scale : target.scale = origin.scale
  dataType : target.dataType = origin.dataType ∨ origin.dataType.Widens target.dataType
  length : origin.length ≤ target.length
  hasLength : target.length ≠ origin.length →
    target.dataType = .string ∨ target.dataType = .byteArray
  precision : origin.precision ≤ target.precision
  hasPrecision : target.precision ≠ origin.precision → target.dataType = .decimal
  nullable : target.nullable = origin.nullable ∨ origin.nullable = false ∧ target.nullable = true
  key : key → target.dataType = origin.dataType ∧ target.nullable = origin.nullable

/-! ## The checks of a change -/

namespace Check

variable {origin target : Column} {key b : Bool} {e e' : Error}

lemma refuse_error (h : refuse b e = .error e') : e' = e := by
  cases b with
  | false => cases h
  | true =>
    cases h
    rfl

lemma nullabilityChange_eq_ok : nullabilityChange origin target key = .ok () ↔
    target.nullable = origin.nullable ∨
      key = false ∧ origin.nullable = false ∧ target.nullable = true := by
  unfold nullabilityChange
  cases origin.nullable <;> cases target.nullable <;> cases key <;> simp [refuse]

lemma typeChange_eq_ok : typeChange origin target key = .ok () ↔
    target.dataType = origin.dataType ∨
      key = false ∧ origin.dataType.Widens target.dataType := by
  rw [← DataType.widensTo_iff]
  unfold typeChange
  by_cases same : origin.dataType = target.dataType
  · simp [same]
  · cases key <;> simp [same, Ne.symm same, refuse_eq_ok]

/-- A measure may grow where there is one. -/
lemma growth_eq_ok {a b : Word32} {given : Bool} :
    (do refuse (a ≠ b && !given) e; refuse (b < a) e') = .ok () ↔
      a ≤ b ∧ (b ≠ a → given = true) := by
  rw [bind_eq_ok, refuse_eq_ok, refuse_eq_ok]
  by_cases same : a = b
  · simp [same]
  · simp [same, Ne.symm same, and_comm]

lemma lengthChange_eq_ok : lengthChange origin target = .ok () ↔
    origin.length ≤ target.length ∧
      (target.length ≠ origin.length →
        target.dataType = .string ∨ target.dataType = .byteArray) := by
  rw [← DataType.hasLength_iff]
  exact growth_eq_ok

lemma precisionChange_eq_ok : precisionChange origin target = .ok () ↔
    origin.precision ≤ target.precision ∧
      (target.precision ≠ origin.precision → target.dataType = .decimal) := by
  rw [← DataType.hasPrecision_iff]
  exact growth_eq_ok

/-- The checks of a change let through what a column may become. -/
lemma columnChange_eq_ok :
    columnChange origin target key = .ok () ↔ origin.MayBecome (key = true) target := by
  unfold columnChange
  rw [bind_eq_ok, bind_eq_ok, bind_eq_ok, bind_eq_ok, nullabilityChange_eq_ok, refuse_eq_ok,
    typeChange_eq_ok, lengthChange_eq_ok, precisionChange_eq_ok]
  constructor
  · rintro ⟨nullable, scale, dataType, ⟨length, hasLength⟩, precision, hasPrecision⟩
    have scale : origin.scale = target.scale := by simpa using scale
    refine ⟨scale.symm, dataType.imp_right And.right, length, hasLength, precision, hasPrecision,
      nullable.imp_right And.right, ?_⟩
    rintro rfl
    exact ⟨dataType.resolve_right nofun, nullable.resolve_right nofun⟩
  · intro h
    refine ⟨?_, by simpa using h.scale.symm, ?_, ⟨h.length, h.hasLength⟩, h.precision,
      h.hasPrecision⟩
    · cases key with
      | false => exact h.nullable.imp_right fun given => ⟨rfl, given⟩
      | true => exact .inl (h.key rfl).2
    · cases key with
      | false => exact h.dataType.imp_right fun widens => ⟨rfl, widens⟩
      | true => exact .inl (h.key rfl).1

/-- What is wrong with a change is always said to be the change of the column. -/
lemma columnChange_error (h : columnChange origin target key = .error e) :
    ∃ fault, e = .unsupportedColumnChange fault := by
  rcases bind_error h with h | ⟨_, -, h⟩
  · unfold nullabilityChange at h
    split at h
    · cases h
    · split at h
      · cases h
        exact ⟨_, rfl⟩
      · exact ⟨_, refuse_error h⟩
  rcases bind_error h with h | ⟨_, -, h⟩
  · exact ⟨_, refuse_error h⟩
  rcases bind_error h with h | ⟨_, -, h⟩
  · unfold typeChange at h
    split at h
    · cases h
    · split at h
      · cases h
        exact ⟨_, rfl⟩
      · exact ⟨_, refuse_error h⟩
  rcases bind_error h with h | ⟨_, -, h⟩ <;> rcases bind_error h with h | ⟨_, -, h⟩ <;>
    exact ⟨_, refuse_error h⟩

end Check

/-! ## Columns of a changed table -/

/-- What was stated about a column is not changed by stating it again. -/
lemma AlterColumn.over_over (a : AlterColumn) (c : Column) : a.over (a.over c) = a.over c := by
  obtain ⟨_, _, _, dataType, notNull, precision, scale, length, default⟩ := a
  cases dataType <;> cases notNull <;> cases precision <;> cases scale <;> cases length <;>
    cases default <;> simp [AlterColumn.over]

namespace Table

variable {t : Table} {target origin : Column} {n : String}

/-- The table with a column in the place of the ones of its name. -/
def alterColumn (t : Table) (target : Column) : Table :=
  t.withColumns (t.columns.map fun col => if col.name = target.name then target else col)

/-- Columns are found where they were, and the replaced ones are replaced. -/
lemma column?_alterColumn (t : Table) (target : Column) (n : String) :
    (t.alterColumn target).column? n =
      (t.column? n).map fun col => if col.name = target.name then target else col :=
  t.column?_replaced target n

lemma column?_alterColumn_self (found : t.column? n = some origin) (e : target.name = origin.name) :
    (t.alterColumn target).column? n = some target := by
  rw [column?_alterColumn, found, Option.map_some, if_pos e.symm]

lemma column?_alterColumn_of_ne (ne : n ≠ target.name) :
    (t.alterColumn target).column? n = t.column? n := by
  rw [column?_alterColumn]
  cases found : t.column? n with
  | none => rfl
  | some col =>
    have named := name_of_column? found
    rw [Option.map_some, if_neg (named ▸ ne)]

end Table

/-! ## The statement -/

namespace Entries

variable {c : Catalog} {a : AlterColumn} {s : Schema} {t : Table} {origin : Column}

/-- What a change in place comes to where it finds its column. -/
lemma alterColumn_eq (hs : c.schema? (a.schema.getD Schema.defaultName) = some s)
    (ht : s.table? a.table = some t) (ho : t.column? a.column = some origin) :
    alterColumn c a =
      if a.over origin = origin then .ok []
      else (do
        Check.columnChange origin (a.over origin) (t.isKeyColumn origin.name)
        .ok [.alterColumn t.id (a.over origin)]) := by
  simp only [alterColumn, Check.schema_eq_ok.2 hs, Check.table_eq_ok.2 ht, Check.column_eq_ok.2 ho,
    bind, Except.bind]

/-- A change that was made finds its column as it wants it: the schema, the table and the column are
found by their names in what is now in their place. -/
lemma alterColumn_again (h : c.Keyed)
    (hs : c.schema? (a.schema.getD Schema.defaultName) = some s) (ht : s.table? a.table = some t)
    (ho : t.column? a.column = some origin) :
    ∃ d, c.applyEntries [.alterColumn t.id (a.over origin)] = .ok d ∧
      ∀ (v : Version) (time : Timestamp), alterColumn (d.stamp v time) a = .ok [] := by
  have mem := List.mem_of_find?_eq_some hs
  have named : (a.over origin).name = a.column := Table.name_of_column? (a := origin) ho
  have found : (t.column? (a.over origin).name).isSome := by
    rw [named, ho]
    rfl
  have changed := h.alterColumn mem (List.mem_of_find?_eq_some ht) found
  refine ⟨_, Catalog.applyEntries_cons changed [], fun v time => ?_⟩
  have schema := h.schema_put (s.replaceTable (t.alterColumn (a.over origin))) c.counter hs rfl rfl
    rfl v time
  have table : (s.replaceTable (t.alterColumn (a.over origin))).table? a.table =
      some (t.alterColumn (a.over origin)) :=
    find?_replace (h.tableIds_of_mem mem) ht rfl rfl
  have again := alterColumn_eq (Check.schema_eq_ok.1 schema) table
    (Table.column?_alterColumn_self ho rfl)
  rw [if_pos (a.over_over origin)] at again
  exact again

end Entries

/-- A column is changed in place exactly where it may be, and once.

Let the numbers of a catalog be distinct, and let a statement name a column of it. There is a column
that this one becomes by what is stated, property by property. The statement yields no entries if
that is the column itself. Otherwise it yields the one entry that changes the column to it if the
column may become that, and is refused for the change of the column if not. After the change,
whatever version that catalog became, the same statement yields no entries. -/
theorem Statement.alterColumn_exact {c : Catalog} (h : c.Keyed) {a : AlterColumn} {s : Schema}
    {t : Table} {origin : Column}
    (hs : c.schema? (a.schema.getD Schema.defaultName) = some s) (ht : s.table? a.table = some t)
    (ho : t.column? a.column = some origin) :
    ∃ target, a.Alters origin target ∧
      ((Statement.alterColumn a).entries c = .ok [] ↔ target = origin) ∧
      (target ≠ origin →
        ((Statement.alterColumn a).entries c = .ok [.alterColumn t.id target] ↔
          origin.MayBecome (origin.name ∈ t.primaryKey) target) ∧
        (¬ origin.MayBecome (origin.name ∈ t.primaryKey) target →
          ∃ fault, (Statement.alterColumn a).entries c =
            .error (.failed (.unsupportedColumnChange fault))) ∧
        (origin.MayBecome (origin.name ∈ t.primaryKey) target →
          ∃ d, c.applyEntries [.alterColumn t.id target] = .ok d ∧
            ∀ (v : Version) (time : Timestamp),
              (Statement.alterColumn a).entries (d.stamp v time) = .ok [])) := by
  have yields := Entries.alterColumn_eq hs ht ho
  refine ⟨a.over origin, a.alters_over origin, ?_⟩
  by_cases same : a.over origin = origin
  · rw [if_pos same] at yields
    refine ⟨⟨fun _ => same, fun _ => ?_⟩, fun changes => absurd same changes⟩
    exact congrArg Entries.orFail yields
  rw [if_neg same] at yields
  have key : (t.isKeyColumn origin.name = true) = (origin.name ∈ t.primaryKey) :=
    propext Table.isKeyColumn_iff
  -- The check of the change decides, which passes where the column may become the target.
  have check : Check.columnChange origin (a.over origin) (t.isKeyColumn origin.name) = .ok () ↔
      origin.MayBecome (origin.name ∈ t.primaryKey) (a.over origin) :=
    key ▸ Check.columnChange_eq_ok
  cases checked : Check.columnChange origin (a.over origin) (t.isKeyColumn origin.name) with
  | error e =>
    obtain ⟨fault, rfl⟩ := Check.columnChange_error checked
    rw [checked] at yields
    have refused : (Statement.alterColumn a).entries c =
        .error (.failed (.unsupportedColumnChange fault)) := congrArg Entries.orFail yields
    have mayNot : ¬ origin.MayBecome (origin.name ∈ t.primaryKey) (a.over origin) := by
      rw [← check, checked]
      exact nofun
    rw [refused]
    refine ⟨⟨nofun, fun e => absurd e same⟩, fun _ => ⟨⟨nofun, ?_⟩, fun _ => ⟨fault, rfl⟩, ?_⟩⟩
    · exact fun may => absurd may mayNot
    · exact fun may => absurd may mayNot
  | ok =>
    rw [checked] at yields
    have accepted : (Statement.alterColumn a).entries c =
        .ok [.alterColumn t.id (a.over origin)] := congrArg Entries.orFail yields
    have may := check.1 checked
    obtain ⟨d, applied, again⟩ := Entries.alterColumn_again h hs ht ho
    rw [accepted]
    refine ⟨⟨nofun, fun e => absurd e same⟩, fun _ =>
      ⟨⟨fun _ => may, fun _ => rfl⟩, fun mayNot => absurd may mayNot, fun _ => ?_⟩⟩
    exact ⟨d, applied, fun v time => congrArg Entries.orFail (again v time)⟩

/-- The initial catalog with the table `T` of the columns `ID` and `VAL`. -/
def Catalog.withT : Catalog :=
  (Catalog.initial.put
    (((Schema.ofName defaultSchemaId Schema.defaultName).addTable
      ((CreateTable.simple "T").tableIn firstFreeId defaultSchemaId defaultZoneId)).addIndex
      ((CreateTable.simple "T").keyIndex 3 firstFreeId))).withCounter 4

lemma Catalog.withT_wellFormed : withT.WellFormed := by
  have yields : (Statement.createTable (.simple "T")).entries initial = .ok _ := rfl
  obtain ⟨d, applied, wf⟩ := (Statement.admits initial_wellFormed yields).ok (by decide)
  have applied : Except.ok withT = .ok d := applied
  cases applied
  exact wf

/-- A longer `VAL`. -/
def AlterColumn.longer : AlterColumn where
  schema := none
  table := "T"
  column := "VAL"
  dataType := none
  notNull := none
  precision := none
  scale := none
  length := some 70000
  default := none

theorem Statement.alterColumn_exact_longer :
    (Statement.alterColumn .longer).entries Catalog.withT =
        .ok [.alterColumn 2 ⟨"VAL", .string, true, 0, 0, 70000, none⟩] ∧
      ∃ d, Catalog.withT.applyEntries
          [.alterColumn 2 ⟨"VAL", .string, true, 0, 0, 70000, none⟩] = .ok d ∧
        ∀ (v : Version) (time : Timestamp),
          (Statement.alterColumn .longer).entries (d.stamp v time) = .ok [] := by
  obtain ⟨target, stated, -, changes⟩ :=
    Statement.alterColumn_exact (a := .longer) Catalog.withT_wellFormed.keyed rfl rfl rfl
  have longer : AlterColumn.longer.Alters ⟨"VAL", .string, true, 0, 0, 65536, none⟩
      ⟨"VAL", .string, true, 0, 0, 70000, none⟩ :=
    ⟨rfl, .kept, .kept, .kept, .kept, .given, .kept⟩
  obtain rfl := stated.unique longer
  obtain ⟨exact, -, again⟩ := changes (by decide)
  have may := exact.1 (by rfl)
  exact ⟨exact.2 may, again may⟩

end SchemaCatalog
