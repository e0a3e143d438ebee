import SchemaCatalog.Statement.Basic
import Mathlib.Tactic.Lemma

/-!
# What a statement states

A statement states some properties of a zone or of a column and leaves the others out. What zones
and columns become is said here property by property, without regard to the functions that carry the
statements out: what is stated is taken over, and everything else is kept (`ZoneSpec.Alters`,
`AlterColumn.Alters`). Those functions do just that.
-/

namespace SchemaCatalog

/-- A property after a statement that may state it: what is stated, or else what it was. -/
inductive Stated {α : Type} (old : α) : Option α → α → Prop where
  | given {new : α} : Stated old (some new) new
  | kept : Stated old none old

section

variable {α : Type} {old new new' : α} {o : Option α}

lemma stated_getD : Stated old o (o.getD old) := by
  cases o with
  | none => exact .kept
  | some new => exact .given

lemma Stated.unique (h : Stated old o new) (h' : Stated old o new') : new = new' := by
  cases h with
  | given =>
    cases h'
    rfl
  | kept =>
    cases h'
    rfl

end

/-- A zone and what becomes of it by what is stated. Its number and its name stay. -/
structure ZoneSpec.Alters (p : ZoneSpec) (origin target : Zone) : Prop where
  id : target.id = origin.id
  name : target.name = origin.name
  partitions : Stated origin.partitions p.partitions target.partitions
  replicas : Stated origin.replicas p.replicas target.replicas
  autoAdjust : Stated origin.autoAdjust p.autoAdjust target.autoAdjust
  scaleUp : Stated origin.scaleUp p.scaleUp target.scaleUp
  scaleDown : Stated origin.scaleDown p.scaleDown target.scaleDown
  filter : Stated origin.filter p.filter target.filter

namespace ZoneSpec

variable {p : ZoneSpec} {origin target target' : Zone}

lemma alters_over (p : ZoneSpec) (origin : Zone) : p.Alters origin (p.over origin) where
  id := rfl
  name := rfl
  partitions := stated_getD
  replicas := stated_getD
  autoAdjust := stated_getD
  scaleUp := stated_getD
  scaleDown := stated_getD
  filter := stated_getD

/-- What is stated and what was there leave nothing open. -/
lemma Alters.unique (h : p.Alters origin target) (h' : p.Alters origin target') :
    target = target' := by
  cases target
  cases target'
  rw [Zone.mk.injEq]
  exact ⟨h.id.trans h'.id.symm, h.name.trans h'.name.symm, h.partitions.unique h'.partitions,
    h.replicas.unique h'.replicas, h.autoAdjust.unique h'.autoAdjust,
    h.scaleUp.unique h'.scaleUp, h.scaleDown.unique h'.scaleDown, h.filter.unique h'.filter⟩

end ZoneSpec

/-- A column and what becomes of it by what is stated. Its name stays. That it takes no nulls is
stated the other way round, and a default that is stated is there. -/
structure AlterColumn.Alters (a : AlterColumn) (origin target : Column) : Prop where
  name : target.name = origin.name
  dataType : Stated origin.dataType a.dataType target.dataType
  nullable : Stated origin.nullable (a.notNull.map not) target.nullable
  precision : Stated origin.precision a.precision target.precision
  scale : Stated origin.scale a.scale target.scale
  length : Stated origin.length a.length target.length
  default : Stated origin.default (a.default.map some) target.default

namespace AlterColumn

variable {a : AlterColumn} {origin target target' : Column}

lemma alters_over (a : AlterColumn) (origin : Column) : a.Alters origin (a.over origin) where
  name := rfl
  dataType := stated_getD
  nullable := by
    rw [AlterColumn.over]
    cases a.notNull with
    | none =>
      rw [Option.getD_none, Bool.not_not]
      exact .kept
    | some notNull => exact .given
  precision := stated_getD
  scale := stated_getD
  length := stated_getD
  default := by
    rw [AlterColumn.over]
    cases a.default with
    | none => exact .kept
    | some default => exact .given

/-- What is stated and what was there leave nothing open. -/
lemma Alters.unique (h : a.Alters origin target) (h' : a.Alters origin target') :
    target = target' := by
  cases target
  cases target'
  rw [Column.mk.injEq]
  exact ⟨h.name.trans h'.name.symm, h.dataType.unique h'.dataType, h.nullable.unique h'.nullable,
    h.precision.unique h'.precision, h.scale.unique h'.scale, h.length.unique h'.length,
    h.default.unique h'.default⟩

end AlterColumn

end SchemaCatalog
