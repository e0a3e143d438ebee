import SchemaCatalog.Word

/-!
# Catalog versions

Versions number the catalogs of a history without gaps, from 0. A token names the update that
caused an event.
-/

namespace SchemaCatalog

/-- The number of a catalog. -/
structure Version where
  number : Word64
  deriving Repr, DecidableEq

namespace Version

/-- The version of the catalog that every history begins with. -/
def initial : Version := ⟨0⟩

instance : Inhabited Version := ⟨initial⟩

instance : LT Version := ⟨fun a b => a.number < b.number⟩

instance : LE Version := ⟨fun a b => a.number ≤ b.number⟩

instance : DecidableLT Version := fun a b => inferInstanceAs (Decidable (a.number < b.number))

instance : DecidableLE Version := fun a b => inferInstanceAs (Decidable (a.number ≤ b.number))

theorem lt_def (a b : Version) : a < b ↔ a.number.val < b.number.val := Iff.rfl

theorem le_def (a b : Version) : a ≤ b ↔ a.number.val ≤ b.number.val := Iff.rfl

theorem ext_val {a b : Version} (h : a.number.val = b.number.val) : a = b := by
  cases a; cases b; exact congrArg Version.mk (Fin.ext h)

/-- The version after this one. The largest version has none. -/
def next? (v : Version) : Option Version := (Word64.ofNat? (v.number.val + 1)).map Version.mk

/-- The version before this one. The initial version has none. -/
def prev? (v : Version) : Option Version :=
  if v.number.val = 0 then none else some ⟨⟨v.number.val - 1, by omega⟩⟩

/-- The decimal digits of the version. -/
def text (v : Version) : String := toString v.number.val

end Version

/-- The position in the log of the update that caused an event. -/
structure Token where
  number : Word64
  deriving Repr, DecidableEq

end SchemaCatalog
