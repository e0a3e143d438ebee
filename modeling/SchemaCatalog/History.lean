import SchemaCatalog.Catalog

/-!
# The history of a catalog

A node keeps every catalog it ever registered, and finds one by its version or by a time at which it
is active. The catalog active at a time is the one with the greatest activation that is not after
it.
-/

namespace SchemaCatalog

/-- The registered catalogs, by version and by activation. -/
structure History where
  byVersion : NatMap Catalog
  byActivation : NatMap Catalog
  deriving Repr, DecidableEq

namespace History

/-- The history without catalogs. -/
def empty : History := ⟨NatMap.empty, NatMap.empty⟩

/-- The history with one more catalog. -/
def register (h : History) (c : Catalog) : History :=
  ⟨h.byVersion.insert c.version.number.val c, h.byActivation.insert c.activation.raw.val c⟩

/-- The catalog of a version. -/
def catalog? (h : History) (v : Version) : Option Catalog := h.byVersion.get? v.number.val

/-- The catalog active at a time. -/
def catalogAt (h : History) (t : Timestamp) : Except Error Catalog :=
  match h.byActivation.floor? t.raw.val with
  | some c => .ok c
  | none => .error (.invariant (.nothingActive t))

/-- The catalog of the greatest version. -/
def latest? (h : History) : Option Catalog := h.byVersion.last?

/-- The catalog of the greatest version, which a started node has. -/
def latest (h : History) : Except Error Catalog :=
  match h.latest? with
  | some c => .ok c
  | none => .error (.invariant .notStarted)

/-- The number of registered versions. -/
def size (h : History) : Nat := h.byVersion.size

/-- A catalog registered last is the one of its version, and no other version is touched. -/
theorem catalog?_register (h : History) (c : Catalog) (v : Version) :
    (h.register c).catalog? v = if v = c.version then some c else h.catalog? v := by
  rw [catalog?, register, NatMap.get?_insert]
  by_cases hv : v = c.version
  · rw [if_pos hv, if_pos (by rw [hv])]
  · rw [if_neg hv, if_neg (fun e => hv (Version.ext_val e))]
    rfl

end History

end SchemaCatalog
