import SchemaCatalog.History
import SchemaCatalog.Update.Fold
import SchemaCatalog.Event

/-!
# Handling committed updates

A committed update makes a catalog of the one before it. The new catalog becomes active when the
delay of the update after its commit is over, but never before the catalog that it follows. Updates
that were handled before are passed over, so that they can be delivered again.
-/

namespace SchemaCatalog

/-- When a catalog becomes active that is due at one time and follows one active from another. -/
def Timestamp.following (due previous : Timestamp) : Timestamp :=
  if due ≤ previous then previous.tick else due

/-- The catalog that an update with this time of commit makes of the one before it. -/
def Update.successor (u : Update) (commit : Timestamp) (previous : Catalog) :
    Except Error Catalog := do
  let c ← u.apply previous
  .ok (c.stamp u.version ((commit.add u.delay).following previous.activation))

/-- What the dispatcher of a node is told: that the events of a version are to be delivered, after
which the version is done. -/
structure Notice where
  version : Version
  events : List Event
  deriving Repr, DecidableEq

/-- The history after an update, and what to tell the dispatcher. -/
def History.handle (h : History) (u : Update) (commit : Timestamp) (token : Token) :
    Except Error (History × Notice) :=
  if (h.catalog? u.version).isSome then .ok (h, ⟨u.version, []⟩)
  else
    match u.version.prev?.bind h.catalog? with
    | none => .error (.invariant (.noPredecessor u.version))
    | some previous =>
      match u.successor commit previous with
      | .ok c => .ok (h.register c, ⟨u.version, u.events token⟩)
      | .error e => .error e

end SchemaCatalog
