import SchemaCatalog.Wire.Update

/-!
# The storage of a log

Committed updates are stored as bytes, in the order of their versions: the update of version `v` is
the `v`-th. An update is appended only if its version is the next one, so that of several writers
one wins each version.
-/

namespace SchemaCatalog

/-- A committed update with the time of its commit. -/
structure Stored where
  bytes : List UInt8
  commit : Timestamp
  token : Token
  deriving Repr, DecidableEq

/-- The committed updates, which all have versions. -/
structure Storage where
  entries : List Stored
  length_lt : entries.length < 18_446_744_073_709_551_616
  deriving Repr, DecidableEq

namespace Storage

/-- The storage without updates. -/
def empty : Storage := ⟨[], by decide⟩

/-- The version of the last committed update. -/
def committed (s : Storage) : Version := ⟨⟨s.entries.length, s.length_lt⟩⟩

/-- Whether an update is the next one. -/
def accepts (s : Storage) (u : Update) : Prop := u.version.number.val = s.entries.length + 1

instance (s : Storage) (u : Update) : Decidable (s.accepts u) :=
  inferInstanceAs (Decidable (u.version.number.val = s.entries.length + 1))

/-- An update as it is stored. -/
def stored (u : Update) (commit : Timestamp) : Stored := ⟨u.encode, commit, ⟨u.version.number⟩⟩

/-- The storage with the next update behind the others. -/
def append (s : Storage) (u : Update) (commit : Timestamp) (h : s.accepts u) : Storage :=
  ⟨s.entries ++ [stored u commit], by
    rw [List.length_append, List.length_singleton, ← (h : _ = _)]
    exact u.version.number.isLt⟩

/-- The committed update of a version. -/
def update? (s : Storage) (v : Version) : Except Error (Option Update) :=
  match v.prev? with
  | none => .ok none
  | some p =>
    match s.entries[p.number.val]? with
    | none => .ok none
    | some e => (Update.decode e.bytes).map some

end Storage

end SchemaCatalog
