import SchemaCatalog.Wire.Format
import SchemaCatalog.Update.Entry

/-!
# The wire format of updates

Updates are stored and exchanged as bytes. The fields of a value stand in the order of its
definition, with nothing between them, and alternatives are numbered in the order of theirs.
-/

namespace SchemaCatalog.Wire

namespace Format

/-- Data types by their number. -/
def dataType : Format DataType := cases (DataType.all.map Case.only)

/-- Defaults of columns. -/
def defaultValue : Format DefaultValue :=
  cases
    [⟨text, .constant, fun | .constant s => some s | _ => none⟩,
      ⟨text, .functionCall, fun | .functionCall s => some s | _ => none⟩]

/-- Columns. -/
def column : Format Column :=
  (pair text (pair dataType (pair bool (pair word32 (pair word32 (pair word32
    (option defaultValue))))))).via
    (fun (name, dataType, nullable, precision, scale, length, default) =>
      ⟨name, dataType, nullable, precision, scale, length, default⟩)
    (fun c => (c.name, c.dataType, c.nullable, c.precision, c.scale, c.length, c.default))

/-- Tables. -/
def table : Format Table :=
  (pair word32 (pair word32 (pair word32 (pair text (pair (list column) (pair (list text)
    (list text))))))).via
    (fun (id, schemaId, zoneId, name, columns, primaryKey, colocation) =>
      ⟨id, schemaId, zoneId, name, columns, primaryKey, colocation⟩)
    (fun t => (t.id, t.schemaId, t.zoneId, t.name, t.columns, t.primaryKey, t.colocation))

/-- Collations by their number. -/
def collation : Format Collation :=
  cases
    [Case.only .ascNullsFirst, Case.only .ascNullsLast, Case.only .descNullsFirst,
      Case.only .descNullsLast]

/-- Columns of sorted indexes. -/
def sortedColumn : Format SortedColumn :=
  (pair text collation).via (fun (name, collation) => ⟨name, collation⟩)
    (fun c => (c.name, c.collation))

/-- Kinds of indexes. -/
def indexKind : Format IndexKind :=
  cases
    [⟨list text, .hash, fun | .hash cs => some cs | _ => none⟩,
      ⟨list sortedColumn, .sorted, fun | .sorted cs => some cs | _ => none⟩]

/-- Indexes. -/
def index : Format Index :=
  (pair word32 (pair text (pair word32 (pair bool indexKind)))).via
    (fun (id, name, tableId, unique, kind) => ⟨id, name, tableId, unique, kind⟩)
    (fun i => (i.id, i.name, i.tableId, i.unique, i.kind))

/-- Zones. -/
def zone : Format Zone :=
  (pair word32 (pair text (pair word32 (pair word32 (pair word32 (pair word32 (pair word32
    text))))))).via
    (fun (id, name, partitions, replicas, autoAdjust, scaleUp, scaleDown, filter) =>
      ⟨id, name, partitions, replicas, autoAdjust, scaleUp, scaleDown, filter⟩)
    (fun z => (z.id, z.name, z.partitions, z.replicas, z.autoAdjust, z.scaleUp, z.scaleDown,
      z.filter))

/-- Entries. -/
def entry : Format Entry :=
  cases
    [⟨table, .newTable, fun | .newTable t => some t | _ => none⟩,
      ⟨word32, .dropTable, fun | .dropTable id => some id | _ => none⟩,
      ⟨pair word32 (list column), fun (id, cs) => .newColumns id cs,
        fun | .newColumns id cs => some (id, cs) | _ => none⟩,
      ⟨pair word32 (list text), fun (id, ns) => .dropColumns id ns,
        fun | .dropColumns id ns => some (id, ns) | _ => none⟩,
      ⟨pair word32 column, fun (id, c) => .alterColumn id c,
        fun | .alterColumn id c => some (id, c) | _ => none⟩,
      ⟨index, .newIndex, fun | .newIndex i => some i | _ => none⟩,
      ⟨pair word32 word32, fun (id, tableId) => .dropIndex id tableId,
        fun | .dropIndex id tableId => some (id, tableId) | _ => none⟩,
      ⟨zone, .newZone, fun | .newZone z => some z | _ => none⟩,
      ⟨zone, .alterZone, fun | .alterZone z => some z | _ => none⟩,
      ⟨word32, .dropZone, fun | .dropZone id => some id | _ => none⟩,
      ⟨word32, .takeIds, fun | .takeIds n => some n | _ => none⟩]

/-- Durations. Nanoseconds that make up seconds are carried when they are read. -/
def duration : Format Duration :=
  (pair word64 word32).refine (fun (secs, nanos) => Duration.ofParts? secs nanos)
    (fun d => (d.secs, d.nanos))

/-- Versions. -/
def version : Format Version := word64.via Version.mk Version.number

/-- Updates. -/
def update : Format Update :=
  (pair version (pair duration (list entry))).via
    (fun (version, delay, entries) => ⟨version, delay, entries⟩)
    (fun u => (u.version, u.delay, u.entries))

end Format

end SchemaCatalog.Wire

namespace SchemaCatalog.Update

/-- The bytes of an update. -/
def encode (u : Update) : List UInt8 := Wire.Format.update.write u

/-- The update at the front of some bytes. What stands behind it does not matter. -/
def decode (bytes : List UInt8) : Except Error Update :=
  match Wire.Format.update.read bytes with
  | .ok (u, _) => .ok u
  | .error fault => .error (.codec fault)

end SchemaCatalog.Update
