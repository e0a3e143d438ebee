import SchemaCatalog.Update.Entry

/-!
# Events

Listeners learn of a change through an event. Every entry has one but the taking of numbers, and the
event tells everything that the entry does.
-/

namespace SchemaCatalog

/-- What listeners register for. -/
inductive EventType where
  | tableCreate
  | tableDrop
  | tableAlter
  | indexCreate
  | indexDrop
  | zoneCreate
  | zoneAlter
  | zoneDrop
  deriving Repr, DecidableEq

/-- What happened to the columns of a table. -/
inductive TableChange where
  | columnsAdded (columns : List Column)
  | columnsDropped (columns : List String)
  | columnAltered (column : Column)
  deriving Repr, DecidableEq

/-- What happened. -/
inductive Occurrence where
  | tableCreated (table : Table)
  | tableDropped (tableId : ObjectId)
  | tableAltered (tableId : ObjectId) (change : TableChange)
  | indexCreated (index : Index)
  | indexDropped (indexId tableId : ObjectId)
  | zoneCreated (zone : Zone)
  | zoneAltered (zone : Zone)
  | zoneDropped (zoneId : ObjectId)
  deriving Repr, DecidableEq

/-- The type of what happened. -/
def Occurrence.eventType : Occurrence → EventType
  | tableCreated _ => .tableCreate
  | tableDropped _ => .tableDrop
  | tableAltered .. => .tableAlter
  | indexCreated _ => .indexCreate
  | indexDropped .. => .indexDrop
  | zoneCreated _ => .zoneCreate
  | zoneAltered _ => .zoneAlter
  | zoneDropped _ => .zoneDrop

/-- What happened, in which version, by which update of the log. -/
structure Event where
  token : Token
  version : Version
  occurrence : Occurrence
  deriving Repr, DecidableEq

/-- The type by which listeners are chosen. -/
def Event.eventType (e : Event) : EventType := e.occurrence.eventType

/-- What an entry makes happen. -/
def Entry.occurrence? : Entry → Option Occurrence
  | .newTable t => some (.tableCreated t)
  | .dropTable id => some (.tableDropped id)
  | .newColumns id columns => some (.tableAltered id (.columnsAdded columns))
  | .dropColumns id names => some (.tableAltered id (.columnsDropped names))
  | .alterColumn id column => some (.tableAltered id (.columnAltered column))
  | .newIndex i => some (.indexCreated i)
  | .dropIndex id tableId => some (.indexDropped id tableId)
  | .newZone z => some (.zoneCreated z)
  | .alterZone z => some (.zoneAltered z)
  | .dropZone id => some (.zoneDropped id)
  | .takeIds _ => none

/-- The event of an entry of a version. -/
def Entry.event? (e : Entry) (token : Token) (version : Version) : Option Event :=
  e.occurrence?.map (Event.mk token version)

/-- The events of an update, in the order of its entries. -/
def Update.events (u : Update) (token : Token) : List Event :=
  u.entries.filterMap fun e => e.event? token u.version

end SchemaCatalog
