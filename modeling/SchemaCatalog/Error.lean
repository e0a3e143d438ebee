import SchemaCatalog.Diagnostic
import SchemaCatalog.Version
import SchemaCatalog.Time.Timestamp
import SchemaCatalog.Object.Column

/-!
# Errors

Everything that can go wrong, as causes. `Error.message` is the one place where a cause becomes
words, and `Error.diagnostic` adds the code and the hints. A cause that comes from outside, such as
the failure of a log, is `stated` in the words it came in.
-/

namespace SchemaCatalog

/-- The kinds of things that have names. -/
inductive ObjectKind where
  | schema
  | table
  | column
  | index
  | zone
  deriving Repr, DecidableEq

/-- The word for a kind of object. -/
def ObjectKind.text : ObjectKind → String
  | schema => "schema"
  | table => "table"
  | column => "column"
  | index => "index"
  | zone => "distribution zone"

/-- Text between single quotes. -/
def quoted (s : String) : String := "'" ++ s ++ "'"

/-- Why a definition is not acceptable. -/
inductive DefinitionFault where
  | noColumns
  | duplicateColumn (name : String)
  | noPrimaryKey
  | unknownKeyColumn (name : String)
  | duplicateKeyColumn (name : String)
  | duplicateColocationColumn (name : String)
  | colocationOutsideKey (names : List String)
  | noIndexColumns
  | duplicateIndexColumn (name : String)
  | collationCount
  | dropsKeyColumn (name : String)
  | dropsIndexedColumn (name index : String)
  | noZoneName
  | partitionCount (count limit : Word32)
  | noReplicas
  | noFilter
  | conflictingTimers
  | stated (words : String)
  deriving Repr, DecidableEq

/-- The words for a definition that is not acceptable. -/
def DefinitionFault.message : DefinitionFault → String
  | noColumns => "table must include at least one column"
  | duplicateColumn name => "duplicate column " ++ quoted name
  | noPrimaryKey => "table without primary key is not supported"
  | unknownKeyColumn name => "primary key column " ++ quoted name ++ " is not a table column"
  | duplicateKeyColumn name => "duplicate primary key column " ++ quoted name
  | duplicateColocationColumn name => "duplicate colocation column " ++ quoted name
  | colocationOutsideKey names =>
    "colocation columns must be a subset of the primary key: " ++ String.intercalate ", " names
  | noIndexColumns => "no index columns specified"
  | duplicateIndexColumn name => "duplicate index column " ++ quoted name
  | collationCount => "column collations don't match the number of columns"
  | dropsKeyColumn name => "can't drop primary key column " ++ quoted name
  | dropsIndexedColumn name index =>
    "can't drop column " ++ quoted name ++ " used by index " ++ quoted index
  | noZoneName => "missing zone name"
  | partitionCount count limit =>
    "invalid number of partitions " ++ toString count.val ++ ", expected 1..=" ++ toString limit.val
  | noReplicas => "invalid number of replicas 0"
  | noFilter => "missing data nodes filter"
  | conflictingTimers =>
    "data nodes auto adjust can't be used together with auto adjust scale up or scale down"
  | stated words => words

/-- Why a column cannot be changed in place. -/
inductive ColumnChangeFault where
  | keyNullability (name : String)
  | setsNotNull (name : String)
  | scale (name : String)
  | keyType (name : String)
  | dataType (name : String) (source target : DataType)
  | length (name : String)
  | shorter (name : String) (target : Word32)
  | precision (name : String)
  | lessPrecise (name : String) (target : Word32)
  | stated (words : String)
  deriving Repr, DecidableEq

/-- The words for a change that a column does not allow. -/
def ColumnChangeFault.message : ColumnChangeFault → String
  | keyNullability name => "cannot change NOT NULL for primary key column " ++ quoted name
  | setsNotNull name => "cannot set NOT NULL for column " ++ quoted name
  | scale name => "cannot change scale for column " ++ quoted name
  | keyType name => "cannot change data type for primary key column " ++ quoted name
  | dataType name source target =>
    "cannot change data type for column " ++ quoted name ++ " from " ++ source.text ++ " to "
      ++ target.text
  | length name => "cannot change length for column " ++ quoted name
  | shorter name n =>
    "cannot decrease length to " ++ toString n.val ++ " for column " ++ quoted name
  | precision name => "cannot change precision for column " ++ quoted name
  | lessPrecise name n =>
    "cannot decrease precision to " ++ toString n.val ++ " for column " ++ quoted name
  | stated words => words

/-- What is not done to the default zone. -/
inductive ZoneProtection where
  | drop
  | rename
  | stated (words : String)
  deriving Repr, DecidableEq

/-- The words for what is not done to the default zone. -/
def ZoneProtection.message : ZoneProtection → String
  | drop => "default zone can't be dropped"
  | rename => "default zone can't be renamed"
  | stated words => words

/-- How an update log fails. -/
inductive LogFault where
  | handlerTaken
  | noHandler
  | attachedElsewhere
  | managerStarted
  | dispatcherFailed (words : String)
  | stated (words : String)
  deriving Repr, DecidableEq

/-- The words for the failure of an update log. -/
def LogFault.message : LogFault → String
  | handlerTaken => "update handler is already registered"
  | noHandler => "no update handler registered"
  | attachedElsewhere => "log storage is attached to a running log"
  | managerStarted => "catalog manager is already started"
  | dispatcherFailed words => "event dispatcher failed: " ++ words
  | stated words => words

/-- What a catalog or a history was expected to hold and does not. -/
inductive Breach where
  | notStarted
  | nothingActive (time : Timestamp)
  | noPredecessor (version : Version)
  | unregistered (version : Version)
  | noSchema (id : ObjectId)
  | noSchemaOfTable (schema table : ObjectId)
  | noTable (id : ObjectId)
  | noColumn (name : String) (table : ObjectId)
  | noIndex (id : ObjectId)
  | noZone (id : ObjectId)
  | counterOverflow (counter delta : Word32)
  | stated (words : String)
  deriving Repr, DecidableEq

/-- The words for a breach. -/
def Breach.message : Breach → String
  | notStarted => "catalog manager is not started"
  | nothingActive t => "no catalog is active at " ++ t.text
  | noPredecessor v => "no catalog registered before version " ++ v.text
  | unregistered v => "saved version " ++ v.text ++ " is not registered"
  | noSchema id => "schema " ++ toString id.val ++ " does not exist"
  | noSchemaOfTable schema table =>
    "schema " ++ toString schema.val ++ " of table " ++ toString table.val ++ " does not exist"
  | noTable id => "table " ++ toString id.val ++ " does not exist"
  | noColumn name table => "column " ++ name ++ " does not exist in table " ++ toString table.val
  | noIndex id => "index " ++ toString id.val ++ " does not exist"
  | noZone id => "zone " ++ toString id.val ++ " does not exist"
  | counterOverflow counter delta =>
    "object id counter " ++ toString counter.val ++ " overflows by " ++ toString delta.val
  | stated words => words

/-- Why bytes are not an update. -/
inductive WireFault where
  | bytesRunOut
  | endlessVarint
  | badBool
  | badOption
  | badText
  | badValue
  | stated (words : String)
  deriving Repr, DecidableEq

/-- The words for bytes that are not an update. -/
def WireFault.message : WireFault → String
  | bytesRunOut => "Hit the end of buffer, expected more data"
  | endlessVarint => "Found a varint that didn't terminate. Is the usize too big for this platform?"
  | badBool => "Found a bool that wasn't 0 or 1"
  | badOption => "Found an Option discriminant that wasn't 0 or 1"
  | badText => "Tried to parse invalid utf-8"
  | badValue => "Serde Deserialization Error"
  | stated words => words

/-- The failure of a statement, of a log or of a node. -/
inductive Error where
  | duplicateName (kind : ObjectKind) (name : String)
  | notFound (kind : ObjectKind) (name : String)
  | invalidDefinition (fault : DefinitionFault)
  | unsupportedColumnChange (fault : ColumnChangeFault)
  | zoneBoundToTable (zone table : String)
  | defaultZoneProtected (fault : ZoneProtection)
  | retryLimitExceeded (attempts : Word64)
  | log (fault : LogFault)
  | invariant (breach : Breach)
  | codec (fault : WireFault)
  | stopped
  deriving Repr, DecidableEq

namespace Error

/-- The words for an error. -/
def message : Error → String
  | duplicateName kind name => kind.text ++ " " ++ quoted name ++ " already exists"
  | notFound kind name => kind.text ++ " " ++ quoted name ++ " not found"
  | invalidDefinition fault => "invalid definition: " ++ fault.message
  | unsupportedColumnChange fault => "unsupported column change: " ++ fault.message
  | zoneBoundToTable zone table =>
    "distribution zone " ++ quoted zone ++ " is assigned to table " ++ quoted table
  | defaultZoneProtected fault => fault.message
  | retryLimitExceeded attempts => "max retry limit exceeded: " ++ toString attempts.val
  | log fault => "update log failure: " ++ fault.message
  | invariant breach => "catalog invariant violated: " ++ breach.message
  | codec fault => "update codec failure: " ++ fault.message
  | stopped => "catalog manager is stopped"

/-- The code of an error. -/
def code : Error → String
  | duplicateName .. => "CA_001"
  | notFound .. => "CA_002"
  | invalidDefinition _ => "CA_003"
  | unsupportedColumnChange _ => "CA_004"
  | zoneBoundToTable .. => "CA_005"
  | defaultZoneProtected _ => "CA_006"
  | retryLimitExceeded _ => "CA_010"
  | log _ => "CA_011"
  | invariant _ => "CA_012"
  | codec _ => "CA_013"
  | stopped => "CA_014"

/-- What to do about an error, where there is something to do. -/
def help : Error → Option String
  | duplicateName .. => some "choose a different name"
  | unsupportedColumnChange _ =>
    some "only widening type changes and dropping NOT NULL are supported"
  | zoneBoundToTable .. => some "drop or move the tables assigned to the zone first"
  | retryLimitExceeded _ => some "concurrent DDL kept winning the race, retry the statement"
  | _ => none

/-- What else there is to say about an error. -/
def notes : Error → List String
  | retryLimitExceeded attempts => ["attempts: " ++ toString attempts.val]
  | _ => []

/-- The diagnostic of an error. -/
def diagnostic (e : Error) : Diagnostic := ⟨e.code, e.message, e.help, e.notes⟩

/-- Whether a statement was refused because it does not fit the catalog it was checked against. -/
def isValidation : Error → Bool
  | duplicateName .. => true
  | notFound .. => true
  | invalidDefinition _ => true
  | unsupportedColumnChange _ => true
  | zoneBoundToTable .. => true
  | defaultZoneProtected _ => true
  | _ => false

end Error

/-- How a computation ends without a result: with an error, or with a number that left its range. -/
inductive Abort where
  | failed (error : Error)
  | overflow
  deriving Repr, DecidableEq

/-- The words for a number that left its range. -/
def Abort.overflowMessage : String := "attempt to add with overflow"

end SchemaCatalog
