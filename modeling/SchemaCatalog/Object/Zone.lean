import SchemaCatalog.Object.Column

/-!
# Distribution zones
-/

namespace SchemaCatalog

/-- Which data nodes hold the tables of a zone, in how many partitions and copies, and how long to
wait before the nodes are adjusted. -/
structure Zone where
  id : ObjectId
  name : String
  partitions : Word32
  replicas : Word32
  autoAdjust : Word32
  scaleUp : Word32
  scaleDown : Word32
  filter : String
  deriving Repr, DecidableEq

namespace Zone

/-- The name of the zone of tables that name none. -/
def defaultName : String := "Default"

/-- The number of partitions of a zone that states none. -/
def defaultPartitions : Word32 := 25

/-- The number of replicas of a zone that states none. -/
def defaultReplicas : Word32 := 1

/-- The largest number of partitions. -/
def maxPartitions : Word32 := 65000

/-- The filter that lets every data node pass. -/
def defaultFilter : String := "$..*"

/-- The timer that never runs out. -/
def infiniteTimer : Word32 := 2147483647

/-- The zone that states nothing but its name. -/
def ofName (id : ObjectId) (name : String) : Zone :=
  ⟨id, name, defaultPartitions, defaultReplicas, infiniteTimer, infiniteTimer, infiniteTimer,
    defaultFilter⟩

/-- Whether the zone is the one that tables without a zone are in. -/
def isDefault (z : Zone) : Bool := z.name = defaultName

end Zone

end SchemaCatalog
