import SchemaCatalog.Time.Timestamp

/-!
# A clock that is moved by hand

The clock stands still until it is read, advanced or set, and never goes back. A reading moves the
clock by one tick, so that readings increase strictly until the end of time.
-/

namespace SchemaCatalog

/-- A clock, standing at a timestamp. -/
structure Clock where
  current : Timestamp
  deriving Repr, DecidableEq

namespace Clock

/-- A clock at a physical time, with a zero counter. -/
def atMillis (ms : Word64) : Clock := ⟨Timestamp.ofParts ms 0⟩

/-- Where an unset clock stands: at one millisecond. -/
def unset : Clock := atMillis 1

/-- The clock after a reading, which is where it then stands. -/
def tick (c : Clock) : Clock := ⟨c.current.tick⟩

/-- The clock moved ahead by the whole milliseconds of a duration. -/
def advance (c : Clock) (d : Duration) : Clock := ⟨c.current.add d⟩

/-- The clock moved ahead to a timestamp. An earlier timestamp leaves it alone. -/
def set (c : Clock) (t : Timestamp) : Clock := if c.current < t then ⟨t⟩ else c

end Clock

/-- When every node is past `activation`: its clock may be behind ours by at most `skew`. -/
def Timestamp.everywhere (activation : Timestamp) (skew : Duration) : Timestamp :=
  activation.add skew

end SchemaCatalog
