import SchemaCatalog.Config.Json
import SchemaCatalog.Time.Duration

/-!
# Configuration

How a node of the catalog is set up. A configuration is written as a JSON object with its durations
in milliseconds, and read from such an object in any order, with defaults for what is missing, or
from an array of its values.
-/

namespace SchemaCatalog

/-- How a node is set up: how long after its commit an update becomes active, how far the clocks of
two nodes may be apart, and how many failed deliveries of events are kept. -/
structure Config where
  delay : Duration
  skew : Duration
  failureBuffer : Word64
  deriving Repr, DecidableEq

namespace Config

/-- The configuration that states nothing. -/
def unset : Config := ⟨Duration.zero, Duration.ofMillis 7, 1024⟩

/-- The name of the delay. -/
def delayKey : String := "delay_duration"

/-- The name of the clock skew. -/
def skewKey : String := "max_clock_skew"

/-- The name of the number of failed deliveries. -/
def bufferKey : String := "event_failure_buffer"

/-- A name and a number, as a field of an object. -/
def fieldText (name : String) (n : Word64) : String :=
  "\"" ++ name ++ "\":" ++ toString n.val

/-- The JSON text of a configuration. -/
def text (c : Config) : String :=
  "\x7b" ++ fieldText delayKey c.delay.millis ++ "," ++ fieldText skewKey c.skew.millis ++ ","
    ++ fieldText bufferKey c.failureBuffer ++ "\x7d"

/-- The values that a text states. -/
structure Stated where
  delay : Option Word64
  skew : Option Word64
  buffer : Option Word64
  deriving Repr, DecidableEq

/-- A number that is written plainly. -/
def plainNumber? : JsonValue → Option Word64
  | .number n => n
  | _ => none

/-- Takes a field in. A name that is not known is passed over, one that is already stated is
refused. -/
def Stated.take (st : Stated) (name : String) (v : JsonValue) : Option Stated :=
  if name = delayKey then
    if st.delay.isSome then none
    else (plainNumber? v).map fun n => { st with delay := some n }
  else if name = skewKey then
    if st.skew.isSome then none
    else (plainNumber? v).map fun n => { st with skew := some n }
  else if name = bufferKey then
    if st.buffer.isSome then none
    else (plainNumber? v).map fun n => { st with buffer := some n }
  else some st

/-- Takes in the fields of an object, whose names all have to stand for characters. -/
def Stated.takeAll : Stated → List (Option String × JsonValue) → Option Stated
  | st, [] => some st
  | st, (name, v) :: fs => do
    let name ← name
    let st ← st.take name v
    st.takeAll fs

/-- What the items of an array state. -/
def Stated.ofItems : List JsonValue → Option Stated
  | [] => some ⟨none, none, none⟩
  | [a] => do
    let a ← plainNumber? a
    some ⟨some a, none, none⟩
  | [a, b] => do
    let a ← plainNumber? a
    let b ← plainNumber? b
    some ⟨some a, some b, none⟩
  | [a, b, c] => do
    let a ← plainNumber? a
    let b ← plainNumber? b
    let c ← plainNumber? c
    some ⟨some a, some b, some c⟩
  | _ => none

/-- The configuration that states these values. -/
def ofStated (st : Stated) : Config where
  delay := (st.delay.map Duration.ofMillis).getD unset.delay
  skew := (st.skew.map Duration.ofMillis).getD unset.skew
  failureBuffer := st.buffer.getD unset.failureBuffer

/-- The configuration that a JSON value states. -/
def ofJson? : JsonValue → Option Config
  | .object fields => (Stated.takeAll ⟨none, none, none⟩ fields).map ofStated
  | .array items => (Stated.ofItems items).map ofStated
  | _ => none

/-- The configuration that a JSON text states. -/
def parse (s : String) : Option Config := (JsonValue.parse s).bind ofJson?

end Config

end SchemaCatalog
