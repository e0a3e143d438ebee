import SchemaCatalog.Event

/-!
# Publishing events

A publisher knows who listens to which type of event, in the order of registration, and keeps the
latest failed deliveries so that they can be repeated. A listener is known by its name and behaves
by its mode, which can be changed while calls to it are waiting.
-/

namespace SchemaCatalog

/-- What a listener does when it is called. -/
inductive Mode where
  | succeed
  | fail (reason : String)
  | failTimes (times : Nat) (reason : String)
  | crash
  | gate
  deriving Repr, DecidableEq

/-- How a call to a listener ends. -/
inductive CallResult where
  | delivered
  | failed (reason : String)
  deriving Repr, DecidableEq

/-- The reason of a call whose listener crashed. -/
def crashReason : String := "listener panicked"

/-- How a call ends, and the mode after it. At the gate a call does not end. -/
def Mode.act? : Mode → Option (CallResult × Mode)
  | succeed => some (.delivered, succeed)
  | fail reason => some (.failed reason, fail reason)
  | failTimes 0 reason => some (.delivered, failTimes 0 reason)
  | failTimes (n + 1) reason => some (.failed reason, failTimes n reason)
  | crash => some (.failed crashReason, crash)
  | gate => none

/-- A delivery that failed. -/
structure FailedDelivery where
  event : Event
  listener : String
  reason : String
  deriving Repr, DecidableEq

/-- Who listens to what, how often deliveries failed, and the latest of the failed deliveries, the
oldest first. -/
structure Publisher where
  registrations : List (EventType × String)
  failures : Nat
  failed : List FailedDelivery
  capacity : Word64
  deriving Repr, DecidableEq

namespace Publisher

/-- A publisher without listeners that keeps so many failed deliveries. -/
def ofCapacity (capacity : Word64) : Publisher := ⟨[], 0, [], capacity⟩

/-- Registers a listener for a type of events. -/
def listen (p : Publisher) (type : EventType) (name : String) : Publisher :=
  { p with registrations := p.registrations ++ [(type, name)] }

/-- Those who listen to a type of events, in the order of registration. -/
def listenersOf (p : Publisher) (type : EventType) : List String :=
  (p.registrations.filter (fun r => r.1 = type)).map Prod.snd

/-- Keeps a failed delivery, for which the oldest one makes room if it has to. -/
def keep (capacity : Nat) (failed : List FailedDelivery) (f : FailedDelivery) :
    List FailedDelivery :=
  if capacity = 0 then failed
  else if capacity ≤ failed.length then failed.tail ++ [f]
  else failed ++ [f]

/-- Counts a failed delivery and keeps it. -/
def record (p : Publisher) (f : FailedDelivery) : Publisher :=
  { p with failures := p.failures + 1, failed := keep p.capacity.val p.failed f }

/-- Gives out all failed deliveries that are kept. -/
def drain (p : Publisher) : Publisher × List FailedDelivery := ({ p with failed := [] }, p.failed)

end Publisher

end SchemaCatalog
