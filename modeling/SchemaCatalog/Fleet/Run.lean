import SchemaCatalog.Fleet.Step

/-!
# Running a fleet

A fleet may let any of its tasks take the next step. Run first come, first served, the task in front
of the ready ones takes steps until it has to wait, and then the next one comes to the front.
-/

namespace SchemaCatalog.Fleet

/-- Whether no task can go on. -/
def Quiescent (f : Fleet) : Prop := ∀ t, f.step t = none

/-- The task in front takes a step or leaves the ready ones. -/
def turn (f : Fleet) : Option Fleet :=
  match f.ready with
  | [] => none
  | t :: rest =>
    match f.step t with
    | some g => some g
    | none => some { f with ready := rest }

/-- So many turns, or as many as there are. -/
def run : Nat → Fleet → Fleet
  | 0, f => f
  | k + 1, f =>
    match f.turn with
    | some g => run k g
    | none => f

/-- More turns than any fleet in use takes before no task can go on. -/
def patience : Nat := 1_099_511_627_776

/-- The fleet when no task can go on. -/
def settle (f : Fleet) : Fleet := f.run patience

end SchemaCatalog.Fleet
