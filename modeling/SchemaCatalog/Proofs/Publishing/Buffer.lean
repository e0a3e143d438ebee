import Mathlib.Tactic.Lemma
import SchemaCatalog.Publisher

/-!
# The buffer of failed deliveries

A publisher that has recorded some failures since its buffer was taken out keeps the latest of them,
as many as it has room for (`Publisher.Keeps`). It does not matter that each one comes in on its own
and drives the oldest one out.
-/

namespace SchemaCatalog.Publisher

/-- A publisher whose buffer holds the latest of these failures, the oldest of them first. -/
def Keeps (p : Publisher) (fs : List FailedDelivery) : Prop :=
  p.failed = fs.drop (fs.length - p.capacity.val)

variable {p : Publisher} {fs : List FailedDelivery}

/-- One more failure takes the place of the oldest one that is kept, if there is no room. -/
lemma keep_drop (capacity : Nat) (fs : List FailedDelivery) (f : FailedDelivery) :
    keep capacity (fs.drop (fs.length - capacity)) f =
      (fs ++ [f]).drop ((fs ++ [f]).length - capacity) := by
  have last : (fs ++ [f]).length = fs.length + 1 := List.length_append
  unfold keep
  split
  case isTrue none =>
    subst none
    simp
  case isFalse some =>
    rw [List.length_drop, last, List.drop_append_of_le_length (by omega)]
    split
    case isTrue full =>
      rw [List.tail_drop, show fs.length - capacity + 1 = fs.length + 1 - capacity by omega]
    case isFalse room =>
      rw [show fs.length - capacity = 0 by omega, show fs.length + 1 - capacity = 0 by omega]

lemma Keeps.record (h : p.Keeps fs) (f : FailedDelivery) : (p.record f).Keeps (fs ++ [f]) := by
  rw [Keeps] at h
  rw [Keeps, Publisher.record, h]
  exact keep_drop ..

/-- Failures that are recorded come behind the others. -/
lemma Keeps.recordAll (h : p.Keeps fs) (gs : List FailedDelivery) :
    (gs.foldl Publisher.record p).Keeps (fs ++ gs) := by
  induction gs generalizing p fs with
  | nil => rwa [List.append_nil]
  | cons g gs ih =>
    rw [List.append_cons]
    exact ih (h.record g)

/-- A publisher whose buffer has just been taken out keeps none. -/
lemma keeps_drain (p : Publisher) : p.drain.1.Keeps [] := List.drop_nil.symm

lemma keeps_ofCapacity (capacity : Word64) : (ofCapacity capacity).Keeps [] :=
  List.drop_nil.symm

/-- As long as there is room all failures are kept. -/
lemma Keeps.all (h : p.Keeps fs) (room : fs.length ≤ p.capacity.val) : p.failed = fs := by
  rw [h, Nat.sub_eq_zero_of_le room, List.drop_zero]

/-- No more failures are kept than there is room for. -/
lemma Keeps.length_le (h : p.Keeps fs) : p.failed.length ≤ p.capacity.val := by
  rw [h, List.length_drop]
  omega

/-- What is recorded is counted, and changes neither who listens nor how much room there is. -/
lemma recordAll_fields (p : Publisher) (gs : List FailedDelivery) :
    (gs.foldl record p).registrations = p.registrations ∧
      (gs.foldl record p).failures = p.failures + gs.length ∧
      (gs.foldl record p).capacity = p.capacity := by
  induction gs generalizing p with
  | nil => exact ⟨rfl, rfl, rfl⟩
  | cons g gs ih =>
    obtain ⟨registrations, failures, capacity⟩ := ih (p.record g)
    exact ⟨registrations, failures.trans (Nat.add_right_comm ..), capacity⟩

end SchemaCatalog.Publisher
