import Mathlib.Tactic.Lemma
import SchemaCatalog.Update.Fold

/-!
# How the fold of an update fails

An entry that cannot be applied names something that the catalog does not have, or takes more
numbers than the counter has left. Neither is an error for which a statement is refused, so that
whoever is told of such an error was told by a check.
-/

namespace SchemaCatalog

/-! ## Computations one after another -/

lemma bind_ok {ε α β : Type} {x : Except ε α} {k : α → Except ε β} {b : β} (h : x >>= k = .ok b) :
    ∃ a, x = .ok a ∧ k a = .ok b := by
  cases x with
  | error e => cases h
  | ok a => exact ⟨a, rfl, h⟩

lemma bind_error {ε α β : Type} {x : Except ε α} {k : α → Except ε β} {e : ε}
    (h : x >>= k = .error e) : x = .error e ∨ ∃ a, x = .ok a ∧ k a = .error e := by
  cases x with
  | error e' =>
    cases h
    exact .inl rfl
  | ok a => exact .inr ⟨a, rfl, h⟩

/-! ## What is missing -/

/-- Whether an error says that a catalog does not have what an entry names. -/
def Error.isMissing : Error → Bool
  | .invariant (.noSchema _) => true
  | .invariant (.noSchemaOfTable ..) => true
  | .invariant (.noTable _) => true
  | .invariant (.noColumn ..) => true
  | .invariant (.noIndex _) => true
  | .invariant (.noZone _) => true
  | _ => false

lemma Error.eq_invariant_of_isMissing {e : Error} (h : e.isMissing = true) :
    ∃ b, e = .invariant b := by
  cases e with
  | invariant b => exact ⟨b, rfl⟩
  | _ => cases h

namespace Catalog

variable {c : Catalog} {id : ObjectId} {e : Error}

lemma existingTable_error (h : c.existingTable id = .error e) : e.isMissing = true := by
  unfold existingTable at h
  split at h
  · cases h
  · cases h
    rfl

lemma schemaOfTable_error (h : c.schemaOfTable id = .error e) : e.isMissing = true := by
  rcases bind_error h with h | ⟨t, -, h⟩
  · exact existingTable_error h
  · split at h
    · cases h
    · cases h
      rfl

lemma schemaOfIndex_error (h : c.schemaOfIndex id = .error e) : e.isMissing = true := by
  unfold schemaOfIndex at h
  split at h
  · cases h
  · cases h
    rfl

lemma withSchema_error {s : Schema} (h : c.withSchema s = .error e) : e.isMissing = true := by
  unfold withSchema at h
  split at h
  · cases h
  · cases h
    rfl

lemma replaceTable_error {t : Table} (h : c.replaceTable t = .error e) :
    e.isMissing = true := by
  rcases bind_error h with h | ⟨s, -, h⟩
  · exact schemaOfTable_error h
  · exact withSchema_error h

lemma requireZone_error (h : c.requireZone id = .error e) : e.isMissing = true := by
  unfold requireZone at h
  split at h
  · cases h
  · cases h
    rfl

/-- An entry fails because it names what is not there, or takes more numbers than there are. -/
lemma applyEntry_error {entry : Entry} (h : c.applyEntry entry = .error e) :
    e.isMissing = true ∨ ∃ delta, entry = .takeIds delta ∧
      e = .invariant (.counterOverflow c.counter delta) ∧
      4_294_967_296 ≤ c.counter.val + delta.val := by
  -- But for the taking of numbers, an entry fails only on looking up what it names.
  cases entry with
  | takeIds delta =>
    rw [applyEntry] at h
    split at h
    · cases h
    · rename_i none
      cases h
      refine .inr ⟨delta, rfl, rfl, Nat.not_lt.1 fun lt => ?_⟩
      rw [Word32.ofNat?, dif_pos lt] at none
      cases none
  | newTable t =>
    left
    rw [applyEntry] at h
    split at h
    · exact withSchema_error h
    · cases h
      rfl
  | dropTable id =>
    left
    rcases bind_error h with h | ⟨s, -, h⟩
    · exact schemaOfTable_error h
    · exact withSchema_error h
  | newColumns id columns =>
    left
    rcases bind_error h with h | ⟨t, -, h⟩
    · exact existingTable_error h
    · exact replaceTable_error h
  | dropColumns id names =>
    left
    rcases bind_error h with h | ⟨t, -, h⟩
    · exact existingTable_error h
    · exact replaceTable_error h
  | alterColumn id column =>
    left
    rcases bind_error h with h | ⟨t, -, h⟩
    · exact existingTable_error h
    · split at h
      · exact replaceTable_error h
      · cases h
        rfl
  | newIndex i =>
    left
    rcases bind_error h with h | ⟨s, -, h⟩
    · exact schemaOfTable_error h
    · exact withSchema_error h
  | dropIndex id tableId =>
    left
    rcases bind_error h with h | ⟨s, -, h⟩
    · exact schemaOfIndex_error h
    · exact withSchema_error h
  | newZone z => cases h
  | alterZone z =>
    left
    rcases bind_error h with h | ⟨_, -, h⟩
    · exact requireZone_error h
    · cases h
  | dropZone id =>
    left
    rcases bind_error h with h | ⟨_, -, h⟩
    · exact requireZone_error h
    · cases h

/-- The fold of entries fails only where an invariant does not hold. -/
lemma applyEntries_error {es : List Entry} (h : c.applyEntries es = .error e) :
    ∃ b, e = .invariant b := by
  induction es generalizing c with
  | nil => cases h
  | cons entry es ih =>
    rcases bind_error h with h | ⟨d, -, h⟩
    · rcases applyEntry_error h with missing | ⟨delta, -, rfl, -⟩
      · exact Error.eq_invariant_of_isMissing missing
      · exact ⟨_, rfl⟩
    · exact ih h

end Catalog

end SchemaCatalog
