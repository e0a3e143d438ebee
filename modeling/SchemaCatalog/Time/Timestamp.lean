import SchemaCatalog.Time.Duration

/-!
# Hybrid timestamps

A timestamp packs a physical time in milliseconds and a logical counter of 16 bits into one word,
the physical time in the upper 48 bits. Timestamps are ordered as the words they are, which is the
order of the physical time and then of the counter. Arithmetic stops at the largest timestamp.
-/

namespace SchemaCatalog

/-- A physical time in milliseconds above a logical counter of 16 bits. -/
structure Timestamp where
  raw : Word64
  deriving Repr, DecidableEq

namespace Timestamp

/-- The number of logical ticks in a millisecond. -/
def ticksPerMilli : Nat := 65_536

/-- The beginning of time. -/
def least : Timestamp := ⟨0⟩

/-- The end of time. -/
def greatest : Timestamp := ⟨Word64.greatest⟩

instance : Inhabited Timestamp := ⟨least⟩

instance : LT Timestamp := ⟨fun a b => a.raw < b.raw⟩

instance : LE Timestamp := ⟨fun a b => a.raw ≤ b.raw⟩

instance : DecidableLT Timestamp := fun a b => inferInstanceAs (Decidable (a.raw < b.raw))

instance : DecidableLE Timestamp := fun a b => inferInstanceAs (Decidable (a.raw ≤ b.raw))

theorem lt_def (a b : Timestamp) : a < b ↔ a.raw.val < b.raw.val := Iff.rfl

theorem le_def (a b : Timestamp) : a ≤ b ↔ a.raw.val ≤ b.raw.val := Iff.rfl

theorem ext_val {a b : Timestamp} (h : a.raw.val = b.raw.val) : a = b := by
  cases a; cases b; exact congrArg Timestamp.mk (Fin.ext h)

/-- How two timestamps compare. -/
def order (a b : Timestamp) : Ordering := compare a.raw.val b.raw.val

/-- The timestamp of a physical time and a counter: the shifted physical time, which stops at the
largest word, with the counter in its lower bits. -/
def ofParts (physical : Word64) (logical : Fin 65_536) : Timestamp :=
  ⟨⟨(Word64.capped (physical.val * ticksPerMilli)).val ||| logical.val,
    Nat.or_lt_two_pow (n := 64) (Word64.capped _).isLt (Nat.lt_trans logical.isLt (by decide))⟩⟩

/-- The physical time in milliseconds. -/
def physical (t : Timestamp) : Word64 :=
  ⟨t.raw.val >>> 16, by rw [Nat.shiftRight_eq_div_pow]; omega⟩

/-- The logical counter. -/
def logical (t : Timestamp) : Fin 65_536 :=
  ⟨t.raw.val &&& 65_535, Nat.lt_of_le_of_lt Nat.and_le_right (by decide)⟩

/-- The timestamp `ms` milliseconds later. -/
def addMillis (t : Timestamp) (ms : Word64) : Timestamp :=
  ⟨Word64.capped (t.raw.val + (Word64.capped (ms.val * ticksPerMilli)).val)⟩

/-- The timestamp later by the whole milliseconds of a duration. -/
def add (t : Timestamp) (d : Duration) : Timestamp := t.addMillis d.millis

/-- The next timestamp, if there is one. -/
def tick (t : Timestamp) : Timestamp := ⟨Word64.capped (t.raw.val + 1)⟩

/-- The physical time and the counter, with a colon between them. -/
def text (t : Timestamp) : String := s!"{t.physical.val}:{t.logical.val}"

end Timestamp

end SchemaCatalog
