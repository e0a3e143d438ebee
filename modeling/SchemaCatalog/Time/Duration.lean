import SchemaCatalog.Word

/-!
# Durations

A length of time as whole seconds and nanoseconds below a second. Only whole milliseconds of a
duration ever reach a timestamp, and more of them than a word holds count as the largest word.
-/

namespace SchemaCatalog

/-- Whole seconds, and nanoseconds that do not make up another one. -/
structure Duration where
  secs : Word64
  nanos : Word32
  nanos_lt : nanos.val < 1_000_000_000
  deriving Repr, DecidableEq

namespace Duration

/-- No time at all. -/
def zero : Duration := ⟨0, 0, by decide⟩

instance : Inhabited Duration := ⟨zero⟩

/-- The duration of so many seconds and nanoseconds. Nanoseconds that make up a second are carried,
and there is no such duration when the seconds no longer fit. -/
def ofParts? (secs : Word64) (nanos : Word32) : Option Duration :=
  (Word64.ofNat? (secs.val + nanos.val / 1_000_000_000)).map fun s =>
    ⟨s, ⟨nanos.val % 1_000_000_000, by omega⟩, Nat.mod_lt _ (by decide)⟩

/-- So many milliseconds. -/
def ofMillis (ms : Word64) : Duration :=
  ⟨⟨ms.val / 1000, by omega⟩, ⟨ms.val % 1000 * 1_000_000, by omega⟩, by simp only; omega⟩

/-- The number of whole milliseconds. -/
def wholeMillis (d : Duration) : Nat := d.secs.val * 1000 + d.nanos.val / 1_000_000

/-- The number of whole milliseconds, as far as a word holds it. -/
def millis (d : Duration) : Word64 := Word64.capped d.wholeMillis

/-- The same duration in whole milliseconds, as far as a word holds their number. -/
def inMillis (d : Duration) : Duration := ofMillis d.millis

/-- Milliseconds come back from the duration made of them. -/
theorem wholeMillis_ofMillis (ms : Word64) : (ofMillis ms).wholeMillis = ms.val := by
  simp only [wholeMillis, ofMillis]
  omega

theorem millis_ofMillis (ms : Word64) : (ofMillis ms).millis = ms := by
  rw [millis, wholeMillis_ofMillis, Word64.capped_val]

end Duration

end SchemaCatalog
