import Mathlib.Algebra.Group.Nat.Defs
import Mathlib.Data.Prod.Lex
import Mathlib.Order.Bounds.Defs
import Mathlib.Tactic.Lemma
import SchemaCatalog.Time.Timestamp

/-!
# Timestamps as numbers

Timestamps are packed and moved on by shifts, masks and sums, each of which stops at the largest word
for itself. All of it comes to sums and quotients of natural numbers that are capped once, at the end
(`ofParts_val`, `physical_val`, `logical_val`, `add_val`), and what timestamps are used for follows
from that (`Timestamp.arithmetic_exact`).
-/

namespace SchemaCatalog

/-- A longer duration has no fewer whole milliseconds. -/
lemma Duration.wholeMillis_mono {d e : Duration}
    (h : toLex (d.secs, d.nanos) ≤ toLex (e.secs, e.nanos)) : d.wholeMillis ≤ e.wholeMillis := by
  have hd := d.nanos_lt
  rw [wholeMillis, wholeMillis]
  rcases Prod.Lex.toLex_le_toLex.1 h with lt | ⟨same, le⟩
  · have lt : d.secs.val < e.secs.val := lt
    omega
  · have same : d.secs.val = e.secs.val := congrArg Fin.val same
    have le : d.nanos.val ≤ e.nanos.val := le
    omega

namespace Timestamp

variable {a b : Timestamp}

/-! ## Values -/

/-- The counter takes the bits that the shift has left free. Where the shift stops at the largest
word there are none, and nothing is added. -/
lemma ofParts_val (p : Word64) (l : Fin 65_536) :
    (ofParts p l).raw.val = min (p.val * 2 ^ 16 + l.val) (2 ^ 64 - 1) := by
  have hl := l.isLt
  have packed : (ofParts p l).raw.val = min (p.val * 65_536) 18_446_744_073_709_551_615 ||| l.val :=
    rfl
  rw [packed]
  rcases Nat.lt_or_ge p.val (2 ^ 48) with fits | beyond
  · have shifted : min (p.val * 65_536) 18_446_744_073_709_551_615 = p.val <<< 16 := by
      rw [Nat.shiftLeft_eq]
      omega
    rw [shifted, ← Nat.shiftLeft_add_eq_or_of_lt hl, Nat.shiftLeft_eq]
    omega
  · have full : min (p.val * 65_536) 18_446_744_073_709_551_615 = 2 ^ 64 - 1 := by omega
    have below : 2 ^ 64 - 1 ||| l.val < 2 ^ 64 := Nat.or_lt_two_pow (by decide) (by omega)
    have above : 2 ^ 64 - 1 ≤ 2 ^ 64 - 1 ||| l.val := Nat.left_le_or
    rw [full]
    omega

lemma physical_val (a : Timestamp) : a.physical.val = a.raw.val / 2 ^ 16 :=
  Nat.shiftRight_eq_div_pow _ _

lemma logical_val (a : Timestamp) : a.logical.val = a.raw.val % 2 ^ 16 :=
  Nat.and_two_pow_sub_one_eq_mod _ 16

lemma addMillis_val (a : Timestamp) (m : Word64) :
    (a.addMillis m).raw.val = min (a.raw.val + m.val * 2 ^ 16) (2 ^ 64 - 1) := by
  rw [addMillis, Word64.val_capped, Word64.val_capped, ticksPerMilli]
  omega

/-- The milliseconds of a duration are counted in full, as where a word holds them no longer the sum
is at the end of time. -/
lemma add_val (a : Timestamp) (d : Duration) :
    (a.add d).raw.val = min (a.raw.val + d.wholeMillis * 2 ^ 16) (2 ^ 64 - 1) := by
  rw [add, addMillis_val, Duration.millis, Word64.val_capped]
  omega

lemma tick_val (a : Timestamp) : a.tick.raw.val = min (a.raw.val + 1) (2 ^ 64 - 1) := rfl

/-! ## Order and parts -/

lemma lt_iff_parts (a b : Timestamp) :
    a < b ↔ toLex (a.physical, a.logical) < toLex (b.physical, b.logical) := by
  have parts : a.physical < b.physical ∨ a.physical = b.physical ∧ a.logical < b.logical ↔
      a.raw.val / 2 ^ 16 < b.raw.val / 2 ^ 16 ∨
        a.raw.val / 2 ^ 16 = b.raw.val / 2 ^ 16 ∧ a.raw.val % 2 ^ 16 < b.raw.val % 2 ^ 16 := by
    rw [Fin.lt_def, Fin.ext_iff, Fin.lt_def, physical_val, physical_val, logical_val, logical_val]
  rw [Prod.Lex.toLex_lt_toLex, parts, lt_def]
  omega

lemma ofParts_parts (a : Timestamp) : ofParts a.physical a.logical = a := by
  have word := a.raw.isLt
  apply ext_val
  rw [ofParts_val, physical_val, logical_val]
  omega

lemma ofParts_mono {p q : Word64} {k l : Fin 65_536} (h : toLex (p, k) ≤ toLex (q, l)) :
    ofParts p k ≤ ofParts q l := by
  have hk := k.isLt
  rw [le_def, ofParts_val, ofParts_val]
  rcases Prod.Lex.toLex_le_toLex.1 h with lt | ⟨same, le⟩
  · have lt : p.val < q.val := lt
    omega
  · have same : p.val = q.val := congrArg Fin.val same
    have le : k.val ≤ l.val := le
    omega

/-! ## Sums -/

lemma addMillis_mono {m n : Word64} (h : a ≤ b) (hm : m ≤ n) : a.addMillis m ≤ b.addMillis n := by
  have hm : m.val ≤ n.val := hm
  rw [le_def] at h ⊢
  rw [addMillis_val, addMillis_val]
  omega

/-- A sum that is not capped leaves the counter alone. -/
lemma parts_of_sum {k : Nat} (h : b.raw.val = a.raw.val + k * 2 ^ 16) :
    b.logical = a.logical ∧ b.physical.val = a.physical.val + k := by
  constructor
  · apply Fin.ext
    rw [logical_val, logical_val, h]
    omega
  · rw [physical_val, physical_val, h]
    omega

lemma addMillis_addMillis {m n k : Word64} (h : m.val + n.val = k.val) :
    (a.addMillis m).addMillis n = a.addMillis k := by
  apply ext_val
  rw [addMillis_val, addMillis_val, addMillis_val]
  omega

/-- What may be asked of a timestamp: how it compares with others and what it consists of, what comes
of it when milliseconds or a duration are added, and which timestamp is the next one. -/
structure Exact (a : Timestamp) : Prop where
  order : ∀ b, a < b ↔ toLex (a.physical, a.logical) < toLex (b.physical, b.logical)
  parts : ofParts a.physical a.logical = a
  addMillis : ∀ m, (a.addMillis m).raw.val = min (a.raw.val + m.val * 2 ^ 16) (2 ^ 64 - 1)
  add : ∀ d, (a.add d).raw.val = min (a.raw.val + d.wholeMillis * 2 ^ 16) (2 ^ 64 - 1)
  addMillis_mono : ∀ b m n, a ≤ b → m ≤ n → a.addMillis m ≤ b.addMillis n
  add_mono : ∀ b d e, a ≤ b → toLex (d.secs, d.nanos) ≤ toLex (e.secs, e.nanos) →
    a.add d ≤ b.add e
  addMillis_parts : ∀ m, a.raw.val + m.val * 2 ^ 16 < 2 ^ 64 →
    (a.addMillis m).logical = a.logical ∧
      (a.addMillis m).physical.val = a.physical.val + m.val
  add_parts : ∀ d, a.raw.val + d.wholeMillis * 2 ^ 16 < 2 ^ 64 →
    (a.add d).logical = a.logical ∧ (a.add d).physical.val = a.physical.val + d.wholeMillis
  twice : ∀ m n k, m.val + n.val = k.val → (a.addMillis m).addMillis n = a.addMillis k
  next : a ≠ greatest → IsLeast {b | a < b} a.tick
  last : a = greatest → a.tick = a

/-- The arithmetic of timestamps is exact arithmetic that is capped at the end, and they are packed
in the order of their parts, also where the physical time is too large for its bits. -/
theorem arithmetic_exact :
    (∀ a : Timestamp, a.Exact) ∧
      ∀ (p q : Word64) (k l : Fin 65_536), toLex (p, k) ≤ toLex (q, l) →
        ofParts p k ≤ ofParts q l := by
  refine ⟨fun a => ?_, fun _ _ _ _ => ofParts_mono⟩
  have word := a.raw.isLt
  have top : greatest.raw.val = 18_446_744_073_709_551_615 := rfl
  -- Sums of words are compared as numbers, below the greatest word or capped at it.
  constructor
  case order => exact a.lt_iff_parts
  case parts => exact a.ofParts_parts
  case addMillis => exact a.addMillis_val
  case add => exact a.add_val
  case addMillis_mono => exact fun _ _ _ => Timestamp.addMillis_mono
  case add_mono =>
    intro b d e h hd
    exact Timestamp.addMillis_mono h (Word64.capped_mono (Duration.wholeMillis_mono hd))
  case addMillis_parts =>
    intro m h
    exact parts_of_sum ((a.addMillis_val m).trans (by omega))
  case add_parts =>
    intro d h
    exact parts_of_sum ((a.add_val d).trans (by omega))
  case twice => exact fun _ _ _ => addMillis_addMillis
  case next =>
    intro ne
    have ne : a.raw.val ≠ greatest.raw.val := fun e => ne (ext_val e)
    constructor
    · rw [Set.mem_ofPred_eq, lt_def, tick_val]
      omega
    · intro b hb
      have hb : a.raw.val < b.raw.val := hb
      rw [le_def, tick_val]
      omega
  case last =>
    rintro rfl
    rfl

/-- Less than two milliseconds before the end of time, with a hundred on its counter. -/
def late : Timestamp := ⟨18_446_744_073_709_420_644⟩

/-- There is room for one more millisecond, which keeps the counter, and not for a second. The largest
physical time is packed behind the last one that has bits of its own. -/
theorem arithmetic_exact_late :
    IsLeast {b | late < b} late.tick ∧
      ((late.addMillis 1).logical = 100 ∧
        (late.addMillis 1).physical.val = late.physical.val + 1) ∧
      ((late.add (Duration.ofMillis 1)).logical = 100 ∧
        (late.add (Duration.ofMillis 1)).physical.val = late.physical.val + 1) ∧
      (late.addMillis 1).addMillis 999 = late.addMillis 1000 ∧
      late.addMillis 1000 = greatest ∧
      late.add (Duration.ofMillis 1) ≤ (late.addMillis 1).add (Duration.ofMillis 1000) ∧
      ofParts 281_474_976_710_655 7 ≤ ofParts Word64.greatest 0 := by
  obtain ⟨exact, packed⟩ := arithmetic_exact
  have h := exact late
  have step : late ≤ late.addMillis 1 := by decide
  exact ⟨h.next (by decide), h.addMillis_parts 1 (by decide),
    h.add_parts (Duration.ofMillis 1) (by decide), h.twice 1 999 1000 rfl, rfl,
    h.add_mono _ (Duration.ofMillis 1) (Duration.ofMillis 1000) step
      (Prod.Lex.toLex_le_toLex.2 (by decide)),
    packed 281_474_976_710_655 Word64.greatest 7 0 (Prod.Lex.toLex_le_toLex.2 (by decide))⟩

end Timestamp

end SchemaCatalog
