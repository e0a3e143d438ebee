/-!
# Words

Numbers of 32 and 64 bits, as bounded natural numbers. Their own `+` wraps, so every sum in this
library is taken on the values, and comes back through one of two rules: `capped`, where a sum that
is too large stops at the largest word, and `ofNat?`, where it is no word at all.
-/

namespace SchemaCatalog

/-- A number of 32 bits. -/
abbrev Word32 := Fin 4_294_967_296

/-- A number of 64 bits. -/
abbrev Word64 := Fin 18_446_744_073_709_551_616

-- Literals of words rest on these instances, whatever else is imported.
instance Word32.neZero : @NeZero Nat Zero.ofOfNat0 4_294_967_296 := Nat.instNeZeroSucc

instance Word64.neZero : @NeZero Nat Zero.ofOfNat0 18_446_744_073_709_551_616 :=
  Nat.instNeZeroSucc

namespace Word32

/-- The word with this value, if there is one. -/
def ofNat? (n : Nat) : Option Word32 :=
  if h : n < 4_294_967_296 then some ⟨n, h⟩ else none

end Word32

namespace Word64

/-- The largest word. -/
def greatest : Word64 := ⟨18_446_744_073_709_551_615, by decide⟩

/-- The word with this value, or the largest one. -/
def capped (n : Nat) : Word64 := ⟨min n 18_446_744_073_709_551_615, by omega⟩

/-- The word with this value, if there is one. -/
def ofNat? (n : Nat) : Option Word64 :=
  if h : n < 18_446_744_073_709_551_616 then some ⟨n, h⟩ else none

@[simp] theorem val_capped (n : Nat) : (capped n).val = min n 18_446_744_073_709_551_615 := rfl

/-- A word is its own cap. -/
theorem capped_val (w : Word64) : capped w.val = w := by
  apply Fin.ext
  simp only [val_capped]
  omega

theorem capped_mono {m n : Nat} (h : m ≤ n) : (capped m).val ≤ (capped n).val := by
  simp only [val_capped]
  omega

end Word64

end SchemaCatalog
