import SchemaCatalog.Error

/-!
# Wire formats

A format for a type says which byte strings are forms of a value, picks one of them for writing, and
reads any of them off the front of a byte string. Formats are built from few parts: numbers as
groups of seven bits, optional values, lists, texts, sequences, and numbered alternatives. Reading
stops at the first fault.
-/

namespace SchemaCatalog.Wire

/-- A value read off the front, with the bytes behind it. -/
abbrev Reading (α : Type) : Type := Except WireFault (α × List UInt8)

/-- How values of a type stand in bytes. -/
structure Format (α : Type) where
  form : α → List UInt8 → Prop
  write : α → List UInt8
  read : List UInt8 → Reading α

/-! ## Numbers -/

/-- The groups of seven bits of a number, the lowest first. All but the last have the high bit. -/
inductive Groups : Nat → List UInt8 → Prop where
  | last (b : UInt8) : b.toNat < 128 → Groups b.toNat [b]
  | more (b : UInt8) {n : Nat} {p : List UInt8} :
      128 ≤ b.toNat → Groups n p → Groups (b.toNat - 128 + 128 * n) (b :: p)

/-- The shortest groups of a number that needs no more than so many. -/
def writeGroups : Nat → Nat → List UInt8
  | 0, _ => []
  | k + 1, n =>
    if n < 128 then [UInt8.ofNat n] else UInt8.ofNat (n % 128 + 128) :: writeGroups k (n / 128)

/-- Reads no more than so many groups. -/
def readGroups : Nat → List UInt8 → Reading Nat
  | 0, _ => .error .endlessVarint
  | _ + 1, [] => .error .bytesRunOut
  | k + 1, b :: r =>
    if b.toNat < 128 then .ok (b.toNat, r)
    else
      match readGroups k r with
      | .ok (n, rest) => .ok (b.toNat - 128 + 128 * n, rest)
      | .error e => .error e

namespace Format

/-- A number below a bound, in at most so many groups. -/
def varint (bound groups : Nat) : Format (Fin bound) where
  form n p := Groups n.val p ∧ p.length ≤ groups
  write n := writeGroups groups n.val
  read s :=
    match readGroups groups s with
    | .ok (n, r) => if h : n < bound then .ok (⟨n, h⟩, r) else .error .endlessVarint
    | .error e => .error e

/-- A number of 32 bits. -/
def word32 : Format Word32 := varint 4_294_967_296 5

/-- A number of 64 bits. -/
def word64 : Format Word64 := varint 18_446_744_073_709_551_616 10

/-! ## Values that are there or not -/

/-- Nothing, in no bytes. -/
def unit : Format Unit where
  form _ p := p = []
  write _ := []
  read s := .ok ((), s)

/-- A truth value in one byte. -/
def bool : Format Bool where
  form b p := p = [if b then 1 else 0]
  write b := [if b then 1 else 0]
  read
    | [] => .error .bytesRunOut
    | b :: r => if b = 0 then .ok (false, r) else if b = 1 then .ok (true, r) else .error .badBool

/-- One byte that says whether the value follows. -/
def option {α : Type} (f : Format α) : Format (Option α) where
  form
    | none, p => p = [0]
    | some a, p => ∃ q, f.form a q ∧ p = 1 :: q
  write
    | none => [0]
    | some a => 1 :: f.write a
  read
    | [] => .error .bytesRunOut
    | b :: r =>
      if b = 0 then .ok (none, r)
      else if b = 1 then
        match f.read r with
        | .ok (a, rest) => .ok (some a, rest)
        | .error e => .error e
      else .error .badOption

/-! ## Sequences -/

/-- One value behind another. -/
def pair {α β : Type} (f : Format α) (g : Format β) : Format (α × β) where
  form x p := ∃ q r, f.form x.1 q ∧ g.form x.2 r ∧ p = q ++ r
  write x := f.write x.1 ++ g.write x.2
  read s :=
    match f.read s with
    | .ok (a, r) =>
      match g.read r with
      | .ok (b, rest) => .ok ((a, b), rest)
      | .error e => .error e
    | .error e => .error e

/-- The values of `α` that some values of `β` stand for, written as one of those. -/
def refine {α β : Type} (f : Format β) (of? : β → Option α) (rep : α → β) : Format α where
  form a p := ∃ b, of? b = some a ∧ f.form b p
  write a := f.write (rep a)
  read s :=
    match f.read s with
    | .ok (b, r) =>
      match of? b with
      | some a => .ok (a, r)
      | none => .error .badValue
    | .error e => .error e

/-- The same format for a type with the same values. -/
def via {α β : Type} (f : Format β) (of : β → α) (rep : α → β) : Format α :=
  f.refine (fun b => some (of b)) rep

/-- The items of a list one behind another. -/
inductive Items {α : Type} (f : Format α) : List α → List UInt8 → Prop where
  | nil : Items f [] []
  | cons {a : α} {as : List α} {p q : List UInt8} :
      f.form a p → Items f as q → Items f (a :: as) (p ++ q)

/-- Reads so many items. -/
def readItems {α : Type} (f : Format α) : Nat → List UInt8 → Reading (List α)
  | 0, s => .ok ([], s)
  | n + 1, s =>
    match f.read s with
    | .ok (a, r) =>
      match readItems f n r with
      | .ok (as, rest) => .ok (a :: as, rest)
      | .error e => .error e
    | .error e => .error e

/-- The number of items, and the items. -/
def list {α : Type} (f : Format α) : Format (List α) where
  form as p := ∃ (n : Word64) (q r : List UInt8),
    n.val = as.length ∧ word64.form n q ∧ Items f as r ∧ p = q ++ r
  write as := word64.write (Word64.capped as.length) ++ as.flatMap f.write
  read s :=
    match word64.read s with
    | .ok (n, r) => readItems f n.val r
    | .error e => .error e

/-- The bytes of a text. -/
def utf8 (s : String) : List UInt8 := s.toUTF8.data.toList

/-- The number of bytes of a text, and its bytes. -/
def text : Format String where
  form s p := ∃ (n : Word64) (q : List UInt8),
    n.val = (utf8 s).length ∧ word64.form n q ∧ p = q ++ utf8 s
  write s := word64.write (Word64.capped (utf8 s).length) ++ utf8 s
  read s :=
    match word64.read s with
    | .ok (n, r) =>
      if r.length < n.val then .error .bytesRunOut
      else
        match String.fromUTF8? (r.take n.val).toByteArray with
        | some t => .ok (t, r.drop n.val)
        | none => .error .badText
    | .error e => .error e

/-! ## Alternatives -/

/-- One way to make a value. -/
structure Case (α : Type) where
  {β : Type}
  format : Format β
  make : β → α
  view? : α → Option β

/-- The case of one value. -/
def Case.only {α : Type} [DecidableEq α] (a : α) : Case α :=
  ⟨unit, fun _ => a, fun b => if b = a then some () else none⟩

/-- Writes the number of the first case that made the value, and what it was made of. -/
def writeCase {α : Type} : Nat → List (Case α) → α → List UInt8
  | _, [], _ => []
  | i, c :: cs, a =>
    match c.view? a with
    | some b => writeGroups 5 i ++ c.format.write b
    | none => writeCase (i + 1) cs a

/-- Reads what a case makes a value of. -/
def readCase {α : Type} (c : Case α) (s : List UInt8) : Reading α :=
  match c.format.read s with
  | .ok (b, r) => .ok (c.make b, r)
  | .error e => .error e

/-- The number of a case, and what the case makes the value of. -/
def cases {α : Type} (cs : List (Case α)) : Format α where
  form a p := ∃ (n : Word32) (c : Case α) (b : c.β) (q r : List UInt8),
    cs[n.val]? = some c ∧ c.make b = a ∧ word32.form n q ∧ c.format.form b r ∧ p = q ++ r
  write a := writeCase 0 cs a
  read s :=
    match word32.read s with
    | .ok (n, r) =>
      match cs[n.val]? with
      | some c => readCase c r
      | none => .error .badValue
    | .error e => .error e

end Format

end SchemaCatalog.Wire
