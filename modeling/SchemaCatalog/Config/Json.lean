import SchemaCatalog.Word

/-!
# JSON texts

A reader for JSON texts, in which a configuration is written. It keeps of a number only whether it
is a plain one, without sign, fraction and exponent, that fits a word, and of a text what characters
it stands for: escapes of half a surrogate pair are well formed but stand for none.
-/

namespace SchemaCatalog

/-- A JSON value. -/
inductive JsonValue where
  | null
  | bool (value : Bool)
  | number (plain : Option Word64)
  | text (characters : Option String)
  | array (items : List JsonValue)
  | object (fields : List (Option String × JsonValue))
  deriving Repr

namespace JsonValue

/-- The characters that may stand between the parts of a JSON text. -/
def isSpace (c : Char) : Bool := c = ' ' || c = '\t' || c = '\n' || c = '\r'

/-- What is left behind leading space. -/
def skipSpace (s : List Char) : List Char := s.dropWhile isSpace

/-! ## Texts -/

/-- What stands for a character in a text: the character itself, or an escaped unit of 16 bits. -/
inductive TextUnit where
  | char (c : Char)
  | code (n : Nat)
  deriving Repr, DecidableEq

/-- The value of a hexadecimal digit. -/
def hexDigit? (c : Char) : Option Nat :=
  if '0' ≤ c ∧ c ≤ '9' then some (c.toNat - 48)
  else if 'a' ≤ c ∧ c ≤ 'f' then some (c.toNat - 87)
  else if 'A' ≤ c ∧ c ≤ 'F' then some (c.toNat - 55)
  else none

/-- The value of four hexadecimal digits. -/
def hexCode? (a b c d : Char) : Option Nat := do
  let a ← hexDigit? a
  let b ← hexDigit? b
  let c ← hexDigit? c
  let d ← hexDigit? d
  some (((a * 16 + b) * 16 + c) * 16 + d)

/-- The character that a backslash and this one stand for. -/
def escaped? (c : Char) : Option Char :=
  match c with
  | '"' => some '"'
  | '\\' => some '\\'
  | '/' => some '/'
  | 'b' => some '\x08'
  | 'f' => some '\x0c'
  | 'n' => some '\n'
  | 'r' => some '\r'
  | 't' => some '\t'
  | _ => none

/-- The units up to the closing quote, and what is left behind it. -/
def readUnits : List Char → Option (List TextUnit × List Char)
  | [] => none
  | '"' :: r => some ([], r)
  | '\\' :: 'u' :: a :: b :: c :: d :: r => do
    let n ← hexCode? a b c d
    let (us, rest) ← readUnits r
    some (.code n :: us, rest)
  | '\\' :: e :: r => do
    let c ← escaped? e
    let (us, rest) ← readUnits r
    some (.char c :: us, rest)
  | c :: r =>
    if c.toNat < 0x20 ∨ c = '\\' then none
    else do
      let (us, rest) ← readUnits r
      some (.char c :: us, rest)

/-- Whether a unit is the first half of a surrogate pair. -/
def isHighHalf (n : Nat) : Bool := 0xD800 ≤ n && n < 0xDC00

/-- Whether a unit is the second half of a surrogate pair. -/
def isLowHalf (n : Nat) : Bool := 0xDC00 ≤ n && n < 0xE000

/-- The characters that units stand for, unless half of a pair stands alone. -/
def characters? : List TextUnit → Option (List Char)
  | [] => some []
  | .char c :: us => do
    let cs ← characters? us
    some (c :: cs)
  | .code m :: .code n :: us =>
    if isHighHalf m then
      if isLowHalf n then do
        let cs ← characters? us
        some (Char.ofNat (0x10000 + (m - 0xD800) * 0x400 + (n - 0xDC00)) :: cs)
      else none
    else if isLowHalf m then none
    else do
      let cs ← characters? (.code n :: us)
      some (Char.ofNat m :: cs)
  | .code m :: us =>
    if isHighHalf m ∨ isLowHalf m then none
    else do
      let cs ← characters? us
      some (Char.ofNat m :: cs)

/-- The text up to the closing quote, and what is left behind it. -/
def readText (s : List Char) : Option (Option String × List Char) := do
  let (us, r) ← readUnits s
  some ((characters? us).map String.ofList, r)

/-! ## Numbers -/

/-- A decimal digit. -/
def isDigit (c : Char) : Bool := '0' ≤ c && c ≤ '9'

/-- The value of some digits. -/
def digitsValue (ds : List Char) : Nat := ds.foldl (fun n d => n * 10 + (d.toNat - 48)) 0

/-- At least one digit, and what is left behind the digits. -/
def readDigits (s : List Char) : Option (List Char × List Char) :=
  match s.takeWhile isDigit with
  | [] => none
  | ds => some (ds, s.dropWhile isDigit)

/-- The digits of a whole number, which begin with a zero only if there is no other. -/
def readWhole (s : List Char) : Option (List Char × List Char) := do
  let (ds, r) ← readDigits s
  if ds.head? = some '0' ∧ 1 < ds.length then none else some (ds, r)

/-- What is left behind an optional fraction, and whether there was one. -/
def readFraction (s : List Char) : Option (Bool × List Char) :=
  match s with
  | '.' :: r => (readDigits r).map fun p => (true, p.2)
  | _ => some (false, s)

/-- What is left behind the sign of an exponent. -/
def skipSign : List Char → List Char
  | '+' :: r => r
  | '-' :: r => r
  | s => s

/-- What is left behind an optional exponent, and whether there was one. -/
def readExponent (s : List Char) : Option (Bool × List Char) :=
  match s with
  | 'e' :: r => (readDigits (skipSign r)).map fun p => (true, p.2)
  | 'E' :: r => (readDigits (skipSign r)).map fun p => (true, p.2)
  | _ => some (false, s)

/-- A number without its sign: its value if it is plain and fits a word. -/
def readUnsigned (s : List Char) : Option (Option Word64 × List Char) := do
  let (ds, r) ← readWhole s
  let (fraction, r) ← readFraction r
  let (exponent, r) ← readExponent r
  some (if fraction || exponent then none else Word64.ofNat? (digitsValue ds), r)

/-- A number. -/
def readNumber (s : List Char) : Option (Option Word64 × List Char) :=
  match s with
  | '-' :: r => (readUnsigned r).map fun p => (none, p.2)
  | _ => readUnsigned s

/-! ## Values -/

/-- The first character that is no space, and what is left behind it. -/
def next? (s : List Char) : Option (Char × List Char) :=
  match skipSpace s with
  | [] => none
  | c :: r => some (c, r)

/-- What is left behind a colon. -/
def readColon (s : List Char) : Option (List Char) :=
  match next? s with
  | some (':', r) => some r
  | _ => none

mutual

/-- A value, read in at most so many steps. -/
def readValue : Nat → List Char → Option (JsonValue × List Char)
  | 0, _ => none
  | k + 1, s =>
    match skipSpace s with
    | 'n' :: 'u' :: 'l' :: 'l' :: r => some (.null, r)
    | 't' :: 'r' :: 'u' :: 'e' :: r => some (.bool true, r)
    | 'f' :: 'a' :: 'l' :: 's' :: 'e' :: r => some (.bool false, r)
    | '"' :: r => (readText r).map fun p => (.text p.1, p.2)
    | '[' :: r =>
      match next? r with
      | some (']', rest) => some (.array [], rest)
      | _ => (readItems k r).map fun p => (.array p.1, p.2)
    | '\x7b' :: r =>
      match next? r with
      | some ('\x7d', rest) => some (.object [], rest)
      | _ => (readFields k r).map fun p => (.object p.1, p.2)
    | r => (readNumber r).map fun p => (.number p.1, p.2)

/-- The items of an array up to its end. -/
def readItems : Nat → List Char → Option (List JsonValue × List Char)
  | 0, _ => none
  | k + 1, s => do
    let (v, r) ← readValue k s
    match next? r with
    | some (']', rest) => some ([v], rest)
    | some (',', rest) =>
      let (vs, rest) ← readItems k rest
      some (v :: vs, rest)
    | _ => none

/-- The fields of an object up to its end. -/
def readFields : Nat → List Char → Option (List (Option String × JsonValue) × List Char)
  | 0, _ => none
  | k + 1, s =>
    match next? s with
    | some ('"', r) => do
      let (name, r) ← readText r
      let r ← readColon r
      let (v, r) ← readValue k r
      match next? r with
      | some ('\x7d', rest) => some ([(name, v)], rest)
      | some (',', rest) =>
        let (fs, rest) ← readFields k rest
        some ((name, v) :: fs, rest)
      | _ => none
    | _ => none

end

/-- The value that a text consists of, apart from space around it. Every step reads a character, so
twice as many steps as there are characters are enough. -/
def parse (s : String) : Option JsonValue :=
  match readValue (2 * s.toList.length + 1) s.toList with
  | some (v, r) => if (skipSpace r).isEmpty then some v else none
  | none => none

end JsonValue

end SchemaCatalog
