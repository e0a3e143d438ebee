import Mathlib.Data.List.Basic
import Mathlib.Tactic.Lemma
import SchemaCatalog.Config

/-!
# Objects of numbers

A reader of JSON texts takes back what was written. An object whose names need no escapes and whose
values are words is read as its fields in order (`JsonValue.parse_objectText`), as each of its parts
is read up to the character behind it.
-/

namespace SchemaCatalog

lemma Word64.ofNat?_val (w : Word64) : Word64.ofNat? w.val = some w := dif_pos w.isLt

namespace JsonValue

/-! ## Names -/

/-- Whether a character stands for itself in a text. -/
def isPlain (c : Char) : Bool := c ≠ '"' && c ≠ '\\' && 0x20 ≤ c.toNat

/-- A name whose characters all stand for themselves. -/
def IsPlain (name : String) : Prop := ∀ c ∈ name.toList, isPlain c = true

instance (name : String) : Decidable (IsPlain name) :=
  List.decidableBAll (fun c => isPlain c = true) name.toList

lemma readUnits_cons {c : Char} (hc : isPlain c = true) (s : List Char) :
    readUnits (c :: s) = (readUnits s).map fun p => (.char c :: p.1, p.2) := by
  simp only [isPlain, Bool.and_eq_true, decide_eq_true_eq] at hc
  obtain ⟨⟨quote, escape⟩, control⟩ := hc
  rw [readUnits]
  · rw [if_neg (by simp [escape]; omega)]
    cases readUnits s <;> rfl
  · exact quote
  · intro a b c d r h
    exact absurd h escape
  · intro e r h
    exact absurd h escape

lemma readUnits_plain {s : List Char} (h : ∀ c ∈ s, isPlain c = true) (r : List Char) :
    readUnits (s ++ '"' :: r) = some (s.map .char, r) := by
  induction s with
  | nil => rfl
  | cons c s ih =>
    obtain ⟨hc, hs⟩ := List.forall_mem_cons.1 h
    rw [List.cons_append, readUnits_cons hc, ih hs]
    rfl

lemma characters?_char (s : List Char) : characters? (s.map .char) = some s := by
  induction s with
  | nil => rfl
  | cons c s ih =>
    rw [List.map_cons, characters?, ih]
    rfl

lemma readText_plain {name : String} (h : IsPlain name) (r : List Char) :
    readText (name.toList ++ '"' :: r) = some (some name, r) := by
  rw [readText, readUnits_plain h]
  show some ((characters? (name.toList.map .char)).map String.ofList, r) = some (some name, r)
  rw [characters?_char, Option.map_some, String.ofList_toList]

/-! ## Numbers -/

/-- Whether a character behind some digits ends the number. -/
def endsNumber (c : Char) : Bool := !isDigit c && c ≠ '.' && c ≠ 'e' && c ≠ 'E'

lemma isDigit_of_mem {n : Nat} {c : Char} (h : c ∈ Nat.toDigits 10 n) : isDigit c = true :=
  Nat.isDigit_of_mem_toDigits (by decide) (by decide) h

/-- A number that is not zero does not begin with a zero. By induction on the number without its last
digit. -/
lemma head?_toDigits {n : Nat} (h : 0 < n) : (Nat.toDigits 10 n).head? ≠ some '0' := by
  induction n using Nat.strongRecOn with
  | ind n ih =>
    rcases Nat.lt_or_ge n 10 with lt | ge
    · rw [Nat.toDigits_of_lt_base lt, List.head?_cons]
      intro e
      have zero := Nat.digitChar_eq_zero.1 (Option.some.inj e)
      omega
    · rw [Nat.toDigits_of_base_le (by decide) ge, List.head?_append_of_ne_nil _ Nat.toDigits_ne_nil]
      exact ih (n / 10) (by omega) (by omega)

lemma digitsValue_toDigits (n : Nat) : digitsValue (Nat.toDigits 10 n) = n := by
  have same : (fun (n : Nat) (d : Char) => n * 10 + (d.toNat - 48)) =
      fun n d => 10 * n + (d.toNat - '0'.toNat) := by
    funext n d
    rw [Nat.mul_comm]
    rfl
  rw [digitsValue, same, ← Nat.ofDigitChars_eq_foldl, Nat.ofDigitChars_ten_toDigits]

lemma readWhole_toDigits (n : Nat) {c : Char} (hc : endsNumber c = true) (r : List Char) :
    readWhole (Nat.toDigits 10 n ++ c :: r) = some (Nat.toDigits 10 n, c :: r) := by
  have digits : ∀ d ∈ Nat.toDigits 10 n, isDigit d = true := fun d => isDigit_of_mem
  have stop : isDigit c = false := by
    unfold endsNumber at hc
    grind
  have front : (Nat.toDigits 10 n ++ c :: r).takeWhile isDigit = Nat.toDigits 10 n := by
    rw [List.takeWhile_append_of_pos digits, List.takeWhile_cons, stop]
    simp
  have behind : (Nat.toDigits 10 n ++ c :: r).dropWhile isDigit = c :: r := by
    rw [List.dropWhile_append_of_pos digits, List.dropWhile_cons, stop]
    simp
  have split : readDigits (Nat.toDigits 10 n ++ c :: r) = some (Nat.toDigits 10 n, c :: r) := by
    rw [readDigits, front, behind]
    split
    · rename_i none
      exact absurd none Nat.toDigits_ne_nil
    · rfl
  have leading : ¬ ((Nat.toDigits 10 n).head? = some '0' ∧ 1 < (Nat.toDigits 10 n).length) := by
    rintro ⟨zero, more⟩
    rcases Nat.eq_zero_or_pos n with rfl | pos
    · exact absurd more (by decide)
    · exact head?_toDigits pos zero
  rw [readWhole, split]
  exact if_neg leading

lemma readNumber_toDigits (w : Word64) {c : Char} (hc : endsNumber c = true) (r : List Char) :
    readNumber (Nat.toDigits 10 w.val ++ c :: r) = some (some w, c :: r) := by
  have whole := readWhole_toDigits w.val hc r
  have fraction : readFraction (c :: r) = some (false, c :: r) := by
    unfold readFraction
    split
    · rename_i e
      cases e
      cases hc
    · rfl
  have exponent : readExponent (c :: r) = some (false, c :: r) := by
    unfold readExponent
    split
    · rename_i e
      cases e
      cases hc
    · rename_i e
      cases e
      cases hc
    · rfl
  have unsigned : readUnsigned (Nat.toDigits 10 w.val ++ c :: r) = some (some w, c :: r) := by
    rw [readUnsigned, whole]
    simp only [Option.bind_eq_bind, Option.bind_some, fraction, exponent, digitsValue_toDigits,
      Word64.ofNat?_val]
    rfl
  unfold readNumber
  split
  · rename_i e
    -- The first digit is no sign.
    have sign : '-' ∈ Nat.toDigits 10 w.val := by
      cases hd : Nat.toDigits 10 w.val with
      | nil => exact absurd hd Nat.toDigits_ne_nil
      | cons d ds =>
        rw [hd] at e
        cases e
        exact List.mem_cons_self
    exact absurd (isDigit_of_mem sign) (by decide)
  · exact unsigned

lemma skipSpace_cons {c : Char} (h : isSpace c = false) (s : List Char) :
    skipSpace (c :: s) = c :: s := by
  rw [skipSpace, List.dropWhile_cons, h]
  rfl

lemma isSpace_of_isDigit {d : Char} (hd : isDigit d = true) : isSpace d = false := by
  rw [Bool.eq_false_iff]
  intro space
  simp only [isSpace, Bool.or_eq_true, decide_eq_true_eq] at space
  rcases space with ((rfl | rfl) | rfl) | rfl <;> cases hd

/-- What begins with a digit is a number. -/
lemma readValue_digit {d : Char} (hd : isDigit d = true) (k : Nat) (s : List Char) :
    readValue (k + 1) (d :: s) = (readNumber (d :: s)).map fun p => (.number p.1, p.2) := by
  rw [readValue, skipSpace_cons (isSpace_of_isDigit hd)]
  split
  case h_7 => rfl
  all_goals
    rename_i e
    cases e
    cases hd

lemma readValue_toDigits (k : Nat) (w : Word64) {c : Char} (hc : endsNumber c = true)
    (r : List Char) :
    readValue (k + 1) (Nat.toDigits 10 w.val ++ c :: r) = some (.number (some w), c :: r) := by
  have number := readNumber_toDigits w hc r
  have digits : ∀ d ∈ Nat.toDigits 10 w.val, isDigit d = true := fun d => isDigit_of_mem
  cases hd : Nat.toDigits 10 w.val with
  | nil => exact absurd hd Nat.toDigits_ne_nil
  | cons d ds =>
    rw [hd] at number digits
    rw [List.cons_append] at number ⊢
    rw [readValue_digit (digits d List.mem_cons_self), number]
    rfl

/-! ## Objects -/

lemma next?_cons {c : Char} (h : isSpace c = false) (s : List Char) :
    next? (c :: s) = some (c, s) := by
  rw [next?, skipSpace_cons h]

/-- The text of some fields of an object, with commas between them. -/
def fieldsText : List (String × Word64) → String
  | [] => ""
  | [f] => Config.fieldText f.1 f.2
  | f :: g :: fs => Config.fieldText f.1 f.2 ++ "," ++ fieldsText (g :: fs)

/-- The text of an object with these fields. -/
def objectText (fields : List (String × Word64)) : String :=
  "\x7b" ++ fieldsText fields ++ "\x7d"

/-- A field as it is read. -/
def field (f : String × Word64) : Option String × JsonValue := (some f.1, .number (some f.2))

lemma fieldText_toList (name : String) (w : Word64) : (Config.fieldText name w).toList =
    '"' :: (name.toList ++ '"' :: ':' :: Nat.toDigits 10 w.val) := by
  have digits : (toString w.val).toList = Nat.toDigits 10 w.val := by
    show (Nat.repr w.val).toList = _
    rw [Nat.repr_eq_ofList_toDigits, String.toList_ofList]
  rw [Config.fieldText, String.toList_append, String.toList_append, String.toList_append, digits]
  simp

/-- A name and a number are read off the text of a field, up to the character behind it. -/
lemma readFields_field {name : String} (h : IsPlain name) (w : Word64) {c : Char}
    (hc : endsNumber c = true) (k : Nat) (r : List Char) :
    readFields (k + 2) ((Config.fieldText name w).toList ++ c :: r) =
      match next? (c :: r) with
      | some ('\x7d', rest) => some ([field (name, w)], rest)
      | some (',', rest) => do
        let (fs, rest) ← readFields (k + 1) rest
        some (field (name, w) :: fs, rest)
      | _ => none := by
  have text := readText_plain h (':' :: (Nat.toDigits 10 w.val ++ c :: r))
  have value := readValue_toDigits k w hc r
  rw [fieldText_toList, List.cons_append, List.append_assoc, List.cons_append, List.cons_append]
  have colon : readColon (':' :: (Nat.toDigits 10 w.val ++ c :: r)) =
      some (Nat.toDigits 10 w.val ++ c :: r) := by
    rw [readColon, next?_cons rfl]
    rfl
  rw [readFields, next?_cons rfl]
  simp only [text, Option.bind_eq_bind, Option.bind_some, colon, value]
  rfl

lemma readFields_fieldsText {fields : List (String × Word64)} (ne : fields ≠ [])
    (h : ∀ f ∈ fields, IsPlain f.1) {k : Nat} (hk : fields.length < k) (r : List Char) :
    readFields k ((fieldsText fields).toList ++ '\x7d' :: r) = some (fields.map field, r) := by
  induction fields generalizing k with
  | nil => exact absurd rfl ne
  | cons f fs ih =>
    obtain ⟨hf, hfs⟩ := List.forall_mem_cons.1 h
    obtain ⟨k, rfl⟩ : ∃ j, k = j + 2 := ⟨k - 2, by simp at hk; omega⟩
    cases fs with
    | nil =>
      rw [fieldsText, readFields_field hf f.2 rfl]
      rfl
    | cons g fs =>
      have more : (g :: fs).length < k + 1 := Nat.lt_of_succ_lt_succ hk
      have rest := ih (List.cons_ne_nil g fs) hfs more
      have comma : ",".toList = [','] := rfl
      have next : next? (',' :: ((fieldsText (g :: fs)).toList ++ '\x7d' :: r)) =
          some (',', (fieldsText (g :: fs)).toList ++ '\x7d' :: r) := next?_cons rfl _
      rw [fieldsText, String.toList_append, String.toList_append, comma, List.append_assoc,
        List.append_assoc, List.cons_append, readFields_field hf f.2 rfl]
      simp only [List.nil_append, next, rest]
      rfl

/-- Every field begins with a quote and has a character. -/
lemma fieldsText_cons (f : String × Word64) (fs : List (String × Word64)) :
    (∃ s, (fieldsText (f :: fs)).toList = '"' :: s) ∧
      (f :: fs).length ≤ (fieldsText (f :: fs)).toList.length := by
  induction fs generalizing f with
  | nil =>
    rw [fieldsText, fieldText_toList]
    exact ⟨⟨_, rfl⟩, Nat.le_add_left ..⟩
  | cons g fs ih =>
    obtain ⟨-, le⟩ := ih g
    rw [fieldsText, String.toList_append, String.toList_append, fieldText_toList]
    refine ⟨⟨_, rfl⟩, ?_⟩
    simp only [List.length_append, List.length_cons] at le ⊢
    omega

lemma readValue_brace (k : Nat) (s : List Char) : readValue (k + 1) ('\x7b' :: s) =
    match next? s with
    | some ('\x7d', rest) => some (.object [], rest)
    | _ => (readFields k s).map fun p => (.object p.1, p.2) := by
  rw [readValue, skipSpace_cons rfl]
  rfl

/-- An object is read as its fields in order. -/
theorem parse_objectText {fields : List (String × Word64)} (h : ∀ f ∈ fields, IsPlain f.1) :
    parse (objectText fields) = some (.object (fields.map field)) := by
  have text : (objectText fields).toList = '\x7b' :: ((fieldsText fields).toList ++ ['\x7d']) := by
    rw [objectText, String.toList_append, String.toList_append]
    rfl
  have read : readValue (2 * (objectText fields).toList.length + 1) (objectText fields).toList =
      some (.object (fields.map field), []) := by
    rw [text, readValue_brace]
    cases fields with
    | nil => rfl
    | cons f fs =>
      obtain ⟨⟨s, quote⟩, le⟩ := fieldsText_cons f fs
      have enough : (f :: fs).length <
          2 * ('\x7b' :: ((fieldsText (f :: fs)).toList ++ ['\x7d'])).length := by
        simp only [List.length_cons, List.length_append] at le ⊢
        omega
      have all := readFields_fieldsText (List.cons_ne_nil f fs) h enough []
      have first : next? ((fieldsText (f :: fs)).toList ++ ['\x7d']) =
          some ('"', s ++ ['\x7d']) := by
        rw [quote, List.cons_append, next?_cons rfl]
      rw [first]
      simp only [all]
      rfl
  rw [parse, read]
  rfl

end JsonValue

end SchemaCatalog
