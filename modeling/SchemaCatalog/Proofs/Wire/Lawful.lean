import Mathlib.Algebra.Group.Nat.Defs
import Mathlib.Tactic.Lemma
import SchemaCatalog.Wire.Update

/-!
# Lawful wire formats

A format is lawful for the values that fit when it reads every form of a value, whatever stands
behind it, and writes a fitting value in one of its forms. What it writes is then read back
(`Lawful.read_write`). Every part of which formats are made keeps this law. A value fits when its
lists and texts have a length that a word of 64 bits holds, as all lists and texts in a memory have.
-/

namespace SchemaCatalog.Wire

/-- Reads its forms, and writes what fits in one of them. -/
structure Format.Lawful {α : Type} (f : Format α) (fits : α → Prop) : Prop where
  reads : ∀ {a : α} {p : List UInt8}, f.form a p → ∀ s, f.read (p ++ s) = .ok (a, s)
  writes : ∀ {a : α}, fits a → f.form a (f.write a)

/-- A case that reads what it makes values of, and makes a value of what it saw in it. -/
structure Format.Case.Lawful {α : Type} (c : Format.Case α) (fits : α → Prop) : Prop where
  reads : ∀ {b : c.β} {p : List UInt8}, c.format.form b p → ∀ s, c.format.read (p ++ s) = .ok (b, s)
  make_view : ∀ {a : α} {b : c.β}, c.view? a = some b → c.make b = a
  writes : ∀ {a : α} {b : c.β}, c.view? a = some b → fits a → c.format.form b (c.format.write b)

/-! ## Numbers -/

/-- Groups are read as the number they stand for. -/
lemma Groups.read {n : Nat} {p : List UInt8} (g : Groups n p) (s : List UInt8) :
    ∀ {k : Nat}, p.length ≤ k → readGroups k (p ++ s) = .ok (n, s) := by
  induction g with
  | last b hb =>
    intro k hk
    cases k with
    | zero => simp at hk
    | succ k => simp [readGroups, hb]
  | @more b n p hb g ih =>
    intro k hk
    cases k with
    | zero => simp at hk
    | succ k =>
      have hp : p.length ≤ k := by simpa using hk
      simp [readGroups, Nat.not_lt.2 hb, ih hp]

lemma groups_of_lt {n : Nat} (hn : n < 128) : Groups n [UInt8.ofNat n] := by
  have e : (UInt8.ofNat n).toNat = n := by
    rw [UInt8.toNat_ofNat']
    omega
  have g := Groups.last (UInt8.ofNat n) (by omega)
  rwa [e] at g

/-- The shortest groups of a number stand for it. -/
lemma groups_writeGroups {k n : Nat} (h : n < 128 ^ (k + 1)) :
    Groups n (writeGroups (k + 1) n) ∧ (writeGroups (k + 1) n).length ≤ k + 1 := by
  induction k generalizing n with
  | zero =>
    have hn : n < 128 := by simpa using h
    rw [writeGroups, if_pos hn]
    exact ⟨groups_of_lt hn, by simp⟩
  | succ k ih =>
    by_cases hn : n < 128
    · rw [writeGroups, if_pos hn]
      exact ⟨groups_of_lt hn, by simp⟩
    · have hd : n / 128 < 128 ^ (k + 1) := by
        rw [Nat.div_lt_iff_lt_mul (by decide)]
        simpa [Nat.pow_succ] using h
      obtain ⟨g, hl⟩ := ih hd
      -- The lowest seven bits go first, with the bit that says that more follow.
      have e : (UInt8.ofNat (n % 128 + 128)).toNat = n % 128 + 128 := by
        rw [UInt8.toNat_ofNat']
        omega
      rw [writeGroups, if_neg hn]
      refine ⟨?_, by simpa using hl⟩
      have g' := Groups.more (UInt8.ofNat (n % 128 + 128)) (by omega) g
      rw [e] at g'
      have en : n % 128 + 128 - 128 + 128 * (n / 128) = n := by omega
      rwa [en] at g'

namespace Format

variable {α β : Type}

/-- What fits is read back from what was written, whatever stands behind it. -/
lemma Lawful.read_write {f : Format α} {fits : α → Prop} (l : f.Lawful fits) {a : α}
    (h : fits a) (s : List UInt8) : f.read (f.write a ++ s) = .ok (a, s) :=
  l.reads (l.writes h) s

/-- A format that is lawful for some values is lawful for fewer. -/
lemma Lawful.mono {f : Format α} {fits fits' : α → Prop} (l : f.Lawful fits)
    (h : ∀ a, fits' a → fits a) : f.Lawful fits' :=
  ⟨l.reads, fun ha => l.writes (h _ ha)⟩

/-- Numbers below a bound, if the groups hold them. -/
lemma lawful_varint {bound k : Nat} (h : bound ≤ 128 ^ (k + 1)) :
    (varint bound (k + 1)).Lawful fun _ => True where
  reads := by
    intro n p ⟨g, hp⟩ s
    simp [varint, g.read s hp]
  writes := by
    intro n _
    exact groups_writeGroups (Nat.lt_of_lt_of_le n.isLt h)

lemma lawful_word32 : word32.Lawful fun _ => True := lawful_varint (by decide)

lemma lawful_word64 : word64.Lawful fun _ => True := lawful_varint (by decide)

/-! ## Values that are there or not -/

lemma lawful_unit : unit.Lawful fun _ => True where
  reads := by
    intro _ p e s
    cases e
    rfl
  writes := fun _ => rfl

lemma lawful_bool : bool.Lawful fun _ => True where
  reads := by
    intro b p e s
    cases e
    cases b <;> rfl
  writes := fun _ => rfl

/-- An optional value fits if the value fits that may be there. -/
lemma Lawful.option {f : Format α} {fits : α → Prop} (l : f.Lawful fits) :
    f.option.Lawful fun o => ∀ a, o = some a → fits a where
  reads := by
    intro o p e s
    cases o with
    | none =>
      cases e
      rfl
    | some a =>
      obtain ⟨q, hq, rfl⟩ := e
      simp [Format.option, l.reads hq s]
  writes := by
    intro o h
    cases o with
    | none => exact rfl
    | some a => exact ⟨_, l.writes (h a rfl), rfl⟩

/-! ## Sequences -/

lemma Lawful.pair {f : Format α} {g : Format β} {fits : α → Prop} {fits' : β → Prop}
    (l : f.Lawful fits) (l' : g.Lawful fits') :
    (f.pair g).Lawful fun x => fits x.1 ∧ fits' x.2 where
  reads := by
    rintro ⟨a, b⟩ p ⟨q, r, hq, hr, rfl⟩ s
    simp [Format.pair, l.reads hq, l'.reads hr]
  writes := fun h => ⟨_, _, l.writes h.1, l'.writes h.2, rfl⟩

/-- Values that stand for others, which have to be the ones they are written as. -/
lemma Lawful.refine {f : Format β} {fits : β → Prop} (l : f.Lawful fits) {of? : β → Option α}
    {rep : α → β} (h : ∀ a, of? (rep a) = some a) :
    (f.refine of? rep).Lawful fun a => fits (rep a) where
  reads := by
    rintro a p ⟨b, hb, hf⟩ s
    simp [Format.refine, l.reads hf, hb]
  writes := fun {a} ha => ⟨rep a, h a, l.writes ha⟩

lemma Lawful.via {f : Format β} {fits : β → Prop} (l : f.Lawful fits) {of : β → α} {rep : α → β}
    (h : ∀ a, of (rep a) = a) : (f.via of rep).Lawful fun a => fits (rep a) :=
  l.refine fun a => congrArg some (h a)

/-- The items of a list are read in order. -/
lemma Items.read {f : Format α} {fits : α → Prop} (l : f.Lawful fits) {as : List α}
    {p : List UInt8} (h : Items f as p) (s : List UInt8) :
    readItems f as.length (p ++ s) = .ok (as, s) := by
  induction h with
  | nil => rfl
  | cons ha _ ih => simp [readItems, l.reads ha, ih]

lemma items_flatMap {f : Format α} {fits : α → Prop} (l : f.Lawful fits) {as : List α}
    (h : ∀ a ∈ as, fits a) : Items f as (as.flatMap f.write) := by
  induction as with
  | nil => exact .nil
  | cons a as ih =>
    rw [List.flatMap_cons]
    exact .cons (l.writes (h a (by simp))) (ih fun b hb => h b (by simp [hb]))

/-- A list fits if a word holds its length and its items fit. -/
def ListFits (fits : α → Prop) (as : List α) : Prop :=
  as.length < 18_446_744_073_709_551_616 ∧ ∀ a ∈ as, fits a

instance (fits : α → Prop) [DecidablePred fits] : DecidablePred (ListFits fits) :=
  fun as => inferInstanceAs (Decidable (as.length < 18_446_744_073_709_551_616 ∧ ∀ a ∈ as, fits a))

/-- The length of something that is not too long comes back from the word that states it. -/
lemma val_capped_of_lt {n : Nat} (h : n < 18_446_744_073_709_551_616) :
    (Word64.capped n).val = n := by
  rw [Word64.val_capped]
  omega

lemma Lawful.list {f : Format α} {fits : α → Prop} (l : f.Lawful fits) :
    f.list.Lawful (ListFits fits) where
  reads := by
    rintro as p ⟨n, q, r, hn, hq, hr, rfl⟩ s
    simp [Format.list, lawful_word64.reads hq, hn, hr.read l]
  writes := fun h =>
    ⟨_, _, _, val_capped_of_lt h.1, lawful_word64.writes trivial, items_flatMap l h.2, rfl⟩

/-- A text fits if a word holds the number of its bytes. -/
def TextFits (s : String) : Prop := (utf8 s).length < 18_446_744_073_709_551_616

instance : DecidablePred TextFits :=
  fun s => inferInstanceAs (Decidable ((utf8 s).length < 18_446_744_073_709_551_616))

/-- A text comes back from its bytes. -/
lemma fromUTF8?_utf8 (s : String) : String.fromUTF8? (utf8 s).toByteArray = some s := by
  have e : (utf8 s).toByteArray = s.toByteArray := by
    apply ByteArray.ext
    simp [utf8]
  rw [e, String.fromUTF8?, dif_pos s.isValidUTF8]
  rfl

lemma lawful_text : text.Lawful TextFits where
  reads := by
    rintro t p ⟨n, q, hn, hq, rfl⟩ s
    simp [Format.text, lawful_word64.reads hq, hn, fromUTF8?_utf8]
  writes := fun h => ⟨_, _, val_capped_of_lt h, lawful_word64.writes trivial, rfl⟩

/-! ## Alternatives -/

lemma Case.lawful_only [DecidableEq α] (a : α) (fits : α → Prop) : (Case.only a).Lawful fits where
  reads := lawful_unit.reads
  make_view := by
    intro b u h
    by_cases e : b = a
    · exact e.symm
    · simp [Case.only, e] at h
  writes := fun _ _ => lawful_unit.writes trivial

/-- A case of a lawful format. -/
lemma Lawful.case {f : Format β} {fits' : β → Prop} (l : f.Lawful fits') {make : β → α}
    {view? : α → Option β} {fits : α → Prop}
    (h : ∀ a b, view? a = some b → make b = a ∧ (fits a → fits' b)) :
    (⟨f, make, view?⟩ : Case α).Lawful fits where
  reads := l.reads
  make_view := fun {a b} hv => (h a b hv).1
  writes := fun {a b} hv ha => l.writes ((h a b hv).2 ha)

/-- The first case that sees something in a value is the one it is written in. -/
lemma writeCase_eq {a : α} : ∀ {i : Nat} {cs : List (Case α)}, (∃ c ∈ cs, (c.view? a).isSome) →
    ∃ (k : Nat) (c : Case α) (b : c.β), cs[k]? = some c ∧ c.view? a = some b ∧
      writeCase i cs a = writeGroups 5 (i + k) ++ c.format.write b
  | _, [], h => by simp at h
  | i, c :: cs, h => by
    cases hv : c.view? a with
    | some b => exact ⟨0, c, b, rfl, hv, by simp [writeCase, hv]⟩
    | none =>
      have h' : ∃ c ∈ cs, (c.view? a).isSome := by
        obtain ⟨d, hd, hs⟩ := h
        cases List.mem_cons.1 hd with
        | inl e =>
          subst e
          simp [hv] at hs
        | inr hm => exact ⟨d, hm, hs⟩
      obtain ⟨k, d, b, hk, hb, e⟩ := writeCase_eq (i := i + 1) h'
      refine ⟨k + 1, d, b, by simpa using hk, hb, ?_⟩
      rw [writeCase, hv, e]
      simp only [Nat.add_assoc, Nat.add_comm 1 k]

/-- Alternatives that between them see something in every value. -/
lemma lawful_cases {cs : List (Case α)} {fits : α → Prop} (hl : ∀ c ∈ cs, c.Lawful fits)
    (hv : ∀ a, ∃ c ∈ cs, (c.view? a).isSome) (hn : cs.length < 4_294_967_296) :
    (cases cs).Lawful fits where
  reads := by
    rintro a p ⟨n, c, b, q, r, hc, rfl, hq, hr, rfl⟩ s
    have lc := hl c (List.mem_of_getElem? hc)
    simp [Format.cases, lawful_word32.reads hq, hc, readCase, lc.reads hr]
  writes := by
    intro a ha
    obtain ⟨k, c, b, hc, hb, e⟩ := writeCase_eq (i := 0) (hv a)
    have lc := hl c (List.mem_of_getElem? hc)
    have hk : k < 4_294_967_296 := by
      obtain ⟨hlt, _⟩ := List.getElem?_eq_some_iff.1 hc
      omega
    refine ⟨⟨k, hk⟩, c, b, writeGroups 5 k, c.format.write b, hc, lc.make_view hb, ?_,
      lc.writes hb ha, ?_⟩
    · exact lawful_word32.writes (a := ⟨k, hk⟩) trivial
    · rw [Format.cases]
      simpa using e

end Format

end SchemaCatalog.Wire
