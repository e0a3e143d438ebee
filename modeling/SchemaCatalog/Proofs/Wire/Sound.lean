import SchemaCatalog.Proofs.Wire.RoundTrip

/-!
# Sound wire formats

A reader that gives a value has read a form of it off the front, and gives back what stands behind
that form (`Format.Sound`). Every part of which formats are made keeps this law. With the law that
forms are read (`Format.Lawful`) it says what a reader accepts: exactly the bytes that begin with a
form, of which no more than one does (`Format.read_eq_ok_iff`, `Format.Lawful.form_unique`).
-/

namespace SchemaCatalog.Wire

/-- Reads nothing but forms. -/
structure Format.Sound {α : Type} (f : Format α) : Prop where
  form_of_read : ∀ {s r : List UInt8} {a : α}, f.read s = .ok (a, r) →
    ∃ p, f.form a p ∧ s = p ++ r

/-! ## Numbers -/

/-- What is read as a number are its groups. -/
lemma groups_of_read : ∀ {k n : Nat} {s r : List UInt8}, readGroups k s = .ok (n, r) →
    ∃ p, Groups n p ∧ p.length ≤ k ∧ s = p ++ r
  | 0, _, _, _, h => by simp [readGroups] at h
  | _ + 1, _, [], _, h => by simp [readGroups] at h
  | k + 1, n, b :: s, r, h => by
    by_cases hb : b.toNat < 128
    · simp only [readGroups, if_pos hb, Except.ok.injEq, Prod.mk.injEq] at h
      obtain ⟨rfl, rfl⟩ := h
      exact ⟨[b], .last b hb, by simp, rfl⟩
    · simp only [readGroups, if_neg hb] at h
      split at h
      · next m rest hm =>
        obtain ⟨rfl, rfl⟩ : b.toNat - 128 + 128 * m = n ∧ rest = r := by simpa using h
        obtain ⟨p, g, hp, rfl⟩ := groups_of_read hm
        exact ⟨b :: p, .more b (by omega) g, by simpa using hp, rfl⟩
      · cases h

namespace Format

variable {α β : Type}

/-- A sound format that is lawful reads the bytes that begin with a form, and no others. -/
lemma read_eq_ok_iff {f : Format α} {fits : α → Prop} (l : f.Lawful fits) (h : f.Sound)
    {s r : List UInt8} {a : α} : f.read s = .ok (a, r) ↔ ∃ p, f.form a p ∧ s = p ++ r := by
  constructor
  · exact h.form_of_read
  · rintro ⟨p, hp, rfl⟩
    exact l.reads hp r

/-- Bytes begin with a form of one value at most, and with one form of it. -/
lemma Lawful.form_unique {f : Format α} {fits : α → Prop} (l : f.Lawful fits) {a b : α}
    {s p q : List UInt8} (hp : f.form a p) (hq : f.form b q) (front : p <+: s) (front' : q <+: s) :
    p = q ∧ a = b := by
  obtain ⟨t, rfl⟩ := front
  obtain ⟨t', e⟩ := front'
  have read := l.reads hp t
  rw [← e, l.reads hq t'] at read
  obtain ⟨rfl, rfl⟩ : b = a ∧ t' = t := by simpa using read
  exact ⟨(List.append_cancel_right e).symm, rfl⟩

lemma sound_varint (bound k : Nat) : (varint bound k).Sound where
  form_of_read := by
    intro s r a h
    simp only [varint] at h
    split at h
    · next n rest hn =>
      split at h
      · cases h
        obtain ⟨p, g, hp, rfl⟩ := groups_of_read hn
        exact ⟨p, ⟨g, hp⟩, rfl⟩
      · cases h
    · cases h

lemma sound_word32 : word32.Sound := sound_varint _ _

lemma sound_word64 : word64.Sound := sound_varint _ _

/-! ## Values that are there or not -/

lemma sound_unit : unit.Sound where
  form_of_read := by
    intro s r a h
    cases h
    exact ⟨[], rfl, rfl⟩

lemma sound_bool : bool.Sound where
  form_of_read := by
    intro s r a h
    cases s with
    | nil => cases h
    | cons b s =>
      simp only [bool] at h
      split at h
      · next hb =>
        cases h
        exact ⟨[b], by simp [bool, hb], rfl⟩
      · split at h
        · next hb =>
          cases h
          exact ⟨[b], by simp [bool, hb], rfl⟩
        · cases h

lemma Sound.option {f : Format α} (sound : f.Sound) : f.option.Sound where
  form_of_read := by
    intro s r o h
    cases s with
    | nil => cases h
    | cons b s =>
      simp only [Format.option] at h
      split at h
      · next hb =>
        cases h
        exact ⟨[b], by simp [Format.option, hb], rfl⟩
      · split at h
        · next hb =>
          split at h
          · next a rest ha =>
            cases h
            obtain ⟨p, hp, rfl⟩ := sound.form_of_read ha
            exact ⟨b :: p, ⟨p, hp, by rw [hb]⟩, rfl⟩
          · cases h
        · cases h

/-! ## Sequences -/

lemma Sound.pair {f : Format α} {g : Format β} (sound : f.Sound) (sound' : g.Sound) :
    (f.pair g).Sound where
  form_of_read := by
    intro s r x h
    simp only [Format.pair] at h
    split at h
    · next a t ha =>
      split at h
      · next b rest hb =>
        cases h
        obtain ⟨p, hp, rfl⟩ := sound.form_of_read ha
        obtain ⟨q, hq, rfl⟩ := sound'.form_of_read hb
        exact ⟨p ++ q, ⟨p, q, hp, hq, rfl⟩, by simp⟩
      · cases h
    · cases h

lemma Sound.refine {f : Format β} (sound : f.Sound) (of? : β → Option α) (rep : α → β) :
    (f.refine of? rep).Sound where
  form_of_read := by
    intro s r a h
    simp only [Format.refine] at h
    split at h
    · next b rest hb =>
      split at h
      · next c hc =>
        cases h
        obtain ⟨p, hp, rfl⟩ := sound.form_of_read hb
        exact ⟨p, ⟨b, hc, hp⟩, rfl⟩
      · cases h
    · cases h

lemma Sound.via {f : Format β} (sound : f.Sound) (of : β → α) (rep : α → β) :
    (f.via of rep).Sound :=
  sound.refine _ rep

/-- What is read as so many items are the forms of that many. -/
lemma items_of_read {f : Format α} (sound : f.Sound) :
    ∀ {n : Nat} {s r : List UInt8} {as : List α}, readItems f n s = .ok (as, r) →
      ∃ p, Items f as p ∧ as.length = n ∧ s = p ++ r
  | 0, _, _, _, h => by
    cases h
    exact ⟨[], .nil, rfl, rfl⟩
  | n + 1, s, r, as, h => by
    simp only [readItems] at h
    split at h
    · next a t ha =>
      split at h
      · next bs rest hbs =>
        cases h
        obtain ⟨p, hp, rfl⟩ := sound.form_of_read ha
        obtain ⟨q, hq, hn, rfl⟩ := items_of_read sound hbs
        exact ⟨p ++ q, .cons hp hq, by simp [hn], by simp⟩
      · cases h
    · cases h

lemma Sound.list {f : Format α} (sound : f.Sound) : f.list.Sound where
  form_of_read := by
    intro s r as h
    simp only [Format.list] at h
    split at h
    · next n t hn =>
      obtain ⟨p, hp, rfl⟩ := sound_word64.form_of_read hn
      obtain ⟨q, hq, hlen, rfl⟩ := items_of_read sound h
      exact ⟨p ++ q, ⟨n, p, q, hlen.symm, hp, hq, rfl⟩, by simp⟩
    · cases h

/-- A text that was found in bytes has these bytes. -/
lemma utf8_of_fromUTF8? {bytes : List UInt8} {t : String}
    (h : String.fromUTF8? bytes.toByteArray = some t) : utf8 t = bytes := by
  rw [String.fromUTF8?] at h
  split at h
  · cases h
    simp [utf8, String.fromUTF8]
  · cases h

lemma sound_text : text.Sound where
  form_of_read := by
    intro s r t h
    simp only [text] at h
    split at h
    · next n rest hn =>
      obtain ⟨p, hp, rfl⟩ := sound_word64.form_of_read hn
      split at h
      · cases h
      · next enough =>
        split at h
        · next t' ht =>
          cases h
          have bytes := utf8_of_fromUTF8? ht
          refine ⟨p ++ utf8 t, ⟨n, p, ?_, hp, rfl⟩, ?_⟩
          · rw [bytes, List.length_take]
            omega
          · rw [bytes, List.append_assoc, List.take_append_drop]
        · cases h
    · cases h

/-! ## Alternatives -/

lemma sound_cases {cs : List (Case α)} (sound : ∀ c ∈ cs, c.format.Sound) :
    (cases cs).Sound where
  form_of_read := by
    intro s r a h
    simp only [cases] at h
    split at h
    · next n t hn =>
      obtain ⟨p, hp, rfl⟩ := sound_word32.form_of_read hn
      split at h
      · next c hc =>
        simp only [readCase] at h
        split at h
        · next b rest hb =>
          cases h
          obtain ⟨q, hq, rfl⟩ := (sound c (List.mem_of_getElem? hc)).form_of_read hb
          exact ⟨p ++ q, ⟨n, c, b, p, q, hc, rfl, hp, hq, rfl⟩, by simp⟩
        · cases h
      · cases h
    · cases h

/-! ## The formats of updates -/

lemma sound_dataType : dataType.Sound := by
  apply sound_cases
  intro c hc
  obtain ⟨t, -, rfl⟩ := List.mem_map.1 hc
  exact sound_unit

lemma sound_defaultValue : defaultValue.Sound := by
  apply sound_cases
  intro c hc
  simp only [List.mem_cons, List.not_mem_nil, or_false] at hc
  rcases hc with rfl | rfl
  all_goals exact sound_text

lemma sound_column : column.Sound := by
  have sound := sound_text.pair (sound_dataType.pair (sound_bool.pair (sound_word32.pair
    (sound_word32.pair (sound_word32.pair sound_defaultValue.option)))))
  exact sound.via _ _

lemma sound_table : table.Sound := by
  have sound := sound_word32.pair (sound_word32.pair (sound_word32.pair (sound_text.pair
    (sound_column.list.pair (sound_text.list.pair sound_text.list)))))
  exact sound.via _ _

lemma sound_collation : collation.Sound := by
  apply sound_cases
  intro c hc
  simp only [List.mem_cons, List.not_mem_nil, or_false] at hc
  rcases hc with rfl | rfl | rfl | rfl
  all_goals exact sound_unit

lemma sound_sortedColumn : sortedColumn.Sound := (sound_text.pair sound_collation).via _ _

lemma sound_indexKind : indexKind.Sound := by
  apply sound_cases
  intro c hc
  simp only [List.mem_cons, List.not_mem_nil, or_false] at hc
  rcases hc with rfl | rfl
  · exact sound_text.list
  · exact sound_sortedColumn.list

lemma sound_index : index.Sound := by
  have sound := sound_word32.pair (sound_text.pair (sound_word32.pair (sound_bool.pair
    sound_indexKind)))
  exact sound.via _ _

lemma sound_zone : zone.Sound := by
  have sound := sound_word32.pair (sound_text.pair (sound_word32.pair (sound_word32.pair
    (sound_word32.pair (sound_word32.pair (sound_word32.pair sound_text))))))
  exact sound.via _ _

lemma sound_entry : entry.Sound := by
  apply sound_cases
  intro c hc
  simp only [List.mem_cons, List.not_mem_nil, or_false] at hc
  rcases hc with rfl | rfl | rfl | rfl | rfl | rfl | rfl | rfl | rfl | rfl | rfl
  · exact sound_table
  · exact sound_word32
  · exact sound_word32.pair sound_column.list
  · exact sound_word32.pair sound_text.list
  · exact sound_word32.pair sound_column
  · exact sound_index
  · exact sound_word32.pair sound_word32
  · exact sound_zone
  · exact sound_zone
  · exact sound_word32
  · exact sound_word32

lemma sound_duration : duration.Sound := (sound_word64.pair sound_word32).refine _ _

lemma sound_update : update.Sound := by
  have sound := (sound_word64.via Version.mk Version.number).pair
    (sound_duration.pair sound_entry.list)
  exact sound.via _ _

end Format

end SchemaCatalog.Wire
