import SchemaCatalog.Proofs.Wire.RoundTrip

/-!
# Bytes that are cut short

A form of which the end is missing is never read as something else, and never found to be bad: its
reader runs out of bytes (`Format.RunsOut`). The cut may fall anywhere, in a number, between the
length of a text and the text, in a character, or between the items of a list. Every part of which
formats are made keeps this law, so an update of which the end is missing is not decoded, and the
fault is always the same one (`Update.decode_cut`).
-/

namespace SchemaCatalog.Wire

/-- The bytes are the front of others, of which some are missing. -/
def Cut (s p : List UInt8) : Prop := ∃ t, t ≠ [] ∧ p = s ++ t

lemma cut_iff {s p : List UInt8} : Cut s p ↔ s <+: p ∧ s ≠ p := by
  constructor
  · rintro ⟨t, ht, rfl⟩
    exact ⟨List.prefix_append s t, by simpa using ht⟩
  · rintro ⟨⟨t, rfl⟩, hne⟩
    exact ⟨t, by simpa using hne, rfl⟩

lemma Cut.length_lt {s p : List UInt8} (h : Cut s p) : s.length < p.length := by
  obtain ⟨t, ht, rfl⟩ := h
  have := List.length_pos_iff.2 ht
  rw [List.length_append]
  omega

lemma not_cut_nil {s : List UInt8} : ¬ Cut s [] := fun h => by simpa using h.length_lt

/-- A cut is before the first byte or behind it. -/
lemma Cut.cons {s p : List UInt8} {b : UInt8} (h : Cut s (b :: p)) :
    s = [] ∨ ∃ c, s = b :: c ∧ Cut c p := by
  obtain ⟨t, ht, e⟩ := h
  cases s with
  | nil => exact .inl rfl
  | cons d c =>
    obtain ⟨rfl, rfl⟩ := List.cons_eq_cons.1 e
    exact .inr ⟨c, rfl, t, ht, rfl⟩

/-- A cut is in the first part or behind it. -/
lemma Cut.append {s q r : List UInt8} (h : Cut s (q ++ r)) :
    Cut s q ∨ ∃ c, s = q ++ c ∧ Cut c r := by
  obtain ⟨t, ht, e⟩ := h
  rcases List.append_eq_append_iff.1 e with ⟨c, rfl, rfl⟩ | ⟨c, rfl, rfl⟩
  · exact .inr ⟨c, rfl, t, ht, rfl⟩
  · cases c with
    | nil => exact .inr ⟨[], by simp, r, by simpa using ht, by simp⟩
    | cons d c => exact .inl ⟨d :: c, by simp, rfl⟩

/-- The reader of a format runs out of bytes on forms that are cut short. -/
structure Format.RunsOut {α : Type} (f : Format α) : Prop where
  cut : ∀ {a : α} {p s : List UInt8}, f.form a p → Cut s p → f.read s = .error .bytesRunOut

/-! ## Numbers -/

/-- All groups that are left of a number say that more follow. -/
lemma Groups.runsOut {n : Nat} {p : List UInt8} (g : Groups n p) :
    ∀ {k : Nat} {s : List UInt8}, p.length ≤ k → Cut s p →
      readGroups k s = .error .bytesRunOut := by
  induction g with
  | last b hb =>
    intro k s hk h
    cases k with
    | zero => simp at hk
    | succ k =>
      rcases h.cons with rfl | ⟨c, rfl, hc⟩
      · rfl
      · exact absurd hc not_cut_nil
  | @more b n p hb g ih =>
    intro k s hk h
    cases k with
    | zero => simp at hk
    | succ k =>
      have hp : p.length ≤ k := by simpa using hk
      rcases h.cons with rfl | ⟨c, rfl, hc⟩
      · rfl
      · simp [readGroups, Nat.not_lt.2 hb, ih hp hc]

namespace Format

variable {α β : Type}

lemma runsOut_varint (bound k : Nat) : (varint bound k).RunsOut where
  cut := by
    rintro n p s ⟨g, hp⟩ h
    simp [varint, g.runsOut hp h]

lemma runsOut_word32 : word32.RunsOut := runsOut_varint _ _

lemma runsOut_word64 : word64.RunsOut := runsOut_varint _ _

/-! ## Values that are there or not -/

lemma runsOut_unit : unit.RunsOut where
  cut := by
    intro _ p s e h
    cases e
    exact absurd h not_cut_nil

lemma runsOut_bool : bool.RunsOut where
  cut := by
    intro b p s e h
    cases e
    rcases h.cons with rfl | ⟨c, rfl, hc⟩
    · rfl
    · exact absurd hc not_cut_nil

lemma RunsOut.option {f : Format α} (o : f.RunsOut) : f.option.RunsOut where
  cut := by
    intro a p s e h
    cases a with
    | none =>
      cases e
      rcases h.cons with rfl | ⟨c, rfl, hc⟩
      · rfl
      · exact absurd hc not_cut_nil
    | some a =>
      obtain ⟨q, hq, rfl⟩ := e
      rcases h.cons with rfl | ⟨c, rfl, hc⟩
      · rfl
      · simp [Format.option, o.cut hq hc]

/-! ## Sequences -/

/-- Where the cut is behind the first value, that one is read and the second one is cut. -/
lemma RunsOut.pair {f : Format α} {g : Format β} {fits : α → Prop} (l : f.Lawful fits)
    (o : f.RunsOut) (o' : g.RunsOut) : (f.pair g).RunsOut where
  cut := by
    rintro ⟨a, b⟩ p s ⟨q, r, hq, hr, rfl⟩ h
    rcases h.append with hc | ⟨c, rfl, hc⟩
    · simp [Format.pair, o.cut hq hc]
    · simp [Format.pair, l.reads hq c, o'.cut hr hc]

lemma RunsOut.refine {f : Format β} (o : f.RunsOut) (of? : β → Option α) (rep : α → β) :
    (f.refine of? rep).RunsOut where
  cut := by
    rintro a p s ⟨b, -, hf⟩ h
    simp [Format.refine, o.cut hf h]

lemma RunsOut.via {f : Format β} (o : f.RunsOut) (of : β → α) (rep : α → β) :
    (f.via of rep).RunsOut :=
  o.refine _ rep

/-- The items before the cut are read, and the one that is cut ends the reading. -/
lemma Items.runsOut {f : Format α} {fits : α → Prop} (l : f.Lawful fits) (o : f.RunsOut)
    {as : List α} {p : List UInt8} (i : Items f as p) :
    ∀ {s : List UInt8}, Cut s p → readItems f as.length s = .error .bytesRunOut := by
  induction i with
  | nil => exact fun h => absurd h not_cut_nil
  | cons ha _ ih =>
    intro s h
    rcases h.append with hc | ⟨c, rfl, hc⟩
    · simp [readItems, o.cut ha hc]
    · simp [readItems, l.reads ha c, ih hc]

lemma RunsOut.list {f : Format α} {fits : α → Prop} (l : f.Lawful fits) (o : f.RunsOut) :
    f.list.RunsOut where
  cut := by
    rintro as p s ⟨n, q, r, hn, hq, hr, rfl⟩ h
    rcases h.append with hc | ⟨c, rfl, hc⟩
    · simp [Format.list, runsOut_word64.cut hq hc]
    · simp [Format.list, lawful_word64.reads hq c, hn, hr.runsOut l o hc]

/-- The bytes of a text are counted before they are looked at. -/
lemma runsOut_text : text.RunsOut where
  cut := by
    rintro t p s ⟨n, q, hn, hq, rfl⟩ h
    rcases h.append with hc | ⟨c, rfl, hc⟩
    · simp [Format.text, runsOut_word64.cut hq hc]
    · have short : c.length < n.val := by
        rw [hn]
        exact hc.length_lt
      simp [Format.text, lawful_word64.reads hq c, short]

/-! ## Alternatives -/

lemma runsOut_cases {cs : List (Case α)} (o : ∀ c ∈ cs, c.format.RunsOut) :
    (cases cs).RunsOut where
  cut := by
    rintro a p s ⟨n, c, b, q, r, hc, rfl, hq, hr, rfl⟩ h
    rcases h.append with hcut | ⟨d, rfl, hcut⟩
    · simp [Format.cases, runsOut_word32.cut hq hcut]
    · have oc := o c (List.mem_of_getElem? hc)
      simp [Format.cases, lawful_word32.reads hq d, hc, readCase, oc.cut hr hcut]

/-! ## The formats of updates -/

lemma runsOut_dataType : dataType.RunsOut := by
  apply runsOut_cases
  intro c hc
  obtain ⟨t, -, rfl⟩ := List.mem_map.1 hc
  exact runsOut_unit

lemma runsOut_defaultValue : defaultValue.RunsOut := by
  apply runsOut_cases
  intro c hc
  simp only [List.mem_cons, List.not_mem_nil, or_false] at hc
  rcases hc with rfl | rfl
  all_goals exact runsOut_text

lemma runsOut_column : column.RunsOut :=
  .via (.pair lawful_text runsOut_text <| .pair lawful_dataType runsOut_dataType <|
    .pair lawful_bool runsOut_bool <| .pair lawful_word32 runsOut_word32 <|
    .pair lawful_word32 runsOut_word32 <| .pair lawful_word32 runsOut_word32
    runsOut_defaultValue.option) _ _

lemma runsOut_table : table.RunsOut :=
  .via (.pair lawful_word32 runsOut_word32 <| .pair lawful_word32 runsOut_word32 <|
    .pair lawful_word32 runsOut_word32 <| .pair lawful_text runsOut_text <|
    .pair lawful_column.list (.list lawful_column runsOut_column) <|
    .pair lawful_text.list (.list lawful_text runsOut_text) (.list lawful_text runsOut_text)) _ _

lemma runsOut_collation : collation.RunsOut := by
  apply runsOut_cases
  intro c hc
  simp only [List.mem_cons, List.not_mem_nil, or_false] at hc
  rcases hc with rfl | rfl | rfl | rfl
  all_goals exact runsOut_unit

lemma runsOut_sortedColumn : sortedColumn.RunsOut :=
  .via (.pair lawful_text runsOut_text runsOut_collation) _ _

lemma runsOut_indexKind : indexKind.RunsOut := by
  apply runsOut_cases
  intro c hc
  simp only [List.mem_cons, List.not_mem_nil, or_false] at hc
  rcases hc with rfl | rfl
  · exact .list lawful_text runsOut_text
  · exact .list lawful_sortedColumn runsOut_sortedColumn

lemma runsOut_index : index.RunsOut :=
  .via (.pair lawful_word32 runsOut_word32 <| .pair lawful_text runsOut_text <|
    .pair lawful_word32 runsOut_word32 <| .pair lawful_bool runsOut_bool runsOut_indexKind) _ _

lemma runsOut_zone : zone.RunsOut :=
  .via (.pair lawful_word32 runsOut_word32 <| .pair lawful_text runsOut_text <|
    .pair lawful_word32 runsOut_word32 <| .pair lawful_word32 runsOut_word32 <|
    .pair lawful_word32 runsOut_word32 <| .pair lawful_word32 runsOut_word32 <|
    .pair lawful_word32 runsOut_word32 runsOut_text) _ _

lemma runsOut_entry : entry.RunsOut := by
  apply runsOut_cases
  intro c hc
  simp only [List.mem_cons, List.not_mem_nil, or_false] at hc
  rcases hc with rfl | rfl | rfl | rfl | rfl | rfl | rfl | rfl | rfl | rfl | rfl
  · exact runsOut_table
  · exact runsOut_word32
  · exact .pair lawful_word32 runsOut_word32 (.list lawful_column runsOut_column)
  · exact .pair lawful_word32 runsOut_word32 (.list lawful_text runsOut_text)
  · exact .pair lawful_word32 runsOut_word32 runsOut_column
  · exact runsOut_index
  · exact .pair lawful_word32 runsOut_word32 runsOut_word32
  · exact runsOut_zone
  · exact runsOut_zone
  · exact runsOut_word32
  · exact runsOut_word32

lemma runsOut_duration : duration.RunsOut :=
  .refine (.pair lawful_word64 runsOut_word64 runsOut_word32) _ _

lemma runsOut_update : update.RunsOut :=
  .via (.pair lawful_version (runsOut_word64.via _ _) <| .pair lawful_duration runsOut_duration
    (.list lawful_entry runsOut_entry)) _ _

end Format

end SchemaCatalog.Wire

namespace SchemaCatalog

/-- An update of which the end is missing is not decoded. Its bytes run out, wherever the cut is:
it is not taken for a shorter update, and no part of it is found to be bad. -/
theorem Update.decode_cut {u : Update} (h : u.Fits) {p : List UInt8} (front : p <+: u.encode)
    (short : p ≠ u.encode) : decode p = .error (.codec .bytesRunOut) := by
  have cut : Wire.Cut p u.encode := Wire.cut_iff.2 ⟨front, short⟩
  rw [decode, Wire.Format.runsOut_update.cut (Wire.Format.lawful_update.writes h) cut]

/-- An update with a letter of two bytes in the name of a column of a table. -/
def Update.accented : Update :=
  ⟨⟨300⟩, Duration.ofMillis 1000,
    [.newTable ⟨7, 1, 2, "T", [⟨"é", .int32, true, 0, 0, 0, some (.constant "1")⟩], ["é"], []⟩,
      .takeIds 200]⟩

/-- The cut is in the letter, of which the first byte is left. -/
theorem Update.decode_cut_in_letter :
    accented.encode.take 14 = [172, 2, 1, 0, 2, 0, 7, 1, 2, 1, 84, 1, 2, 195] ∧
      decode (accented.encode.take 14) = .error (.codec .bytesRunOut) :=
  ⟨by decide +kernel, decode_cut (u := accented) (by decide +kernel) (List.take_prefix 14 _)
    (by decide +kernel)⟩

end SchemaCatalog
