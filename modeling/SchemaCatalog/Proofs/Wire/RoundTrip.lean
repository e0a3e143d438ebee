import SchemaCatalog.Proofs.Wire.Lawful

/-!
# Updates come back from their bytes

The formats of updates and of all that they hold are lawful, so an update that fits is decoded from
what it was encoded as (`Update.decode_encode`), and two updates that fit differ in their bytes.
-/

namespace SchemaCatalog

open Wire.Format

/-! ## What fits -/

/-- The text of a default fits. -/
def DefaultValue.Fits : DefaultValue → Prop
  | .constant s => TextFits s
  | .functionCall s => TextFits s

instance : DecidablePred DefaultValue.Fits
  | .constant s => inferInstanceAs (Decidable (TextFits s))
  | .functionCall s => inferInstanceAs (Decidable (TextFits s))

/-- The texts of a column fit. -/
def Column.Fits (c : Column) : Prop := TextFits c.name ∧ ∀ d, c.default = some d → d.Fits

instance : DecidablePred Column.Fits := fun c =>
  inferInstanceAs (Decidable (TextFits c.name ∧ ∀ d, c.default = some d → d.Fits))

/-- The lists and texts of a table fit. -/
def Table.Fits (t : Table) : Prop :=
  TextFits t.name ∧ ListFits Column.Fits t.columns ∧ ListFits TextFits t.primaryKey ∧
    ListFits TextFits t.colocation

instance : DecidablePred Table.Fits := fun t =>
  inferInstanceAs (Decidable (TextFits t.name ∧ ListFits Column.Fits t.columns ∧
    ListFits TextFits t.primaryKey ∧ ListFits TextFits t.colocation))

/-- The list and the texts of a kind of index fit. -/
def IndexKind.Fits : IndexKind → Prop
  | .hash columns => ListFits TextFits columns
  | .sorted columns => ListFits (fun c => TextFits c.name) columns

instance : DecidablePred IndexKind.Fits
  | .hash columns => inferInstanceAs (Decidable (ListFits TextFits columns))
  | .sorted columns =>
    inferInstanceAs (Decidable (ListFits (fun c : SortedColumn => TextFits c.name) columns))

/-- The list and the texts of an index fit. -/
def Index.Fits (i : Index) : Prop := TextFits i.name ∧ i.kind.Fits

instance : DecidablePred Index.Fits := fun i =>
  inferInstanceAs (Decidable (TextFits i.name ∧ i.kind.Fits))

/-- The texts of a zone fit. -/
def Zone.Fits (z : Zone) : Prop := TextFits z.name ∧ TextFits z.filter

instance : DecidablePred Zone.Fits := fun z =>
  inferInstanceAs (Decidable (TextFits z.name ∧ TextFits z.filter))

/-- The lists and texts of an entry fit. -/
def Entry.Fits : Entry → Prop
  | .newTable t => t.Fits
  | .newColumns _ columns => ListFits Column.Fits columns
  | .dropColumns _ names => ListFits TextFits names
  | .alterColumn _ column => column.Fits
  | .newIndex i => i.Fits
  | .newZone z => z.Fits
  | .alterZone z => z.Fits
  | .dropTable _ => True
  | .dropIndex _ _ => True
  | .dropZone _ => True
  | .takeIds _ => True

instance : DecidablePred Entry.Fits
  | .newTable t => inferInstanceAs (Decidable t.Fits)
  | .newColumns _ columns => inferInstanceAs (Decidable (ListFits Column.Fits columns))
  | .dropColumns _ names => inferInstanceAs (Decidable (ListFits TextFits names))
  | .alterColumn _ column => inferInstanceAs (Decidable column.Fits)
  | .newIndex i => inferInstanceAs (Decidable i.Fits)
  | .newZone z => inferInstanceAs (Decidable z.Fits)
  | .alterZone z => inferInstanceAs (Decidable z.Fits)
  | .dropTable _ => .isTrue trivial
  | .dropIndex _ _ => .isTrue trivial
  | .dropZone _ => .isTrue trivial
  | .takeIds _ => .isTrue trivial

/-- The lists and texts of an update have lengths that words hold. -/
def Update.Fits (u : Update) : Prop := ListFits Entry.Fits u.entries

instance : DecidablePred Update.Fits := fun u =>
  inferInstanceAs (Decidable (ListFits Entry.Fits u.entries))

/-! ## Lawful formats -/

namespace Wire.Format

lemma lawful_dataType : dataType.Lawful fun _ => True := by
  apply lawful_cases
  · intro c hc
    obtain ⟨t, _, rfl⟩ := List.mem_map.1 hc
    exact Case.lawful_only t _
  · intro t
    refine ⟨Case.only t, List.mem_map_of_mem ?_, by simp [Case.only]⟩
    cases t <;> simp [DataType.all]
  · decide

lemma lawful_defaultValue : defaultValue.Lawful DefaultValue.Fits := by
  apply lawful_cases
  · intro c hc
    simp only [List.mem_cons, List.not_mem_nil, or_false] at hc
    rcases hc with rfl | rfl
    all_goals
      refine lawful_text.case fun d b h => ?_
      cases d <;> cases h
      exact ⟨rfl, id⟩
  · intro d
    cases d <;> simp
  · decide

lemma lawful_column : column.Lawful Column.Fits := by
  have l := lawful_text.pair (lawful_dataType.pair (lawful_bool.pair (lawful_word32.pair
    (lawful_word32.pair (lawful_word32.pair lawful_defaultValue.option)))))
  refine (l.via fun _ => rfl).mono fun c h => ?_
  exact ⟨h.1, trivial, trivial, trivial, trivial, trivial, h.2⟩

lemma lawful_table : table.Lawful Table.Fits := by
  have l := lawful_word32.pair (lawful_word32.pair (lawful_word32.pair (lawful_text.pair
    (lawful_column.list.pair (lawful_text.list.pair lawful_text.list)))))
  refine (l.via fun t => rfl).mono fun t h => ?_
  exact ⟨trivial, trivial, trivial, h.1, h.2.1, h.2.2.1, h.2.2.2⟩

lemma lawful_collation : collation.Lawful fun _ => True := by
  apply lawful_cases
  · intro c hc
    simp only [List.mem_cons, List.not_mem_nil, or_false] at hc
    rcases hc with rfl | rfl | rfl | rfl
    all_goals exact Case.lawful_only _ _
  · intro c
    cases c <;> simp [Case.only]
  · decide

lemma lawful_sortedColumn : sortedColumn.Lawful fun c => TextFits c.name :=
  ((lawful_text.pair lawful_collation).via fun _ => rfl).mono fun _ h => ⟨h, trivial⟩

lemma lawful_indexKind : indexKind.Lawful IndexKind.Fits := by
  apply lawful_cases
  · intro c hc
    simp only [List.mem_cons, List.not_mem_nil, or_false] at hc
    rcases hc with rfl | rfl
    · refine lawful_text.list.case fun k b h => ?_
      cases k <;> cases h
      exact ⟨rfl, id⟩
    · refine lawful_sortedColumn.list.case fun k b h => ?_
      cases k <;> cases h
      exact ⟨rfl, id⟩
  · intro k
    cases k <;> simp
  · decide

lemma lawful_index : index.Lawful Index.Fits := by
  have l := lawful_word32.pair (lawful_text.pair (lawful_word32.pair (lawful_bool.pair
    lawful_indexKind)))
  refine (l.via fun i => rfl).mono fun i h => ?_
  exact ⟨trivial, h.1, trivial, trivial, h.2⟩

lemma lawful_zone : zone.Lawful Zone.Fits := by
  have l := lawful_word32.pair (lawful_text.pair (lawful_word32.pair (lawful_word32.pair
    (lawful_word32.pair (lawful_word32.pair (lawful_word32.pair lawful_text))))))
  refine (l.via fun z => rfl).mono fun z h => ?_
  exact ⟨trivial, h.1, trivial, trivial, trivial, trivial, trivial, h.2⟩

lemma lawful_entry : entry.Lawful Entry.Fits := by
  apply lawful_cases
  · intro c hc
    simp only [List.mem_cons, List.not_mem_nil, or_false] at hc
    rcases hc with rfl | rfl | rfl | rfl | rfl | rfl | rfl | rfl | rfl | rfl | rfl
    -- of the eleven constructors only the one that the case is about has a view
    · refine lawful_table.case fun e b h => ?_
      cases e <;> cases h
      exact ⟨rfl, id⟩
    · refine lawful_word32.case fun e b h => ?_
      cases e <;> cases h
      exact ⟨rfl, id⟩
    · refine (lawful_word32.pair lawful_column.list).case fun e b h => ?_
      cases e <;> cases h
      exact ⟨rfl, fun hf => ⟨trivial, hf⟩⟩
    · refine (lawful_word32.pair lawful_text.list).case fun e b h => ?_
      cases e <;> cases h
      exact ⟨rfl, fun hf => ⟨trivial, hf⟩⟩
    · refine (lawful_word32.pair lawful_column).case fun e b h => ?_
      cases e <;> cases h
      exact ⟨rfl, fun hf => ⟨trivial, hf⟩⟩
    · refine lawful_index.case fun e b h => ?_
      cases e <;> cases h
      exact ⟨rfl, id⟩
    · refine (lawful_word32.pair lawful_word32).case fun e b h => ?_
      cases e <;> cases h
      exact ⟨rfl, fun _ => ⟨trivial, trivial⟩⟩
    · refine lawful_zone.case fun e b h => ?_
      cases e <;> cases h
      exact ⟨rfl, id⟩
    · refine lawful_zone.case fun e b h => ?_
      cases e <;> cases h
      exact ⟨rfl, id⟩
    · refine lawful_word32.case fun e b h => ?_
      cases e <;> cases h
      exact ⟨rfl, id⟩
    · refine lawful_word32.case fun e b h => ?_
      cases e <;> cases h
      exact ⟨rfl, id⟩
  · intro e
    cases e <;> simp
  · decide

/-- The nanoseconds of a duration do not make up a second. -/
lemma ofParts?_self (d : Duration) : Duration.ofParts? d.secs d.nanos = some d := by
  have carried : d.nanos.val / 1_000_000_000 = 0 := Nat.div_eq_of_lt d.nanos_lt
  have left : d.nanos.val % 1_000_000_000 = d.nanos.val := Nat.mod_eq_of_lt d.nanos_lt
  have secs : Word64.ofNat? (d.secs.val + d.nanos.val / 1_000_000_000) = some d.secs := by
    rw [carried, Nat.add_zero]
    exact dif_pos d.secs.isLt
  rw [Duration.ofParts?, secs, Option.map_some]
  obtain ⟨s, n, h⟩ := d
  congr

lemma lawful_duration : duration.Lawful fun _ => True :=
  ((lawful_word64.pair lawful_word32).refine ofParts?_self).mono fun _ _ => ⟨trivial, trivial⟩

lemma lawful_version : version.Lawful fun _ => True :=
  (lawful_word64.via fun _ => rfl).mono fun _ _ => trivial

lemma lawful_update : update.Lawful Update.Fits := by
  have l := lawful_version.pair (lawful_duration.pair lawful_entry.list)
  exact (l.via fun u => rfl).mono fun u h => ⟨trivial, trivial, h⟩

end Wire.Format

/-- An update that fits is decoded from its bytes, whatever stands behind them. -/
lemma Update.decode_encode {u : Update} (h : u.Fits) (s : List UInt8) :
    decode (u.encode ++ s) = .ok u := by
  rw [decode, encode, Wire.Format.lawful_update.read_write h s]

/-- Updates that fit and have the same bytes are the same. -/
lemma Update.encode_inj {u w : Update} (hu : u.Fits) (hw : w.Fits) (e : u.encode = w.encode) :
    u = w := by
  have h := decode_encode hu []
  rw [e, decode_encode hw []] at h
  cases h
  rfl

end SchemaCatalog
