import SchemaCatalog.Proofs.Wire.Sound

/-!
# The grammar of updates

The wire forms of an update, written down as sets of byte strings without regard to any reader:
fields in the order of their definition, with the number of an alternative before them. Numbers may
be longer than they have to be, and nanoseconds may make up seconds, so an update has more forms
than the one it is written in. The formats have these forms and no others (`Grammar.update_iff`),
and what is decoded are the bytes that begin with one of them (`Update.decode_iff_grammar`).
-/

namespace SchemaCatalog.Wire

namespace Grammar

/-- A set of byte strings. -/
abbrev Shape := List UInt8 → Prop

/-- One shape behind another. -/
inductive InOrder : List Shape → Shape where
  | nil : InOrder [] []
  | cons {S : Shape} {Ss : List Shape} {p q : List UInt8} :
      S p → InOrder Ss q → InOrder (S :: Ss) (p ++ q)

/-! ## Values of all kinds -/

/-- A number below a bound, in at most so many groups of seven bits. -/
def number (bound groups n : Nat) : Shape := fun p => n < bound ∧ Groups n p ∧ p.length ≤ groups

/-- A number of 32 bits. -/
def word32 (n : Nat) : Shape := number (2 ^ 32) 5 n

/-- A number of 64 bits. -/
def word64 (n : Nat) : Shape := number (2 ^ 64) 10 n

/-- The byte 1 for yes, 0 for no. -/
def bool : Bool → Shape
  | true => fun p => p = [1]
  | false => fun p => p = [0]

/-- The byte 0, or the byte 1 and the value. -/
def option {α : Type} (S : α → Shape) : Option α → Shape
  | none => fun p => p = [0]
  | some a => InOrder [fun p => p = [1], S a]

/-- The number of items, and the items. -/
def list {α : Type} (S : α → Shape) (as : List α) : Shape :=
  InOrder [word64 as.length, InOrder (as.map S)]

/-- The number of bytes, and the bytes in UTF-8. -/
def text (s : String) : Shape := InOrder [word64 s.toUTF8.size, fun p => p.toByteArray = s.toUTF8]

/-- The place of an alternative among the others, and what it is made of. -/
def variant (place : Nat) (Ss : List Shape) : Shape := InOrder (word32 place :: Ss)

/-! ## Updates and what they hold -/

/-- The place of the type among the types. -/
def dataType (t : DataType) : Shape := variant t.ctorIdx []

/-- A constant or the call of a function, with its text. -/
def defaultValue : DefaultValue → Shape
  | .constant s => variant 0 [text s]
  | .functionCall s => variant 1 [text s]

/-- The fields of a column. A default may be missing. -/
def column (c : Column) : Shape :=
  InOrder [text c.name, dataType c.dataType, bool c.nullable, word32 c.precision, word32 c.scale,
    word32 c.length, option defaultValue c.default]

/-- The numbers of a table, of its schema and of its zone, its name, its columns, and the names of
the columns in its keys. -/
def table (t : Table) : Shape :=
  InOrder [word32 t.id, word32 t.schemaId, word32 t.zoneId, text t.name, list column t.columns,
    list text t.primaryKey, list text t.colocation]

/-- The place of the order among the orders. -/
def collation (c : Collation) : Shape := variant c.ctorIdx []

/-- The name of a column, and its order. -/
def sortedColumn (c : SortedColumn) : Shape := InOrder [text c.name, collation c.collation]

/-- Hashed or sorted, with the columns. -/
def indexKind : IndexKind → Shape
  | .hash columns => variant 0 [list text columns]
  | .sorted columns => variant 1 [list sortedColumn columns]

/-- The fields of an index, with its kind at the end. -/
def index (i : Index) : Shape :=
  InOrder [word32 i.id, text i.name, word32 i.tableId, bool i.unique, indexKind i.kind]

/-- The fields of a zone. -/
def zone (z : Zone) : Shape :=
  InOrder [word32 z.id, text z.name, word32 z.partitions, word32 z.replicas, word32 z.autoAdjust,
    word32 z.scaleUp, word32 z.scaleDown, text z.filter]

/-- The place of the kind of entry among the kinds, and the fields of the entry. -/
def entry : Entry → Shape
  | .newTable t => variant 0 [table t]
  | .dropTable id => variant 1 [word32 id]
  | .newColumns id columns => variant 2 [word32 id, list column columns]
  | .dropColumns id names => variant 3 [word32 id, list text names]
  | .alterColumn id c => variant 4 [word32 id, column c]
  | .newIndex i => variant 5 [index i]
  | .dropIndex id tableId => variant 6 [word32 id, word32 tableId]
  | .newZone z => variant 7 [zone z]
  | .alterZone z => variant 8 [zone z]
  | .dropZone id => variant 9 [word32 id]
  | .takeIds delta => variant 10 [word32 delta]

/-- Seconds and nanoseconds. Nanoseconds that make up a second count as one. -/
def duration (d : Duration) : Shape := fun p =>
  ∃ secs nanos : Nat, d.secs.val = secs + nanos / 1_000_000_000 ∧
    d.nanos.val = nanos % 1_000_000_000 ∧ InOrder [word64 secs, word32 nanos] p

/-- The version, the delay and the entries of an update. -/
def update (u : Update) : Shape :=
  InOrder [word64 u.version.number, duration u.delay, list entry u.entries]

/-! ## Shapes in order -/

lemma inOrder_nil {p : List UInt8} : InOrder [] p ↔ p = [] := by
  constructor
  · intro h
    cases h
    rfl
  · rintro rfl
    exact .nil

lemma inOrder_cons {S : Shape} {Ss : List Shape} {p : List UInt8} :
    InOrder (S :: Ss) p ↔ ∃ q r, S q ∧ InOrder Ss r ∧ p = q ++ r := by
  constructor
  · intro h
    cases h with
    | cons hq hr => exact ⟨_, _, hq, hr, rfl⟩
  · rintro ⟨q, r, hq, hr, rfl⟩
    exact .cons hq hr

lemma inOrder_singleton {S : Shape} {p : List UInt8} : InOrder [S] p ↔ S p := by
  simp [inOrder_cons, inOrder_nil]

end Grammar

namespace Format

open Grammar (InOrder Shape inOrder_cons inOrder_nil inOrder_singleton)

variable {α β : Type}

/-! ## Forms of the parts -/

/-- The format has these forms and no others. -/
def Has (f : Format α) (S : α → Shape) : Prop := ∀ a p, f.form a p ↔ S a p

lemma has_word32 : word32.Has fun n => Grammar.word32 n := by
  intro n p
  simp [word32, varint, Grammar.word32, Grammar.number, n.isLt]

lemma has_word64 : word64.Has fun n => Grammar.word64 n := by
  intro n p
  simp [word64, varint, Grammar.word64, Grammar.number, n.isLt]

lemma has_bool : bool.Has Grammar.bool := by
  intro b p
  cases b <;> simp [bool, Grammar.bool]

lemma Has.option {f : Format α} {S : α → Shape} (h : f.Has S) :
    f.option.Has (Grammar.option S) := by
  intro o p
  cases o with
  | none => rfl
  | some a => simp [Format.option, Grammar.option, inOrder_cons, inOrder_nil, h a]

/-- The last of several values. -/
lemma Has.last {f : Format α} {S : α → Shape} (h : f.Has S) : f.Has fun a => InOrder [S a] :=
  fun a p => (h a p).trans inOrder_singleton.symm

/-- A value before others. -/
lemma Has.pair {f : Format α} {g : Format β} {S : α → Shape} {Ss : β → List Shape} (h : f.Has S)
    (h' : g.Has fun b => InOrder (Ss b)) :
    (f.pair g).Has fun x => InOrder (S x.1 :: Ss x.2) := by
  rintro ⟨a, b⟩ p
  simp only [Format.pair, inOrder_cons, h a, h' b]

/-- Values that stand for one another have the same forms. -/
lemma Has.via {f : Format β} {S : β → Shape} (h : f.Has S) {of : β → α} {rep : α → β}
    (of_rep : ∀ a, of (rep a) = a) (rep_of : ∀ b, rep (of b) = b) :
    (f.via of rep).Has fun a => S (rep a) := by
  intro a p
  constructor
  · rintro ⟨b, e, hb⟩
    obtain rfl : of b = a := by simpa using e
    show S (rep (of b)) p
    rw [rep_of]
    exact (h b p).1 hb
  · intro ha
    exact ⟨rep a, congrArg some (of_rep a), (h _ p).2 ha⟩

lemma items_iff {f : Format α} {S : α → Shape} (h : f.Has S) :
    ∀ {as : List α} {p : List UInt8}, Items f as p ↔ InOrder (as.map S) p
  | [], p => by
    constructor
    · intro i
      cases i
      exact .nil
    · intro i
      cases i
      exact .nil
  | a :: as, p => by
    rw [List.map_cons, inOrder_cons]
    constructor
    · intro i
      cases i with
      | cons ha has => exact ⟨_, _, (h a _).1 ha, (items_iff h).1 has, rfl⟩
    · rintro ⟨q, r, hq, hr, rfl⟩
      exact .cons ((h a q).2 hq) ((items_iff h).2 hr)

/-- A length in front of something is a word. -/
lemma counted_iff {n : Nat} {S : Shape} {p : List UInt8} :
    (∃ (w : Word64) (q r : List UInt8), w.val = n ∧ word64.form w q ∧ S r ∧ p = q ++ r) ↔
      InOrder [Grammar.word64 n, S] p := by
  simp only [inOrder_cons, inOrder_nil, has_word64 _ _]
  constructor
  · rintro ⟨w, q, r, rfl, hq, hr, rfl⟩
    exact ⟨q, r, hq, ⟨r, [], hr, rfl, by simp⟩, rfl⟩
  · rintro ⟨q, -, hq, ⟨r, -, hr, rfl, rfl⟩, rfl⟩
    exact ⟨⟨n, hq.1⟩, q, r, rfl, hq, hr, by simp⟩

lemma Has.list {f : Format α} {S : α → Shape} (h : f.Has S) :
    f.list.Has (Grammar.list S) := by
  intro as p
  rw [Grammar.list, ← counted_iff]
  simp only [Format.list, items_iff h]

lemma has_text : text.Has Grammar.text := by
  intro s p
  have bytes : ∀ q : List UInt8, q.toByteArray = s.toUTF8 ↔ q = utf8 s := by
    intro q
    constructor
    · intro e
      rw [utf8, ← e]
      simp
    · rintro rfl
      apply ByteArray.ext
      simp [utf8]
  have size : (utf8 s).length = s.toUTF8.size := by simp [utf8]
  rw [Grammar.text, ← counted_iff]
  simp only [text, bytes, size]
  constructor
  · rintro ⟨w, q, hw, hq, rfl⟩
    exact ⟨w, q, utf8 s, hw, hq, rfl, rfl⟩
  · rintro ⟨w, q, r, hw, hq, rfl, rfl⟩
    exact ⟨w, q, hw, hq, rfl⟩

/-! ## Forms of alternatives -/

/-- The forms of alternatives from a place on. -/
def formFrom (a : α) (p : List UInt8) : Nat → List (Case α) → Prop
  | _, [] => False
  | k, c :: cs =>
    (∃ b, c.make b = a ∧ InOrder [Grammar.word32 k, c.format.form b] p) ∨ formFrom a p (k + 1) cs

lemma formFrom_iff {a : α} {p : List UInt8} : ∀ {k : Nat} {cs : List (Case α)},
    formFrom a p k cs ↔ ∃ (i : Nat) (c : Case α) (b : c.β), cs[i]? = some c ∧ c.make b = a ∧
      InOrder [Grammar.word32 (k + i), c.format.form b] p
  | _, [] => by simp [formFrom]
  | k, c :: cs => by
    rw [formFrom, formFrom_iff]
    constructor
    · rintro (⟨b, hb, h⟩ | ⟨i, d, b, hd, hb, h⟩)
      · exact ⟨0, c, b, rfl, hb, h⟩
      · exact ⟨i + 1, d, b, by simpa using hd, hb, by simpa [Nat.add_assoc, Nat.add_comm 1] using h⟩
    · rintro ⟨i, d, b, hd, hb, h⟩
      cases i with
      | zero =>
        obtain rfl : c = d := by simpa using hd
        exact .inl ⟨b, hb, h⟩
      | succ i =>
        exact .inr ⟨i, d, b, by simpa using hd, hb,
          by simpa [Nat.add_assoc, Nat.add_comm 1] using h⟩

/-- A value has the forms of the cases that make it, behind the places of these. -/
lemma form_cases_iff {cs : List (Case α)} {a : α} {p : List UInt8} :
    (cases cs).form a p ↔ formFrom a p 0 cs := by
  rw [formFrom_iff]
  simp only [cases, inOrder_cons, inOrder_nil, has_word32 _ _]
  constructor
  · rintro ⟨n, c, b, q, r, hc, rfl, hq, hr, rfl⟩
    exact ⟨n, c, b, hc, rfl, q, r, by simpa using hq, ⟨r, [], hr, rfl, by simp⟩, rfl⟩
  · rintro ⟨i, c, b, hc, rfl, q, -, hq, ⟨r, -, hr, rfl, rfl⟩, rfl⟩
    rw [Nat.zero_add] at hq
    exact ⟨⟨i, hq.1⟩, c, b, q, r, hc, rfl, hq, hr, by simp⟩

/-- What a value is made of, behind its place. -/
lemma Has.behind {f : Format α} {Ss : α → List Shape} (h : f.Has fun a => InOrder (Ss a))
    {k : Nat} {a : α} {p : List UInt8} :
    InOrder [Grammar.word32 k, f.form a] p ↔ Grammar.variant k (Ss a) p := by
  simp only [Grammar.variant, inOrder_cons, inOrder_nil, h a]
  simp

/-- A value that is one of those listed has its place in the list as its form. -/
lemma has_only [DecidableEq α] (as : List α) (distinct : as.Nodup) {place : α → Nat}
    (h : ∀ a, as[place a]? = some a) :
    (cases (as.map Case.only)).Has fun a => Grammar.variant (place a) [] := by
  intro a p
  have nothing : unit.Has fun _ => InOrder [] := fun _ _ => inOrder_nil.symm
  rw [form_cases_iff, formFrom_iff]
  simp only [Nat.zero_add]
  constructor
  · rintro ⟨i, c, b, hc, rfl, hp⟩
    rw [List.getElem?_map, Option.map_eq_some_iff] at hc
    obtain ⟨d, hd, rfl⟩ := hc
    have lt := (List.getElem?_eq_some_iff.1 hd).1
    obtain rfl : i = place d := (List.getElem?_inj lt distinct).1 (hd.trans (h d).symm)
    exact nothing.behind.1 hp
  · intro hp
    refine ⟨place a, Case.only a, (), by simp [h a], rfl, nothing.behind.2 hp⟩

/-! ## The formats of updates -/

lemma has_dataType : dataType.Has Grammar.dataType := by
  have places : ∀ t : DataType, DataType.all[t.ctorIdx]? = some t := by
    intro t
    cases t <;> rfl
  exact has_only _ (by decide) places

lemma has_defaultValue : defaultValue.Has Grammar.defaultValue := by
  intro d p
  rw [defaultValue, form_cases_iff]
  cases d <;> simp [formFrom, Grammar.defaultValue, has_text.last.behind]

lemma has_column : column.Has Grammar.column := by
  have h := has_text.pair (has_dataType.pair (has_bool.pair (has_word32.pair (has_word32.pair
    (has_word32.pair has_defaultValue.option.last)))))
  exact h.via (fun _ => rfl) fun _ => rfl

lemma has_table : table.Has Grammar.table := by
  have h := has_word32.pair (has_word32.pair (has_word32.pair (has_text.pair
    (has_column.list.pair (has_text.list.pair has_text.list.last)))))
  exact h.via (fun _ => rfl) fun _ => rfl

lemma has_collation : collation.Has Grammar.collation := by
  have places : ∀ c : Collation, [Collation.ascNullsFirst, .ascNullsLast, .descNullsFirst,
      .descNullsLast][c.ctorIdx]? = some c := by
    intro c
    cases c <;> rfl
  exact has_only _ (by decide) places

lemma has_sortedColumn : sortedColumn.Has Grammar.sortedColumn :=
  (has_text.pair has_collation.last).via (fun _ => rfl) fun _ => rfl

lemma has_indexKind : indexKind.Has Grammar.indexKind := by
  intro k p
  rw [indexKind, form_cases_iff]
  cases k <;> simp [formFrom, Grammar.indexKind, has_text.list.last.behind,
    has_sortedColumn.list.last.behind]

lemma has_index : index.Has Grammar.index := by
  have h := has_word32.pair (has_text.pair (has_word32.pair (has_bool.pair has_indexKind.last)))
  exact h.via (fun _ => rfl) fun _ => rfl

lemma has_zone : zone.Has Grammar.zone := by
  have h := has_word32.pair (has_text.pair (has_word32.pair (has_word32.pair (has_word32.pair
    (has_word32.pair (has_word32.pair has_text.last))))))
  exact h.via (fun _ => rfl) fun _ => rfl

lemma has_entry : entry.Has Grammar.entry := by
  intro e p
  rw [entry, form_cases_iff]
  -- of the eleven places only that of the constructor is left
  cases e with
  | newTable t => simpa [formFrom, Grammar.entry, and_assoc] using has_table.last.behind
  | dropTable id => simpa [formFrom, Grammar.entry, and_assoc] using has_word32.last.behind
  | newColumns id columns =>
    simpa [formFrom, Grammar.entry, and_assoc] using
      (has_word32.pair has_column.list.last).behind
  | dropColumns id names =>
    simpa [formFrom, Grammar.entry, and_assoc] using
      (has_word32.pair has_text.list.last).behind
  | alterColumn id c =>
    simpa [formFrom, Grammar.entry, and_assoc] using
      (has_word32.pair has_column.last).behind
  | newIndex i => simpa [formFrom, Grammar.entry, and_assoc] using has_index.last.behind
  | dropIndex id tableId =>
    simpa [formFrom, Grammar.entry, and_assoc] using
      (has_word32.pair has_word32.last).behind
  | newZone z => simpa [formFrom, Grammar.entry, and_assoc] using has_zone.last.behind
  | alterZone z => simpa [formFrom, Grammar.entry, and_assoc] using has_zone.last.behind
  | dropZone id => simpa [formFrom, Grammar.entry, and_assoc] using has_word32.last.behind
  | takeIds delta => simpa [formFrom, Grammar.entry, and_assoc] using has_word32.last.behind

/-- Seconds and the nanoseconds that carry into them make a duration if the sum is a word. -/
lemma ofParts?_eq_some_iff {secs : Word64} {nanos : Word32} {d : Duration} :
    Duration.ofParts? secs nanos = some d ↔
      d.secs.val = secs.val + nanos.val / 1_000_000_000 ∧
        d.nanos.val = nanos.val % 1_000_000_000 := by
  simp only [Duration.ofParts?, Option.map_eq_some_iff, Word64.ofNat?]
  constructor
  · rintro ⟨w, hw, rfl⟩
    split at hw
    · cases hw
      exact ⟨rfl, rfl⟩
    · cases hw
  · rintro ⟨hs, hn⟩
    refine ⟨d.secs, ?_, ?_⟩
    · rw [dif_pos (by omega)]
      exact congrArg some (Fin.ext hs.symm)
    · cases d
      simp only [Duration.mk.injEq, true_and]
      exact Fin.ext hn.symm

lemma has_duration : duration.Has Grammar.duration := by
  intro d p
  have h : (pair word64 word32).Has _ := has_word64.pair has_word32.last
  simp only [duration, refine, ofParts?_eq_some_iff, h _ _, Grammar.duration]
  constructor
  · rintro ⟨⟨secs, nanos⟩, ⟨hs, hn⟩, hp⟩
    exact ⟨secs, nanos, hs, hn, hp⟩
  · rintro ⟨secs, nanos, hs, hn, hp⟩
    obtain ⟨q, r, hq, hr, rfl⟩ := inOrder_cons.1 hp
    exact ⟨⟨⟨secs, hq.1⟩, ⟨nanos, (inOrder_singleton.1 hr).1⟩⟩, ⟨hs, hn⟩, hp⟩

lemma has_version : version.Has fun v => Grammar.word64 v.number :=
  has_word64.via (fun _ => rfl) fun _ => rfl

lemma has_update : update.Has Grammar.update := by
  have h := has_version.pair (has_duration.pair has_entry.list.last)
  exact h.via (fun _ => rfl) fun _ => rfl

end Format

/-- The formats of updates have the forms of the grammar. -/
lemma Grammar.update_iff {u : Update} {p : List UInt8} : Format.update.form u p ↔ update u p :=
  Format.has_update u p

end SchemaCatalog.Wire

namespace SchemaCatalog

open Wire

/-- An update is decoded from the bytes that begin with one of its forms, and from no others. -/
lemma Update.decode_eq_ok_iff {b : List UInt8} {u : Update} :
    decode b = .ok u ↔ ∃ p, p <+: b ∧ Grammar.update u p := by
  have read : decode b = .ok u ↔ ∃ s, Format.update.read b = .ok (u, s) := by
    rw [decode]
    split
    · next w s h => simp [h]
    · next fault h => simp [h]
  rw [read]
  simp only [Format.read_eq_ok_iff Format.lawful_update Format.sound_update, Grammar.update_iff]
  constructor
  · rintro ⟨s, p, hp, rfl⟩
    exact ⟨p, List.prefix_append p s, hp⟩
  · rintro ⟨p, ⟨s, rfl⟩, hp⟩
    exact ⟨s, p, hp, rfl⟩

/-- Bytes that are not decoded are refused with a fault of the wire. -/
lemma Update.decode_eq_error {b : List UInt8} (h : ∀ u, decode b ≠ .ok u) :
    ∃ fault, decode b = .error (.codec fault) := by
  rw [decode] at h ⊢
  split
  · next u s hu =>
    rw [hu] at h
    exact absurd rfl (h u)
  · next fault _ => exact ⟨fault, rfl⟩

/-- The decoder accepts the grammar. It decodes an update from the bytes that begin with a form of
it; bytes begin with one form of one update at most; what stands behind the form has no influence;
and all other bytes are refused with a fault of the wire. -/
theorem Update.decode_iff_grammar (b : List UInt8) :
    (∀ u, decode b = .ok u ↔ ∃ p, p <+: b ∧ Grammar.update u p) ∧
      (∀ u w p q, p <+: b → q <+: b → Grammar.update u p → Grammar.update w q → p = q ∧ u = w) ∧
      (∀ u p, p <+: b → Grammar.update u p → ∀ s, decode (p ++ s) = .ok u) ∧
      ((∀ u p, p <+: b → ¬ Grammar.update u p) → ∃ fault, decode b = .error (.codec fault)) := by
  refine ⟨fun u => decode_eq_ok_iff, ?_, ?_, ?_⟩
  · intro u w p q hp hq formed formed'
    rw [← Grammar.update_iff] at formed formed'
    exact Format.lawful_update.form_unique formed formed' hp hq
  · intro u p _ formed s
    exact decode_eq_ok_iff.2 ⟨p, List.prefix_append p s, formed⟩
  · intro none
    refine decode_eq_error fun u hu => ?_
    obtain ⟨p, hp, formed⟩ := decode_eq_ok_iff.1 hu
    exact none u p hp formed

/-- The version is written longer than it has to be and the nanoseconds make up a second, and
behind the form stands another byte. -/
theorem Update.decode_overlong :
    (∃ p, p <+: [129, 0, 2, 128, 148, 235, 220, 3, 0, 7] ∧
      Grammar.update ⟨⟨1⟩, Duration.ofMillis 3000, []⟩ p) ∧
    ∃ fault, decode [255, 255, 255] = .error (.codec fault) := by
  obtain ⟨accepted, -, -, refused⟩ := decode_iff_grammar [255, 255, 255]
  refine ⟨((decode_iff_grammar _).1 _).1 rfl, refused fun u p hp formed => ?_⟩
  have cut : decode [255, 255, 255] = .error (.codec .bytesRunOut) := rfl
  rw [(accepted u).2 ⟨p, hp, formed⟩] at cut
  cases cut

end SchemaCatalog
