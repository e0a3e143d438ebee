import Mathlib.Algebra.Group.Nat.Defs
import Mathlib.Data.List.Permutation
import SchemaCatalog.Proofs.Config.Json

/-!
# A configuration is read as it was written

The text of a configuration holds its durations in whole milliseconds, as far as words hold them. It
is read as the configuration with just these durations (`Config.text_survives`). The fields of the
text may come in any order, as each of them states a value of its own (`Stated.take_comm`).
-/

namespace SchemaCatalog

/-! ## Durations -/

namespace Duration

/-- The length in nanoseconds. -/
def nanoseconds (d : Duration) : Nat := d.secs.val * 10 ^ 9 + d.nanos.val

lemma wholeMillis_eq (d : Duration) : d.wholeMillis = d.nanoseconds / 10 ^ 6 := by
  rw [wholeMillis, nanoseconds]
  omega

lemma nanoseconds_ofMillis (ms : Word64) : (ofMillis ms).nanoseconds = ms.val * 10 ^ 6 := by
  simp only [nanoseconds, ofMillis]
  omega

/-- Rounded down to milliseconds, and capped at the largest number of them. -/
lemma nanoseconds_inMillis (d : Duration) :
    d.inMillis.nanoseconds = min (d.nanoseconds / 10 ^ 6) (2 ^ 64 - 1) * 10 ^ 6 := by
  have capped : d.millis.val = min (d.nanoseconds / 10 ^ 6) (2 ^ 64 - 1) := by
    rw [millis, wholeMillis_eq]
    exact Word64.val_capped _
  rw [inMillis, nanoseconds_ofMillis, capped]

lemma millis_inMillis (d : Duration) : d.inMillis.millis = d.millis := millis_ofMillis d.millis

end Duration

namespace Config

/-! ## The order of fields -/

namespace Stated

variable (st : Stated) (v : JsonValue)

lemma take_delay : st.take delayKey v =
    if st.delay.isSome then none else (plainNumber? v).map fun n => { st with delay := some n } :=
  if_pos rfl

lemma take_skew : st.take skewKey v =
    if st.skew.isSome then none else (plainNumber? v).map fun n => { st with skew := some n } := by
  rw [take, if_neg (by decide), if_pos rfl]

lemma take_buffer : st.take bufferKey v =
    if st.buffer.isSome then none else (plainNumber? v).map fun n => { st with buffer := some n } := by
  rw [take, if_neg (by decide), if_neg (by decide), if_pos rfl]

/-- A name stands for one of the values, or is passed over. -/
lemma name_cases (name : String) :
    (name = delayKey ∨ name = skewKey ∨ name = bufferKey) ∨ ∀ st v, take st name v = some st := by
  by_cases known : name = delayKey ∨ name = skewKey ∨ name = bufferKey
  · exact .inl known
  · obtain ⟨delay, skew, buffer⟩ := by simpa only [not_or] using known
    refine .inr fun st v => ?_
    rw [take, if_neg delay, if_neg skew, if_neg buffer]

/-- It does not matter which of two fields is taken in first. Where both are of one name, the second
is refused in either order. -/
lemma take_comm (n n' : String) (v v' : JsonValue) :
    (st.take n v).bind (fun s => s.take n' v') = (st.take n' v').bind fun s => s.take n v := by
  rcases name_cases n with known | unknown
  · rcases name_cases n' with known' | unknown'
    · obtain ⟨a, b, c⟩ := st
      rcases known with rfl | rfl | rfl <;> rcases known' with rfl | rfl | rfl <;>
        simp only [take_delay, take_skew, take_buffer] <;>
        generalize plainNumber? v = p, plainNumber? v' = q <;>
        cases a <;> cases b <;> cases c <;> cases p <;> cases q <;> rfl
    · simp only [unknown', Option.bind_some, Option.bind_fun_some]
  · simp only [unknown, Option.bind_some, Option.bind_fun_some]

lemma takeAll_cons (name : String) (l : List (Option String × JsonValue)) :
    st.takeAll ((some name, v) :: l) = (st.take name v).bind fun s => s.takeAll l :=
  rfl

/-- It does not matter in which order the fields of an object are taken in. -/
lemma takeAll_perm {l l' : List (Option String × JsonValue)} (h : l.Perm l') (st : Stated) :
    st.takeAll l = st.takeAll l' := by
  induction h generalizing st with
  | nil => rfl
  | cons f _ ih => simp only [takeAll, ih]
  | swap f g l =>
    obtain ⟨n, v⟩ := f
    obtain ⟨n', v'⟩ := g
    -- A name that stands for no characters is refused wherever it comes.
    cases n with
    | none =>
      cases n' with
      | none => rfl
      | some n' =>
        rw [takeAll_cons]
        cases st.take n' v' <;> rfl
    | some n =>
      cases n' with
      | none =>
        rw [takeAll_cons]
        cases st.take n v <;> rfl
      | some n' =>
        have both := congrArg (Option.bind · fun s => s.takeAll l) (st.take_comm n' n v' v)
        simp only [Option.bind_assoc] at both
        exact both
  | trans _ _ ih ih' => exact (ih st).trans (ih' st)

end Stated

/-! ## Writing and reading -/

/-- The fields of the text of a configuration. -/
def fields (c : Config) : List (String × Word64) :=
  [(delayKey, c.delay.millis), (skewKey, c.skew.millis), (bufferKey, c.failureBuffer)]

/-- The same configuration with its durations in whole milliseconds. -/
def inMillis (c : Config) : Config := ⟨c.delay.inMillis, c.skew.inMillis, c.failureBuffer⟩

lemma text_eq (c : Config) : c.text = JsonValue.objectText c.fields := by
  simp only [text, fields, JsonValue.objectText, JsonValue.fieldsText, String.append_assoc]

lemma text_inMillis (c : Config) : c.inMillis.text = c.text := by
  rw [text, text, inMillis, Duration.millis_inMillis, Duration.millis_inMillis]

lemma fields_plain (c : Config) : ∀ f ∈ c.fields, JsonValue.IsPlain f.1 := by
  have delay : JsonValue.IsPlain delayKey := by decide +kernel
  have skew : JsonValue.IsPlain skewKey := by decide +kernel
  have buffer : JsonValue.IsPlain bufferKey := by decide +kernel
  simp [fields, delay, skew, buffer]

/-- An object with the fields of a configuration states it, whatever their order. -/
lemma parse_of_fields (c : Config) {s : String} {l : List (Option String × JsonValue)}
    (read : JsonValue.parse s = some (.object l)) (perm : l.Perm (c.fields.map JsonValue.field)) :
    parse s = some c.inMillis := by
  rw [parse, read, Option.bind_some, ofJson?, Stated.takeAll_perm perm]
  rfl

/-- How a configuration comes back from its text: with its durations rounded down to milliseconds
and capped at the largest number of them. -/
structure Returns (c e : Config) : Prop where
  delay : e.delay.nanoseconds = min (c.delay.nanoseconds / 10 ^ 6) (2 ^ 64 - 1) * 10 ^ 6
  skew : e.skew.nanoseconds = min (c.skew.nanoseconds / 10 ^ 6) (2 ^ 64 - 1) * 10 ^ 6
  failureBuffer : e.failureBuffer = c.failureBuffer

lemma returns_inMillis (c : Config) : c.Returns c.inMillis where
  delay := c.delay.nanoseconds_inMillis
  skew := c.skew.nanoseconds_inMillis
  failureBuffer := rfl

/-- The text of a configuration is read as that configuration in whole milliseconds, which has the
same text, and so is every text of an object with the same fields, in whatever order and with
whatever space between its parts. -/
theorem text_survives (c : Config) : ∃ e, c.Returns e ∧ parse c.text = some e ∧ e.text = c.text ∧
    c.text = JsonValue.objectText c.fields ∧
    (∀ fields, fields.Perm c.fields → parse (JsonValue.objectText fields) = some e) ∧
    ∀ s l, JsonValue.parse s = some (.object l) → l.Perm (c.fields.map JsonValue.field) →
      parse s = some e := by
  have ordered : ∀ fields, fields.Perm c.fields →
      parse (JsonValue.objectText fields) = some c.inMillis := by
    intro fields perm
    have plain : ∀ f ∈ fields, JsonValue.IsPlain f.1 := fun f hf =>
      c.fields_plain f (perm.mem_iff.1 hf)
    exact c.parse_of_fields (JsonValue.parse_objectText plain) (perm.map _)
  have own : parse c.text = some c.inMillis := by
    rw [text_eq]
    exact ordered c.fields (.refl _)
  exact ⟨c.inMillis, c.returns_inMillis, own, c.text_inMillis, c.text_eq, ordered,
    fun _ _ read perm => c.parse_of_fields read perm⟩

/-- A delay that is too long for a word of milliseconds, and a skew that is not a whole number of
them. -/
def uneven : Config where
  delay := ⟨18_446_744_073_709_551_615, 999_999_999, by decide⟩
  skew := ⟨1, 2_999_999, by decide⟩
  failureBuffer := 3

/-- The text of it with its fields turned round. -/
def unevenTurned : String :=
  "\x7b\"event_failure_buffer\":3,\"max_clock_skew\":1002,"
    ++ "\"delay_duration\":18446744073709551615\x7d"

/-- The text of it in another order and spread out. -/
def unevenSpread : String :=
  " \x7b \"max_clock_skew\" : 1002,\n\"delay_duration\":18446744073709551615"
    ++ "\t, \"event_failure_buffer\": 3 \x7d\n"

/-- The texts of an uneven configuration are all read alike. -/
theorem text_survives_uneven : ∃ e, e.failureBuffer = 3 ∧
    e.delay.nanoseconds = 18_446_744_073_709_551_615_000_000 ∧ e.skew.nanoseconds = 1_002_000_000 ∧
    parse uneven.text = some e ∧ parse unevenTurned = some e ∧ parse unevenSpread = some e := by
  obtain ⟨e, returns, own, -, -, ordered, read⟩ := text_survives uneven
  have turned : JsonValue.objectText uneven.fields.reverse = unevenTurned := by decide +kernel
  have spread : JsonValue.parse unevenSpread = some (.object
      [JsonValue.field (skewKey, 1002), JsonValue.field (delayKey, 18_446_744_073_709_551_615),
        JsonValue.field (bufferKey, 3)]) := by
    cbv
  have swapped : [(skewKey, (1002 : Word64)), (delayKey, 18_446_744_073_709_551_615),
      (bufferKey, 3)].Perm uneven.fields := by
    decide +kernel
  exact ⟨e, returns.failureBuffer, returns.delay.trans (by decide +kernel),
    returns.skew.trans (by decide +kernel), own, turned ▸ ordered _ uneven.fields.reverse_perm,
    read _ _ spread (swapped.map _)⟩

end Config

end SchemaCatalog
