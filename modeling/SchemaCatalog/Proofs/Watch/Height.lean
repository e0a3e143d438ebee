import Mathlib.Order.Bounds.Defs
import SchemaCatalog.Proofs.Watch.Basic

/-!
# How high a watermark stands

However the versions are marked that somebody marks, in which order and how often, and whoever waits
or lets the watermark fail meanwhile: the watermark stands at the greatest version up to which all
versions from the first one on were marked. So it depends on what was marked alone
(`Watch.doneUntil_isGreatest`).
-/

namespace SchemaCatalog.Watch

/-- A version was marked as done before a moment. -/
def Marks (k : Watch) (i : Nat) (v : Version) : Prop := ∃ j < i, k.uses j = .finish v

/-- A version, its first one apart, is complete when it and all before it were marked. -/
def Complete (k : Watch) (i : Nat) (v : Version) : Prop :=
  k.initial ≤ v ∧ ∀ u, k.initial < u → u ≤ v → k.Marks i u

/-- A number was marked as done before a moment. -/
def Marked (k : Watch) (i n : Nat) : Prop := ∃ v, k.Marks i v ∧ v.number.val = n

variable (k : Watch) {i j : Nat} {v : Version}

lemma Marks.marked (h : k.Marks i v) : k.Marked i v.number.val := ⟨v, h, rfl⟩

lemma Marked.marks (h : k.Marked i v.number.val) : k.Marks i v := by
  obtain ⟨u, hu, e⟩ := h
  exact Version.ext_val e ▸ hu

/-- The last version is not marked. -/
lemma Marked.lt {n : Nat} (h : k.Marked i n) : n < Word64.greatest.val := by
  obtain ⟨u, ⟨j, -, hu⟩, rfl⟩ := h
  have ne : u.number.val ≠ Word64.greatest.val := by
    intro e
    exact k.short j (hu.trans (congrArg Use.finish (Version.ext_val e)))
  have lt := u.number.isLt
  have top : Word64.greatest.val = 18_446_744_073_709_551_615 := rfl
  omega

/-- A use marks the version that it is to mark. -/
lemma marked_succ (i n : Nat) : k.Marked (i + 1) n ↔
    k.Marked i n ∨ ∃ v, k.uses i = .finish v ∧ n = v.number.val := by
  constructor
  · rintro ⟨v, ⟨j, hj, hv⟩, rfl⟩
    rcases Nat.lt_succ_iff_lt_or_eq.1 hj with lt | rfl
    · exact .inl ⟨v, ⟨j, lt, hv⟩, rfl⟩
    · exact .inr ⟨v, hv, rfl⟩
  · rintro (⟨v, ⟨j, hj, hv⟩, rfl⟩ | ⟨v, hv, rfl⟩)
    · exact ⟨v, ⟨j, Nat.lt_succ_of_lt hj, hv⟩, rfl⟩
    · exact ⟨v, ⟨i, Nat.lt_succ_self i, hv⟩, rfl⟩

/-- Nobody is listed as waiting for a version that the watermark has reached. -/
lemma beyond {n : Nat} {l : List Nat} (h : (k.mark i).waiters.get? n = some l) :
    (k.mark i).doneUntil.number.val < n ∧ (k.mark i).failure = none := by
  have here : Fleet.soleMark (k.mark i) 0 = k.mark i := Function.update_self ..
  have listed := (k.waiting i).beyond 0 n l
  rw [here] at listed
  exact listed h

/-- The watermark has counted what was marked. Whoever marks a version releases those who wait for
one up to the new watermark. -/
lemma counts (i : Nat) : (k.mark i).Counts k.initial.number.val (k.Marked i) := by
  induction i with
  | zero =>
    refine (Watermark.counts_startingAt k.initial).congr rfl rfl fun n => ⟨?_, False.elim⟩
    rintro ⟨v, ⟨j, hj, -⟩, -⟩
    exact absurd hj (Nat.not_lt_zero j)
  | succ i ih =>
    have turns := k.turns i
    have grown := k.marked_succ i
    have short := k.short i
    generalize k.uses i = u, (k.fleet (i + 1)).tasks = l', k.mark (i + 1) = w' at turns grown short
    -- Unless a version is marked, what was marked before is all.
    have same : (∀ v, u ≠ .finish v) → ∀ n, k.Marked (i + 1) n ↔ k.Marked i n := by
      intro none n
      rw [grown]
      exact ⟨fun h => h.resolve_right fun ⟨v, hv, _⟩ => none v hv, .inl⟩
    have finished : ∀ v o, u = .finish v → (k.mark i).finish v = (w', o) →
        w'.Counts k.initial.number.val (k.Marked (i + 1)) := by
      rintro v o rfl hf
      have last : v.number ≠ Word64.greatest := fun e => short (e ▸ rfl)
      obtain ⟨counts, -⟩ := ih.finish last (fun _ => Marked.lt k) (fun _ _ h => (k.beyond h).1) hf
      refine counts.congr rfl rfl fun n => ?_
      rw [grown]
      exact or_congr_right ⟨fun ⟨_, e, hn⟩ => by cases e; exact hn, fun hn => ⟨v, rfl, hn⟩⟩
    cases turns with
    | finish hf => exact finished _ _ rfl hf
    | overflow hf => exact finished _ _ rfl hf
    | _ => exact ih.congr rfl rfl (same nofun)

/-- Marking a version releases those who wait for one up to the new watermark, version by
version. -/
lemma finish_eq (h : k.uses i = .finish v) : (k.mark i).finish v =
    (k.mark (i + 1), .ok ((k.mark i).waitingUpTo (k.mark (i + 1)).doneUntil.number.val)) := by
  have turns := k.turns i
  rw [h] at turns
  have last : v.number ≠ Word64.greatest := fun e => k.short i (e ▸ h)
  have counted : ∀ w o, (k.mark i).finish v = (w, o) →
      o = .ok ((k.mark i).waitingUpTo w.doneUntil.number.val) :=
    fun _ _ hf =>
      ((k.counts i).finish last (fun _ => Marked.lt k) (fun _ _ hl => (k.beyond hl).1) hf).2
  generalize k.mark (i + 1) = w', (k.fleet (i + 1)).tasks = l' at turns
  cases turns with
  | finish hf =>
    have e := counted _ _ hf
    rw [hf, e]
  | overflow hf =>
    have e := counted _ _ hf
    cases e

lemma doneUntil_succ (i : Nat) : (k.mark i).doneUntil ≤ (k.mark (i + 1)).doneUntil := by
  have turns := k.turns i
  generalize k.uses i = u, (k.fleet (i + 1)).tasks = l', k.mark (i + 1) = w' at turns
  cases turns with
  | finish hf => exact Watermark.le_finish hf
  | overflow hf => exact Watermark.le_finish hf
  | _ => exact Nat.le_refl _

lemma doneUntil_mono (h : i ≤ j) : (k.mark i).doneUntil ≤ (k.mark j).doneUntil := by
  induction h with
  | refl => exact Nat.le_refl _
  | step _ ih => exact Nat.le_trans ih (k.doneUntil_succ _)

/-- The watermark stands at the greatest version up to which all were marked. It never falls, and
another watermark that began at the same version, and of which the same versions were marked, stands
at the same one. -/
theorem doneUntil_isGreatest (k : Watch) (i : Nat) :
    IsGreatest {v | k.Complete i v} (k.mark i).doneUntil ∧
      (∀ j, i ≤ j → (k.mark i).doneUntil ≤ (k.mark j).doneUntil) ∧
      ∀ (k' : Watch) (i' : Nat), k'.initial = k.initial →
        (∀ v, k'.Marks i' v ↔ k.Marks i v) → (k'.mark i').doneUntil = (k.mark i).doneUntil := by
  have reached : ∀ (k : Watch) (i : Nat), k.Complete i (k.mark i).doneUntil := by
    intro k i
    refine ⟨(k.counts i).le, fun u hlt hle => ?_⟩
    exact ((k.counts i).passed u.number.val hlt hle).marks
  have highest : ∀ (k : Watch) (i : Nat) (v : Version), k.Complete i v →
      v ≤ (k.mark i).doneUntil := by
    intro k i v hv
    refine (k.counts i).greatest fun n hlt hle => ?_
    have fits : n < 18_446_744_073_709_551_616 := Nat.lt_of_le_of_lt hle v.number.isLt
    exact (hv.2 ⟨⟨n, fits⟩⟩ hlt hle).marked
  refine ⟨⟨reached k i, highest k i⟩, fun j h => k.doneUntil_mono h, ?_⟩
  intro k' i' same marks
  -- What is complete for one is so for the other.
  have complete : ∀ v, k'.Complete i' v ↔ k.Complete i v := by
    intro v
    rw [Complete, Complete, same]
    exact and_congr_right fun _ => forall_congr' fun u => by rw [marks]
  apply Version.ext_val
  exact Nat.le_antisymm (highest k i _ ((complete _).1 (reached k' i')))
    (highest k' i' _ ((complete _).2 (reached k i)))

/-- Versions are done out of order and twice, while somebody waits and the watermark fails. -/
def disordered : Watch :=
  .ofUses ⟨0⟩ [.finish ⟨3⟩, .wait ⟨2⟩, .goOn 0, .finish ⟨1⟩, .fail .stopped, .finish ⟨2⟩,
    .finish ⟨1⟩] (by decide)

/-- The same versions are done in order. -/
def ordered : Watch := .ofUses ⟨0⟩ [.finish ⟨1⟩, .finish ⟨2⟩, .finish ⟨3⟩] (by decide)

theorem doneUntil_isGreatest_disordered :
    IsGreatest {v | disordered.Complete 4 v} ⟨1⟩ ∧ IsGreatest {v | disordered.Complete 7 v} ⟨3⟩ ∧
      (disordered.mark 4).doneUntil ≤ (disordered.mark 7).doneUntil ∧
      (ordered.mark 3).doneUntil = (disordered.mark 7).doneUntil := by
  have marks : ∀ v, ordered.Marks 3 v ↔ disordered.Marks 7 v := by
    intro v
    constructor
    · rintro ⟨j, hj, h⟩
      match j, hj with
      | 0, _ => exact ⟨3, by decide, h⟩
      | 1, _ => exact ⟨5, by decide, h⟩
      | 2, _ => exact ⟨0, by decide, h⟩
    · rintro ⟨j, hj, h⟩
      match j, hj with
      | 0, _ => exact ⟨2, by decide, h⟩
      | 3, _ => exact ⟨0, by decide, h⟩
      | 5, _ => exact ⟨1, by decide, h⟩
      | 6, _ => exact ⟨0, by decide, h⟩
  obtain ⟨first, grows, -⟩ := doneUntil_isGreatest disordered 4
  obtain ⟨last, -, same⟩ := doneUntil_isGreatest disordered 7
  exact ⟨first, last, grows 7 (by decide), same ordered 3 rfl marks⟩

end SchemaCatalog.Watch
