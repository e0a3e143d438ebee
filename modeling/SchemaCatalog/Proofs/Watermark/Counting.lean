import SchemaCatalog.Proofs.Watermark

/-!
# What a watermark has counted

The versions that were marked as done are those up to the watermark, from where it began, and those
kept beyond it, among which the next one never is (`Counts`). So the watermark stands as high as
the marks allow, in whichever order they were made. Marking one more version keeps this, and
releases those who wait for a version that the watermark reaches (`Counts.finish`).
-/

namespace SchemaCatalog.Watermark

variable {ι : Type} {w w' : Watermark ι} {v : Version} {o : Except Abort (List ι)} {b n m : Nat}

/-! ## Climbing -/

/-- A climb of as many steps as versions are done ends before a gap. -/
lemma climb_gap {k : Nat} {done : List Nat} (h : done.length ≤ k) :
    (climb k done n).2 + 1 ∉ (climb k done n).1 := by
  induction k generalizing done n with
  | zero =>
    rw [List.length_eq_zero_iff.1 (Nat.le_zero.1 h)]
    exact List.not_mem_nil
  | succ k ih =>
    rw [climb]
    split
    · rename_i hc
      have shorter : (done.filter fun m => m ≠ n + 1).length < done.length :=
        List.length_filter_lt_length_iff_exists.2 ⟨n + 1, List.contains_iff_mem.1 hc, by simp⟩
      exact ih (by omega)
    · rename_i hc
      exact fun hm => hc (List.contains_iff_mem.2 hm)

/-- A climb takes out the versions that it passes. -/
lemma mem_climb {k : Nat} {done : List Nat} :
    m ∈ (climb k done n).1 ↔ m ∈ done ∧ ¬ (n < m ∧ m ≤ (climb k done n).2) := by
  induction k generalizing done n with
  | zero =>
    rw [climb]
    exact ⟨fun hm => ⟨hm, fun h => by omega⟩, fun h => h.1⟩
  | succ k ih =>
    rw [climb]
    split
    · have le := le_climb k (done.filter fun m => m ≠ n + 1) (n + 1)
      rw [ih, List.mem_filter, decide_eq_true_eq]
      constructor
      · rintro ⟨⟨hm, ne⟩, hn⟩
        exact ⟨hm, by omega⟩
      · rintro ⟨hm, hn⟩
        exact ⟨⟨hm, by omega⟩, by omega⟩
    · exact ⟨fun hm => ⟨hm, fun h => by omega⟩, fun h => h.1⟩

/-! ## Counting -/

/-- The watermark began at `b`, and these versions were marked since. -/
structure Counts (w : Watermark ι) (b : Nat) (marks : Nat → Prop) : Prop where
  le : b ≤ w.doneUntil.number.val
  passed : ∀ m, b < m → m ≤ w.doneUntil.number.val → marks m
  beyond : ∀ m, m ∈ w.done ↔ w.doneUntil.number.val < m ∧ marks m
  gap : ¬ marks (w.doneUntil.number.val + 1)

variable {marks : Nat → Prop}

lemma counts_startingAt (v : Version) :
    (startingAt v : Watermark ι).Counts v.number.val fun _ => False where
  le := Nat.le_refl _
  passed _ hlt hle := absurd hlt (Nat.not_lt.2 hle)
  beyond _ := ⟨nofun, fun h => h.2.elim⟩
  gap := id

/-- What was marked may be said otherwise, and whoever waits is of no account. -/
lemma Counts.congr {marks' : Nat → Prop} (h : w.Counts b marks)
    (doneUntil : w'.doneUntil = w.doneUntil) (done : w'.done = w.done)
    (same : ∀ m, marks' m ↔ marks m) : w'.Counts b marks' where
  le := doneUntil ▸ h.le
  passed m hlt hle := (same m).2 (h.passed m hlt (doneUntil ▸ hle))
  beyond m := by rw [done, doneUntil, same, h.beyond]
  gap := by
    rw [doneUntil, same]
    exact h.gap

/-- The watermark is the highest version up to which all are marked. -/
lemma Counts.greatest (h : w.Counts b marks) (hm : ∀ k, b < k → k ≤ m → marks k) :
    m ≤ w.doneUntil.number.val := by
  refine Nat.le_of_not_lt fun higher => h.gap ?_
  exact hm _ (Nat.lt_succ_of_le h.le) higher

/-- A version that the watermark has passed may be marked again. -/
lemma Counts.again (h : w.Counts b marks) (hn : n ≤ w.doneUntil.number.val) :
    w.Counts b fun k => marks k ∨ k = n where
  le := h.le
  passed k hlt hle := .inl (h.passed k hlt hle)
  beyond k := by
    rw [h.beyond]
    constructor
    · exact fun hk => ⟨hk.1, .inl hk.2⟩
    · rintro ⟨hlt, hk | rfl⟩
      · exact ⟨hlt, hk⟩
      · omega
  gap := by
    rintro (hk | hk)
    · exact h.gap hk
    · omega

/-- The versions to climb over are those marked beyond the watermark. -/
lemma Counts.mem_doneWith (h : w.Counts b marks) (hn : w.doneUntil.number.val < n) :
    m ∈ w.doneWith n ↔ w.doneUntil.number.val < m ∧ (marks m ∨ m = n) := by
  rw [Watermark.mem_doneWith, h.beyond]
  constructor
  · rintro (⟨hlt, hm⟩ | rfl)
    · exact ⟨hlt, .inl hm⟩
    · exact ⟨hn, .inr rfl⟩
  · rintro ⟨hlt, hm | rfl⟩
    · exact .inl ⟨hlt, hm⟩
    · exact .inr rfl

/-- Where a climb from the watermark ends, with what it leaves, counts the versions marked. -/
lemma Counts.climb (h : w.Counts b marks) (hn : w.doneUntil.number.val < n) {done : List Nat}
    (hc : w.climbWith n = (done, w'.doneUntil.number.val)) (hd : w'.done = done) :
    w'.Counts b fun k => marks k ∨ k = n := by
  have le := le_climb (w.doneWith n).length (w.doneWith n) w.doneUntil.number.val
  have gap := climb_gap (n := w.doneUntil.number.val) (Nat.le_refl (w.doneWith n).length)
  have left : ∀ m,
      m ∈ (Watermark.climb (w.doneWith n).length (w.doneWith n) w.doneUntil.number.val).1 ↔ _ :=
    fun _ => mem_climb
  rw [climbWith] at hc
  rw [hc] at le gap left
  simp only [h.mem_doneWith hn] at left
  refine ⟨Nat.le_trans h.le le, fun k hlt hle => ?_, fun k => ?_, fun next => gap ?_⟩
  · by_cases hk : k ≤ w.doneUntil.number.val
    · exact .inl (h.passed k hlt hk)
    · have hk := Nat.not_le.1 hk
      exact (mem_of_le_climbWith hc hk hle).imp (fun hm => ((h.beyond k).1 hm).2) id
  · rw [hd, left]
    constructor
    · rintro ⟨⟨hlt, hk⟩, above⟩
      exact ⟨by omega, hk⟩
    · rintro ⟨hlt, hk⟩
      exact ⟨⟨by omega, hk⟩, by omega⟩
  · rw [left]
    exact ⟨⟨by omega, next⟩, by omega⟩

/-- If everybody waits for a version beyond the watermark, nobody waits for one up to it. -/
lemma waitingUpTo_doneUntil
    (waits : ∀ k l, w.waiters.get? k = some l → w.doneUntil.number.val < k) :
    w.waitingUpTo w.doneUntil.number.val = [] := by
  rw [waitingUpTo, List.flatten_eq_nil_iff]
  intro l hl
  obtain ⟨k, hk⟩ := NatMap.mem_values.1 hl
  obtain ⟨hw, hle⟩ := NatMap.get?_filterKeys.1 hk
  exact absurd (waits k l hw) (Nat.not_lt.2 (of_decide_eq_true hle))

/-- One more version is marked. If that is not the last one there is, those who wait for a version
up to the new watermark are released and the others go on waiting. -/
lemma Counts.finish (h : w.Counts b marks) (hv : v.number ≠ Word64.greatest)
    (short : ∀ k, marks k → k < Word64.greatest.val)
    (waits : ∀ k l, w.waiters.get? k = some l → w.doneUntil.number.val < k)
    (hf : w.finish v = (w', o)) :
    w'.Counts b (fun k => marks k ∨ k = v.number.val) ∧
      o = .ok (w.waitingUpTo w'.doneUntil.number.val) := by
  cases finishes hf with
  | again old => exact ⟨h.again old, by rw [waitingUpTo_doneUntil waits]⟩
  | stays new hc =>
    refine ⟨h.climb (Nat.not_le.1 new) hc rfl, ?_⟩
    exact congrArg Except.ok (waitingUpTo_doneUntil waits).symm
  | rises new hc _ => exact ⟨h.climb (Nat.not_le.1 new) hc rfl, rfl⟩
  | @full done reached new hc lt top =>
    -- The climb has reached a version that is marked, and the last one is not.
    exfalso
    have below : v.number.val ≠ Word64.greatest.val := fun h => hv (Fin.ext h)
    have last : Word64.greatest.val = 18_446_744_073_709_551_615 := rfl
    have fits := v.number.isLt
    rcases mem_of_le_climbWith hc lt (Nat.le_refl _) with hm | rfl
    · have := short reached ((h.beyond reached).1 hm).2
      omega
    · omega

end SchemaCatalog.Watermark
