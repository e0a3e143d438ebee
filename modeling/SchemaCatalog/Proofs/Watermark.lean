import SchemaCatalog.Watermark
import SchemaCatalog.Proofs.NatMap

/-!
# What finishing a version does to a watermark

The watermark never falls, it passes only versions that were marked, and it releases exactly those
who wait for a version that it has reached.
-/

namespace SchemaCatalog.Watermark

variable {ι : Type} {w w' : Watermark ι} {v : Version} {o : Except Abort (List ι)} {n : Nat}

/-- Whether a version was marked as done, below the watermark or beyond. -/
def Marked (w : Watermark ι) (n : Nat) : Prop := n ≤ w.doneUntil.number.val ∨ n ∈ w.done

/-! ## Asking to wait -/

lemma reply_ready (h : w.reply v = .ready) : v ≤ w.doneUntil := by
  unfold reply at h
  split at h
  · assumption
  · split at h
    · cases h
    · cases h

lemma reply_refused {e : Error} (h : w.reply v = .refused e) :
    ¬ v ≤ w.doneUntil ∧ w.failure = some e := by
  unfold reply at h
  split at h
  · cases h
  · rename_i hv
    split at h
    · rename_i hf
      cases h
      exact ⟨hv, hf⟩
    · cases h

lemma reply_wait (h : w.reply v = .wait) : ¬ v ≤ w.doneUntil ∧ w.failure = none := by
  unfold reply at h
  split at h
  · cases h
  · rename_i hv
    split at h
    · cases h
    · rename_i hf
      exact ⟨hv, hf⟩

/-- Once one more waits, those listed are those who were, and the one. -/
lemma listed_enqueue {t s : ι} :
    (∃ l, (w.enqueue v t).waiters.get? n = some l ∧ s ∈ l) ↔
      (∃ l, w.waiters.get? n = some l ∧ s ∈ l) ∨ n = v.number.val ∧ s = t := by
  rw [enqueue, NatMap.get?_insert]
  by_cases e : n = v.number.val
  · rw [if_pos e, e]
    cases w.waiters.get? v.number.val with
    | none => simp
    | some l => simp
  · simp [e]

/-! ## Climbing -/

lemma le_climb (k : Nat) (done : List Nat) (n : Nat) : n ≤ (climb k done n).2 := by
  induction k generalizing done n with
  | zero => exact Nat.le_refl n
  | succ k ih =>
    rw [climb]
    split
    · exact Nat.le_trans (Nat.le_succ n) (ih ..)
    · exact Nat.le_refl n

lemma mem_of_climb {k : Nat} {done : List Nat} {m : Nat} (h : m ∈ (climb k done n).1) :
    m ∈ done := by
  induction k generalizing done n with
  | zero => exact h
  | succ k ih =>
    rw [climb] at h
    split at h
    · exact (List.mem_filter.1 (ih h)).1
    · exact h

/-- The versions that were passed were among those done. -/
lemma mem_of_le_climb {k : Nat} {done : List Nat} {m : Nat} (hn : n < m)
    (h : m ≤ (climb k done n).2) : m ∈ done := by
  induction k generalizing done n with
  | zero => exact absurd hn (Nat.not_lt.2 h)
  | succ k ih =>
    rw [climb] at h
    split at h
    · rename_i hc
      by_cases e : m = n + 1
      · rw [e]
        exact List.contains_iff_mem.1 hc
      · exact (List.mem_filter.1 (ih (by omega) h)).1
    · exact absurd hn (Nat.not_lt.2 h)

/-! ## Finishing -/

/-- The versions that are done beyond the watermark, with one more. -/
def doneWith (w : Watermark ι) (n : Nat) : List Nat :=
  if w.done.contains n then w.done else n :: w.done

lemma mem_doneWith {m : Nat} : m ∈ w.doneWith n ↔ m ∈ w.done ∨ m = n := by
  unfold doneWith
  split
  · rename_i hc
    refine ⟨.inl, ?_⟩
    rintro (hm | rfl)
    · exact hm
    · exact List.contains_iff_mem.1 hc
  · rw [List.mem_cons, or_comm]

/-- The climb from the watermark once one more version is done. -/
def climbWith (w : Watermark ι) (n : Nat) : List Nat × Nat :=
  climb (w.doneWith n).length (w.doneWith n) w.doneUntil.number.val

/-- What finishing a version comes to. The version was done before; or the watermark stays, as there
is a gap above it; or it rises to where the climb ends, unless it would come to its end. -/
inductive Finishes (w : Watermark ι) (v : Version) :
    Watermark ι → Except Abort (List ι) → Prop where
  | again : v ≤ w.doneUntil → Finishes w v w (.ok [])
  | stays {done : List Nat} :
      ¬ v ≤ w.doneUntil → w.climbWith v.number.val = (done, w.doneUntil.number.val) →
      Finishes w v { w with done := done } (.ok [])
  | rises {done : List Nat} {d : Version} :
      ¬ v ≤ w.doneUntil → w.climbWith v.number.val = (done, d.number.val) → w.doneUntil < d →
      Finishes w v
        { w with
          doneUntil := d
          done := done
          waiters := w.waiters.filterKeys fun m => d.number.val < m }
        (.ok (w.waitingUpTo d.number.val))
  | full {done : List Nat} {reached : Nat} :
      ¬ v ≤ w.doneUntil → w.climbWith v.number.val = (done, reached) →
      w.doneUntil.number.val < reached → 18_446_744_073_709_551_616 ≤ reached + 1 →
      Finishes w v { w with done := done } (.error .overflow)

lemma finishes (h : w.finish v = (w', o)) : w.Finishes v w' o := by
  unfold finish at h
  split at h
  · rename_i hv
    cases h
    exact .again hv
  · rename_i hv
    have le := le_climb (w.doneWith v.number.val).length (w.doneWith v.number.val)
      w.doneUntil.number.val
    generalize hc : w.climbWith v.number.val = top
    have climbed : climb (w.doneWith v.number.val).length (w.doneWith v.number.val)
      w.doneUntil.number.val = top := hc
    rw [climbed] at le
    unfold doneWith at climbed
    dsimp only at h
    rw [climbed] at h
    obtain ⟨left, reached⟩ := top
    split at h
    · rename_i same
      cases h
      exact .stays hv (same ▸ hc)
    · rename_i risen
      have lt : w.doneUntil.number.val < reached := Nat.lt_of_le_of_ne le (Ne.symm risen)
      split at h
      · cases h
        exact .rises hv hc lt
      · rename_i full
        cases h
        exact .full hv hc lt (Nat.not_lt.1 full)

/-- What a climb leaves was done, or is the version that was finished. -/
lemma mem_of_climbWith {done : List Nat} {m reached : Nat} (h : w.climbWith n = (done, reached))
    (hm : m ∈ done) : m ∈ w.done ∨ m = n := by
  have left : m ∈ (w.climbWith n).1 := by
    rw [h]
    exact hm
  exact mem_doneWith.1 (mem_of_climb left)

/-- What a climb passes was done, or is the version that was finished. -/
lemma mem_of_le_climbWith {done : List Nat} {m reached : Nat} (h : w.climbWith n = (done, reached))
    (hlt : w.doneUntil.number.val < m) (hle : m ≤ reached) : m ∈ w.done ∨ m = n := by
  have le : m ≤ (w.climbWith n).2 := by
    rw [h]
    exact hle
  exact mem_doneWith.1 (mem_of_le_climb hlt le)

lemma le_finish (h : w.finish v = (w', o)) : w.doneUntil ≤ w'.doneUntil := by
  cases finishes h with
  | rises _ _ lt => exact Nat.le_of_lt lt
  | _ => exact Nat.le_refl _

lemma finish_failure (h : w.finish v = (w', o)) : w'.failure = w.failure := by
  cases finishes h with
  | _ => rfl

/-- No other version is marked. -/
lemma marked_of_finish (h : w.finish v = (w', o)) (hm : w'.Marked n) :
    w.Marked n ∨ n = v.number.val := by
  have left : ∀ {done : List Nat} {reached : Nat}, w.climbWith v.number.val = (done, reached) →
      n ∈ done → w.Marked n ∨ n = v.number.val :=
    fun hc hn => (mem_of_climbWith hc hn).imp .inr id
  cases finishes h with
  | again _ => exact .inl hm
  | stays _ hc => exact hm.elim (fun hn => .inl (.inl hn)) (left hc)
  | full _ hc _ _ => exact hm.elim (fun hn => .inl (.inl hn)) (left hc)
  | rises _ hc _ =>
    rcases hm with hn | hn
    · by_cases hle : n ≤ w.doneUntil.number.val
      · exact .inl (.inl hle)
      · exact (mem_of_le_climbWith hc (Nat.not_le.1 hle) hn).imp .inr id
    · exact left hc hn

/-- Those who are released waited for a version that the watermark has reached. -/
lemma finish_released {ts : List ι} (h : w.finish v = (w', .ok ts)) {t : ι} (ht : t ∈ ts) :
    ∃ m l, w.waiters.get? m = some l ∧ t ∈ l ∧ m ≤ w'.doneUntil.number.val := by
  cases finishes h with
  | again _ => cases ht
  | stays _ _ => cases ht
  | rises _ _ _ =>
    obtain ⟨l, hl, htl⟩ := List.mem_flatten.1 ht
    obtain ⟨m, hm⟩ := NatMap.mem_values.1 hl
    obtain ⟨hw, hle⟩ := NatMap.get?_filterKeys.1 hm
    exact ⟨m, l, hw, htl, of_decide_eq_true hle⟩

/-- Those who go on waiting waited before, and those of their version were not released. -/
lemma finish_waiters (h : w.finish v = (w', o)) {l : List ι} (hl : w'.waiters.get? n = some l) :
    w.waiters.get? n = some l := by
  cases finishes h with
  | rises _ _ _ => exact (NatMap.get?_filterKeys.1 hl).1
  | _ => exact hl

/-- Those who are dropped waited. -/
lemma fail_dropped {e : Error} {t : ι} (ht : t ∈ (w.fail e).2) :
    ∃ m l, w.waiters.get? m = some l ∧ t ∈ l := by
  obtain ⟨l, hl, htl⟩ := List.mem_flatten.1 ht
  obtain ⟨m, hm⟩ := NatMap.mem_values.1 hl
  exact ⟨m, l, hm, htl⟩

/-- The first failure is kept. -/
lemma fail_failure {e e' : Error} (h : w.failure = some e') : (w.fail e).1.failure = some e' := by
  rw [fail, h]
  rfl

/-- Whoever waited is released or goes on waiting. -/
lemma finish_waiting {ts : List ι} (h : w.finish v = (w', .ok ts)) {l : List ι}
    (hl : w.waiters.get? n = some l) {t : ι} (ht : t ∈ l) :
    t ∈ ts ∨ w'.waiters.get? n = some l := by
  cases finishes h with
  | again _ => exact .inr hl
  | stays _ _ => exact .inr hl
  | @rises done d _ _ _ =>
    by_cases hd : n ≤ d.number.val
    · refine .inl (List.mem_flatten.2 ⟨l, NatMap.mem_values.2 ⟨n, ?_⟩, ht⟩)
      exact NatMap.get?_filterKeys.2 ⟨hl, decide_eq_true hd⟩
    · exact .inr (NatMap.get?_filterKeys.2 ⟨hl, decide_eq_true (Nat.not_le.1 hd)⟩)

/-- Whoever goes on waiting waits for a version beyond the watermark. -/
lemma finish_beyond (h : w.finish v = (w', o)) {l : List ι} (hl : w'.waiters.get? n = some l)
    (hb : w.doneUntil.number.val < n) : w'.doneUntil.number.val < n := by
  cases finishes h with
  | rises _ _ _ => exact of_decide_eq_true (NatMap.get?_filterKeys.1 hl).2
  | _ => exact hb

/-- A watermark that cannot rise goes on to be waited for. -/
lemma finish_error {a : Abort} (h : w.finish v = (w', .error a)) :
    w'.waiters = w.waiters ∧ w'.doneUntil = w.doneUntil := by
  cases finishes h with
  | full _ _ _ _ => exact ⟨rfl, rfl⟩

/-- Nobody who was released goes on waiting for the version. -/
lemma finish_disjoint {ts : List ι} (h : w.finish v = (w', .ok ts)) {l : List ι}
    (hl : w'.waiters.get? n = some l) :
    ts = [] ∨ w'.doneUntil.number.val < n := by
  cases finishes h with
  | again _ => exact .inl rfl
  | stays _ _ => exact .inl rfl
  | rises _ _ _ => exact .inr (of_decide_eq_true (NatMap.get?_filterKeys.1 hl).2)

/-! ## Finishing in order -/

/-- A version that is done is done once. -/
lemma finish_old (hv : v ≤ w.doneUntil) : w.finish v = (w, .ok []) := by
  rw [finish, if_pos hv]

/-- The watermark rises by one if the next version is done and none beyond it, unless it has come to
its end. -/
lemma finish_next (hd : w.done = []) (hv : v.number.val = w.doneUntil.number.val + 1)
    (h : w.finish v = (w', o)) : w'.done = [] ∧
      (w'.doneUntil = v ∧ (∃ ts, o = .ok ts) ∨
        w'.doneUntil = w.doneUntil ∧ (∃ a, o = .error a) ∧
          18_446_744_073_709_551_616 ≤ w.doneUntil.number.val + 2) := by
  have beyond : ¬ v ≤ w.doneUntil := by
    rw [Version.le_def]
    omega
  have climbed : climb 1 [v.number.val] w.doneUntil.number.val = ([], v.number.val) := by
    simp [climb, hv]
  have rises : ¬ v.number.val = w.doneUntil.number.val := by omega
  rw [finish, if_neg beyond] at h
  simp only [hd, List.contains_nil, Bool.false_eq_true, if_false, List.length_singleton, climbed,
    rises] at h
  split at h
  · cases h
    exact ⟨rfl, .inl ⟨Version.ext_val rfl, _, rfl⟩⟩
  · cases h
    exact ⟨rfl, .inr ⟨rfl, ⟨_, rfl⟩, by omega⟩⟩

end SchemaCatalog.Watermark
