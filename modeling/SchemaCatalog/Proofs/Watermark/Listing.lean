import SchemaCatalog.Proofs.Watermark

/-!
# Waiting for one version

Where all those who wait for a version wait for the same one, they are released in the order in
which they came once that version is done, if it is the next one.
-/

namespace SchemaCatalog

/-- Where there is nothing under all keys but one, the lists hold what is under that one. -/
lemma NatMap.flatten_values {α : Type} {m : NatMap (List α)} {k : Nat}
    (none : ∀ j l, m.get? j = some l → j ≠ k → l = []) :
    m.values.flatten = (m.get? k).getD [] := by
  cases hk : m.get? k with
  | none =>
    rw [Option.getD_none, List.flatten_eq_nil_iff]
    intro l hl
    obtain ⟨j, hj⟩ := mem_values.1 hl
    refine none j l hj ?_
    rintro rfl
    cases hk.symm.trans hj
  | some l =>
    obtain ⟨before, behind, split⟩ := List.append_of_mem (get?_eq_some.1 hk)
    have asc := m.ascending
    rw [split, List.map_append, List.map_cons, List.pairwise_append, List.pairwise_cons] at asc
    obtain ⟨-, ⟨above, -⟩, below⟩ := asc
    have empty : ∀ e ∈ before ++ behind, e.2 = [] := by
      intro e he
      refine none e.1 e.2 (get?_eq_some.2 ?_) ?_
      · rw [split]
        rcases List.mem_append.1 he with he | he
        · exact List.mem_append_left _ he
        · exact List.mem_append_right _ (List.mem_cons_of_mem _ he)
      · rcases List.mem_append.1 he with he | he
        · exact Nat.ne_of_lt (below e.1 (List.mem_map_of_mem he) k List.mem_cons_self)
        · exact Nat.ne_of_gt (above e.1 (List.mem_map_of_mem he))
    have nil : ∀ es : List (Nat × List α), (∀ e ∈ es, e ∈ before ++ behind) →
        (es.map Prod.snd).flatten = [] := by
      intro es sub
      rw [List.flatten_eq_nil_iff]
      intro l hl
      obtain ⟨e, he, rfl⟩ := List.mem_map.1 hl
      exact empty e (sub e he)
    rw [Option.getD_some, values, split, List.map_append, List.map_cons, List.flatten_append,
      List.flatten_cons, nil before fun e => List.mem_append_left _,
      nil behind fun e => List.mem_append_right _, List.nil_append, List.append_nil]

namespace Watermark

variable {ι : Type} {w : Watermark ι} {v : Version} {l : List ι} {n : Nat}

/-- These wait for a version, in this order, and nobody waits for another one. -/
structure Lists (w : Watermark ι) (n : Nat) (l : List ι) : Prop where
  here : (w.waiters.get? n).getD [] = l
  elsewhere : ∀ m l', w.waiters.get? m = some l' → m ≠ n → l' = []

lemma Lists.enqueue (h : w.Lists v.number.val l) (t : ι) :
    (w.enqueue v t).Lists v.number.val (l ++ [t]) where
  here := by
    rw [Watermark.enqueue, NatMap.get?_insert, if_pos rfl, h.here]
    rfl
  elsewhere m l' hm ne := by
    rw [Watermark.enqueue, NatMap.get?_insert, if_neg ne] at hm
    exact h.elsewhere m l' hm ne

/-- Nobody waits. -/
lemma lists_nil (none : ∀ m l', w.waiters.get? m = some l' → l' = []) : w.Lists n [] := by
  refine ⟨?_, fun m l' hm _ => none m l' hm⟩
  cases hm : w.waiters.get? n with
  | none => rfl
  | some l' => exact none n l' hm

/-- If those who wait all wait for the next version, they are released once that is done. -/
lemma Lists.finish (h : w.Lists v.number.val l) (hd : w.done = [])
    (hv : v.number.val = w.doneUntil.number.val + 1)
    (room : w.doneUntil.number.val + 2 < 18_446_744_073_709_551_616) :
    ∃ w', w.finish v = (w', .ok l) ∧ w'.doneUntil = v ∧ w'.done = [] ∧ w'.failure = w.failure ∧
      w'.Lists (v.number.val + 1) [] := by
  cases e : w.finish v with
  | mk w' o =>
    have failure := finish_failure e
    obtain ⟨done, ⟨risen, -⟩ | ⟨-, -, full⟩⟩ := finish_next hd hv e
    · cases finishes e with
      | again le =>
        rw [Version.le_def] at le
        omega
      | stays _ _ | full _ _ _ _ =>
        have same : w.doneUntil = v := risen
        rw [same] at hv
        omega
      | @rises done' d _ _ _ =>
        obtain rfl : d = v := risen
        have up : (w.waiters.filterKeys fun m => m ≤ d.number.val).get? d.number.val =
            w.waiters.get? d.number.val := by
          refine Option.ext fun l' => ?_
          rw [NatMap.get?_filterKeys]
          exact and_iff_left (decide_eq_true (Nat.le_refl _))
        refine ⟨_, ?_, rfl, done, failure, lists_nil fun m l' hm => ?_⟩
        · rw [waitingUpTo, NatMap.flatten_values fun j l' hj ne =>
            h.elsewhere j l' (NatMap.get?_filterKeys.1 hj).1 ne, up, h.here]
        · obtain ⟨old, lt⟩ := NatMap.get?_filterKeys.1 hm
          exact h.elsewhere m l' old (Nat.ne_of_gt (of_decide_eq_true lt))
    · omega

end Watermark

end SchemaCatalog
