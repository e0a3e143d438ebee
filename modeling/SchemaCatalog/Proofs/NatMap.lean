import Mathlib.Data.List.Nodup
import Mathlib.Tactic.Lemma
import SchemaCatalog.NatMap

/-!
# Bindings and their order

A lookup finds a binding if and only if the map has it. A map that grows by ever greater keys keeps
what it got in the order in which it got it: the value put in last is under the greatest key, and
whether a bound reaches it decides what is found below the bound.
-/

namespace SchemaCatalog.NatMap

variable {α : Type}

/-! ## Lookups -/

lemma lookIn_eq_some {k : Nat} {a : α} {l : List (Nat × α)}
    (asc : (l.map Prod.fst).Pairwise (· < ·)) : lookIn k l = some a ↔ (k, a) ∈ l := by
  induction l with
  | nil => exact ⟨nofun, nofun⟩
  | cons e r ih =>
    obtain ⟨j, b⟩ := e
    rw [List.map_cons, List.pairwise_cons] at asc
    rw [lookIn, List.mem_cons]
    by_cases hk : k = j
    · rw [if_pos hk]
      subst hk
      constructor
      · intro h
        cases h
        exact .inl rfl
      · rintro (h | h)
        · cases h
          rfl
        · have lt := asc.1 k (List.mem_map_of_mem h)
          exact absurd lt (Nat.lt_irrefl k)
    · rw [if_neg hk, ih asc.2]
      constructor
      · exact .inr
      · rintro (h | h)
        · cases h
          exact absurd rfl hk
        · exact h

lemma get?_eq_some {m : NatMap α} {k : Nat} {a : α} : m.get? k = some a ↔ (k, a) ∈ m.entries :=
  lookIn_eq_some m.ascending

lemma mem_values {m : NatMap α} {a : α} : a ∈ m.values ↔ ∃ k, m.get? k = some a := by
  constructor
  · intro h
    obtain ⟨⟨k, b⟩, he, rfl⟩ := List.mem_map.1 h
    exact ⟨k, get?_eq_some.2 he⟩
  · rintro ⟨k, h⟩
    exact List.mem_map.2 ⟨(k, a), get?_eq_some.1 h, rfl⟩

lemma get?_filterKeys {m : NatMap α} {p : Nat → Bool} {k : Nat} {a : α} :
    (m.filterKeys p).get? k = some a ↔ m.get? k = some a ∧ p k = true := by
  rw [get?_eq_some, get?_eq_some]
  exact List.mem_filter

/-- A map whose keys all have no binding is empty. -/
lemma eq_empty {m : NatMap α} (h : ∀ k a, m.get? k ≠ some a) : m = empty := by
  have none : m.entries = [] :=
    List.eq_nil_iff_forall_not_mem.2 fun e he => h e.1 e.2 (get?_eq_some.2 he)
  obtain ⟨l, asc⟩ := m
  subst none
  rfl

/-- What lists under ascending keys hold is ordered if each list is, and what comes under a smaller
key comes before what comes under a greater one. -/
lemma pairwise_flatten {m : NatMap (List α)} {R : α → α → Prop}
    (within : ∀ k l, m.get? k = some l → l.Pairwise R)
    (across : ∀ j k l l', m.get? j = some l → m.get? k = some l' → j < k →
      ∀ a ∈ l, ∀ b ∈ l', R a b) : m.values.flatten.Pairwise R := by
  rw [List.pairwise_flatten, values, List.pairwise_map]
  constructor
  · intro l hl
    obtain ⟨k, hk⟩ := mem_values.1 hl
    exact within k l hk
  · refine (List.pairwise_map.1 m.ascending).imp_of_mem fun {e e'} he he' lt => ?_
    exact across e.1 e'.1 e.2 e'.2 (get?_eq_some.2 he) (get?_eq_some.2 he') lt

/-- A map made of a list has the last binding of each key. -/
lemma get?_ofList_last (l : List (Nat × α)) (k : Nat) :
    (ofList l).get? k = (l.filter fun e => e.1 = k).getLast?.map Prod.snd := by
  have onto : ∀ m : NatMap α, (l.foldl (fun m e => m.insert e.1 e.2) m).get? k =
      ((l.filter fun e => e.1 = k).getLast?.map Prod.snd).or (m.get? k) := by
    induction l with
    | nil => exact fun m => rfl
    | cons e r ih =>
      intro m
      rw [List.foldl_cons, ih, get?_insert]
      by_cases here : e.1 = k
      · rw [if_pos here.symm, List.filter_cons_of_pos (by simpa using here), List.getLast?_cons]
        cases (r.filter fun e => e.1 = k).getLast? <;> rfl
      · rw [if_neg (Ne.symm here), List.filter_cons_of_neg (by simpa using here)]
  rw [ofList, onto, get?_empty, Option.or_none]

/-- Where no key occurs twice, a map made of a list has the bindings of the list. -/
lemma get?_ofList {l : List (Nat × α)} (h : (l.map Prod.fst).Nodup) {k : Nat} {a : α} :
    (ofList l).get? k = some a ↔ (k, a) ∈ l := by
  have of_mem_filter : ∀ e ∈ l.filter (fun e => e.1 = k), e ∈ l ∧ e.1 = k := fun e he =>
    ⟨List.mem_of_mem_filter he, by simpa using (List.mem_filter.1 he).2⟩
  rw [get?_ofList_last]
  constructor
  · intro found
    obtain ⟨e, last, rfl⟩ := Option.map_eq_some_iff.1 found
    obtain ⟨mem, rfl⟩ := of_mem_filter e (List.mem_of_getLast? last)
    exact mem
  · intro mem
    have here : (k, a) ∈ l.filter fun e => e.1 = k := List.mem_filter.2 ⟨mem, by simp⟩
    have last := List.getLast?_eq_some_getLast (List.ne_nil_of_mem here)
    obtain ⟨mem', key⟩ := of_mem_filter _ (List.getLast_mem (List.ne_nil_of_mem here))
    have same := List.inj_on_of_nodup_map h mem' mem key
    rw [last, same, Option.map_some]

/-! ## Insertions behind all other keys -/

lemma insertInto_of_le {k : Nat} {a : α} {l : List (Nat × α)} (h : ∀ e ∈ l, e.1 ≤ k)
    (asc : (l.map Prod.fst).Pairwise (· < ·)) :
    insertInto k a l = l.filter (fun e => e.1 < k) ++ [(k, a)] := by
  induction l with
  | nil => rfl
  | cons e r ih =>
    obtain ⟨j, b⟩ := e
    have hj : j ≤ k := h _ (List.mem_cons_self ..)
    have hr := ih (fun e he => h e (List.mem_cons_of_mem _ he)) (List.Pairwise.of_cons asc)
    by_cases e : k = j
    · subst e
      have none : r = [] := by
        cases r with
        | nil => rfl
        | cons e r =>
          have lt : k < e.1 := (List.pairwise_cons.1 asc).1 _ (List.mem_cons_self ..)
          have le : e.1 ≤ k := h e (List.mem_cons_of_mem _ (List.mem_cons_self ..))
          omega
      subst none
      simp [insertInto]
    · have lt : j < k := by omega
      rw [insertInto, if_neg (by omega), if_neg e, hr, List.filter_cons_of_pos (by simpa using lt)]
      rfl

lemma entries_insert_of_le {m : NatMap α} {k : Nat} {a : α} (h : ∀ e ∈ m.entries, e.1 ≤ k) :
    (m.insert k a).entries = m.entries.filter (fun e => e.1 < k) ++ [(k, a)] :=
  insertInto_of_le h m.ascending

/-- What was put behind all else is under the greatest key. -/
lemma last?_insert {m : NatMap α} {k : Nat} {a : α} (h : ∀ e ∈ m.entries, e.1 ≤ k) :
    (m.insert k a).last? = some a := by
  rw [last?, entries_insert_of_le h]
  simp

/-- What was put behind all else is found by every bound that reaches it, and by no other. -/
lemma floor?_insert {m : NatMap α} {k : Nat} {a : α} (h : ∀ e ∈ m.entries, e.1 ≤ k) (t : Nat) :
    (m.insert k a).floor? t = if k ≤ t then some a else m.floor? t := by
  rw [floor?, entries_insert_of_le h]
  by_cases hk : k ≤ t
  · simp [hk]
  · have e : (m.entries.filter fun e => e.1 < k).filter (fun e => e.1 ≤ t) =
        m.entries.filter fun e => e.1 ≤ t := by
      rw [List.filter_filter]
      apply List.filter_congr
      intro e _
      simp only [Bool.and_eq_decide, decide_eq_true_eq, decide_eq_decide]
      omega
    simp [hk, e, floor?]

/-- A key that was put behind all else is an upper bound of the keys. -/
lemma le_of_mem_insert {m : NatMap α} {k : Nat} {a : α} (h : ∀ e ∈ m.entries, e.1 ≤ k) :
    ∀ e ∈ (m.insert k a).entries, e.1 ≤ k := by
  intro e he
  rw [entries_insert_of_le h] at he
  rcases List.mem_append.1 he with he | he
  · exact h e (List.mem_filter.1 he).1
  · exact Nat.le_of_eq (congrArg Prod.fst (List.mem_singleton.1 he))

end SchemaCatalog.NatMap
