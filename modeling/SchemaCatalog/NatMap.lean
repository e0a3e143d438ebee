/-!
# Maps keyed by numbers

A map from natural numbers that keeps its bindings in ascending order of key. The order is part of
the type, so that the first and last binding and the greatest key not above a bound can be read off
the list. Looking up after an insertion is described by `get?_insert`.
-/

namespace SchemaCatalog

/-- Bindings in strictly ascending order of key. -/
structure NatMap (α : Type) where
  entries : List (Nat × α)
  ascending : (entries.map Prod.fst).Pairwise (· < ·)
  deriving Repr, DecidableEq

namespace NatMap

variable {α : Type}

/-- The map without bindings. -/
def empty : NatMap α := ⟨[], by simp⟩

/-- Puts `k ↦ a` in its place in an ascending list, over an older binding of `k`. -/
def insertInto (k : Nat) (a : α) : List (Nat × α) → List (Nat × α)
  | [] => [(k, a)]
  | (j, b) :: r =>
    if k < j then (k, a) :: (j, b) :: r
    else if k = j then (k, a) :: r
    else (j, b) :: insertInto k a r

/-- The keys after an insertion are the old ones and the new one. -/
theorem mem_keys_insertInto (k : Nat) (a : α) (l : List (Nat × α)) (x : Nat) :
    x ∈ (insertInto k a l).map Prod.fst ↔ x = k ∨ x ∈ l.map Prod.fst := by
  induction l with
  | nil => simp [insertInto]
  | cons p r ih =>
    obtain ⟨j, b⟩ := p
    by_cases hlt : k < j
    · simp [insertInto, hlt]
    · by_cases heq : k = j
      · simp [insertInto, heq]
      · rw [insertInto, if_neg hlt, if_neg heq, List.map_cons, List.mem_cons, ih, List.map_cons,
          List.mem_cons]
        exact ⟨fun h => by grind, fun h => by grind⟩

/-- An insertion keeps the keys ascending. -/
theorem ascending_insertInto (k : Nat) (a : α) (l : List (Nat × α))
    (h : (l.map Prod.fst).Pairwise (· < ·)) :
    ((insertInto k a l).map Prod.fst).Pairwise (· < ·) := by
  induction l with
  | nil => simp [insertInto]
  | cons p r ih =>
    obtain ⟨j, b⟩ := p
    rw [List.map_cons, List.pairwise_cons] at h
    by_cases hlt : k < j
    · rw [insertInto, if_pos hlt, List.map_cons, List.map_cons, List.pairwise_cons,
        List.pairwise_cons]
      refine ⟨fun x hx => ?_, h⟩
      rcases List.mem_cons.1 hx with rfl | hx
      · exact hlt
      · exact Nat.lt_trans hlt (h.1 x hx)
    · by_cases heq : k = j
      · subst heq
        rw [insertInto, if_neg hlt, if_pos rfl, List.map_cons, List.pairwise_cons]
        exact h
      · rw [insertInto, if_neg hlt, if_neg heq, List.map_cons, List.pairwise_cons]
        refine ⟨fun x hx => ?_, ih h.2⟩
        rcases (mem_keys_insertInto k a r x).1 hx with rfl | hx
        · show j < x
          omega
        · exact h.1 x hx

/-- The map with `k` bound to `a`, whatever it was bound to before. -/
def insert (m : NatMap α) (k : Nat) (a : α) : NatMap α :=
  ⟨insertInto k a m.entries, ascending_insertInto k a m.entries m.ascending⟩

/-- What `k` is bound to in a list of bindings. -/
def lookIn (k : Nat) : List (Nat × α) → Option α
  | [] => none
  | (j, b) :: r => if k = j then some b else lookIn k r

/-- What `k` is bound to. -/
def get? (m : NatMap α) (k : Nat) : Option α := lookIn k m.entries

/-- Whether `k` is bound. -/
def contains (m : NatMap α) (k : Nat) : Bool := (m.get? k).isSome

/-- The number of bindings. -/
def size (m : NatMap α) : Nat := m.entries.length

/-- The values, in ascending order of their keys. -/
def values (m : NatMap α) : List α := m.entries.map Prod.snd

/-- The value under the greatest key. -/
def last? (m : NatMap α) : Option α := m.entries.getLast?.map Prod.snd

/-- The value under the greatest key that is at most `k`. -/
def floor? (m : NatMap α) (k : Nat) : Option α :=
  ((m.entries.filter (fun e => e.1 ≤ k)).getLast?).map Prod.snd

/-- The bindings whose key satisfies a test. -/
def filterKeys (m : NatMap α) (p : Nat → Bool) : NatMap α :=
  ⟨m.entries.filter (fun e => p e.1),
    m.ascending.sublist (List.filter_sublist.map Prod.fst)⟩

/-- The map of a list of bindings, of which a later one wins over an earlier one. -/
def ofList (l : List (Nat × α)) : NatMap α := l.foldl (fun m e => m.insert e.1 e.2) empty

@[simp] theorem get?_empty (k : Nat) : (empty : NatMap α).get? k = none := rfl

theorem lookIn_insertInto (k : Nat) (a : α) (l : List (Nat × α)) (x : Nat) :
    lookIn x (insertInto k a l) = if x = k then some a else lookIn x l := by
  induction l with
  | nil => simp [insertInto, lookIn]
  | cons p r ih =>
    obtain ⟨j, b⟩ := p
    by_cases hlt : k < j
    · rw [insertInto, if_pos hlt]
      rfl
    · by_cases heq : k = j
      · subst heq
        rw [insertInto, if_neg hlt, if_pos rfl]
        by_cases hx : x = k <;> simp [lookIn, hx]
      · rw [insertInto, if_neg hlt, if_neg heq]
        by_cases hx : x = j
        · subst hx
          simp [lookIn, Ne.symm heq]
        · simp only [lookIn, if_neg hx, ih]

/-- A key inserted last is bound to what was inserted, and no other key is touched. -/
theorem get?_insert (m : NatMap α) (k : Nat) (a : α) (x : Nat) :
    (m.insert k a).get? x = if x = k then some a else m.get? x :=
  lookIn_insertInto k a m.entries x

end NatMap

end SchemaCatalog
