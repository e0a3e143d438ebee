import SchemaCatalog.Proofs.Fold
import SchemaCatalog.Proofs.Catalog.Statements

/-!
# The numbers that a statement takes

A statement takes a number of the catalog for each object that it creates, and its last entry moves
the counter on by as many. Whether there are as many left is checked where that entry is applied and
nowhere before. So what a statement yields on a well-formed catalog can be applied to it exactly
when the counter has room for the numbers, and breaks with the overflow of the counter otherwise
(`Statement.applyEntries_eq_ok_iff`, `Statement.applyEntries_of_exhausted`).
-/

namespace SchemaCatalog

/-- How many numbers an entry takes. -/
def Entry.taken : Entry → Nat
  | .takeIds delta => delta.val
  | _ => 0

/-- How many numbers some entries take. -/
def Entries.taken : List Entry → Nat
  | [] => 0
  | e :: es => e.taken + Entries.taken es

/-- How many numbers a statement takes: one for each object it creates. A table comes with the index
on its primary key. -/
def Statement.numbers : Statement → Nat
  | createTable _ => 2
  | createHashIndex _ => 1
  | createSortedIndex _ => 1
  | createZone _ _ => 1
  | _ => 0

namespace Catalog

variable {c d : Catalog} {es : List Entry} {e : Entry}

/-! ## The counter in a fold -/

/-- An entry moves the counter on by the numbers that it takes. -/
lemma applyEntry_counter (h : c.applyEntry e = .ok d) :
    d.counter.val = c.counter.val + e.taken := by
  cases Entry.gives_of_ok h with
  | takeIds next => exact next
  | _ => rfl

/-- Entries that can be applied find all the numbers that they take. -/
lemma applyEntries_counter (h : c.applyEntries es = .ok d) :
    d.counter.val = c.counter.val + Entries.taken es := by
  induction es generalizing c with
  | nil =>
    cases h
    rfl
  | cons e es ih =>
    obtain ⟨b, hb, h⟩ := bind_ok h
    rw [ih h, applyEntry_counter hb, Entries.taken, Nat.add_assoc]

/-- Entries that break with the overflow of the counter take more numbers than there are. -/
lemma taken_of_overflow {k delta : ObjectId}
    (h : c.applyEntries es = .error (.invariant (.counterOverflow k delta))) :
    4_294_967_296 ≤ c.counter.val + Entries.taken es := by
  induction es generalizing c with
  | nil => cases h
  | cons e es ih =>
    rw [Entries.taken]
    rcases bind_error h with h | ⟨b, hb, h⟩
    · rcases applyEntry_error h with missing | ⟨delta, rfl, -, beyond⟩
      · cases missing
      · rw [Entry.taken]
        omega
    · have rest := ih h
      rw [applyEntry_counter hb] at rest
      omega

end Catalog

/-! ## What a statement takes -/

namespace Entries

lemma taken_dropIndexes (l : List Index) (id : ObjectId) :
    taken (l.map (fun i => .dropIndex i.id i.tableId) ++ [.dropTable id]) = 0 := by
  induction l with
  | nil => rfl
  | cons i l ih =>
    rw [List.map_cons, List.cons_append, taken, ih]
    rfl

end Entries

/-- The entries of a statement take the numbers of its new objects and no others. -/
lemma Statement.taken_entries {st : Statement} {c : Catalog} {es : List Entry}
    (h : st.entries c = .ok es) : Entries.taken es = st.numbers := by
  cases accepted_of_ok h with
  | dropTable => exact Entries.taken_dropIndexes _ _
  | _ => rfl

section

variable {st : Statement} {c : Catalog} {es : List Entry}

/-- What a statement yields on a well-formed catalog can be applied to it exactly when there are
numbers left for its new objects. -/
theorem Statement.applyEntries_eq_ok_iff (h : c.WellFormed) (he : st.entries c = .ok es) :
    (∃ d, c.applyEntries es = .ok d) ↔ c.counter.val + st.numbers < 4_294_967_296 := by
  rw [← Statement.taken_entries he]
  constructor
  · rintro ⟨d, hd⟩
    rw [← Catalog.applyEntries_counter hd]
    exact d.counter.isLt
  · intro room
    rcases Statement.admits h he with ⟨d, hd, -⟩ | ⟨delta, -, -, failed⟩
    · exact ⟨d, hd⟩
    · exact absurd room (Nat.not_lt.2 (Catalog.taken_of_overflow failed))

/-- Where there are none left it breaks with the overflow of the counter. -/
theorem Statement.applyEntries_of_exhausted (h : c.WellFormed) (he : st.entries c = .ok es)
    (full : 4_294_967_296 ≤ c.counter.val + st.numbers) :
    ∃ delta, c.applyEntries es = .error (.invariant (.counterOverflow c.counter delta)) := by
  rcases Statement.admits h he with ⟨d, hd, -⟩ | ⟨delta, -, -, failed⟩
  · exact absurd ((Statement.applyEntries_eq_ok_iff h he).1 ⟨d, hd⟩) (Nat.not_lt.2 full)
  · exact ⟨delta, failed⟩

end

end SchemaCatalog
