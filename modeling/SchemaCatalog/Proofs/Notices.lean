import SchemaCatalog.Proofs.Storage
import SchemaCatalog.Session

/-!
# Notices in order

A node is told of a version with its events when the version is registered, and without events
whenever the update is handed over again. So the notices that it is told lead through the log
(`Leads`): the versions come in order, each once with its events, and between them come versions
that came before, which have no events any more.
-/

namespace SchemaCatalog

/-- The events of a committed update: one for each entry that makes something happen, in the order
of the entries, with the version of the update and a token of the same number. -/
def Committed.events (x : Committed) : List Event :=
  x.update.entries.filterMap fun e =>
    e.occurrence?.map fun o => ⟨⟨x.update.version.number⟩, x.update.version, o⟩

/-- The events of a log up to a version, in the order of the versions and of their entries. -/
def eventsUpTo (log : List Committed) (v : Nat) : List Event :=
  (log.take v).flatMap Committed.events

/-- Notices that lead from one version of a log to another. -/
inductive Leads (log : List Committed) : Nat → List Notice → Nat → Prop where
  | nil {k : Nat} : Leads log k [] k
  | old {v : Version} {rest : List Notice} {k m : Nat} :
      v.number.val ≤ k → Leads log k rest m → Leads log k (⟨v, []⟩ :: rest) m
  | next {x : Committed} {rest : List Notice} {k m : Nat} :
      log[k]? = some x → Leads log (k + 1) rest m →
      Leads log k (⟨x.update.version, x.events⟩ :: rest) m

variable {log log' : List Committed} {queue queue' : List Notice} {v k m m' : Nat}

/-! ## Events of a log -/

/-- A node that is handed the update makes these events of it. -/
lemma Committed.events_eq (x : Committed) :
    x.events = x.update.events ⟨x.update.version.number⟩ := rfl

lemma Committed.event_of_mem {x : Committed} {e : Event} (h : e ∈ x.events) :
    e.version = x.update.version ∧ e.token.number = e.version.number := by
  obtain ⟨entry, -, he⟩ := List.mem_filterMap.1 h
  obtain ⟨o, -, rfl⟩ := Option.map_eq_some_iff.1 he
  exact ⟨rfl, rfl⟩

/-- An event of a log carries the number of its version, and a token of the same number. -/
lemma event_of_mem (hn : Numbered log) {e : Event} (h : e ∈ eventsUpTo log v) :
    e.version.number.val ≤ v ∧ e.token.number = e.version.number := by
  obtain ⟨x, hx, he⟩ := List.mem_flatMap.1 h
  obtain ⟨version, token⟩ := Committed.event_of_mem he
  obtain ⟨i, hi⟩ := List.getElem?_of_mem hx
  rw [List.getElem?_take] at hi
  split at hi
  · rename_i lt
    refine ⟨?_, token⟩
    rw [version, hn i x hi]
    exact lt
  · cases hi

lemma eventsUpTo_succ {x : Committed} (h : log[v]? = some x) :
    eventsUpTo log (v + 1) = eventsUpTo log v ++ x.events := by
  rw [eventsUpTo, List.take_add_one, h, Option.toList_some, List.flatMap_append]
  simp only [List.flatMap_singleton, eventsUpTo]

/-- What is appended to a log is nothing to the events before. -/
lemma eventsUpTo_grow (h : log <+: log') (hv : v ≤ log.length) :
    eventsUpTo log' v = eventsUpTo log v := by
  obtain ⟨l, rfl⟩ := h
  rw [eventsUpTo, List.take_append_of_le_length hv, eventsUpTo]

lemma eventsUpTo_mono (h : v ≤ k) : eventsUpTo log v <+: eventsUpTo log k := by
  obtain ⟨l, hl⟩ := List.take_prefix_take_left (l := log) h
  rw [eventsUpTo, eventsUpTo, ← hl, List.flatMap_append]
  exact List.prefix_append ..

/-! ## Notices that lead through a log -/

namespace Leads

lemma le (h : Leads log k queue m) : k ≤ m := by
  induction h with
  | nil => exact Nat.le_refl _
  | old _ _ ih => exact ih
  | next _ _ ih => exact Nat.le_of_succ_le ih

lemma le_add (h : Leads log k queue m) : m ≤ k + queue.length := by
  induction h with
  | nil => exact Nat.le_refl _
  | old _ _ ih => exact Nat.le_succ_of_le ih
  | next _ _ ih =>
    rw [List.length_cons]
    omega

lemma grow (h : Leads log k queue m) (hl : log <+: log') : Leads log' k queue m := by
  induction h with
  | nil => exact .nil
  | old hv _ ih => exact .old hv ih
  | next hx _ ih => exact .next (getElem?_grow hl hx) ih

lemma append (h : Leads log k queue m) (h' : Leads log m queue' m') :
    Leads log k (queue ++ queue') m' := by
  induction h with
  | nil => exact h'
  | old hv _ ih => exact .old hv (ih h')
  | next hx _ ih => exact .next hx (ih h')

/-- A notice with events is of a version that comes later. -/
lemma later (h : Leads log k queue m) (hn : Numbered log) {z : Notice} (hz : z ∈ queue) :
    z.events = [] ∨ k < z.version.number.val := by
  induction h with
  | nil => cases hz
  | old _ _ ih =>
    rcases List.mem_cons.1 hz with rfl | hz
    · exact .inl rfl
    · exact ih hz
  | next hx _ ih =>
    rcases List.mem_cons.1 hz with rfl | hz
    · rw [hn _ _ hx]
      exact .inr (Nat.lt_succ_self _)
    · exact (ih hz).imp id Nat.lt_of_succ_lt

/-- All notices are of versions up to the one that they lead to. -/
lemma version_le (h : Leads log k queue m) (hn : Numbered log) {z : Notice} (hz : z ∈ queue) :
    z.version.number.val ≤ m := by
  induction h with
  | nil => cases hz
  | old hv rest ih =>
    rcases List.mem_cons.1 hz with rfl | hz
    · exact Nat.le_trans hv rest.le
    · exact ih hz
  | next hx rest ih =>
    rcases List.mem_cons.1 hz with rfl | hz
    · rw [hn _ _ hx]
      exact rest.le
    · exact ih hz

end Leads

end SchemaCatalog
