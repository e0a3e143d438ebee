import SchemaCatalog.Proofs.Fleet.Origin
import SchemaCatalog.Proofs.Run.Basic

/-!
# How the log grows

The storage changes only when the offer of a task is accepted. The update is then appended as the
next version, and stays where it is. So whatever is in the log was appended, at the moment when the
log was as long as its place says (`Run.appended`).
-/

namespace SchemaCatalog

namespace Run

/-- At this moment a task takes a step in which its update is appended to the storage. -/
structure Appends (r : Run) (j t : Nat) (u : Update) : Prop where
  move : r.moves j = .step t
  stores : ∃ x, (r.fleet j).tasks[t]? = some x ∧ (r.fleet j).Stores (r.fleet (j + 1)) t x u

variable {r : Run} {i j c t : Nat} {u : Update}

/-- The storage changes only when an update is appended. -/
lemma growth (r : Run) (j : Nat) :
    (r.fleet (j + 1)).storage = (r.fleet j).storage ∨ ∃ t u, r.Appends j t u := by
  obtain ⟨k, hk, e⟩ := r.change j
  obtain ⟨-, storage, -, -, -, -, tasks⟩ := Fleet.core_inj e
  rcases Fleet.storage_of_change hk with h | ⟨t, x, u, hm, hx, hs⟩
  · exact .inl (storage.trans h)
  · exact .inr ⟨t, u, hm, x, hx, hs.accepts, hs.offer, storage.trans hs.storage, tasks ▸ hs.next⟩

lemma Appends.fits (h : r.Appends j t u) : u.Fits := by
  obtain ⟨x, hx, hs⟩ := h.stores
  exact r.fits j t x u hx hs.offer

/-- An update is appended as the next version. -/
lemma Appends.version (h : r.Appends j t u) :
    u.version.number.val = (r.fleet j).storage.log.length + 1 := by
  obtain ⟨x, -, hs⟩ := h.stores
  rw [(r.tracks j).sound.length]
  exact hs.accepts

lemma Appends.log (h : r.Appends j t u) : (r.fleet (j + 1)).storage.log =
    (r.fleet j).storage.log ++ [⟨u, (r.fleet j).clock.tick.current⟩] := by
  obtain ⟨x, -, hs⟩ := h.stores
  rw [hs.storage, Storage.log_append _ _ hs.accepts h.fits]

/-- What was appended is in the log from then on. -/
lemma Appends.entry (h : r.Appends j t u) (hi : j < i) :
    (r.fleet i).storage.log[(r.fleet j).storage.log.length]? =
      some ⟨u, (r.fleet j).clock.tick.current⟩ := by
  obtain ⟨l, hl⟩ := r.log_grows hi
  rw [← hl, h.log, List.append_assoc, List.getElem?_append_right (Nat.le_refl _), Nat.sub_self]
  rfl

lemma Appends.length_succ (h : r.Appends j t u) :
    (r.fleet (j + 1)).storage.log.length = (r.fleet j).storage.log.length + 1 := by
  rw [h.log, List.length_append, List.length_singleton]

/-- The snapshot of a version that is appended is what the entries make of the one before it. -/
lemma Appends.snapshot (h : r.Appends j t u) {b : Catalog}
    (hb : SchemaCatalog.snapshot (r.fleet j).storage.log (r.fleet j).storage.log.length = .ok b)
    (hi : j < i) :
    SchemaCatalog.snapshot (r.fleet i).storage.log ((r.fleet j).storage.log.length + 1) =
      Committed.successor ⟨u, (r.fleet j).clock.tick.current⟩ b := by
  refine snapshot_succ_ok (h.entry hi) ?_
  rw [snapshot_grow (r.log_grows (Nat.le_of_lt hi)) (Nat.le_refl _)]
  exact hb

/-- An update is stored at a moment if its version is not beyond the log. -/
lemma Appends.version_le_iff (ha : r.Appends j t u) :
    u.version.number.val ≤ (r.fleet c).storage.log.length ↔ j < c := by
  rw [ha.version]
  constructor
  · intro le
    refine Nat.lt_of_not_le fun hc => ?_
    have := (r.log_grows hc).length_le
    omega
  · intro lt
    obtain ⟨le, -⟩ := List.getElem?_eq_some_iff.1 (ha.entry lt)
    exact le

/-- Whatever is in the log was appended, behind what was there. -/
lemma appended {v : Nat} {x : Committed} (hx : (r.fleet i).storage.log[v]? = some x) :
    ∃ j t, j < i ∧ r.Appends j t x.update ∧ (r.fleet j).storage.log.length = v := by
  induction i with
  | zero => cases hx
  | succ i ih =>
    have old : (r.fleet i).storage.log[v]? = some x →
        ∃ j t, j < i + 1 ∧ r.Appends j t x.update ∧ (r.fleet j).storage.log.length = v := by
      intro hx
      obtain ⟨j, t, hj, ha⟩ := ih hx
      exact ⟨j, t, Nat.lt_succ_of_lt hj, ha⟩
    rcases r.growth i with e | ⟨t, u, ha⟩
    · rw [e] at hx
      exact old hx
    · rw [ha.log] at hx
      rcases concat_cases hx with hx | ⟨e, rfl⟩
      · exact old hx
      · exact ⟨i, t, Nat.lt_succ_self i, ha, e.symm⟩

end Run

end SchemaCatalog
