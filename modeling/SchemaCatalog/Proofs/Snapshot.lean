import SchemaCatalog.Handler
import SchemaCatalog.Proofs.Fold
import SchemaCatalog.Proofs.NatMap
import SchemaCatalog.Proofs.Storage
import SchemaCatalog.Proofs.Timestamp

/-!
# Snapshots

The catalog of a version is a function of the log: the initial catalog with the updates up to that
version folded into it. This module defines these snapshots by plain recursion and proves that a
history which is handed the log in order registers exactly them, whatever it is handed again.
-/

namespace SchemaCatalog

/-- The greatest number that a timestamp holds. -/
def Timestamp.cap : Nat := 18_446_744_073_709_551_615

/-- When the catalog of an update becomes active: after the delay, in whole milliseconds, but later
than the catalog before it. -/
def Committed.activation (x : Committed) (previous : Timestamp) : Timestamp :=
  ⟨Word64.capped
    (max (x.commit.raw.val + x.update.delay.wholeMillis * Timestamp.ticksPerMilli)
      (previous.raw.val + 1))⟩

/-- The catalog that a committed update makes of the one before it. -/
def Committed.successor (x : Committed) (c : Catalog) : Except Error Catalog :=
  (c.applyEntries x.update.entries).map fun d =>
    d.stamp x.update.version (x.activation c.activation)

/-- The catalog of a version. Where the log ends no catalog follows. -/
def snapshot (log : List Committed) : Nat → Except Error Catalog
  | 0 => .ok Catalog.initial
  | v + 1 =>
    snapshot log v >>= fun c =>
      match log[v]? with
      | some x => x.successor c
      | none => .ok c

/-! ## One update -/

lemma Timestamp.following_eq (d p : Timestamp) :
    (d.following p).raw.val = min (max d.raw.val (p.raw.val + 1)) Timestamp.cap := by
  have hd := d.raw.isLt
  have hp := p.raw.isLt
  unfold Timestamp.following Timestamp.cap
  split
  · rename_i h
    have h := (Timestamp.le_def _ _).1 h
    rw [Timestamp.tick, Word64.val_capped]
    omega
  · rename_i h
    have h : ¬ d.raw.val ≤ p.raw.val := h
    omega

/-- No time is beyond the end of time. -/
lemma Timestamp.eq_greatest {t : Timestamp} (h : Timestamp.greatest ≤ t) :
    t = Timestamp.greatest := by
  have last : t.raw.val ≤ 18_446_744_073_709_551_615 := Nat.le_of_lt_succ t.raw.isLt
  exact Timestamp.ext_val (Nat.le_antisymm last h)

/-- The bump and both sums agree with the handler's. -/
lemma Committed.activation_eq (x : Committed) (p : Timestamp) :
    (x.commit.add x.update.delay).following p = x.activation p := by
  apply Timestamp.ext_val
  rw [Timestamp.following_eq, Timestamp.add_val]
  simp only [activation, Word64.val_capped, Timestamp.cap, Timestamp.ticksPerMilli]
  have hp := p.raw.isLt
  omega

lemma Committed.successor_eq (x : Committed) (c : Catalog) :
    x.update.successor x.commit c = x.successor c := by
  rw [Update.successor, successor, Update.apply, activation_eq]
  cases c.applyEntries x.update.entries with
  | error e => rfl
  | ok d => rfl

lemma Committed.successor_ok {x : Committed} {c d : Catalog} (h : x.successor c = .ok d) :
    ∃ e, c.applyEntries x.update.entries = .ok e ∧
      d = e.stamp x.update.version (x.activation c.activation) := by
  unfold successor at h
  cases ha : c.applyEntries x.update.entries with
  | error e =>
    rw [ha] at h
    cases h
  | ok e =>
    rw [ha] at h
    cases h
    exact ⟨e, rfl, rfl⟩

lemma Committed.successor_version {x : Committed} {c d : Catalog} (h : x.successor c = .ok d) :
    d.version = x.update.version := by
  obtain ⟨e, -, rfl⟩ := successor_ok h
  rfl

/-- Catalogs become active in the order of their versions. -/
lemma Committed.successor_activation {x : Committed} {c d : Catalog} (h : x.successor c = .ok d) :
    c.activation ≤ d.activation := by
  obtain ⟨e, -, rfl⟩ := successor_ok h
  have hc := c.activation.raw.isLt
  rw [Timestamp.le_def]
  simp only [Catalog.stamp, activation, Word64.val_capped]
  omega

/-- Catalogs become active one after another, as long as there is time left. -/
lemma Committed.successor_activation_lt {x : Committed} {c d : Catalog}
    (h : x.successor c = .ok d) :
    c.activation < d.activation ∨ d.activation = Timestamp.greatest := by
  obtain ⟨e, -, rfl⟩ := successor_ok h
  have hc := c.activation.raw.isLt
  rcases Nat.lt_or_ge (c.activation.raw.val + 1) Timestamp.cap with lt | ge
  · refine .inl ?_
    rw [Timestamp.cap] at lt
    rw [Timestamp.lt_def]
    simp only [Catalog.stamp, activation, Word64.val_capped]
    omega
  · refine .inr (Timestamp.ext_val ?_)
    rw [Timestamp.cap] at ge
    simp only [Catalog.stamp, activation, Word64.val_capped, Timestamp.greatest, Word64.greatest]
    omega

/-! ## Snapshots of a log -/

section

variable {log : List Committed} {c d : Catalog} {v w : Nat}

lemma snapshot_succ {x : Committed} (hx : log[v]? = some x) :
    snapshot log (v + 1) = snapshot log v >>= x.successor := by
  rw [snapshot, hx]

lemma snapshot_succ_ok {x : Committed} (hx : log[v]? = some x) (hc : snapshot log v = .ok c) :
    snapshot log (v + 1) = x.successor c := by
  rw [snapshot_succ hx, hc]
  rfl

/-- What follows in the log is nothing to the snapshots before it. -/
lemma snapshot_append (l : List Committed) (h : v ≤ log.length) :
    snapshot (log ++ l) v = snapshot log v := by
  induction v with
  | zero => rfl
  | succ v ih =>
    rw [snapshot, snapshot, ih (by omega), List.getElem?_append_left (by omega)]

lemma snapshot_grow {log' : List Committed} (h : log <+: log') (hv : v ≤ log.length) :
    snapshot log' v = snapshot log v := by
  obtain ⟨l, rfl⟩ := h
  exact snapshot_append l hv

lemma snapshot_pred (h : snapshot log (v + 1) = .ok d) : ∃ c, snapshot log v = .ok c := by
  rw [snapshot] at h
  cases hc : snapshot log v with
  | error e =>
    rw [hc] at h
    cases h
  | ok c => exact ⟨c, rfl⟩

/-- A version without a catalog has none after it. -/
lemma snapshot_of_le (hvw : v ≤ w) (h : snapshot log w = .ok d) : ∃ c, snapshot log v = .ok c := by
  induction hvw generalizing d with
  | refl => exact ⟨d, h⟩
  | step _ ih =>
    obtain ⟨c, hc⟩ := snapshot_pred h
    exact ih hc

lemma snapshot_version (hn : Numbered log) (hv : v ≤ log.length) (h : snapshot log v = .ok c) :
    c.version.number.val = v := by
  cases v with
  | zero =>
    cases h
    rfl
  | succ v =>
    obtain ⟨b, hb⟩ := snapshot_pred h
    obtain ⟨x, hx⟩ : ∃ x, log[v]? = some x := ⟨log[v], List.getElem?_eq_getElem (by omega)⟩
    rw [snapshot_succ_ok hx hb] at h
    rw [Committed.successor_version h]
    exact hn v x hx

/-- Snapshots become active in the order of their versions. -/
lemma snapshot_activation (hvw : v ≤ w) (hc : snapshot log v = .ok c)
    (hd : snapshot log w = .ok d) : c.activation ≤ d.activation := by
  induction hvw generalizing d with
  | refl =>
    rw [hc] at hd
    cases hd
    exact Nat.le_refl _
  | @step w _ ih =>
    obtain ⟨b, hb⟩ := snapshot_pred hd
    refine Nat.le_trans (ih hb) ?_
    rw [snapshot, hb] at hd
    cases hx : log[w]? with
    | none =>
      rw [hx] at hd
      cases hd
      exact Nat.le_refl _
    | some x =>
      rw [hx] at hd
      exact Committed.successor_activation hd

/-- Later snapshots become active later, as long as there is time left. -/
lemma snapshot_activation_lt (hw : w ≤ log.length) (hvw : v < w) (hc : snapshot log v = .ok c)
    (hd : snapshot log w = .ok d) :
    c.activation < d.activation ∨ d.activation = Timestamp.greatest := by
  obtain ⟨u, rfl⟩ := Nat.exists_eq_add_of_lt hvw
  obtain ⟨b, hb⟩ := snapshot_pred hd
  obtain ⟨x, hx⟩ : ∃ x, log[v + u]? = some x := ⟨log[v + u], List.getElem?_eq_getElem hw⟩
  rw [snapshot_succ_ok hx hb] at hd
  rcases Committed.successor_activation_lt hd with later | capped
  · exact .inl (Nat.lt_of_le_of_lt (snapshot_activation (Nat.le_add_right v u) hc hb) later)
  · exact .inr capped

end

end SchemaCatalog
