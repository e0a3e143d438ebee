import SchemaCatalog.Proofs.Snapshot

/-!
# Histories that follow a log

The history that registers the snapshots of a log one after another has exactly the catalogs up to
the last version it was given, and at a time at which one of them is active it finds no earlier one.
Handing it an update of the log either registers the next snapshot or changes nothing, so a history
that follows the log goes on to follow it, in whichever order it is told of what.
-/

namespace SchemaCatalog

namespace History

/-- The history of the snapshots up to a version, which all have to exist. -/
def ofLog (log : List Committed) : Nat → Except Error History
  | 0 => .ok (empty.register Catalog.initial)
  | k + 1 =>
    ofLog log k >>= fun y => (snapshot log (k + 1)).map y.register

/-- The history has the snapshots of the log up to a version. -/
structure Follows (y : History) (log : List Committed) (k : Nat) : Prop where
  le : k ≤ log.length
  ofLog : ofLog log k = .ok y

/-- All that is registered is of no later version and active from no later time than `c`. -/
structure Below (y : History) (c : Catalog) : Prop where
  version : ∀ e ∈ y.byVersion.entries, e.1 ≤ c.version.number.val
  activation : ∀ e ∈ y.byActivation.entries, e.1 ≤ c.activation.raw.val

/-- The registered catalog of the greatest version among those that are active at a time. -/
structure ActiveAt (y : History) (t : Timestamp) (c : Catalog) : Prop where
  registered : y.catalog? c.version = some c
  active : c.activation ≤ t
  greatest : ∀ (v : Version) (d : Catalog), y.catalog? v = some d → d.activation ≤ t →
    v ≤ c.version

/-- Every catalog is registered under its version. -/
def Keyed (y : History) : Prop :=
  ∀ (k : Nat) (c : Catalog), y.byVersion.get? k = some c → c.version.number.val = k

/-- What is registered under a version stays so, and what is registered later is registered under
its version. -/
structure Grows (y z : History) : Prop where
  registered : ∀ v, (y.catalog? v).isSome → (z.catalog? v).isSome
  keyed : y.Keyed → z.Keyed

lemma Grows.refl (y : History) : y.Grows y := ⟨fun _ => id, id⟩

lemma Grows.trans {x y z : History} (h : x.Grows y) (h' : y.Grows z) : x.Grows z :=
  ⟨fun v hv => h'.registered v (h.registered v hv), fun hk => h'.keyed (h.keyed hk)⟩

lemma keyed_empty : empty.Keyed := nofun

lemma grows_register (y : History) (c : Catalog) : y.Grows (y.register c) where
  registered v hv := by
    rw [catalog?_register]
    split
    · rfl
    · exact hv
  keyed hy k d hd := by
    rw [register, NatMap.get?_insert] at hd
    split at hd
    · rename_i hk
      cases hd
      exact hk.symm
    · exact hy k d hd

/-- The latest catalog is registered under its version. -/
lemma Keyed.latest {y : History} (h : y.Keyed) {c : Catalog} (hc : y.latest = .ok c) :
    y.catalog? c.version = some c := by
  have last : y.byVersion.last? = some c := by
    unfold History.latest at hc
    split at hc
    · rename_i d hd
      cases hc
      exact hd
    · cases hc
  obtain ⟨e, he, rfl⟩ := Option.map_eq_some_iff.1 last
  have found : y.byVersion.get? e.1 = some e.2 :=
    NatMap.get?_eq_some.2 (List.mem_of_getLast? he)
  rw [catalog?, h e.1 e.2 found]
  exact found

lemma below_empty (c : Catalog) : empty.Below c := ⟨nofun, nofun⟩

lemma Below.mono {y : History} {c d : Catalog} (h : y.Below c)
    (hv : c.version.number.val ≤ d.version.number.val) (ha : c.activation ≤ d.activation) :
    y.Below d where
  version e he := Nat.le_trans (h.version e he) hv
  activation e he := Nat.le_trans (h.activation e he) ha

lemma Below.register {y : History} {c : Catalog} (h : y.Below c) : (y.register c).Below c where
  version := NatMap.le_of_mem_insert h.version
  activation := NatMap.le_of_mem_insert h.activation

lemma Below.latest {y : History} {c : Catalog} (h : y.Below c) : (y.register c).latest = .ok c := by
  rw [History.latest, latest?, History.register, NatMap.last?_insert h.version]

lemma Below.catalogAt {y : History} {c : Catalog} (h : y.Below c) (t : Timestamp) :
    (y.register c).catalogAt t = if c.activation ≤ t then .ok c else y.catalogAt t := by
  rw [History.catalogAt, History.register, NatMap.floor?_insert h.activation]
  by_cases ht : c.activation ≤ t
  · rw [if_pos ht, if_pos ((Timestamp.le_def _ _).1 ht)]
  · rw [if_neg ht, if_neg fun e => ht ((Timestamp.le_def _ _).2 e)]
    rfl

/-- Whatever update is handed over, a history grows if it changes. -/
lemma grows_of_handle {y z : History} {u : Update} {commit : Timestamp} {token : Token}
    {notice : Notice} (h : y.handle u commit token = .ok (z, notice)) : y.Grows z := by
  unfold handle at h
  split at h
  · cases h
    exact .refl _
  · split at h
    · cases h
    · split at h
      · cases h
        exact grows_register _ _
      · cases h

/-! ## The history of a log -/

section

variable {log : List Committed} {y : History} {k v : Nat} {c : Catalog}

lemma ofLog_succ (h : ofLog log (k + 1) = .ok y) :
    ∃ z d, ofLog log k = .ok z ∧ snapshot log (k + 1) = .ok d ∧ y = z.register d := by
  rw [ofLog] at h
  cases hz : ofLog log k with
  | error e =>
    rw [hz] at h
    cases h
  | ok z =>
    cases hd : snapshot log (k + 1) with
    | error e =>
      rw [hz, hd] at h
      cases h
    | ok d =>
      rw [hz, hd] at h
      cases h
      exact ⟨z, d, rfl, rfl, rfl⟩

/-- The history ends with the snapshot of its version. -/
lemma snapshot_of_ofLog (h : ofLog log k = .ok y) : ∃ c, snapshot log k = .ok c := by
  cases k with
  | zero => exact ⟨_, rfl⟩
  | succ k =>
    obtain ⟨z, d, -, hd, -⟩ := ofLog_succ h
    exact ⟨d, hd⟩

lemma ofLog_grow {log' : List Committed} (h : log <+: log') (hk : k ≤ log.length) :
    ofLog log' k = ofLog log k := by
  induction k with
  | zero => rfl
  | succ k ih => rw [ofLog, ofLog, ih (by omega), snapshot_grow h hk]

lemma Follows.grow {log' : List Committed} (h : y.Follows log k) (hp : log <+: log') :
    y.Follows log' k :=
  ⟨Nat.le_trans h.le hp.length_le, (ofLog_grow hp h.le).trans h.ofLog⟩

lemma follows_initial (log : List Committed) : (empty.register Catalog.initial).Follows log 0 :=
  ⟨Nat.zero_le _, rfl⟩

lemma below_of_ofLog (hn : Numbered log) (hk : k ≤ log.length) (h : ofLog log k = .ok y)
    (hc : snapshot log k = .ok c) : y.Below c := by
  induction k generalizing y c with
  | zero =>
    cases h
    cases hc
    exact (below_empty _).register
  | succ k ih =>
    obtain ⟨z, d, hz, hd, rfl⟩ := ofLog_succ h
    rw [hc] at hd
    cases hd
    obtain ⟨b, hb⟩ := snapshot_pred hc
    have below := ih (by omega) hz hb
    refine (below.mono ?_ (snapshot_activation (Nat.le_succ k) hb hc)).register
    rw [snapshot_version hn (by omega) hb, snapshot_version hn hk hc]
    exact Nat.le_succ k

/-- The last step of the history, with what it registers behind everything else. -/
lemma Follows.pred (hn : Numbered log) (h : y.Follows log (k + 1)) :
    ∃ (z : History) (d : Catalog),
      z.Follows log k ∧ snapshot log (k + 1) = .ok d ∧ z.Below d ∧ y = z.register d := by
  obtain ⟨z, d, hz, hd, rfl⟩ := ofLog_succ h.ofLog
  have hk : k < log.length := h.le
  obtain ⟨b, hb⟩ := snapshot_pred hd
  refine ⟨z, d, ⟨by omega, hz⟩, hd, ?_, rfl⟩
  refine (below_of_ofLog hn (by omega) hz hb).mono ?_ (snapshot_activation (Nat.le_succ k) hb hd)
  rw [snapshot_version hn (by omega) hb, snapshot_version hn h.le hd]
  exact Nat.le_succ k

/-- The registered catalogs are the snapshots up to the version that the history has reached. -/
lemma Follows.catalog? (hn : Numbered log) (h : y.Follows log k) (v : Version) (c : Catalog) :
    y.catalog? v = some c ↔ v.number.val ≤ k ∧ snapshot log v.number.val = .ok c := by
  -- The induction is on the version reached. One more registers the snapshot of that version.
  induction k generalizing y with
  | zero =>
    cases h.ofLog
    rw [catalog?_register]
    constructor
    · intro hc
      split at hc
      · rename_i e
        cases hc
        rw [e]
        exact ⟨Nat.le_refl _, rfl⟩
      · cases hc
    · rintro ⟨hv, hc⟩
      have e : v = Catalog.initial.version := Version.ext_val (Nat.le_zero.1 hv)
      rw [if_pos e]
      rw [e] at hc
      cases hc
      rfl
  | succ k ih =>
    obtain ⟨z, d, hz, hd, -, rfl⟩ := h.pred hn
    have hv := snapshot_version hn h.le hd
    rw [catalog?_register]
    split
    · rename_i e
      subst e
      rw [hv, hd]
      constructor
      · intro hc
        cases hc
        exact ⟨Nat.le_refl _, rfl⟩
      · rintro ⟨-, hc⟩
        cases hc
        rfl
    · rename_i e
      rw [ih hz]
      have ne : v.number.val ≠ k + 1 := fun he => e (Version.ext_val (he.trans hv.symm))
      constructor
      · rintro ⟨hle, hc⟩
        exact ⟨by omega, hc⟩
      · rintro ⟨hle, hc⟩
        exact ⟨by omega, hc⟩

/-- The latest catalog is the snapshot of the version that the history has reached. -/
lemma Follows.latest (hn : Numbered log) (h : y.Follows log k) : y.latest = snapshot log k := by
  cases k with
  | zero =>
    cases h.ofLog
    exact (below_empty _).latest
  | succ k =>
    obtain ⟨z, d, -, hd, below, rfl⟩ := h.pred hn
    rw [below.latest, hd]

/-- At every time the history finds a catalog, the last one that is active by then. -/
lemma Follows.activeAt (hn : Numbered log) (h : y.Follows log k) (t : Timestamp) :
    ∃ c, y.catalogAt t = .ok c ∧ y.ActiveAt t c := by
  induction k generalizing y with
  | zero =>
    have first : Catalog.initial.activation ≤ t := Nat.zero_le _
    have registered : y.catalog? Catalog.initial.version = some Catalog.initial :=
      (h.catalog? hn _ _).2 ⟨Nat.le_refl _, rfl⟩
    refine ⟨Catalog.initial, ?_, registered, first, fun v d hd _ => ((h.catalog? hn v d).1 hd).1⟩
    cases h.ofLog
    rw [(below_empty _).catalogAt, if_pos first]
  | succ k ih =>
    obtain ⟨z, d, hz, hd, below, rfl⟩ := h.pred hn
    have hv := snapshot_version hn h.le hd
    -- The last one registered is active latest, so it is found if it is active at all.
    rw [below.catalogAt]
    by_cases hdt : d.activation ≤ t
    · rw [if_pos hdt]
      refine ⟨d, rfl, (h.catalog? hn _ d).2 ⟨Nat.le_of_eq hv, by rw [hv, hd]⟩, hdt, ?_⟩
      intro v e he _
      rw [Version.le_def, hv]
      exact ((h.catalog? hn v e).1 he).1
    · rw [if_neg hdt]
      obtain ⟨c, hat, registered, active, greatest⟩ := ih hz
      obtain ⟨hck, hc⟩ := (hz.catalog? hn _ c).1 registered
      refine ⟨c, hat, (h.catalog? hn _ c).2 ⟨Nat.le_succ_of_le hck, hc⟩, active, ?_⟩
      intro v e he het
      obtain ⟨hve, hs⟩ := (h.catalog? hn v e).1 he
      have ne : v.number.val ≠ k + 1 := by
        intro hvk
        rw [hvk, hd] at hs
        cases hs
        exact hdt het
      exact greatest v e ((hz.catalog? hn v e).2 ⟨by omega, hs⟩) het

/-- A catalog that is active before the end of time is found at its activation: later ones become
active later. -/
lemma Follows.catalogAt_activation (hn : Numbered log) (h : y.Follows log k) {v : Version}
    (hc : y.catalog? v = some c) (cap : c.activation ≠ Timestamp.greatest) :
    y.catalogAt c.activation = .ok c := by
  obtain ⟨d, hat, registered, active, greatest⟩ := h.activeAt hn c.activation
  obtain ⟨hvk, hs⟩ := (h.catalog? hn v c).1 hc
  obtain ⟨hdk, hd⟩ := (h.catalog? hn _ d).1 registered
  have le := greatest v c hc (Nat.le_refl _)
  rcases Nat.lt_or_ge v.number.val d.version.number.val with hlt | hge
  · rcases snapshot_activation_lt (Nat.le_trans hdk h.le) hlt hs hd with later | capped
    · exact absurd active (Nat.not_le.2 later)
    · rw [capped] at active
      exact absurd (Timestamp.eq_greatest active) cap
  · rw [Nat.le_antisymm hge le, hs] at hd
    cases hd
    exact hat

/-! ## Handing over an update of the log -/

/-- An update that was handed over before changes nothing. -/
lemma Follows.handle_old (hn : Numbered log) (h : y.Follows log k) {x : Committed}
    (hx : log[v]? = some x) (hv : v < k) (token : Token) :
    y.handle x.update x.commit token = .ok (y, ⟨x.update.version, []⟩) := by
  obtain ⟨c, hc⟩ := snapshot_of_ofLog h.ofLog
  obtain ⟨d, hd⟩ := snapshot_of_le (show v + 1 ≤ k from hv) hc
  have known : y.catalog? x.update.version = some d :=
    (h.catalog? hn _ d).2 (by rw [hn v x hx]; exact ⟨hv, hd⟩)
  rw [handle, known]
  rfl

/-- The next update of the log is folded into the latest catalog. -/
lemma Follows.handle_next (hn : Numbered log) (h : y.Follows log k) {x : Committed}
    (hx : log[k]? = some x) (token : Token) :
    y.handle x.update x.commit token =
      (snapshot log (k + 1)).map fun c =>
        (y.register c, ⟨x.update.version, x.update.events token⟩) := by
  obtain ⟨c, hc⟩ := snapshot_of_ofLog h.ofLog
  have hv := hn k x hx
  have new : y.catalog? x.update.version = none := by
    cases hd : y.catalog? x.update.version with
    | none => rfl
    | some d =>
      have := ((h.catalog? hn _ d).1 hd).1
      omega
  have hp : x.update.version.prev? = some ⟨⟨k, by omega⟩⟩ := by
    rw [Version.prev?, if_neg (by omega)]
    exact congrArg some (Version.ext_val (by simp only [hv]; omega))
  have previous : x.update.version.prev?.bind y.catalog? = some c := by
    rw [hp]
    exact (h.catalog? hn _ c).2 ⟨Nat.le_refl _, hc⟩
  rw [handle, new, previous, snapshot_succ_ok hx hc]
  simp only [Option.isSome_none, Bool.false_eq_true, if_false, Committed.successor_eq]
  cases x.successor c with
  | error e => rfl
  | ok d => rfl

lemma Follows.register (h : y.Follows log k) (hk : k < log.length)
    (hc : snapshot log (k + 1) = .ok c) : (y.register c).Follows log (k + 1) := by
  refine ⟨hk, ?_⟩
  rw [History.ofLog, h.ofLog, hc]
  rfl

end

end History

end SchemaCatalog
