import SchemaCatalog.Proofs.Run.Basic

/-!
# Snapshots are a function of the log

At every moment of every run a started node has registered the snapshots of the log up to some
version and nothing else. So what is registered never changes, nodes agree wherever they overlap,
and a node stops handing updates over at the first one that cannot be applied, which is the same for
all.
-/

namespace SchemaCatalog

namespace Fleet

variable {f g : Fleet} {m : Move} {t n k : Nat}

/-- A node that has registered something is started. -/
lemma Tracks.reached (h : f.Tracks) {v : Version} {c : Catalog}
    (hc : (f.node n).history.catalog? v = some c) : ∃ k, f.Reached n k := by
  rcases Nat.lt_or_ge n f.nodes.length with hlt | hge
  · cases hst : (f.node n).started with
    | true => exact h.started n hlt hst
    | false =>
      rw [h.unstarted n hlt hst] at hc
      cases hc
  · rw [Fleet.node_of_le hge] at hc
    cases hc

lemma Reached.catalog? (h : f.Reached n k) (ht : f.Tracks) (v : Version) (c : Catalog) :
    (f.node n).history.catalog? v = some c ↔
      v.number.val ≤ k ∧ snapshot f.storage.log v.number.val = .ok c :=
  h.follows.catalog? ht.sound.numbered v c

lemma Reached.latest (h : f.Reached n k) (ht : f.Tracks) :
    (f.node n).history.latest = snapshot f.storage.log k :=
  h.follows.latest ht.sound.numbered

/-- The snapshot of every version up to the one reached exists. -/
lemma Reached.snapshot (h : f.Reached n k) (ht : f.Tracks) {v : Nat} (hv : v ≤ k) :
    ∃ c, snapshot f.storage.log v = .ok c ∧ c.version.number.val = v := by
  obtain ⟨c, hc⟩ := History.snapshot_of_ofLog h.follows.ofLog
  obtain ⟨d, hd⟩ := snapshot_of_le hv hc
  exact ⟨d, hd, snapshot_version ht.sound.numbered (Nat.le_trans hv h.follows.le) hd⟩

/-- A registered catalog is the snapshot of its version. -/
lemma Tracks.snapshot (h : f.Tracks) {v : Version} {c : Catalog}
    (hc : (f.node n).history.catalog? v = some c) :
    v.number.val ≤ f.storage.log.length ∧ snapshot f.storage.log v.number.val = .ok c := by
  obtain ⟨k, hk⟩ := h.reached hc
  obtain ⟨hv, hs⟩ := (hk.catalog? h v c).1 hc
  exact ⟨Nat.le_trans hv hk.follows.le, hs⟩

/-- A delivery that ends with something left to hand over to a node has come to an update that
cannot be applied, where the node stands. -/
lemma stop_of_effect {x : Task} (h : f.Tracks) (hx : f.tasks[t]? = some x)
    (hh : f.HandsTo t n) (hr : f.Reached n k) (he : f.Effect t x g)
    (ho : g.outcome? t = some .done) :
    k < f.storage.log.length ∧
      ∃ err, SchemaCatalog.snapshot f.storage.log (k + 1) = .error err := by
  obtain ⟨x', d, y, hx', hxd, hy, hyr, hq⟩ := hh
  obtain ⟨e, rest, hq⟩ := List.exists_cons_of_ne_nil hq
  rw [hx] at hx'
  cases hx'
  have live : x.outcome? = none := by rw [Task.outcome?, hxd]
  obtain ⟨j, k', u, w⟩ := h.front hx live hxd hy hq hyr
  cases hr.unique h w.reached
  rcases handed_of_effect he hxd hy hq hyr with ⟨z, -, rfl⟩ | ⟨err, herr, -⟩
  · rw [outcome?, hx, Option.bind_some, live] at ho
    cases ho
  · obtain ⟨hlt, hs⟩ := w.of_error h herr
    exact ⟨hlt, err, hs⟩

end Fleet

namespace Run

/-- A delivery to a node that has reached a version ends with something left to hand over. -/
def StopsAt (r : Run) (i n k : Nat) : Prop :=
  ∃ t, r.moves i = .step t ∧ (r.fleet i).HandsTo t n ∧ (r.fleet i).Reached n k ∧
    (r.fleet (i + 1)).outcome? t = some .done

variable (r : Run) {i j n m k k' : Nat} {v : Version} {c d : Catalog}

/-- What a node has registered stays registered. -/
lemma catalog_stays (hij : i ≤ j) (hc : ((r.fleet i).node n).history.catalog? v = some c) :
    ((r.fleet j).node n).history.catalog? v = some c := by
  obtain ⟨k, hk⟩ := (r.tracks i).reached hc
  obtain ⟨k', hkk, hk'⟩ := r.advances hij n k hk
  obtain ⟨hv, hs⟩ := (hk.catalog? (r.tracks i) v c).1 hc
  refine (hk'.catalog? (r.tracks j) v c).2 ⟨Nat.le_trans hv hkk, ?_⟩
  rw [snapshot_grow (r.log_grows hij) (Nat.le_trans hv hk.follows.le)]
  exact hs

/-- Two moments of a run have the same snapshots where both have one. -/
lemma snapshot_eq {w : Nat} (hi : w ≤ (r.fleet i).storage.log.length)
    (hj : w ≤ (r.fleet j).storage.log.length) :
    snapshot (r.fleet i).storage.log w = snapshot (r.fleet j).storage.log w := by
  rcases Nat.le_total i j with h | h
  · exact (snapshot_grow (r.log_grows h) hi).symm
  · exact snapshot_grow (r.log_grows h) hj

lemma catalogs_agree (hc : ((r.fleet i).node n).history.catalog? v = some c)
    (hd : ((r.fleet j).node m).history.catalog? v = some d) : c = d := by
  obtain ⟨hi, hc⟩ := (r.tracks i).snapshot hc
  obtain ⟨hj, hd⟩ := (r.tracks j).snapshot hd
  rw [r.snapshot_eq hi hj, hd] at hc
  cases hc
  rfl

lemma stop (h : r.StopsAt i n k) : k < (r.fleet i).storage.log.length ∧
    ∃ err, snapshot (r.fleet i).storage.log (k + 1) = .error err := by
  obtain ⟨t, hm, hh, hr, ho⟩ := h
  obtain ⟨g, hg, e⟩ := r.change i
  obtain ⟨x, d, y, hx, hxd, hrest⟩ := hh
  have same : (r.fleet (i + 1)).outcome? t = g.outcome? t := by
    rw [Fleet.outcome?, Fleet.outcome?, (Fleet.core_inj e).2.2.2.2.2.2]
  rw [hm] at hg
  rw [same] at ho
  cases hg with
  | step hx' _ he =>
    rw [hx] at hx'
    cases hx'
    exact Fleet.stop_of_effect (r.tracks i) hx ⟨x, d, y, hx, hxd, hrest⟩ hr he ho
  | stuck _ =>
    rw [Fleet.outcome?, hx, Option.bind_some, Task.outcome?, hxd] at ho
    cases ho
  | join h _ => cases h

/-- No node is halted where the whole log can be applied at all moments. -/
lemma not_stopsAt (hs : ∀ i, (snapshot (r.fleet i).storage.log
    (r.fleet i).storage.log.length).toOption.isSome = true) : ¬ r.StopsAt i n k := by
  intro stops
  obtain ⟨lt, err, herr⟩ := r.stop stops
  cases hc : snapshot (r.fleet i).storage.log (r.fleet i).storage.log.length with
  | error e =>
    have := hs i
    rw [hc] at this
    cases this
  | ok c =>
    obtain ⟨d, hd⟩ := snapshot_of_le (Nat.succ_le_of_lt lt) hc
    cases hd.symm.trans herr

/-- No node gets beyond an update that cannot be applied. -/
lemma stays_below {w : Nat} {err : Error} (hw : w ≤ (r.fleet i).storage.log.length)
    (he : snapshot (r.fleet i).storage.log w = .error err)
    (hc : ((r.fleet j).node n).history.catalog? v = some c) : v.number.val < w := by
  obtain ⟨hv, hs⟩ := (r.tracks j).snapshot hc
  rcases Nat.lt_or_ge v.number.val w with hlt | hge
  · exact hlt
  · obtain ⟨d, hd⟩ := snapshot_of_le hge hs
    rw [r.snapshot_eq (Nat.le_trans hge hv) hw, he] at hd
    cases hd

/-- All nodes stop at the same update. -/
lemma stops_agree (h : r.StopsAt i n k) (h' : r.StopsAt j m k') : k = k' := by
  have below : ∀ {i j n m k k'}, r.StopsAt i n k → r.StopsAt j m k' → k' ≤ k := by
    intro i j n m k k' h h'
    obtain ⟨hlt, err, herr⟩ := r.stop h
    obtain ⟨t, -, -, hr, -⟩ := h'
    obtain ⟨c, hc, hv⟩ := hr.snapshot (r.tracks j) (Nat.le_refl k')
    have registered : ((r.fleet j).node m).history.catalog? c.version = some c :=
      (hr.catalog? (r.tracks j) _ c).2 ⟨Nat.le_of_eq hv, by rw [hv, hc]⟩
    have := r.stays_below hlt herr registered
    omega
  exact Nat.le_antisymm (below h' h) (below h h')

/-- The snapshot history is a function of the log alone. The storage holds the log and nothing else,
and the log only grows. A started node has registered the versions up to its latest one without gap,
each with the snapshot of the log; what is registered never changes, and any two nodes agree on what
both have registered. A delivery stops short only where the next update of the log cannot be
applied, beyond which no node ever gets, so that all nodes stop at the same version. -/
theorem history_of_log (r : Run) :
    (∀ i, (r.fleet i).storage.entries = (r.fleet i).storage.log.map Committed.stored ∧
      Numbered (r.fleet i).storage.log) ∧
    (∀ i j, i ≤ j → (r.fleet i).storage.log <+: (r.fleet j).storage.log) ∧
    (∀ i n, n < (r.fleet i).nodes.length → ((r.fleet i).node n).started = true →
      ∃ latest, ((r.fleet i).node n).history.latest = .ok latest ∧
        latest.version.number.val ≤ (r.fleet i).storage.log.length ∧
        (∀ v, v ≤ latest.version →
          ∃ c, ((r.fleet i).node n).history.catalog? v = some c ∧ c.version = v ∧
            snapshot (r.fleet i).storage.log v.number.val = .ok c) ∧
        ∀ v, latest.version < v → ((r.fleet i).node n).history.catalog? v = none) ∧
    (∀ i j n v c, i ≤ j → ((r.fleet i).node n).history.catalog? v = some c →
      ((r.fleet j).node n).history.catalog? v = some c) ∧
    (∀ i j n m v c d, ((r.fleet i).node n).history.catalog? v = some c →
      ((r.fleet j).node m).history.catalog? v = some d → c = d) ∧
    (∀ i n k, r.StopsAt i n k → k < (r.fleet i).storage.log.length ∧
      (∃ c, snapshot (r.fleet i).storage.log k = .ok c) ∧
      ∃ e, snapshot (r.fleet i).storage.log (k + 1) = .error e) ∧
    (∀ i j n w v e c, w ≤ (r.fleet i).storage.log.length →
      snapshot (r.fleet i).storage.log w = .error e →
      ((r.fleet j).node n).history.catalog? v = some c → v.number.val < w) ∧
    ∀ i j n m k k', r.StopsAt i n k → r.StopsAt j m k' → k = k' := by
  refine ⟨?_, fun i j => r.log_grows, ?_, fun i j n v c => r.catalog_stays,
    fun i j n m v c d => r.catalogs_agree, ?_, fun i j n w v e c => r.stays_below,
    fun i j n m k k' => r.stops_agree⟩
  · intro i
    exact ⟨(r.tracks i).sound.entries, (r.tracks i).sound.numbered⟩
  · intro i n hn hst
    have ht := r.tracks i
    obtain ⟨k, hk⟩ := ht.started n hn hst
    -- The versions registered are those up to the one that the node has reached.
    obtain ⟨latest, hl, hlv⟩ := hk.snapshot ht (Nat.le_refl k)
    refine ⟨latest, (hk.latest ht).trans hl, hlv ▸ hk.follows.le, ?_, ?_⟩
    · intro v hv
      have hvk : v.number.val ≤ k := hlv ▸ (Version.le_def _ _).1 hv
      obtain ⟨c, hc, hcv⟩ := hk.snapshot ht hvk
      exact ⟨c, (hk.catalog? ht v c).2 ⟨hvk, hc⟩, Version.ext_val hcv, hc⟩
    · intro v hv
      cases hc : ((r.fleet i).node n).history.catalog? v with
      | none => rfl
      | some c =>
        have hvk := ((hk.catalog? ht v c).1 hc).1
        have hlt := (Version.lt_def _ _).1 hv
        omega
  · intro i n k h
    obtain ⟨hlt, e, he⟩ := r.stop h
    obtain ⟨t, -, -, hr, -⟩ := h
    obtain ⟨c, hc, -⟩ := hr.snapshot (r.tracks i) (Nat.le_refl k)
    exact ⟨hlt, ⟨c, hc⟩, e, he⟩

theorem history_of_log_repartitioned :
    ∃ c, ((repartitioned.fleet 20).node 0).history.catalog? ⟨1⟩ = some c ∧
      snapshot (repartitioned.fleet 20).storage.log 1 = .ok c := by
  obtain ⟨-, -, registered, -⟩ := history_of_log repartitioned
  obtain ⟨latest, -, -, upTo, beyond⟩ := registered 20 0 (by decide +kernel) (by decide +kernel)
  have reached : (⟨1⟩ : Version) ≤ latest.version := by
    rcases Nat.lt_or_ge latest.version.number.val 1 with hlt | hge
    · exact absurd (beyond ⟨1⟩ hlt) (by decide +kernel)
    · exact hge
  obtain ⟨c, hc, -, hs⟩ := upTo ⟨1⟩ reached
  exact ⟨c, hc, hs⟩

end Run

end SchemaCatalog
