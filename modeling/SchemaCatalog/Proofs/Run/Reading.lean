import SchemaCatalog.Proofs.Run.Snapshots
import SchemaCatalog.Read

/-!
# Reading at a time

A started node answers for every time, with the catalog of the greatest version that it has
registered and that is active by then. So later times have later versions, and a version that is
registered later is answered only from its activation on.
-/

namespace SchemaCatalog

namespace History

variable {y : History} {t t' : Timestamp} {c d : Catalog}

/-- At most one catalog is the last one that is active at a time. -/
lemma ActiveAt.unique (hc : y.ActiveAt t c) (hd : y.ActiveAt t d) : c = d := by
  have cd := hd.greatest _ c hc.registered hc.active
  have dc := hc.greatest _ d hd.registered hd.active
  have same : c.version = d.version := Version.ext_val (Nat.le_antisymm cd dc)
  have registered := hc.registered
  rw [same, hd.registered] at registered
  cases registered
  rfl

lemma ActiveAt.mono (hc : y.ActiveAt t c) (hd : y.ActiveAt t' d) (h : t ≤ t') :
    c.version ≤ d.version :=
  hd.greatest _ c hc.registered (Nat.le_trans hc.active h)

lemma activeVersion_of (h : y.catalogAt t = .ok c) : y.activeVersion t = .ok c.version := by
  rw [activeVersion, h]
  rfl

end History

namespace Run

variable {r : Run} {i j n : Nat}

/-- At every time one catalog is active on a started node. -/
lemma activeAt (r : Run) (hn : n < (r.fleet i).nodes.length)
    (hs : ((r.fleet i).node n).started = true) (t : Timestamp) :
    ∃ c, ((r.fleet i).node n).history.catalogAt t = .ok c ∧
      ((r.fleet i).node n).history.ActiveAt t c := by
  have ht := r.tracks i
  obtain ⟨k, hk⟩ := ht.started n hn hs
  exact hk.follows.activeAt ht.sound.numbered t

/-- What is active later on is active already, or registered since. -/
lemma activeAt_before {t : Timestamp} {c d : Catalog} (hij : i ≤ j)
    (hc : ((r.fleet i).node n).history.ActiveAt t c)
    (hd : ((r.fleet j).node n).history.ActiveAt t d) :
    c = d ∨ ((r.fleet i).node n).history.catalog? d.version = none := by
  cases known : ((r.fleet i).node n).history.catalog? d.version with
  | none => exact .inr rfl
  | some e =>
    refine .inl ?_
    have stays := r.catalog_stays hij known
    rw [hd.registered] at stays
    cases stays
    have early : ((r.fleet i).node n).history.ActiveAt t d :=
      ⟨known, hd.active, fun v e he het => hd.greatest v e (r.catalog_stays hij he) het⟩
    exact hc.unique early

/-- Reading at a time is a floor. At every moment at which a node is started, whatever is committed
with whatever delays and clocks, and for every time: the node answers, and the answer is the catalog
that it has registered under the greatest version among those that are active by then. So later
times have later versions, and a registered catalog is the answer at its own activation, unless that
is the end of time. From one moment to a later one the answer changes only to a catalog that was
registered in between and is active by that time. -/
theorem catalogAt_floor (r : Run) (i n : Nat) (hn : n < (r.fleet i).nodes.length)
    (hs : ((r.fleet i).node n).started = true) :
    (∀ t, ∃ c, ((r.fleet i).node n).history.catalogAt t = .ok c ∧
      ((r.fleet i).node n).history.ActiveAt t c) ∧
    (∀ t t', t ≤ t' → ∃ v w, ((r.fleet i).node n).history.activeVersion t = .ok v ∧
      ((r.fleet i).node n).history.activeVersion t' = .ok w ∧ v ≤ w) ∧
    (∀ v c, ((r.fleet i).node n).history.catalog? v = some c →
      c.activation ≠ Timestamp.greatest →
      ((r.fleet i).node n).history.catalogAt c.activation = .ok c) ∧
    ∀ j t, i ≤ j → ∃ c d, ((r.fleet i).node n).history.catalogAt t = .ok c ∧
      ((r.fleet j).node n).history.catalogAt t = .ok d ∧
      (c = d ∨ ((r.fleet i).node n).history.catalog? d.version = none ∧ d.activation ≤ t) := by
  have total := r.activeAt hn hs
  refine ⟨total, ?_, ?_, ?_⟩
  · intro t t' htt
    obtain ⟨c, hc, active⟩ := total t
    obtain ⟨d, hd, active'⟩ := total t'
    exact ⟨c.version, d.version, History.activeVersion_of hc, History.activeVersion_of hd,
      active.mono active' htt⟩
  · intro v c hc cap
    have ht := r.tracks i
    obtain ⟨k, hk⟩ := ht.started n hn hs
    exact hk.follows.catalogAt_activation ht.sound.numbered hc cap
  · intro j t hij
    -- The node is started later as well, so both moments have an answer to compare.
    have kept := r.kept hij hn
    obtain ⟨c, hc, active⟩ := total t
    obtain ⟨d, hd, active'⟩ :=
      r.activeAt (Nat.lt_of_lt_of_le hn (r.nodes_le hij)) (kept.started hs) t
    refine ⟨c, d, hc, hd, ?_⟩
    rcases activeAt_before hij active active' with same | new
    · exact .inl same
    · exact .inr ⟨new, active'.active⟩

/-- At the end of time the node answers with the initial catalog before the statement is accepted,
and with version 1 once that is registered. -/
theorem catalogAt_floor_repartitioned :
    ((repartitioned.fleet 8).node 0).started = true ∧
    ∃ c d, ((repartitioned.fleet 8).node 0).history.catalogAt Timestamp.greatest = .ok c ∧
      ((repartitioned.fleet 20).node 0).history.catalogAt Timestamp.greatest = .ok d ∧
      c.version = ⟨0⟩ ∧ d.version = ⟨1⟩ ∧
      ((repartitioned.fleet 8).node 0).history.catalog? ⟨1⟩ = none := by
  have started : ((repartitioned.fleet 8).node 0).started = true := by decide +kernel
  have first : (((repartitioned.fleet 8).node 0).history.activeVersion
      Timestamp.greatest).toOption = some ⟨0⟩ := by decide +kernel
  have second : (((repartitioned.fleet 20).node 0).history.activeVersion
      Timestamp.greatest).toOption = some ⟨1⟩ := by decide +kernel
  obtain ⟨-, -, -, later⟩ := catalogAt_floor repartitioned 8 0 (by decide +kernel) started
  obtain ⟨c, d, hc, hd, change⟩ := later 20 Timestamp.greatest (by decide)
  rw [History.activeVersion_of hc] at first
  rw [History.activeVersion_of hd] at second
  have hcv := Option.some.inj first
  have hdv := Option.some.inj second
  refine ⟨started, c, d, hc, hd, hcv, hdv, ?_⟩
  rcases change with same | ⟨new, -⟩
  · rw [same, hdv] at hcv
    cases hcv
  · rw [← hdv]
    exact new

end Run

end SchemaCatalog
