import SchemaCatalog.Proofs.Catalog.Objects
import SchemaCatalog.Proofs.Run.WellFormed

/-!
# Object numbers in a run

Where only statements commit, each version is what a statement makes of the one before it, however
many statements run at once and however often they lose against each other. So the counter never
goes back, each version numbers what is new in it from the counter of the version before it, and a
number whose object is gone is not given again (`Run.ids_never_reused`).
-/

namespace SchemaCatalog

/-- No statement creates more than two objects. -/
lemma Statement.numbers_le (st : Statement) : st.numbers ≤ 2 := by
  cases st <;> simp [numbers]

namespace Run

variable {r : Run} {i u v w : Nat} {b c d : Catalog}

/-- What one statement does to the counter and the numbers, all statements between two versions
do. -/
lemma CommitsStatements.draws (hr : r.CommitsStatements) (hvw : v ≤ w)
    (hc : snapshot (r.fleet i).storage.log v = .ok c)
    (hd : snapshot (r.fleet i).storage.log w = .ok d) : c.Draws d :=
  hr.induction (P := fun _ d => c.Draws d) hc (.refl c) (fun _ _ _ h => h)
    (fun _ _ _ _ _ _ becomes h => h.trans becomes.draws) hvw hd

/-- Two numbers are left wherever a statement that creates something is accepted. -/
def HasRoom (r : Run) : Prop :=
  ∀ j t st u c, r.Accepts j t st u → 0 < st.numbers →
    snapshot (r.fleet j).storage.log (r.fleet j).storage.log.length = .ok c →
    c.counter.val ≤ 4_294_967_293

/-- While there is room, no version is without a catalog. -/
lemma CommitsStatements.exists_snapshot (hr : r.CommitsStatements) (room : r.HasRoom)
    (hv : v ≤ (r.fleet i).storage.log.length) :
    ∃ c, snapshot (r.fleet i).storage.log v = .ok c := by
  cases v with
  | zero => exact ⟨_, rfl⟩
  | succ v =>
    obtain ⟨x, hx⟩ : ∃ x, (r.fleet i).storage.log[v]? = some x := ⟨_, List.getElem?_eq_getElem hv⟩
    obtain ⟨j, t, hj, appends, rfl⟩ := appended hx
    obtain ⟨st, accepts⟩ := hr j t x.update appends
    obtain ⟨b, hb, yields, -, -⟩ := accepts.serial
    have same : snapshot (r.fleet i).storage.log (r.fleet j).storage.log.length = .ok b :=
      (snapshot_grow (r.log_grows (Nat.le_of_lt hj)) (Nat.le_refl _)).trans hb
    have fits : b.counter.val + st.numbers < 4_294_967_296 := by
      rcases Nat.eq_zero_or_pos st.numbers with none | pos
      · rw [none]
        exact b.counter.isLt
      · have left := room j t st x.update b accepts pos hb
        have few := st.numbers_le
        omega
    obtain ⟨d, hd⟩ := (Statement.applyEntries_eq_ok_iff (hr.wellFormed hb) yields.entries).2 fits
    rw [snapshot_succ_ok hx same, Committed.successor, hd]
    exact ⟨_, rfl⟩

/-- Object numbers are never reused. Where only statements commit, all versions have a catalog as
long as two numbers are left wherever a statement creates something, and of all catalogs that the
versions have the following holds. The counter does not go back from one to a later one. What the
later one has and the earlier one has not is numbered from the counter of the earlier one on and
below the counter of the later one. No number stands for objects of two kinds, be it in one catalog
or in two. And a number that has gone from one catalog to a later one is in none after that. -/
theorem ids_never_reused (r : Run) (hr : r.CommitsStatements) (i : Nat) :
    (r.HasRoom → ∀ v ≤ (r.fleet i).storage.log.length,
      ∃ c, snapshot (r.fleet i).storage.log v = .ok c) ∧
    (∀ v w c d, v ≤ w → snapshot (r.fleet i).storage.log v = .ok c →
      snapshot (r.fleet i).storage.log w = .ok d →
      c.counter ≤ d.counter ∧
      (∀ k, ∀ id ∈ d.idsOf k, id ∉ c.idsOf k → c.counter ≤ id ∧ id < d.counter) ∧
      ∀ k k', ∀ id ∈ c.idsOf k, id ∈ d.idsOf k' → k = k') ∧
    ∀ u v w b c d, u ≤ v → v ≤ w → snapshot (r.fleet i).storage.log u = .ok b →
      snapshot (r.fleet i).storage.log v = .ok c →
      snapshot (r.fleet i).storage.log w = .ok d →
      ∀ id ∈ b.ids, id ∉ c.ids → id ∉ d.ids := by
  refine ⟨fun room v hv => hr.exists_snapshot room hv, ?_, ?_⟩
  · intro v w c d hvw hc hd
    -- One version comes of the other by statements that draw new numbers from the counter.
    have draws := hr.draws hvw hc hd
    refine ⟨draws.counter, fun k id => draws.new (hr.wellFormed hd), fun k k' id => ?_⟩
    exact draws.kind (hr.wellFormed hc)
  · intro u v w b c d huv hvw hb hc hd id hid
    exact (hr.draws huv hb hc).gone (hr.draws hvw hc hd) (hr.wellFormed hb) hid

/-- A statement: the values of a column may become longer. -/
def lengthen : Statement :=
  .alterColumn ⟨none, "T", "VAL", none, none, none, none, some 70_000, none⟩

/-- A table is created, changed, dropped and created once more. -/
def recreated : Run :=
  ofMoves Clock.unset
    [.join Config.unset none, .request 0 .zero .start, .step 0, .step 0, .step 0, .step 0,
      .request 0 .zero (.execute (.createTable (.simple "T"))), .step 3, .step 3, .step 2,
      .request 0 .zero (.execute lengthen), .step 4, .step 4, .step 2,
      .request 0 .zero (.execute (.dropTable none "T")), .step 5, .step 5, .step 2,
      .request 0 .zero (.execute (.createTable (.simple "T"))), .step 6, .step 6, .step 2]
    (by decide +kernel)

lemma recreated_commits : recreated.CommitsStatements :=
  (onlyStatements_ofMoves (by simp)).commits

/-- What the node has registered in the end is a snapshot. -/
lemma recreated_snapshot {α : Type} {f : Catalog → α} {a : α} {v : Version}
    (h : (((recreated.fleet 22).node 0).history.catalog? v).map f = some a) :
    ∃ c, snapshot (recreated.fleet 22).storage.log v.number.val = .ok c ∧ f c = a := by
  obtain ⟨c, hc, e⟩ := Option.map_eq_some_iff.1 h
  exact ⟨c, ((recreated.tracks 22).snapshot hc).2, e⟩

/-- No catalog of the run has a greater counter than the last one. -/
lemma recreated_hasRoom : recreated.HasRoom := by
  intro j t st u c _ _ hc
  have last : recreated.fleet (22 + j) = recreated.fleet 22 := trace_getD _ _ j
  have grown := recreated.log_grows (Nat.le_add_left j 22)
  rw [last] at grown
  obtain ⟨d, hd, six⟩ := recreated_snapshot (v := ⟨4⟩) (f := Catalog.counter) (a := 6)
    (by decide +kernel)
  have four : (recreated.fleet 22).storage.log.length = 4 := by decide +kernel
  have few := Nat.le_trans grown.length_le (Nat.le_of_eq four)
  have hc := (snapshot_grow grown (Nat.le_refl _)).trans hc
  have le := (recreated_commits.draws few hc hd).counter
  rw [six] at le
  exact Nat.le_trans le (by decide)

/-- The table that is created again has another number, and the one of the first table is gone. -/
theorem ids_never_reused_recreated :
    recreated.CommitsStatements ∧ recreated.HasRoom ∧
    (∀ v ≤ (recreated.fleet 22).storage.log.length,
      ∃ c, snapshot (recreated.fleet 22).storage.log v = .ok c) ∧
    ∃ c d, snapshot (recreated.fleet 22).storage.log 3 = .ok c ∧
      snapshot (recreated.fleet 22).storage.log 4 = .ok d ∧
      d.idsOf .table = [4] ∧ c.counter ≤ 4 ∧ 4 < d.counter ∧ 2 ∉ d.ids := by
  obtain ⟨versions, pairs, gone⟩ := ids_never_reused recreated recreated_commits 22
  obtain ⟨b, hb, first⟩ := recreated_snapshot (v := ⟨1⟩) (f := Catalog.ids) (a := [1, 2, 3])
    (by decide +kernel)
  obtain ⟨c, hc, dropped⟩ := recreated_snapshot (v := ⟨3⟩)
    (f := fun c => (c.ids, c.idsOf .table)) (a := ([1], [])) (by decide +kernel)
  obtain ⟨d, hd, again⟩ := recreated_snapshot (v := ⟨4⟩) (f := (·.idsOf .table)) (a := [4])
    (by decide +kernel)
  obtain ⟨ids, tables⟩ := Prod.mk.inj dropped
  obtain ⟨-, new, -⟩ := pairs 3 4 c d (by decide) hc hd
  obtain ⟨above, below⟩ := new .table 4 (again ▸ List.mem_singleton_self _) (tables ▸ nofun)
  refine ⟨recreated_commits, recreated_hasRoom, versions recreated_hasRoom, c, d, hc, hd,
    again, above, below, ?_⟩
  exact gone 1 3 4 b c d (by decide) (by decide) hb hc hd 2 (first ▸ by decide) (ids ▸ by decide)

end Run

end SchemaCatalog
