import SchemaCatalog.Proofs.Catalog.Statements
import SchemaCatalog.Proofs.Run.Serial

/-!
# Well-formed catalogs in a run

The initial catalog is well-formed, and what a statement yields keeps a catalog so. Where only
statements commit, every update of the log was yielded by one on the snapshot before it, and so
every catalog that a node ever registers is well-formed.
-/

namespace SchemaCatalog

namespace Run

variable {r : Run} {i n v w : Nat} {c d : Catalog}

/-- A version is what a statement makes of the one before it. Behind the end of the log there is
nothing new. -/
lemma CommitsStatements.becomes (hr : r.CommitsStatements)
    (hc : snapshot (r.fleet i).storage.log v = .ok c)
    (hd : snapshot (r.fleet i).storage.log (v + 1) = .ok d) : d = c ∨ c.Becomes d := by
  cases hx : (r.fleet i).storage.log[v]? with
  | none =>
    rw [snapshot, hc, hx] at hd
    cases hd
    exact .inl rfl
  | some x =>
    obtain ⟨j, t, st, b, -, -, hb, yields⟩ := hr.yields hx
    rw [hc] at hb
    cases hb
    rw [snapshot_succ_ok hx hc] at hd
    obtain ⟨e, applied, rfl⟩ := Committed.successor_ok hd
    exact .inr (.intro _ _ yields.entries applied)

/-- What holds of a version, and is kept by each statement, holds of every later version. -/
lemma CommitsStatements.induction (hr : r.CommitsStatements) {P : Nat → Catalog → Prop}
    (hc : snapshot (r.fleet i).storage.log v = .ok c) (base : P v c)
    (still : ∀ x b, v ≤ x → P x b → P (x + 1) b)
    (step : ∀ x b d, v ≤ x → snapshot (r.fleet i).storage.log x = .ok b →
      snapshot (r.fleet i).storage.log (x + 1) = .ok d → b.Becomes d → P x b → P (x + 1) d)
    (hvw : v ≤ w) (hd : snapshot (r.fleet i).storage.log w = .ok d) : P w d := by
  induction hvw generalizing d with
  | refl =>
    rw [hc] at hd
    cases hd
    exact base
  | @step w hvw ih =>
    obtain ⟨b, hb⟩ := snapshot_pred hd
    rcases hr.becomes hb hd with rfl | becomes
    · exact still w d hvw (ih hb)
    · exact step w b d hvw hb hd becomes (ih hb)

/-- The versions are well-formed since the first one is. -/
lemma CommitsStatements.wellFormed (hr : r.CommitsStatements)
    (hc : snapshot (r.fleet i).storage.log v = .ok c) : c.WellFormed :=
  hr.induction (P := fun _ c => c.WellFormed) (i := i) (v := 0) rfl Catalog.initial_wellFormed
    (fun _ _ _ wf => wf) (fun _ _ _ _ _ _ becomes wf => becomes.wellFormed wf) (Nat.zero_le v) hc

/-- No update of the log gets stuck while there are numbers left. -/
lemma CommitsStatements.next (hr : r.CommitsStatements) (hv : v < (r.fleet i).storage.log.length)
    (hc : snapshot (r.fleet i).storage.log v = .ok c) (room : c.counter.val + 2 < 4_294_967_296) :
    ∃ d, snapshot (r.fleet i).storage.log (v + 1) = .ok d := by
  obtain ⟨x, hx⟩ : ∃ x, (r.fleet i).storage.log[v]? = some x := ⟨_, List.getElem?_eq_getElem hv⟩
  obtain ⟨j, t, st, b, -, -, hb, yields⟩ := hr.yields hx
  rw [hc] at hb
  cases hb
  obtain ⟨d, hd, -⟩ := (Statement.admits (hr.wellFormed hc) yields.entries).ok room
  rw [snapshot_succ_ok hx hc, Committed.successor, hd]
  exact ⟨_, rfl⟩

/-- Statements keep catalogs well-formed.

The initial catalog is well-formed, and the entries that a statement yields on a well-formed catalog
can all be applied to it and lead to a well-formed one, unless its counter has too few numbers left.
Where only statements commit, all snapshots of the log are well-formed and so is every catalog that
is registered on a node, and an update of the log can be applied where two numbers are left. -/
theorem well_formed_of_statements (r : Run) :
    Catalog.initial.WellFormed ∧
    (∀ (c : Catalog) (st : Statement) (es : List Entry), c.WellFormed → st.entries c = .ok es →
      (∃ d, c.applyEntries es = .ok d ∧ d.WellFormed) ∨
        ∃ delta : ObjectId, delta.val ≤ 2 ∧ 4_294_967_296 ≤ c.counter.val + delta.val ∧
          c.applyEntries es = .error (.invariant (.counterOverflow c.counter delta))) ∧
    (r.CommitsStatements →
      (∀ i v c, snapshot (r.fleet i).storage.log v = .ok c → c.WellFormed) ∧
      (∀ i n v c, ((r.fleet i).node n).history.catalog? v = some c → c.WellFormed) ∧
      ∀ i v c, v < (r.fleet i).storage.log.length → snapshot (r.fleet i).storage.log v = .ok c →
        c.counter.val + 2 < 4_294_967_296 →
        ∃ d, snapshot (r.fleet i).storage.log (v + 1) = .ok d) := by
  refine ⟨Catalog.initial_wellFormed, fun c st es h he => Statement.admits h he, fun hr => ?_⟩
  refine ⟨fun i v c => hr.wellFormed, ?_, fun i v c => hr.next⟩
  intro i n v c hc
  exact hr.wellFormed ((r.tracks i).snapshot hc).2

theorem well_formed_of_statements_repartitioned :
    repartitioned.CommitsStatements ∧
      ∃ c, ((repartitioned.fleet 20).node 0).history.catalog? ⟨1⟩ = some c ∧ c.WellFormed := by
  obtain ⟨-, -, reached⟩ := well_formed_of_statements repartitioned
  have commits := repartitioned_onlyStatements.commits
  obtain ⟨-, registered, -⟩ := reached commits
  have found : (((repartitioned.fleet 20).node 0).history.catalog? ⟨1⟩).isSome := by
    decide +kernel
  obtain ⟨c, hc⟩ := Option.isSome_iff_exists.1 found
  exact ⟨commits, c, hc, registered 20 0 ⟨1⟩ c hc⟩

end Run

end SchemaCatalog
