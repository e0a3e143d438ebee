import SchemaCatalog.Proofs.Catalog.Evolution
import SchemaCatalog.Proofs.Run.Ids

/-!
# Tables and indexes from version to version

Where only statements commit, an object of a later version either has the number of an earlier one,
and then has come of it by one statement after another, or a number that was free before. So whoever
knows a table of one version knows what to expect of it in all later ones
(`Run.schema_evolution`).
-/

namespace SchemaCatalog

/-- In this version the table of this number has a column of this name, if there is such a table. -/
def HasColumn (log : List Committed) (v : Nat) (id : ObjectId) (n : String) : Prop :=
  ∀ c, snapshot log v = .ok c → ∀ t ∈ c.tables, t.id = id → (t.column? n).isSome

namespace Run

variable {r : Run} {i v w : Nat} {c d : Catalog} {t u : Table} {n : String}

/-- What has come of a table. A table of an old number has come of the one before by a statement, and
that one of the first by all the statements before. -/
lemma CommitsStatements.table (hr : r.CommitsStatements) (hvw : v ≤ w)
    (hc : snapshot (r.fleet i).storage.log v = .ok c)
    (hd : snapshot (r.fleet i).storage.log w = .ok d) (ht : t ∈ c.tables) (hu : u ∈ d.tables)
    (e : u.id = t.id) :
    t.Keeps u ∧ ∀ n, (∀ x, v ≤ x → x ≤ w → HasColumn (r.fleet i).storage.log x t.id n) →
      ∃ a b, t.column? n = some a ∧ u.column? n = some b ∧ a.Evolves (t.isKeyColumn n) b := by
  -- The induction is on the later version, from the earlier one on.
  refine hr.induction (P := fun w d => ∀ u ∈ d.tables, u.id = t.id → t.Keeps u ∧
    ∀ n, (∀ x, v ≤ x → x ≤ w → HasColumn (r.fleet i).storage.log x t.id n) →
      ∃ a b, t.column? n = some a ∧ u.column? n = some b ∧ a.Evolves (t.isKeyColumn n) b)
    hc ?base ?still ?step hvw hd u hu e
  case base =>
    intro u hu e
    obtain rfl : u = t :=
      List.inj_on_of_nodup_map ((hr.wellFormed hc).idsOf_nodup .table) hu ht e
    refine ⟨.refl u, fun n has => ?_⟩
    have found := has v (Nat.le_refl v) (Nat.le_refl v) c hc u ht rfl
    obtain ⟨a, ha⟩ := Option.isSome_iff_exists.1 found
    exact ⟨a, a, ha, ha, .refl _ a⟩
  case still =>
    intro w d hvw ih u hu e
    obtain ⟨keeps, columns⟩ := ih u hu e
    exact ⟨keeps, fun n has => columns n fun x hvx hxw => has x hvx (Nat.le_succ_of_le hxw)⟩
  case step =>
    intro w b d hvw hb hd becomes ih u hu e
    rcases becomes.tables (hr.wellFormed hb) hu with ⟨y, hy, step⟩ | new
    · obtain ⟨keeps, columns⟩ := ih y hy (step.keeps.id.symm.trans e)
      refine ⟨keeps.trans step.keeps, fun n has => ?_⟩
      obtain ⟨a, m, ha, hm, evolves⟩ := columns n fun x hvx hxw =>
        has x hvx (Nat.le_succ_of_le hxw)
      have found := has (w + 1) (Nat.le_succ_of_le hvw) (Nat.le_refl _) d hd u hu e
      obtain ⟨z, hz⟩ := Option.isSome_iff_exists.1 found
      have last := step.columns n m z hm hz
      rw [keeps.isKeyColumn] at last
      exact ⟨a, z, ha, hz, evolves.trans last⟩
    · -- A new table has a number that was not taken yet, and the one of the old table was.
      have old := (hr.wellFormed hc).lt_counter (k := .table) (List.mem_map_of_mem ht)
      rw [← e] at old
      exact absurd (Nat.lt_of_lt_of_le old (hr.draws hvw hc hb).counter) (Nat.not_lt.2 new)

/-- A column of the primary key is never without its table. -/
lemma CommitsStatements.hasColumn_of_key (hr : r.CommitsStatements)
    (hc : snapshot (r.fleet i).storage.log v = .ok c) (ht : t ∈ c.tables) (hn : n ∈ t.primaryKey)
    (hvw : v ≤ w) : HasColumn (r.fleet i).storage.log w t.id n := by
  intro d hd u hu e
  obtain ⟨keeps, -⟩ := hr.table hvw hc hd ht hu e
  rw [← keeps.primaryKey] at hn
  obtain ⟨s, hs, hu⟩ := Catalog.mem_tables.1 hu
  have wf := ((hr.wellFormed hd).schemas s hs).tables u hu
  obtain ⟨a, ha, e⟩ := List.mem_map.1 (wf.keyColumns hn)
  exact List.find?_isSome.2 ⟨a, ha, by simpa using e⟩

/-- An index of an old number was there before. -/
lemma CommitsStatements.index {j : Index} (hr : r.CommitsStatements) (hvw : v ≤ w)
    (hc : snapshot (r.fleet i).storage.log v = .ok c)
    (hd : snapshot (r.fleet i).storage.log w = .ok d) (hj : j ∈ d.indexes)
    (old : j.id < c.counter) : j ∈ c.indexes := by
  refine hr.induction (P := fun _ d => j ∈ d.indexes → j ∈ c.indexes) hc id (fun _ _ _ ih => ih)
    ?step hvw hd hj
  case step =>
    intro w b d hvw hb _ becomes ih hj
    rcases becomes.indexes hj with hj | new
    · exact ih hj
    · exact absurd (Nat.lt_of_lt_of_le old (hr.draws hvw hc hb).counter) (Nat.not_lt.2 new)

/-- Schemas evolve compatibly. Where only statements commit, of two versions, one of them later, the
following holds. A table that both have is in the same schema and zone with the same name, primary
key and colocation columns. Each column of its primary key is there in both, has the same type,
nullability and scale, and is no shorter and no less precise in the later one. Each column that it
has from the one version to the other has the same type in the later one or one to which it may be
widened, the same scale, no smaller length or precision, and is nullable if it was. And an index
that both have is the same in both. -/
theorem schema_evolution (r : Run) (hr : r.CommitsStatements) {i v w : Nat} {c d : Catalog}
    (hvw : v ≤ w) (hc : snapshot (r.fleet i).storage.log v = .ok c)
    (hd : snapshot (r.fleet i).storage.log w = .ok d) :
    (∀ t ∈ c.tables, ∀ u ∈ d.tables, u.id = t.id → t.Keeps u ∧
      (∀ n ∈ t.primaryKey, ∃ a b, t.column? n = some a ∧ u.column? n = some b ∧
        a.Evolves true b) ∧
      ∀ n, (∀ x, v ≤ x → x ≤ w → HasColumn (r.fleet i).storage.log x t.id n) →
        ∃ a b, t.column? n = some a ∧ u.column? n = some b ∧ a.Evolves false b) ∧
    ∀ j ∈ c.indexes, ∀ k ∈ d.indexes, k.id = j.id → k = j := by
  constructor
  · intro t ht u hu e
    obtain ⟨keeps, columns⟩ := hr.table hvw hc hd ht hu e
    refine ⟨keeps, fun n hn => ?_, fun n has => ?_⟩
    · have key : t.isKeyColumn n = true := Table.isKeyColumn_iff.2 hn
      rw [← key]
      exact columns n fun x hvx _ => hr.hasColumn_of_key hc ht hn hvx
    · obtain ⟨a, b, ha, hb, evolves⟩ := columns n has
      exact ⟨a, b, ha, hb, evolves.outsideKey⟩
  · intro j hj k hk e
    have wf := hr.wellFormed hc
    have old : k.id < c.counter := e ▸ wf.lt_counter (k := .index) (List.mem_map_of_mem hj)
    exact List.inj_on_of_nodup_map (wf.idsOf_nodup .index) (hr.index hvw hc hd hk old) hj e

/-- The first table of the run, with values up to a length. -/
def recreated.table (length : Word32) : Table where
  id := 2
  schemaId := Catalog.defaultSchemaId
  zoneId := Catalog.defaultZoneId
  name := "T"
  columns := [.ofType "ID" .int32 false, { Column.ofType "VAL" .string true with length }]
  primaryKey := ["ID"]
  colocation := ["ID"]

/-- The statement that changes the first table makes its values longer. -/
theorem schema_evolution_recreated :
    recreated.CommitsStatements ∧
    ∃ c d, snapshot (recreated.fleet 22).storage.log 1 = .ok c ∧
      snapshot (recreated.fleet 22).storage.log 2 = .ok d ∧
      c.tables = [recreated.table 65_536] ∧ d.tables = [recreated.table 70_000] ∧
      (recreated.table 65_536).Keeps (recreated.table 70_000) ∧
      ∃ a b, (recreated.table 65_536).column? "VAL" = some a ∧
        (recreated.table 70_000).column? "VAL" = some b ∧ a.Evolves false b := by
  obtain ⟨c, hc, first⟩ := recreated_snapshot (v := ⟨1⟩) (f := Catalog.tables)
    (a := [recreated.table 65_536]) (by decide +kernel)
  obtain ⟨d, hd, second⟩ := recreated_snapshot (v := ⟨2⟩) (f := Catalog.tables)
    (a := [recreated.table 70_000]) (by decide +kernel)
  obtain ⟨tables, -⟩ := schema_evolution recreated recreated_commits (v := 1) (w := 2) (by decide)
    hc hd
  have ht : recreated.table 65_536 ∈ c.tables := first ▸ List.mem_singleton_self _
  have hu : recreated.table 70_000 ∈ d.tables := second ▸ List.mem_singleton_self _
  obtain ⟨keeps, -, columns⟩ := tables _ ht _ hu rfl
  refine ⟨recreated_commits, c, d, hc, hd, first, second, keeps, columns "VAL" fun x hx hx' => ?_⟩
  intro b hb t htb _
  obtain rfl | rfl : x = 1 ∨ x = 2 := by omega
  · obtain rfl : c = b := Except.ok.inj (hc.symm.trans hb)
    rw [first, List.mem_singleton] at htb
    rw [htb]
    decide +kernel
  · obtain rfl : d = b := Except.ok.inj (hd.symm.trans hb)
    rw [second, List.mem_singleton] at htb
    rw [htb]
    decide +kernel

end Run

end SchemaCatalog
