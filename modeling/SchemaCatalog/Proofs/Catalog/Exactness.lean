import SchemaCatalog.Proofs.Catalog.Undo

/-!
# What exactly checks let through

The converse of what checks make sure of: what a check makes sure of is all that it asks for, so
that nothing is refused that satisfies it. The definition of a table or of a zone passes exactly if
it is well-formed.
-/

namespace SchemaCatalog.Check

variable {c : Catalog} {s : Schema} {t : Table} {name : String} {names seen : List String}
  {b : Bool} {e : Error} {fault : String → DefinitionFault}

lemma refuse_eq_ok : refuse b e = .ok () ↔ b = false := by
  cases b <;> simp [refuse]

/-- Two checks in a row pass when both do. -/
lemma bind_eq_ok {x y : Except Error Unit} : (do x; y) = .ok () ↔ x = .ok () ∧ y = .ok () := by
  cases x <;> simp [bind, Except.bind]

lemma firstDuplicate_eq_none :
    firstDuplicate.go seen names = none ↔ names.Nodup ∧ ∀ n ∈ names, n ∉ seen := by
  refine ⟨of_firstDuplicate, ?_⟩
  induction names generalizing seen with
  | nil => exact fun _ => rfl
  | cons n ns ih =>
    rintro ⟨nodup, new⟩
    obtain ⟨hn, nodup⟩ := List.nodup_cons.1 nodup
    have unseen : seen.contains n = false := by simpa using new n (List.mem_cons_self ..)
    rw [firstDuplicate.go, unseen, if_neg Bool.false_ne_true]
    refine ih ⟨nodup, fun m hm hs => ?_⟩
    rcases List.mem_cons.1 hs with rfl | hs
    · exact hn hm
    · exact new m (List.mem_cons_of_mem _ hm) hs

lemma distinct_eq_ok : distinct names fault = .ok () ↔ names.Nodup := by
  refine ⟨of_distinct, fun nodup => ?_⟩
  have none : firstDuplicate names = none :=
    firstDuplicate_eq_none.2 ⟨nodup, fun _ _ => List.not_mem_nil⟩
  rw [distinct, none]

/-! ## Names -/

lemma find?_isSome_eq_false {α : Type} {l : List α} {k : α → String} :
    (l.find? fun a => k a = name).isSome = false ↔ ∀ a ∈ l, k a ≠ name := by
  refine ⟨ne_of_find?, fun free => ?_⟩
  rw [List.find?_eq_none.2 fun a ha => by simpa using free a ha]
  rfl

lemma tableNameFree_eq_ok : tableNameFree s name = .ok () ↔ ∀ t ∈ s.tables, t.name ≠ name :=
  refuse_eq_ok.trans find?_isSome_eq_false

lemma indexNameFree_eq_ok : indexNameFree s name = .ok () ↔ ∀ i ∈ s.indexes, i.name ≠ name :=
  refuse_eq_ok.trans find?_isSome_eq_false

lemma zoneNameFree_eq_ok : zoneNameFree c name = .ok () ↔ ∀ z ∈ c.zones, z.name ≠ name :=
  refuse_eq_ok.trans find?_isSome_eq_false

/-! ## Tables -/

lemma colocation_eq_ok {key : List String} {o : Option (List String)} (hk : key.Nodup) :
    colocation key o = .ok () ↔ (o.getD key).Nodup ∧ o.getD key ⊆ key := by
  refine ⟨fun h => of_colocation h hk, ?_⟩
  cases o with
  | none => exact fun _ => rfl
  | some l =>
    rintro ⟨nodup, subset⟩
    have inside : l.filter (fun n => !key.contains n) = [] :=
      List.filter_eq_nil_iff.2 fun n hn => by simpa using subset hn
    refine bind_eq_ok.2 ⟨distinct_eq_ok.2 nodup, refuse_eq_ok.2 ?_⟩
    rw [inside]
    rfl

/-- The definition of a table passes exactly if it makes a well-formed table. -/
lemma tableDefinition_eq_ok {p : CreateTable} (id schemaId zoneId : ObjectId) :
    tableDefinition p = .ok () ↔ (p.tableIn id schemaId zoneId).WellFormed := by
  refine ⟨fun h => of_tableDefinition h id schemaId zoneId, fun wf => ?_⟩
  have columnNames : (p.columns.map ColumnSpec.name).Nodup :=
    names_of_specs p.columns ▸ wf.columnNames
  have keyColumns : p.primaryKey ⊆ p.columns.map ColumnSpec.name :=
    names_of_specs p.columns ▸ wf.keyColumns
  have columns : p.columns.isEmpty = false := by
    have columns : p.columns.map ColumnSpec.column ≠ [] := wf.columns
    simpa using columns
  have key : p.primaryKey.isEmpty = false := by
    have key : p.primaryKey ≠ [] := wf.key
    simpa using key
  have known : p.primaryKey.find? (fun n => !(p.columns.map ColumnSpec.name).contains n) = none :=
    List.find?_eq_none.2 fun n hn => by simpa using keyColumns hn
  unfold tableDefinition
  dsimp only
  rw [bind_eq_ok, bind_eq_ok, bind_eq_ok, known]
  exact ⟨refuse_eq_ok.2 columns, distinct_eq_ok.2 columnNames, refuse_eq_ok.2 key,
    bind_eq_ok.2 ⟨rfl, bind_eq_ok.2 ⟨distinct_eq_ok.2 wf.keyNames,
      (colocation_eq_ok wf.keyNames).2 ⟨wf.colocationNames, wf.colocationColumns⟩⟩⟩⟩

/-- A name of a column is one by which the column is found. -/
lemma column_of_mem (h : name ∈ t.columns.map Column.name) : ∃ col, column t name = .ok col := by
  obtain ⟨col, hcol, e⟩ := List.mem_map.1 h
  have found : (t.column? name).isSome := List.find?_isSome.2 ⟨col, hcol, by simpa using e⟩
  obtain ⟨col, hcol⟩ := Option.isSome_iff_exists.1 found
  exact ⟨col, column_eq_ok.2 hcol⟩

lemma allColumns_eq_ok : allColumns t names = .ok () ↔ names ⊆ t.columns.map Column.name := by
  refine ⟨of_allColumns, ?_⟩
  induction names with
  | nil => exact fun _ => rfl
  | cons n ns ih =>
    intro subset
    obtain ⟨col, hcol⟩ := column_of_mem (subset (List.mem_cons_self ..))
    rw [allColumns, hcol]
    exact ih fun m hm => subset (List.mem_cons_of_mem _ hm)

lemma indexColumns_eq_ok : indexColumns t names = .ok () ↔
    names ≠ [] ∧ names.Nodup ∧ names ⊆ t.columns.map Column.name := by
  refine ⟨of_indexColumns, fun ⟨nonempty, nodup, subset⟩ => ?_⟩
  exact bind_eq_ok.2 ⟨refuse_eq_ok.2 (by simpa using nonempty),
    bind_eq_ok.2 ⟨allColumns_eq_ok.2 subset, distinct_eq_ok.2 nodup⟩⟩

lemma newColumns_eq_ok : newColumns t seen names = .ok () ↔
    names.Nodup ∧ (∀ n ∈ names, n ∉ t.columns.map Column.name) ∧ ∀ n ∈ names, n ∉ seen := by
  refine ⟨of_newColumns, ?_⟩
  induction names generalizing seen with
  | nil => exact fun _ => rfl
  | cons n ns ih =>
    rintro ⟨nodup, new, unseen⟩
    obtain ⟨hn, nodup⟩ := List.nodup_cons.1 nodup
    have absent : (t.column? n).isSome = false := find?_isSome_eq_false.2 fun col hcol e =>
      new n (List.mem_cons_self ..) (e ▸ List.mem_map_of_mem hcol)
    have free : seen.contains n = false := by simpa using unseen n (List.mem_cons_self ..)
    refine bind_eq_ok.2 ⟨refuse_eq_ok.2 (by rw [absent, free]; rfl), ?_⟩
    refine ih ⟨nodup, fun m hm => new m (List.mem_cons_of_mem _ hm), fun m hm hs => ?_⟩
    rcases List.mem_cons.1 hs with rfl | hs
    · exact hn hm
    · exact unseen m (List.mem_cons_of_mem _ hm) hs

/-! ## Zones -/

lemma timersConflict_eq_false {z : Zone} (h : z.autoAdjust = Zone.infiniteTimer ∨
    z.scaleUp = Zone.infiniteTimer ∧ z.scaleDown = Zone.infiniteTimer) :
    timersConflict z = false := by
  rcases h with e | ⟨up, down⟩
  · simp [timersConflict, e]
  · simp [timersConflict, up, down]

/-- The definition of a zone passes exactly if it is well-formed. -/
lemma zoneDefinition_eq_ok {z : Zone} : zoneDefinition z = .ok () ↔ z.WellFormed := by
  refine ⟨of_zoneDefinition, fun wf => ?_⟩
  obtain ⟨least, most⟩ := wf.partitions
  have partitions : (decide (z.partitions = 0) || decide (Zone.maxPartitions < z.partitions)) =
      false := by
    rw [Bool.or_eq_false_iff, decide_eq_false_iff_not, decide_eq_false_iff_not]
    exact ⟨Fin.pos_iff_ne_zero.1 least, Nat.not_lt.2 most⟩
  have replicas : decide (z.replicas = 0) = false := by
    rw [decide_eq_false_iff_not]
    exact Fin.pos_iff_ne_zero.1 wf.replicas
  exact bind_eq_ok.2 ⟨refuse_eq_ok.2 wf.name, bind_eq_ok.2 ⟨refuse_eq_ok.2 partitions,
    bind_eq_ok.2 ⟨refuse_eq_ok.2 replicas, bind_eq_ok.2 ⟨refuse_eq_ok.2 wf.filter,
      refuse_eq_ok.2 (timersConflict_eq_false wf.timers)⟩⟩⟩⟩

end SchemaCatalog.Check
