import SchemaCatalog.Proofs.Catalog.Numbers
import SchemaCatalog.Proofs.Run.Handing
import SchemaCatalog.Proofs.Run.WellFormed

/-!
# Updates that poison the log

What a statement yields fits the catalog that it was drafted on, and that is the one it is applied
to. Still the last entry of a statement that creates objects, by which it takes their numbers, is
checked where it is applied and not where it is drafted. So a statement that was accepted is applied
on every node if the counter of the latest catalog had room for its numbers, and no node gets beyond
it if the counter had none (`Run.applied_iff_room`).
-/

namespace SchemaCatalog

namespace Run

/-- Whoever is handed the update registers its version, and goes on. -/
def Applies (r : Run) (x : Committed) : Prop :=
  ∀ i t n, r.Hands i t n x →
    (∃ c, ((r.fleet (i + 1)).node n).history.catalog? x.update.version = some c) ∧
    ((r.fleet (i + 1)).node n).mark = ((r.fleet i).node n).mark ∧
    (r.fleet (i + 1)).tasks = (r.fleet i).tasks

/-- Whoever is handed the update halts on it with the error, and no node ever registers its
version. -/
def Poisons (r : Run) (x : Committed) (e : Error) : Prop :=
  (∀ i t n, r.Hands i t n x →
    (r.fleet (i + 1)).node n = ((r.fleet i).node n).halted e ∧
    (r.fleet (i + 1)).outcome? t = some .done) ∧
  ∀ i n, ((r.fleet i).node n).history.catalog? x.update.version = none

variable {r : Run} {j t : Nat} {st : Statement} {u : Update} {b : Catalog}

/-- The update of an accepted statement, as it is committed. -/
def accepted (r : Run) (j : Nat) (u : Update) : Committed := ⟨u, (r.fleet j).clock.tick.current⟩

/-- An accepted update is not handed over before it is accepted. -/
lemma Accepts.lt_of_hands (h : r.Accepts j t st u) {i s n : Nat}
    (hh : r.Hands i s n (r.accepted j u)) : j < i := by
  obtain ⟨y, d, z, rest, hy, hd, hz, hr, hq⟩ := hh.front
  have live : y.outcome? = none := by rw [Task.outcome?, hd]
  obtain ⟨m, k, w, front⟩ := (r.tracks i).front hy live hd hz hq hr
  have same : w = r.accepted j u := Committed.eq_of_stored
    ((r.tracks i).sound.fits w (List.mem_of_getElem? front.log)) h.appends.fits front.stored.symm
  subst same
  -- The update is in the log by now, at the place that its version says.
  have place : u.version.number.val = m + 1 := (r.tracks i).sound.numbered m _ front.log
  obtain ⟨lt, -⟩ := List.getElem?_eq_some_iff.1 front.log
  rw [← h.appends.version_le_iff, place]
  exact lt

/-- A statement that was accepted is applied on every node if the counter of the latest catalog,
which is well-formed, had room for the numbers of its new objects. Otherwise it is committed all the
same, and every node that is handed it halts on it with the overflow of the counter. -/
theorem applied_iff_room (r : Run) {j t : Nat} {st : Statement} {u : Update} {b : Catalog}
    (ha : r.Accepts j t st u)
    (hb : snapshot (r.fleet j).storage.log (r.fleet j).storage.log.length = .ok b)
    (wf : b.WellFormed) :
    (b.counter.val + st.numbers < 4_294_967_296 →
      r.Applies (r.accepted j u) ∧ ∀ i n k, r.StopsAt i n k → k + 1 ≠ u.version.number.val) ∧
    (4_294_967_296 ≤ b.counter.val + st.numbers →
      ∃ delta, r.Poisons (r.accepted j u) (.invariant (.counterOverflow b.counter delta))) := by
  obtain ⟨c, hc, yields, hv, hlog⟩ := ha.serial
  obtain rfl : c = b := by
    rw [hb] at hc
    cases hc
    rfl
  constructor
  · intro room
    obtain ⟨d, hd⟩ := (Statement.applyEntries_eq_ok_iff wf yields.entries).2 room
    -- With room the entries can be applied, so the next snapshot exists from then on.
    have snap : ∀ i, j < i → ∃ e, snapshot (r.fleet i).storage.log
        ((r.fleet j).storage.log.length + 1) = .ok e := by
      intro i hi
      rw [ha.appends.snapshot hb hi, Committed.successor, hd]
      exact ⟨_, rfl⟩
    constructor
    · intro i s n hh
      have hji := ha.lt_of_hands hh
      obtain ⟨e, he⟩ := snap i hji
      obtain ⟨registered, mark, tasks⟩ := hh.registered (ha.appends.entry hji) he
      exact ⟨⟨e, registered⟩, mark, tasks⟩
    · -- No node stops where the next snapshot exists.
      intro i n k hs e
      obtain ⟨hlt, err, herr⟩ := r.stop hs
      obtain ⟨f, hf⟩ := snap (j + 1) (Nat.lt_succ_self j)
      obtain rfl : k = (r.fleet j).storage.log.length := by omega
      rw [r.snapshot_eq hlt (Nat.le_of_eq ha.appends.length_succ.symm), hf] at herr
      cases herr
  · intro full
    obtain ⟨delta, failed⟩ := Statement.applyEntries_of_exhausted wf yields.entries full
    -- Without room the counter overflows, and there is no next snapshot for good.
    have snap : ∀ i, j < i → snapshot (r.fleet i).storage.log
        ((r.fleet j).storage.log.length + 1) =
          .error (.invariant (.counterOverflow c.counter delta)) := by
      intro i hi
      rw [ha.appends.snapshot hb hi, Committed.successor, failed]
      rfl
    refine ⟨delta, ?_, ?_⟩
    · intro i s n hh
      have hji := ha.lt_of_hands hh
      obtain ⟨stops, node⟩ := hh.halted (ha.appends.entry hji) (snap i hji)
      obtain ⟨t', hm, -, -, ended⟩ := stops
      rw [hh.move] at hm
      cases hm
      exact ⟨node, ended⟩
    · intro i n
      cases hreg : ((r.fleet i).node n).history.catalog? u.version with
      | none => exact hreg
      | some d =>
        have := r.stays_below (Nat.le_of_eq ha.appends.length_succ.symm)
          (snap (j + 1) (Nat.lt_succ_self j)) hreg
        omega

/-! ## A statement that is committed and halts its node -/

/-- A statement: a zone is created. -/
def newZone : Statement := .createZone "Z" ⟨none, none, none, none, none, none⟩

/-- An update that takes all numbers of the initial catalog but the last one. -/
def exhaustion : Update := ⟨⟨1⟩, Duration.zero, [.takeIds 4294967293]⟩

/-- The update of the statement on a catalog that has one number left, which cannot be taken. -/
def newZone.update : Update :=
  ⟨⟨2⟩, Duration.zero, [.newZone (Zone.ofName 4294967295 "Z"), .takeIds 1]⟩

/-- A node is started, another writer takes all numbers but the last one, and then a statement
creates a zone. -/
def exhausted : Run :=
  ofMoves Clock.unset
    [.join Config.unset none, .request 0 .zero .start, .step 0, .step 0, .step 0, .step 0,
      .request 0 .zero (.commit exhaustion), .step 3, .step 2,
      .request 0 .zero (.execute newZone), .step 4, .step 4, .step 4, .step 2, .step 4]
    (by decide +kernel)

/-- The catalog on which the statement is drafted. -/
def exhausted.catalog : Catalog :=
  (Catalog.initial.withCounter 4294967295).stamp ⟨1⟩ ⟨65537⟩

lemma exhausted.catalog_wellFormed : exhausted.catalog.WellFormed := by
  have h := Catalog.initial_wellFormed
  have below : ∀ id ∈ Catalog.initial.ids, id.val < 4294967295 :=
    fun id hid => Nat.lt_trans (h.below id hid) (by decide)
  exact ⟨h.tablesById, h.indexesById, h.schemaIds, h.ids, below, h.schemas, h.zones, h.tableZones⟩

lemma exhausted_accepts : exhausted.Accepts 11 4 newZone newZone.update :=
  .of_points (a := 1) rfl (by decide) (by decide)

lemma exhausted_hands : exhausted.Hands 13 2 0 (exhausted.accepted 11 newZone.update) where
  move := rfl
  front := by
    have task : (exhausted.fleet 13).tasks[2]? = some ⟨0, .deliver 0, none⟩ := by decide
    have delivery : (exhausted.fleet 13).deliveries[0]? =
        some ⟨.node 0, [(exhausted.accepted 11 newZone.update).stored], true, 2⟩ := by
      decide
    exact ⟨_, _, _, _, task, rfl, delivery, rfl, rfl⟩

theorem applied_iff_room_exhausted :
    repartitioned.Applies (repartitioned.accepted 8 repartition.update) ∧
      ∃ delta, exhausted.Poisons (exhausted.accepted 11 newZone.update)
        (.invariant (.counterOverflow 4294967295 delta)) := by
  have first : snapshot (repartitioned.fleet 8).storage.log
      (repartitioned.fleet 8).storage.log.length = .ok Catalog.initial := by decide +kernel
  have last : snapshot (exhausted.fleet 11).storage.log
      (exhausted.fleet 11).storage.log.length = .ok exhausted.catalog := by decide +kernel
  obtain ⟨applies, -⟩ :=
    applied_iff_room repartitioned repartitioned_accepts first Catalog.initial_wellFormed
  obtain ⟨-, poisons⟩ :=
    applied_iff_room exhausted exhausted_accepts last exhausted.catalog_wellFormed
  exact ⟨(applies (by decide)).1, poisons (by decide)⟩

/-- A statement that no number is left for is accepted on a started and healthy node whose latest
catalog is well-formed. Its update is committed, and the node that is handed it is halted on it
instead of registering the version. -/
theorem exhausted_poisoned :
    exhausted.Accepts 11 4 newZone newZone.update ∧
      ((exhausted.fleet 11).node 0).history.latest = .ok exhausted.catalog ∧
      exhausted.catalog.WellFormed ∧
      newZone.entries exhausted.catalog = .ok newZone.update.entries ∧
      ((exhausted.fleet 13).node 0).started = true ∧
      ((exhausted.fleet 13).node 0).mark.failure = none ∧
      exhausted.Hands 13 2 0 (exhausted.accepted 11 newZone.update) ∧
      ((exhausted.fleet 14).node 0).history.catalog? ⟨2⟩ = none ∧
      exhausted.StopsAt 13 0 1 ∧
      ((exhausted.fleet 14).node 0).mark.failure =
        some (.invariant (.counterOverflow 4294967295 1)) := by
  have entry : (exhausted.fleet 13).storage.log[1]? =
      some (exhausted.accepted 11 newZone.update) := by decide +kernel
  have failed : snapshot (exhausted.fleet 13).storage.log 2 =
      .error (.invariant (.counterOverflow 4294967295 1)) := by decide +kernel
  obtain ⟨stops, -⟩ := exhausted_hands.halted entry failed
  exact ⟨exhausted_accepts, by decide +kernel, exhausted.catalog_wellFormed, by decide +kernel,
    by decide +kernel, by decide +kernel, exhausted_hands, by decide +kernel, stops,
    by decide +kernel⟩

end Run

end SchemaCatalog
