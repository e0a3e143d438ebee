import Mathlib.Tactic.Choose
import SchemaCatalog.Proofs.Fleet.Failure
import SchemaCatalog.Proofs.Run.Growth
import SchemaCatalog.Proofs.Run.Statements

/-!
# Statements are serializable

A statement is drafted on the latest catalog of its node and offered without a lock. That the
storage takes only the next version is enough: what is accepted as a version was drafted on the
snapshot of the version before it, so a run in which only statements write comes to the same
snapshots as the accepted statements one at a time.
-/

namespace SchemaCatalog

/-! ## Statements one at a time -/

lemma Version.next?_val {v w : Version} (h : v.next? = some w) :
    w.number.val = v.number.val + 1 := by
  obtain ⟨k, hk, rfl⟩ := Option.map_eq_some_iff.1 h
  unfold Word64.ofNat? at hk
  split at hk
  · cases hk
    rfl
  · cases hk

/-- A statement that was carried out, with the delay of its update and the time of its commit. -/
structure Ran where
  statement : Statement
  delay : Duration
  commit : Timestamp

/-- The catalog after a statement that runs by itself. -/
def Ran.successor (w : Ran) (c : Catalog) : Except Abort Catalog :=
  match c.version.next? with
  | none => .error .overflow
  | some v =>
    w.statement.entries c >>= fun es =>
      Entries.orFail ((⟨⟨v, w.delay, es⟩, w.commit⟩ : Committed).successor c)

/-- The catalog after the first statements of a list, run one after another. -/
def serial (ws : List Ran) : Nat → Except Abort Catalog
  | 0 => .ok Catalog.initial
  | v + 1 =>
    serial ws v >>= fun c =>
      match ws[v]? with
      | some w => w.successor c
      | none => .ok c

/-- An update is what a statement yields on a catalog, as its next version. -/
structure Statement.Yields (st : Statement) (c : Catalog) (u : Update) : Prop where
  entries : st.entries c = .ok u.entries
  next : c.version.next? = some u.version

/-- Where each update is what its statement yields, the statements one at a time come to the same
catalogs as the log. -/
lemma serial_eq {ws : List Ran} {log : List Committed}
    (h : ∀ v x, log[v]? = some x → ∃ w c, ws[v]? = some w ∧ snapshot log v = .ok c ∧
      w.statement.Yields c x.update ∧ w.delay = x.update.delay ∧ w.commit = x.commit)
    {v : Nat} (hv : v ≤ log.length) : serial ws v = Entries.orFail (snapshot log v) := by
  induction v with
  | zero => rfl
  | succ v ih =>
    have hx : log[v]? = some log[v] := List.getElem?_eq_getElem hv
    obtain ⟨w, c, hw, hc, hy, hd, ht⟩ := h v _ hx
    have hs : serial ws v = .ok c := by
      rw [ih (Nat.le_of_lt hv), hc]
      rfl
    have next : serial ws (v + 1) = w.successor c := by
      rw [serial, hs, hw]
      rfl
    rw [next, Ran.successor, hy.next, hy.entries, snapshot_succ_ok hx hc, hd, ht]
    rfl

namespace Fleet

/-- An update was drafted for a statement on a catalog that its node has registered. -/
def Drafted (f : Fleet) (n : Nat) (st : Statement) (u : Update) : Prop :=
  ∃ c, (f.node n).history.catalog? c.version = some c ∧ st.Yields c u

section

variable {f g : Fleet} {x : Task} {p : Point} {n : Nat} {st : Statement}

/-- The latest catalog is registered under its version. -/
lemma Tracks.latest_registered (h : f.Tracks) {c : Catalog}
    (hc : (f.node n).history.latest = .ok c) :
    (f.node n).history.catalog? c.version = some c := by
  rcases Nat.lt_or_ge n f.nodes.length with hlt | hge
  · cases hst : (f.node n).started with
    | true =>
      obtain ⟨k, hk⟩ := h.started n hlt hst
      rw [hk.latest h] at hc
      have hv := snapshot_version h.sound.numbered hk.follows.le hc
      exact (hk.catalog? h _ c).2 ⟨Nat.le_of_eq hv, hv.symm ▸ hc⟩
    | false =>
      rw [h.unstarted n hlt hst] at hc
      cases hc
  · rw [Fleet.node_of_le hge] at hc
    cases hc

lemma next_ne_submit {q : Purpose} {v : Version} {a : Nat} {u : Update} :
    q.next v ≠ .submit st a u := by
  intro h
  cases q with
  | retry st' a' =>
    rw [Purpose.next] at h
    split at h
    · cases h
    · cases h
  | _ => cases h

/-- A turn to the offer of an update drafts it. -/
lemma Turn.to_submit {a : Nat} {u : Update} (h : f.Turn g x (.submit st a u)) :
    x.point = .draft st a ∧ ∃ c, (f.node x.node).history.latest = .ok c ∧ st.Yields c u := by
  generalize hp : Point.submit st a u = p at h
  cases h with
  | drafted e hc hes _ hv =>
    cases hp
    exact ⟨e, _, hc, hes, hv⟩
  | ready _ _ => exact absurd hp.symm next_ne_submit
  | released _ _ => exact absurd hp.symm next_ne_submit
  | _ => cases hp

/-- Where a task goes on after a wait it fails only when it has tried often enough. -/
lemma next_eq_failed {q : Purpose} {v : Version} {e : Error} (h : q.next v = .ended (.failed e)) :
    ∃ st a, q = .retry st a ∧ maxAttempts ≤ a ∧
      e = .retryLimitExceeded (Word64.capped maxAttempts) := by
  cases q with
  | retry st a =>
    rw [Purpose.next] at h
    split at h
    · cases h
    · rename_i ha
      cases h
      exact ⟨st, a, rfl, Nat.not_lt.1 ha, rfl⟩
  | _ => cases h

lemma latest_error {y : History} {e : Error} (h : y.latest = .error e) : e.isVerdict = false := by
  unfold History.latest at h
  split at h
  · cases h
  · cases h
    rfl

/-- A turn that ends with a verdict is a check that gives it, or the end of a wait after the last
attempt, unless the watermark of the node has failed with it. -/
lemma Turn.to_verdict {e : Error} (h : f.Turn g x (.ended (.failed e))) (hx : x.point.Of st)
    (he : e.isVerdict = true) (hf : (f.node x.node).mark.failure ≠ some e) :
    (∃ a c, x.point = .draft st a ∧ (f.node x.node).history.latest = .ok c ∧
        st.entries c = .error (.failed e)) ∨
      e = .retryLimitExceeded (Word64.capped maxAttempts) ∧ ∃ v a, maxAttempts ≤ a ∧
        (x.point = .await v (.retry st a) ∧ v ≤ (f.node x.node).mark.doneUntil ∨
          x.point = .awaiting v (.retry st a) ∧ x.signal = some .released) := by
  generalize hp : Point.ended (.failed e) = p at h
  cases h with
  | refused hd hc hes =>
    rw [hd] at hx
    cases hx
    cases hp
    exact .inl ⟨_, _, hd, hc, hes⟩
  | ready hd hv =>
    obtain ⟨st', a, rfl, ha, rfl⟩ := next_eq_failed hp.symm
    rw [hd] at hx
    cases hx
    exact .inr ⟨rfl, _, a, ha, .inl ⟨hd, hv⟩⟩
  | released hd hs =>
    obtain ⟨st', a, rfl, ha, rfl⟩ := next_eq_failed hp.symm
    rw [hd] at hx
    cases hx
    exact .inr ⟨rfl, _, a, ha, .inr ⟨hd, hs⟩⟩
  -- Neither a node that is not started nor a watermark gives a verdict.
  | unready _ hc =>
    cases hp
    rw [latest_error hc] at he
    cases he
  | denied _ _ hmark =>
    cases hp
    exact absurd hmark hf
  | dropped _ _ =>
    cases hp
    rw [Watermark.failureError] at he hf
    cases hmark : (f.node x.node).mark.failure with
    | none =>
      rw [hmark] at he
      cases he
    | some e' =>
      rw [hmark] at hf
      exact absurd rfl hf
  | missing _ _ =>
    cases hp
    cases he
  | due hd _ =>
    rw [hd] at hx
    cases hx
    cases hp
  | woken hd _ =>
    rw [hd] at hx
    cases hx
    cases hp
  | _ => cases hp

end

end Fleet

namespace Run

/-- At this moment the offer of an update for a statement is accepted. -/
structure Accepts (r : Run) (j t : Nat) (st : Statement) (u : Update) : Prop where
  move : r.moves j = .step t
  offered : ∃ x a, (r.fleet j).tasks[t]? = some x ∧ x.point = .submit st a u
  accepted : ∃ y, (r.fleet (j + 1)).tasks[t]? = some y ∧ y.point = .await u.version .saved

lemma Accepts.of_points {r : Run} {j t a : Nat} {st : Statement} {u : Update}
    (move : r.moves j = .step t)
    (offered : (r.fleet j).tasks[t]?.map Task.point = some (.submit st a u))
    (accepted : (r.fleet (j + 1)).tasks[t]?.map Task.point = some (.await u.version .saved)) :
    r.Accepts j t st u := by
  obtain ⟨x, hx, hp⟩ := Option.map_eq_some_iff.1 offered
  exact ⟨move, ⟨x, a, hx, hp⟩, Option.map_eq_some_iff.1 accepted⟩

lemma repartitioned_accepts : repartitioned.Accepts 8 3 repartition repartition.update :=
  .of_points (a := 1) rfl (by decide) (by decide)

/-- Nobody but statements offers updates to the storage. -/
def OnlyStatements (r : Run) : Prop := ∀ j n skew u, r.moves j ≠ .request n skew (.commit u)

lemma onlyStatements_ofMoves {c : Clock} {l : List Move} {h : OffersFit (Fleet.ofClock c) l}
    (hl : ∀ m ∈ l, ∀ n skew u, m ≠ .request n skew (.commit u)) : (ofMoves c l h).OnlyStatements :=
  moves_ofMoves (P := fun m => ∀ n skew u, m ≠ .request n skew (.commit u)) hl
    fun _ _ _ => nofun

lemma repartitioned_onlyStatements : repartitioned.OnlyStatements :=
  onlyStatements_ofMoves (by simp)

variable {r : Run} {s n t i j : Nat} {st : Statement}

/-- What the task of a statement offers was drafted on its node. -/
lemma Starts.drafted (h : r.Starts s n st t) (hi : s < i) :
    ∃ x, (r.fleet i).tasks[t]? = some x ∧ x.node = n ∧ x.point.Of st ∧
      ∀ a u, x.point = .submit st a u → (r.fleet i).Drafted n st u := by
  refine h.induction (P := fun i p => ∀ a u, p = .submit st a u → (r.fleet i).Drafted n st u)
    ?base ?stay ?turn hi
  case base =>
    intro a u e
    cases e
  case stay =>
    intro i p _ _ hp a u e
    obtain ⟨c, hc, hy⟩ := hp a u e
    exact ⟨c, r.catalog_stays (Nat.le_succ i) hc, hy⟩
  case turn =>
    rintro i x p _ _ rfl - - hturn a u rfl
    obtain ⟨-, c, hc, hy⟩ := hturn.to_submit
    exact ⟨c, r.catalog_stays (Nat.le_succ i) ((r.tracks i).latest_registered hc), hy⟩

/-- An update that is accepted for a statement is appended. -/
lemma Accepts.appends {u : Update} (h : r.Accepts j t st u) : r.Appends j t u := by
  obtain ⟨x, a, hx, hp⟩ := h.offered
  obtain ⟨y, hy, hyp⟩ := h.accepted
  rcases turn_or_same h.move hx (by rw [hp]; rfl) with e | ⟨p, hp', hturn⟩
  · rw [e, hx] at hy
    cases hy
    rw [hp] at hyp
    cases hyp
  · rw [hp'] at hy
    cases hy
    rcases hturn.of_submit hp with ⟨e, -⟩ | ⟨-, acc, hs⟩
    · rw [e] at hyp
      cases hyp
    · exact ⟨h.move, x, hx, acc, by rw [hp]; rfl, hs, _, hp', .inl hyp⟩

/-- What is accepted for a statement was drafted on the snapshot of the version before it, and
becomes the next entry of the log. -/
lemma Accepts.serial {u : Update} (h : r.Accepts j t st u) :
    ∃ c, snapshot (r.fleet j).storage.log (r.fleet j).storage.log.length = .ok c ∧
      st.Yields c u ∧ u.version.number.val = (r.fleet j).storage.log.length + 1 ∧
      (r.fleet (j + 1)).storage.log =
        (r.fleet j).storage.log ++ [⟨u, (r.fleet j).clock.tick.current⟩] := by
  obtain ⟨x, a, hx, hp⟩ := h.offered
  have version := h.appends.version
  obtain ⟨s, n, hsj, hstart⟩ := starts_of_statement hx (by rw [hp]; rfl)
  obtain ⟨x', hx', -, -, hdraft⟩ := hstart.drafted hsj
  rw [hx] at hx'
  cases hx'
  obtain ⟨c, hc, hy⟩ := hdraft a u hp
  have before : c.version.number.val = (r.fleet j).storage.log.length := by
    have next := Version.next?_val hy.next
    omega
  refine ⟨c, ?_, hy, version, h.appends.log⟩
  rw [← before]
  exact ((r.tracks j).snapshot hc).2

/-- Where only statements write, whatever is appended is accepted for one. -/
lemma OnlyStatements.accepts (hr : r.OnlyStatements) {u : Update} (ha : r.Appends j t u) :
    ∃ st, r.Accepts j t st u := by
  obtain ⟨x, hx, hs⟩ := ha.stores
  obtain ⟨y, hy, hyp⟩ := hs.next
  rcases Point.offer?_cases hs.offer with ⟨st, a, hp⟩ | hp
  · refine ⟨st, ha.move, ⟨x, a, hx, hp⟩, y, hy, ?_⟩
    rcases hyp with hyp | hyp
    · exact hyp
    · rcases turn_or_same ha.move hx (by rw [hp]; rfl) with e | ⟨q, hq, hturn⟩
      · rw [e, hx] at hy
        cases hy
        cases hp.symm.trans hyp
      · rw [hq] at hy
        cases hy
        rcases hturn.of_submit hp with ⟨rfl, -⟩ | ⟨rfl, -⟩
        · cases hyp
        · cases hyp
  · obtain ⟨i, n, skew, hi⟩ := asked_of_commit hx (by rw [hp]; rfl)
    exact absurd hi (hr i n skew u)

/-- Only statements commit: other offers may be made to the storage, but it accepts none of them. -/
def CommitsStatements (r : Run) : Prop := ∀ j t u, r.Appends j t u → ∃ st, r.Accepts j t st u

lemma OnlyStatements.commits (hr : r.OnlyStatements) : r.CommitsStatements :=
  fun _ _ _ ha => hr.accepts ha

/-- Where only statements commit, each entry of the log is what a statement yields on the snapshot
before it. -/
lemma CommitsStatements.yields (hr : r.CommitsStatements) {v : Nat} {x : Committed}
    (hx : (r.fleet i).storage.log[v]? = some x) :
    ∃ j t st c, j < i ∧ r.Accepts j t st x.update ∧ snapshot (r.fleet i).storage.log v = .ok c ∧
      st.Yields c x.update := by
  obtain ⟨j, t, hj, ha, rfl⟩ := appended hx
  obtain ⟨st, ha⟩ := hr j t x.update ha
  obtain ⟨c, hc, hy, -, -⟩ := ha.serial
  refine ⟨j, t, st, c, hj, ha, ?_, hy⟩
  rw [snapshot_grow (r.log_grows (Nat.le_of_lt hj)) (Nat.le_refl _)]
  exact hc

/-- Where only statements write, the accepted ones, one at a time, come to the same catalogs. -/
lemma OnlyStatements.serial (hr : r.OnlyStatements) (i : Nat) :
    ∃ ws : List Ran, ws.length = (r.fleet i).storage.log.length ∧
      (∀ (v : Nat) (w : Ran), ws[v]? = some w → ∃ j t u, j < i ∧
        r.Accepts j t w.statement u ∧ u.delay = w.delay ∧
        (r.fleet i).storage.log[v]? = some ⟨u, w.commit⟩) ∧
      ∀ v, v ≤ (r.fleet i).storage.log.length →
        SchemaCatalog.serial ws v = Entries.orFail (snapshot (r.fleet i).storage.log v) := by
  generalize hl : (r.fleet i).storage.log = log
  have each : ∀ v : Fin log.length, ∃ w : Ran, ∃ j t c, j < i ∧
      r.Accepts j t w.statement log[v].update ∧ log[v].update.delay = w.delay ∧
      log[v].commit = w.commit ∧ snapshot log v = .ok c ∧
      w.statement.Yields c log[v].update := by
    intro v
    have hx : (r.fleet i).storage.log[v.val]? = some log[v] := by
      rw [hl]
      exact List.getElem?_eq_getElem v.isLt
    obtain ⟨j, t, st, c, hj, ha, hc, hy⟩ := hr.commits.yields hx
    rw [hl] at hc
    exact ⟨⟨st, log[v].update.delay, log[v].commit⟩, j, t, c, hj, ha, rfl, rfl, hc, hy⟩
  -- All the statements at once, in the order of the log.
  choose w hw using each
  have get : ∀ v (h : v < log.length), (List.ofFn w)[v]? = some (w ⟨v, h⟩) := by
    intro v h
    rw [List.getElem?_ofFn, dif_pos h]
  refine ⟨List.ofFn w, List.length_ofFn, ?_, fun v hv => serial_eq ?_ hv⟩
  · intro v x hx
    obtain ⟨hv, -⟩ := List.getElem?_eq_some_iff.1 hx
    rw [List.length_ofFn] at hv
    rw [get v hv] at hx
    cases hx
    obtain ⟨j, t, c, hj, ha, hd, ht, -, -⟩ := hw ⟨v, hv⟩
    refine ⟨j, t, _, hj, ha, hd, ?_⟩
    rw [← ht]
    exact List.getElem?_eq_getElem hv
  · intro v x hx
    obtain ⟨hv, rfl⟩ := List.getElem?_eq_some_iff.1 hx
    obtain ⟨j, t, c, -, -, hd, ht, hc, hy⟩ := hw ⟨v, hv⟩
    exact ⟨_, c, get v hv, hc, hy, hd.symm, ht.symm⟩

/-- A watermark that has failed with a verdict was told to. -/
lemma failed_on_request {e : Error} (h : ((r.fleet i).node n).mark.failure = some e)
    (he : e.isVerdict = true) : ∃ j skew, r.moves j = .request n skew (.failMark e) := by
  induction i with
  | zero => cases h
  | succ i ih =>
    obtain ⟨k, hk, eq⟩ := r.change i
    obtain ⟨-, -, -, -, -, nodes, -⟩ := Fleet.core_inj eq
    rw [Fleet.node_congr nodes] at h
    rcases Fleet.failure_of_change hk h with h | plain | ⟨skew, hm⟩
    · exact ih h
    · rw [he] at plain
      cases plain
    · exact ⟨i, skew, hm⟩

/-- Otherwise it has not failed with the error of a check. -/
lemma fails_plainly {e : Error} (hr : ∀ j, (r.moves j).sparesChecks n = true)
    (h : ((r.fleet i).node n).mark.failure = some e) : e.isValidation = false := by
  refine Bool.eq_false_iff.2 fun hv => ?_
  obtain ⟨j, skew, hm⟩ := failed_on_request h (Error.isVerdict_of_isValidation hv)
  have spares := hr j
  simp [hm, Move.sparesChecks, hv] at spares

/-- A statement that ends with the error of a check failed it on a catalog that was the latest one
of its node at the time. -/
lemma Starts.refused (h : r.Starts s n st t) (hr : ∀ j, (r.moves j).sparesChecks n = true)
    {e : Error} (he : e.isValidation = true)
    (ho : (r.fleet i).outcome? t = some (.failed e)) :
    ∃ j c, s < j ∧ j < i ∧ ((r.fleet j).node n).history.latest = .ok c ∧
      st.entries c = .error (.failed e) := by
  obtain ⟨j, x, hsj, hji, -, hx, hturn⟩ := h.ended ho
  obtain ⟨rfl, hof⟩ := h.of_task hx
  have unfailed : ((r.fleet j).node x.node).mark.failure ≠ some e := by
    intro hmark
    rw [fails_plainly hr hmark] at he
    cases he
  rcases hturn.to_verdict hof (Error.isVerdict_of_isValidation he) unfailed with
    ⟨-, c, -, hl, hc⟩ | ⟨rfl, -⟩
  · exact ⟨j, c, hsj, hji, hl, hc⟩
  · cases he

/-! ## Results -/

/-- The version that a statement returned, or is about to return once its activation has come. -/
def result? : Point → Option Version
  | .readClock _ (.version v) => some v
  | .sleep _ (.version v) => some v
  | .ended (.version v) => some v
  | _ => none

lemma result?_next {q : Purpose} {v : Version} : result? (q.next v) = none := by
  cases q with
  | retry st a =>
    rw [Purpose.next]
    split
    · rfl
    · rfl
  | _ => rfl

/-- What a statement is to return was registered when it was found. -/
lemma result?_of_turn {f g : Fleet} {x : Task} {p : Point} {v : Version} (ht : f.Tracks)
    (h : f.Turn g x p) (hv : result? p = some v) :
    result? x.point = some v ∨ ∃ c, (f.node x.node).history.catalog? v = some c := by
  -- A turn comes to a result by finding a catalog, and hands it on from there. A node's latest
  -- catalog is registered as well.
  cases h with
  | vacuous _ hc _ =>
    cases hv
    exact .inr ⟨_, ht.latest_registered hc⟩
  | found _ hc =>
    cases hv
    exact .inr ⟨_, hc⟩
  | @due target o e _ | @early target o e | @woken target o e _ =>
    cases o with
    | version w =>
      cases hv
      exact .inl (by rw [e]; rfl)
    | _ => cases hv
  | ready _ _ =>
    rw [result?_next] at hv
    cases hv
  | released _ _ =>
    rw [result?_next] at hv
    cases hv
  | _ => cases hv

/-- What a statement returned is registered on its node. -/
lemma Starts.registered (h : r.Starts s n st t) (hi : s < i) {v : Version}
    (ho : (r.fleet i).outcome? t = some (.version v)) :
    ∃ c, ((r.fleet i).node n).history.catalog? v = some c := by
  have tracked : ∃ x, (r.fleet i).tasks[t]? = some x ∧ x.node = n ∧ x.point.Of st ∧
      ∀ v, result? x.point = some v → ∃ c, ((r.fleet i).node n).history.catalog? v = some c := by
    refine h.induction (P := fun i p => ∀ v, result? p = some v →
      ∃ c, ((r.fleet i).node n).history.catalog? v = some c) ?base ?stay ?turn hi
    case base =>
      intro v hv
      cases hv
    case stay =>
      intro i p _ _ hp v hv
      obtain ⟨c, hc⟩ := hp v hv
      exact ⟨c, r.catalog_stays (Nat.le_succ i) hc⟩
    case turn =>
      rintro i x p _ _ rfl - hp hturn v hv
      rcases result?_of_turn (r.tracks i) hturn hv with hx | ⟨c, hc⟩
      · obtain ⟨c, hc⟩ := hp v hx
        exact ⟨c, r.catalog_stays (Nat.le_succ i) hc⟩
      · exact ⟨c, r.catalog_stays (Nat.le_succ i) hc⟩
  obtain ⟨x, hx, -, -, hp⟩ := tracked
  rw [Fleet.outcome?, hx, Option.bind_some] at ho
  refine hp v ?_
  rw [Task.point_of_outcome ho]
  rfl

/-- A catalog that is registered is of no later version than the latest one. -/
lemma registered_le {v : Version} {c d : Catalog}
    (hc : ((r.fleet i).node n).history.catalog? v = some c)
    (hd : ((r.fleet i).node n).history.latest = .ok d) : v ≤ d.version := by
  have ht := r.tracks i
  obtain ⟨k, hk⟩ := ht.reached hc
  rw [hk.latest ht] at hd
  rw [Version.le_def, snapshot_version ht.sound.numbered hk.follows.le hd]
  exact ((hk.catalog? ht v c).1 hc).1

/-- A task that was started when another one had ended is not that one, and a statement that had
returned by then had been started before. -/
lemma Starts.before {s' n' t' : Nat} {st' : Statement} {o : Outcome} (h : r.Starts s' n' st' t')
    (ho : (r.fleet s).outcome? t' = some o) : s' < s := by
  rcases Nat.lt_or_ge s' s with hlt | hge
  · exact hlt
  · have later := r.outcome hge ho
    obtain ⟨x, hx, -⟩ := Option.bind_eq_some_iff.1 later
    obtain ⟨hlt, -⟩ := List.getElem?_eq_some_iff.1 hx
    rw [h.task] at hlt
    exact absurd hlt (Nat.lt_irrefl _)

/-- Statements are serializable, on however many nodes and with whatever other writers.

What is accepted as a version is what the statement yields on the snapshot of the version before it,
and is stored as the next entry of the log. A statement that ends with the error of a check failed
it on a catalog that was the latest one of its node at a moment between its start and its end, as
long as no request makes the watermark of the node fail with such an error. Where only statements
write, the snapshots are the catalogs that the accepted statements, run one at a time in the order
of their versions, come to. And once a statement has returned a version, a statement started later
on its node is only ever drafted on catalogs of that version or later ones. -/
theorem serializable (r : Run) :
    (∀ j t st u, r.Accepts j t st u →
      ∃ c, snapshot (r.fleet j).storage.log (r.fleet j).storage.log.length = .ok c ∧
        st.entries c = .ok u.entries ∧
        u.version.number.val = (r.fleet j).storage.log.length + 1 ∧
        (r.fleet (j + 1)).storage.log =
          (r.fleet j).storage.log ++ [⟨u, (r.fleet j).clock.tick.current⟩]) ∧
    (∀ s n st t i e, (∀ j, (r.moves j).sparesChecks n = true) → r.Starts s n st t → s < i →
      (r.fleet i).outcome? t = some (.failed e) → e.isValidation = true →
      ∃ j c, s < j ∧ j < i ∧ ((r.fleet j).node n).history.latest = .ok c ∧
        st.entries c = .error (.failed e)) ∧
    (r.OnlyStatements → ∀ i, ∃ ws : List Ran,
      ws.length = (r.fleet i).storage.log.length ∧
      (∀ (v : Nat) (w : Ran), ws[v]? = some w → ∃ j t u, j < i ∧
        r.Accepts j t w.statement u ∧ u.delay = w.delay ∧
        (r.fleet i).storage.log[v]? = some ⟨u, w.commit⟩) ∧
      ∀ v, v ≤ (r.fleet i).storage.log.length →
        SchemaCatalog.serial ws v = Entries.orFail (snapshot (r.fleet i).storage.log v)) ∧
    (∀ s s' n st st' t t' v i x a c, r.Starts s' n st' t' →
      (r.fleet s).outcome? t' = some (.version v) → r.Starts s n st t → s < i →
      (r.fleet i).tasks[t]? = some x → x.point = .draft st a →
      ((r.fleet i).node n).history.latest = .ok c → v ≤ c.version) := by
  refine ⟨?accepts, ?refuses, fun hr i => hr.serial i, ?follows⟩
  case accepts =>
    intro j t st u h
    obtain ⟨c, hc, hy, hv, hl⟩ := h.serial
    exact ⟨c, hc, hy.entries, hv, hl⟩
  case refuses =>
    intro s n st t i e hr h _ ho he
    exact h.refused hr he ho
  case follows =>
    intro s s' n st st' t t' v i x a c h' ho h hi hx hp hc
    -- The version was registered before it was returned, and the latest one never falls.
    obtain ⟨d, hd⟩ := h'.registered (h'.before ho) ho
    exact registered_le (r.catalog_stays (Nat.le_of_lt hi) hd) hc

theorem serializable_repartitioned :
    (repartitioned.Accepts 8 3 repartition repartition.update ∧
      ∃ c, snapshot (repartitioned.fleet 8).storage.log
          (repartitioned.fleet 8).storage.log.length = .ok c ∧
        repartition.entries c = .ok repartition.update.entries) ∧
    (repartitioned.OnlyStatements ∧ ∃ ws : List Ran, ws.length = 1 ∧
      SchemaCatalog.serial ws 1 =
        Entries.orFail (snapshot (repartitioned.fleet 20).storage.log 1)) ∧
    (spared.fleet 8).outcome? 3 = some (.failed (.defaultZoneProtected .drop)) ∧
      ∃ j c, 6 < j ∧ j < 8 ∧ ((spared.fleet j).node 0).history.latest = .ok c ∧
        (Statement.dropZone Zone.defaultName).entries c =
          .error (.failed (.defaultZoneProtected .drop)) := by
  refine ⟨?accepted, ?only, ?refused⟩
  case accepted =>
    obtain ⟨accepts, -⟩ := serializable repartitioned
    obtain ⟨c, hc, hes, -⟩ := accepts 8 3 repartition repartition.update repartitioned_accepts
    exact ⟨repartitioned_accepts, c, hc, hes⟩
  case only =>
    obtain ⟨-, -, only, -⟩ := serializable repartitioned
    obtain ⟨ws, length, -, same⟩ := only repartitioned_onlyStatements 20
    have one : (repartitioned.fleet 20).storage.log.length = 1 := by decide +kernel
    exact ⟨repartitioned_onlyStatements, ws, length.trans one, same 1 (Nat.le_of_eq one.symm)⟩
  case refused =>
    obtain ⟨-, refuses, -⟩ := serializable spared
    have starts : spared.Starts 6 0 (.dropZone Zone.defaultName) 3 :=
      ⟨⟨.zero, rfl⟩, by decide +kernel, by decide +kernel⟩
    have spares : ∀ i, (spared.moves i).sparesChecks 0 = true :=
      moves_ofMoves (P := fun m => m.sparesChecks 0 = true) (by decide) rfl
    have failed : (spared.fleet 8).outcome? 3 =
        some (.failed (.defaultZoneProtected .drop)) := by decide +kernel
    exact ⟨failed, refuses 6 0 _ 3 8 _ spares starts (by decide) failed rfl⟩

end Run

end SchemaCatalog
