import SchemaCatalog.Proofs.Catalog.Refusals
import SchemaCatalog.Proofs.Run.Success

/-!
# Whoever gives up was beaten

A log that refuses nothing by itself refuses an update only because its version is taken. Whoever
lost waits until the node is done with all that was committed by then, so that the next attempt is
for a later version. So each attempt of a statement that gives up was lost to an update of another
task, all of them above the catalog that the statement began with (`Run.lost_to_others`).
-/

namespace SchemaCatalog

/-- At this point a task has lost so many attempts to get a statement accepted. -/
inductive Point.Lost : Nat → Point → Prop where
  | draft {b : Nat} {st : Statement} : Lost b (.draft st (b + 1))
  | submit {b : Nat} {st : Statement} {u : Update} : Lost b (.submit st (b + 1) u)
  | review {b : Nat} {st : Statement} : Lost (b + 1) (.review st (b + 1))
  | await {b : Nat} {st : Statement} {v : Version} : Lost (b + 1) (.await v (.retry st (b + 1)))
  | awaiting {b : Nat} {st : Statement} {v : Version} :
      Lost (b + 1) (.awaiting v (.retry st (b + 1)))

namespace Fleet

variable {f g : Fleet} {x : Task} {p : Point} {n l b : Nat} {st : Statement}

/-- A turn of a task that still has a statement to get accepted loses no attempt, or it is one that
refuses an offer. -/
lemma Turn.lost (h : f.Turn g x p) (hp : p.statement? = some st) (hl : x.point.Lost b) :
    p.Lost b ∨ ∃ u, x.point = .submit st (b + 1) u ∧ p = .review st (b + 1) := by
  -- An attempt is lost on a refusal only. Whoever reviews one or waits after it has lost as many as
  -- before, and the draft that follows is of the next attempt.
  cases h with
  | drafted e _ _ _ _ =>
    rw [e] at hl
    cases hl
    exact .inl .submit
  | rejected e _ =>
    rw [e] at hl
    cases hl
    cases hp
    exact .inr ⟨_, e, rfl⟩
  | reviewed e =>
    rw [e] at hl
    cases hl
    exact .inl .await
  | ready e _ =>
    obtain ⟨a, rfl, next⟩ := next_statement hp
    rw [e] at hl
    rw [next]
    cases hl
    exact .inl .draft
  | waiting e _ _ =>
    rw [e] at hl
    cases hl
    exact .inl .awaiting
  | released e _ =>
    obtain ⟨a, rfl, next⟩ := next_statement hp
    rw [e] at hl
    rw [next]
    cases hl
    exact .inl .draft
  | _ => cases hp

/-- A turn to the draft of an attempt ends the wait after the attempt before. -/
lemma Turn.to_draft {a : Nat} (h : f.Turn g x (.draft st a)) : ∃ v b, a = b + 1 ∧
    (x.point = .await v (.retry st b) ∨ x.point = .awaiting v (.retry st b)) := by
  generalize hp : Point.draft st a = p at h
  cases h with
  | ready e _ =>
    obtain ⟨b, rfl, next⟩ := next_statement (congrArg Point.statement? hp.symm)
    cases hp.trans next
    exact ⟨_, b, rfl, .inl e⟩
  | released e _ =>
    obtain ⟨b, rfl, next⟩ := next_statement (congrArg Point.statement? hp.symm)
    cases hp.trans next
    exact ⟨_, b, rfl, .inr e⟩
  | _ => cases hp

/-- Where a task stands that lost when the log had so many updates. As long as it has not ended it
waits for that version or a later one, or its node is done with that. -/
inductive Catching (f : Fleet) (n l : Nat) : Point → Prop where
  | review {st : Statement} {a : Nat} : l ≤ f.storage.log.length → Catching f n l (.review st a)
  | await {v : Version} {q : Purpose} : l ≤ v.number.val → Catching f n l (.await v q)
  | awaiting {v : Version} {q : Purpose} : l ≤ v.number.val → Catching f n l (.awaiting v q)
  | done {p : Point} : l ≤ (f.node n).mark.doneUntil.number.val → Catching f n l p
  | ended {o : Outcome} : Catching f n l (.ended o)

lemma Catching.mono (h : f.Catching n l p) (log : f.storage.log.length ≤ g.storage.log.length)
    (done : (f.node n).mark.doneUntil ≤ (g.node n).mark.doneUntil) : g.Catching n l p := by
  cases h with
  | review hl => exact .review (Nat.le_trans hl log)
  | await hl => exact .await hl
  | awaiting hl => exact .awaiting hl
  | done hl => exact .done (Nat.le_trans hl done)
  | ended => exact .ended

lemma Catching.turn {t : Nat} (h : f.Catching x.node l x.point) (hw : f.Waiting)
    (length : f.storage.committed.number.val = f.storage.log.length) (hx : f.tasks[t]? = some x)
    (done : (f.node x.node).mark.doneUntil ≤ (g.node x.node).mark.doneUntil)
    (hturn : f.Turn g x p) : g.Catching x.node l p := by
  have reached : ∀ {v : Version}, l ≤ v.number.val → v ≤ (f.node x.node).mark.doneUntil →
      g.Catching x.node l p :=
    fun hl hv => .done (Nat.le_trans hl (Nat.le_trans hv done))
  generalize hp : x.point = q at h
  cases h with
  | review hl =>
    rw [hturn.of_review hp]
    exact .await (length.symm ▸ hl)
  | await hl =>
    rcases hturn.of_await hp with ⟨hv, -⟩ | ⟨-, ⟨err, -, rfl⟩ | ⟨-, rfl⟩⟩
    · exact reached hl hv
    · exact .ended
    · exact .awaiting hl
  | awaiting hl =>
    rcases hturn.of_awaiting hp with ⟨hs, -⟩ | ⟨-, rfl⟩
    · exact reached hl (hw.released _ _ _ _ hx hp hs)
    · exact .ended
  | done hl => exact .done (Nat.le_trans hl done)
  | ended => exact (hturn.not_ended hp).elim

end Fleet

namespace Run

/-- At this moment a statement is drafted on the latest catalog of its node, at this attempt. -/
structure Drafts (r : Run) (d t : Nat) (st : Statement) (a : Nat) (c : Catalog) : Prop where
  move : r.moves d = .step t
  latest : ∃ x, (r.fleet d).tasks[t]? = some x ∧ x.point = .draft st a ∧
    ((r.fleet d).node x.node).history.latest = .ok c

/-- At this moment an update is offered for a statement, at this attempt. -/
structure Offers (r : Run) (j t : Nat) (st : Statement) (a : Nat) (u : Update) : Prop where
  move : r.moves j = .step t
  offered : ∃ x, (r.fleet j).tasks[t]? = some x ∧ x.point = .submit st a u

/-- At this moment the offer of an update for a statement is refused. -/
structure Loses (r : Run) (j t : Nat) (st : Statement) (a : Nat) (u : Update) : Prop extends
    r.Offers j t st a u where
  refused : ∃ y, (r.fleet (j + 1)).tasks[t]? = some y ∧ y.point = .review st a

/-- At this moment an update is appended for another task. -/
def Rival (r : Run) (t k : Nat) (w : Update) : Prop := ∃ o, o ≠ t ∧ r.Appends k o w

/-- No step of the task is made between two moments. -/
def Pauses (r : Run) (t d j : Nat) : Prop := ∀ k, d < k → k < j → r.moves k ≠ .step t

variable {r : Run} {s n t i j d a b log : Nat} {st : Statement} {u w : Update} {c : Catalog}

/-! ## Refusals -/

lemma Loses.turn (h : r.Loses j t st a u) : ∃ x, (r.fleet j).tasks[t]? = some x ∧
    x.point = .submit st a u ∧ (r.fleet j).Turn (r.fleet (j + 1)) x (.review st a) := by
  obtain ⟨x, hx, hp⟩ := h.offered
  obtain ⟨y, hy, hyp⟩ := h.refused
  rcases turn_or_same h.move hx (by rw [hp]; rfl) with e | ⟨p, hp', hturn⟩
  · rw [e, hx] at hy
    cases hy
    cases hp.symm.trans hyp
  · rw [hy] at hp'
    cases hp'
    rw [← hyp]
    exact ⟨x, hx, hp, hturn⟩

lemma Starts.shared (hs : r.Starts s n st t) (hl : ((r.fleet s).node n).link = .shared log)
    (hi : s ≤ i) : ((r.fleet i).node n).link = .shared log :=
  (r.kept hi hs.node).shared log hl

/-- A log that refuses nothing by itself refuses an update whose version the log has reached. -/
lemma Loses.version_le (h : r.Loses j t st a u) (hs : r.Starts s n st t)
    (hl : ((r.fleet s).node n).link = .shared log) :
    0 < u.version.number.val ∧ u.version.number.val ≤ (r.fleet j).storage.log.length := by
  obtain ⟨x, hx, hp, hturn⟩ := h.turn
  have hsj := hs.lt_of_task hx
  obtain ⟨y, hy, hyn, -, drafted⟩ := hs.drafted hsj
  rw [hx] at hy
  cases hy
  obtain ⟨c, hc, yields⟩ := drafted a u hp
  obtain ⟨le, -⟩ := (r.tracks j).snapshot hc
  have next := Version.next?_val yields.next
  have shared : ((r.fleet j).node x.node).link = .shared log := by
    rw [hyn]
    exact hs.shared hl (Nat.le_of_lt hsj)
  have taken : ¬ (r.fleet j).storage.accepts u := by
    rcases hturn.of_submit hp with ⟨-, refuses⟩ | ⟨e, -⟩
    · exact refuses log shared
    · cases e
  rw [Storage.accepts, ← (r.tracks j).sound.length] at taken
  omega

/-- Once a task has appended an update it has no statement to get accepted. -/
lemma Appends.statement_none (h : r.Appends j t u) (hi : j < i) {x : Task}
    (hx : (r.fleet i).tasks[t]? = some x) : x.point.statement? = none := by
  induction hi generalizing x with
  | refl =>
    obtain ⟨z, -, hz⟩ := h.stores
    obtain ⟨y, hy, hyp⟩ := hz.next
    rw [hx] at hy
    cases hy
    rcases hyp with hyp | hyp
    · rw [hyp]
      rfl
    · rw [hyp]
      rfl
  | @step i hi ih =>
    cases he : x.point.statement? with
    | none => rfl
    | some st =>
      obtain ⟨z, hz, -⟩ := h.stores
      obtain ⟨y, hy, -⟩ := r.task_stays (Nat.le_of_lt hi) hz
      obtain ⟨lt, -⟩ := List.getElem?_eq_some_iff.1 hy
      rcases (r.asked i).statement t x st hx he with ⟨y, hy, hyp⟩ | ⟨m, skew, -, -, ht⟩
      · rw [ih hy] at hyp
        cases hyp
      · omega

/-- A refused update has the version of one that another task has appended. -/
lemma Loses.rival (h : r.Loses j t st a u) (hs : r.Starts s n st t)
    (hl : ((r.fleet s).node n).link = .shared log) :
    ∃ k w, k < j ∧ r.Rival t k w ∧ w.version = u.version := by
  obtain ⟨pos, le⟩ := h.version_le hs hl
  have entry := List.getElem?_eq_getElem (l := (r.fleet j).storage.log)
    (i := u.version.number.val - 1) (by omega)
  have version := (r.tracks j).sound.numbered _ _ entry
  obtain ⟨k, o, hk, ha, -⟩ := appended entry
  refine ⟨k, _, hk, ⟨o, ?_, ha⟩, Version.ext_val (by omega)⟩
  rintro rfl
  obtain ⟨x, hx, hp⟩ := h.offered
  have none := ha.statement_none hk hx
  rw [hp] at none
  cases none

/-! ## The next attempt -/

/-- A catalog on which a statement is drafted is no earlier than what its node is done with. -/
lemma Drafts.done_le (h : r.Drafts d t st a c) (hs : r.Starts s n st t)
    (hm : ∀ i, (r.moves i).sparesMarkOf n = true) :
    ((r.fleet d).node n).mark.doneUntil ≤ c.version := by
  obtain ⟨x, hx, -, hc⟩ := h.latest
  obtain ⟨rfl, -⟩ := hs.of_task hx
  have tracks := r.tracks d
  obtain ⟨k, hk⟩ := tracks.reached (tracks.latest_registered hc)
  rw [hk.latest tracks] at hc
  rw [Version.le_def, snapshot_version tracks.sound.numbered hk.follows.le hc]
  exact (r.dispatches hm d).doneUntil_le hk

/-- After a refusal a statement is drafted on a catalog of all that was committed by then. -/
lemma Loses.length_le (h : r.Loses j t st a u) (hs : r.Starts s n st t)
    (hm : ∀ i, (r.moves i).sparesMarkOf n = true) (hd : r.Drafts d t st b c) (hjd : j < d) :
    (r.fleet j).storage.log.length ≤ c.version.number.val := by
  obtain ⟨y, hy, hyp⟩ := h.refused
  obtain ⟨hn, hof⟩ := hs.of_task hy
  have hsj := hs.lt_of_task hy
  have done : ∀ i, j + 1 ≤ i → ((r.fleet i).node n).mark.doneUntil ≤
      ((r.fleet (i + 1)).node n).mark.doneUntil :=
    fun i hi => (r.kept (Nat.le_succ i)
      (Nat.lt_of_lt_of_le hs.node (r.nodes_le (by omega)))).doneUntil
  have log : ∀ i, (r.fleet i).storage.log.length ≤ (r.fleet (i + 1)).storage.log.length :=
    fun i => (r.log_grows (Nat.le_succ i)).length_le
  obtain ⟨z, hz, -, -, hzp⟩ := carried
    (P := fun i p => (r.fleet i).Catching n (r.fleet j).storage.log.length p) hy hof
    (by rw [hyp]; exact .review (log j))
    (fun i p hi _ hp => hp.mono (log i) (done i hi))
    (fun i x p hi hx hxn _ hp hturn => by
      obtain rfl : x.node = n := hxn.trans hn
      exact hp.turn (r.waiting i) (r.tracks i).sound.length.symm hx (done i hi) hturn) hjd
  obtain ⟨z', hz', hp, -⟩ := hd.latest
  rw [hz] at hz'
  cases hz'
  rw [hp] at hzp
  cases hzp with
  | done le => exact Nat.le_trans le (hd.done_le hs hm)

/-- What is offered for a statement was drafted at this attempt, in the last step of its task. -/
lemma Starts.offer_drafted (hs : r.Starts s n st t) {x : Task}
    (hx : (r.fleet j).tasks[t]? = some x) (hp : x.point = .submit st b w) :
    ∃ d c, d < j ∧ r.Drafts d t st b c ∧ st.Yields c w ∧ r.Pauses t d j := by
  induction j generalizing x with
  | zero => cases hx
  | succ j ih =>
    rcases Nat.lt_or_eq_of_le (Nat.le_of_lt_succ (hs.lt_of_task hx)) with hj | rfl
    · obtain ⟨z, hz, ⟨same, stuck⟩ | ⟨hm, hturn⟩⟩ := hs.back hj hx
      · rw [hp] at same
        obtain ⟨d, c, hd, drafts, yields, pauses⟩ := ih hz same.symm
        refine ⟨d, c, Nat.lt_succ_of_lt hd, drafts, yields, fun k hdk hkj hk => ?_⟩
        rcases Nat.lt_or_eq_of_le (Nat.le_of_lt_succ hkj) with hkj | rfl
        · exact pauses k hdk hkj hk
        · -- A task that has an offer to make can take a step.
          have none := stuck hk
          simp only [Fleet.step, hz, ← same] at none
          cases none
      · rw [hp] at hturn
        obtain ⟨hz', c, hc, yields⟩ := hturn.to_submit
        exact ⟨j, c, Nat.lt_succ_self j, ⟨hm, z, hz, hz', hc⟩, yields, fun k _ _ => by omega⟩
    · rw [hs.begins] at hx
      cases hx
      cases hp

/-- What is offered after a refusal was drafted after it. -/
lemma Loses.drafted (h : r.Loses j t st a u) (hs : r.Starts s n st t) (ho : r.Offers i t st b w)
    (hji : j < i) : ∃ d c, j < d ∧ r.Drafts d t st b c ∧ st.Yields c w := by
  obtain ⟨x, hx, hp⟩ := ho.offered
  obtain ⟨d, c, -, drafts, yields, pauses⟩ := hs.offer_drafted hx hp
  refine ⟨d, c, ?_, drafts, yields⟩
  rcases Nat.lt_trichotomy j d with lt | rfl | gt
  · exact lt
  · obtain ⟨y, hy, hyp⟩ := h.offered
    obtain ⟨z, hz, hzp, -⟩ := drafts.latest
    rw [hy] at hz
    cases hz
    cases hyp.symm.trans hzp
  · exact absurd h.move (pauses j gt hji)

/-- What is offered after a refusal is for a version that was not taken by then. -/
lemma Loses.length_lt (h : r.Loses j t st a u) (hs : r.Starts s n st t)
    (hm : ∀ i, (r.moves i).sparesMarkOf n = true) (ho : r.Offers i t st b w) (hji : j < i) :
    (r.fleet j).storage.log.length < w.version.number.val := by
  obtain ⟨d, c, hjd, drafts, yields⟩ := h.drafted hs ho hji
  have base := h.length_le hs hm drafts hjd
  have next := Version.next?_val yields.next
  omega

/-- The versions that a statement tries are strictly increasing. -/
lemma Loses.version_lt (h : r.Loses j t st a u) (hs : r.Starts s n st t)
    (hl : ((r.fleet s).node n).link = .shared log)
    (hm : ∀ i, (r.moves i).sparesMarkOf n = true) (ho : r.Offers i t st b w) (hji : j < i) :
    u.version < w.version :=
  Nat.lt_of_le_of_lt (h.version_le hs hl).2 (h.length_lt hs hm ho hji)

/-- The update to which a later attempt is lost was appended after the refusal. -/
lemma Loses.lt_rival (h : r.Loses j t st a u) (hs : r.Starts s n st t)
    (hm : ∀ i, (r.moves i).sparesMarkOf n = true) (ho : r.Offers i t st b w) (hji : j < i)
    {k : Nat} {v : Update} (hv : r.Rival t k v) (same : v.version = w.version) : j < k := by
  obtain ⟨o, ne, appends⟩ := hv
  have beyond : ¬ k < j := by
    rw [← appends.version_le_iff, same]
    exact Nat.not_le.2 (h.length_lt hs hm ho hji)
  refine Nat.lt_of_le_of_ne (Nat.not_lt.1 beyond) ?_
  rintro rfl
  exact ne (Move.step.inj (appends.move.symm.trans h.move))

/-! ## All attempts -/

/-- The moments at which the first attempts of a statement were lost, in order. -/
structure Losses (r : Run) (t : Nat) (st : Statement) (i : Nat) (js : List Nat) : Prop where
  sorted : ∀ a b j k : Nat, a < b → js[a]? = some j → js[b]? = some k → j < k
  before : ∀ j ∈ js, j < i
  loses : ∀ a j, js[a]? = some j → ∃ u, r.Loses j t st (a + 1) u

lemma Losses.mono {js : List Nat} (h : r.Losses t st i js) : r.Losses t st (i + 1) js where
  sorted := h.sorted
  before j hj := Nat.lt_succ_of_lt (h.before j hj)
  loses := h.loses

lemma Losses.concat {js : List Nat} (h : r.Losses t st i js)
    (hi : r.Loses i t st (js.length + 1) u) : r.Losses t st (i + 1) (js ++ [i]) where
  sorted a b j k hab hj hk := by
    rcases concat_cases hk with hk | ⟨rfl, rfl⟩
    · obtain ⟨lt, -⟩ := List.getElem?_eq_some_iff.1 hk
      rw [List.getElem?_append_left (Nat.lt_trans hab lt)] at hj
      exact h.sorted a b j k hab hj hk
    · rw [List.getElem?_append_left hab] at hj
      exact h.before j (List.mem_of_getElem? hj)
  before j hj := by
    rcases List.mem_append.1 hj with hj | hj
    · exact Nat.lt_succ_of_lt (h.before j hj)
    · rw [List.mem_singleton.1 hj]
      exact Nat.lt_succ_self i
  loses a j hj := by
    rcases concat_cases hj with hj | ⟨rfl, rfl⟩
    · exact h.loses a j hj
    · exact ⟨u, hi⟩

/-- Each attempt that the task of a statement has behind it was lost. -/
lemma Starts.losses (hs : r.Starts s n st t) {x : Task} (hx : (r.fleet i).tasks[t]? = some x)
    (hst : x.point.statement? = some st) : ∃ js, r.Losses t st i js ∧ x.point.Lost js.length := by
  induction i generalizing x with
  | zero => cases hx
  | succ i ih =>
    rcases Nat.lt_or_eq_of_le (Nat.le_of_lt_succ (hs.lt_of_task hx)) with hi | rfl
    · obtain ⟨z, hz, ⟨same, -⟩ | ⟨hm, hturn⟩⟩ := hs.back hi hx
      · obtain ⟨js, losses, lost⟩ := ih hz (same ▸ hst)
        exact ⟨js, losses.mono, same ▸ lost⟩
      · obtain ⟨js, losses, lost⟩ := ih hz (hturn.statement hst)
        rcases hturn.lost hst lost with lost | ⟨u, hp, hp'⟩
        · exact ⟨js, losses.mono, lost⟩
        · refine ⟨js ++ [i], losses.concat (u := u) ⟨⟨hm, z, hz, hp⟩, x, hx, hp'⟩, ?_⟩
          rw [hp', List.length_append, List.length_singleton]
          exact .review
    · rw [hs.begins] at hx
      cases hx
      exact ⟨[], ⟨nofun, nofun, nofun⟩, .draft⟩

/-- A statement that gives up has lost as many attempts as there are. -/
lemma Starts.losses_of_limit (hs : r.Starts s n st t)
    (hm : ∀ i, (r.moves i).sparesMarkOf n = true) {m : Word64}
    (ho : (r.fleet i).outcome? t = some (.failed (.retryLimitExceeded m))) :
    ∃ js, r.Losses t st i js ∧ maxAttempts ≤ js.length := by
  obtain ⟨j, x, -, hji, -, hx, hturn⟩ := hs.ended ho
  obtain ⟨rfl, hof⟩ := hs.of_task hx
  have unfailed : ((r.fleet j).node x.node).mark.failure ≠ some (.retryLimitExceeded m) := by
    intro failed
    obtain ⟨k, skew, hk⟩ := failed_on_request failed rfl
    have spares := hm k
    rw [hk] at spares
    simp [Move.sparesMarkOf] at spares
  rcases hturn.to_verdict hof rfl unfailed with ⟨-, c, -, -, refused⟩ | ⟨-, v, a, ha, hp⟩
  · cases Statement.entries_error refused
  · have lost : x.point.statement? = some st ∧ ∀ b, x.point.Lost b → b = a := by
      rcases hp with ⟨hp, -⟩ | ⟨hp, -⟩
      · rw [hp]
        exact ⟨rfl, fun b hb => by cases hb; rfl⟩
      · rw [hp]
        exact ⟨rfl, fun b hb => by cases hb; rfl⟩
    obtain ⟨js, losses, length⟩ := hs.losses hx lost.1
    rw [← lost.2 _ length] at ha
    exact ⟨js, ⟨losses.sorted, fun k hk => Nat.lt_trans (losses.before k hk) hji, losses.loses⟩, ha⟩

/-- The first attempt of a statement begins with the first step of its task. -/
lemma Starts.first_draft (hs : r.Starts s n st t) {x : Task} (hx : (r.fleet d).tasks[t]? = some x)
    (hp : x.point = .draft st 1) : r.Pauses t s d := by
  induction d generalizing x with
  | zero => cases hx
  | succ d ih =>
    rcases Nat.lt_or_eq_of_le (Nat.le_of_lt_succ (hs.lt_of_task hx)) with hd | rfl
    · obtain ⟨z, hz, ⟨same, stuck⟩ | ⟨-, hturn⟩⟩ := hs.back hd hx
      · rw [hp] at same
        intro k hsk hkd hk
        rcases Nat.lt_or_eq_of_le (Nat.le_of_lt_succ hkd) with hkd | rfl
        · exact ih hz same.symm k hsk hkd hk
        · -- A task that has a statement to draft can take a step.
          have none := stuck hk
          simp only [Fleet.step, hz, ← same] at none
          cases none
      · rw [hp] at hturn
        obtain ⟨v, b, hb, hzp⟩ := hturn.to_draft
        obtain rfl : b = 0 := by omega
        -- No attempt comes before the first one.
        have none : z.point.statement? = some st ∧ ∀ b, ¬ z.point.Lost b := by
          rcases hzp with hzp | hzp
          · rw [hzp]
            exact ⟨rfl, fun b lost => by cases lost⟩
          · rw [hzp]
            exact ⟨rfl, fun b lost => by cases lost⟩
        obtain ⟨js, -, lost⟩ := hs.losses hz none.1
        exact absurd lost (none.2 _)
    · intro k _ _
      omega

/-- A log that refuses nothing by itself, and whose node drives its watermark itself, refuses the
update of a statement only because another task has appended one of its version. The statement is
then drafted on a catalog of that version or a later one, and whatever it offers later is for a
later version. So where it gives up, ten other tasks' updates were appended, of increasing versions
above that of the catalog that its first step found, and all but the first of them after its first
offer. -/
theorem lost_to_others (r : Run) {s n t log : Nat} {st : Statement} (hs : r.Starts s n st t)
    (hl : ((r.fleet s).node n).link = .shared log)
    (hm : ∀ i, (r.moves i).sparesMarkOf n = true) :
    (∀ j a u, r.Loses j t st a u →
      (∃ k w, k < j ∧ r.Rival t k w ∧ w.version = u.version) ∧
      (∀ d b c, r.Drafts d t st b c → j < d → u.version ≤ c.version) ∧
      ∀ i b w, r.Offers i t st b w → j < i → u.version < w.version) ∧
    (∀ j a u, r.Offers j t st a u →
      ∃ d c, d < j ∧ r.Drafts d t st a c ∧ st.Yields c u ∧ r.Pauses t d j) ∧
    ∀ i m, (r.fleet i).outcome? t = some (.failed (.retryLimitExceeded m)) →
      ∃ d c j u, r.Pauses t s d ∧ r.Drafts d t st 1 c ∧ d < j ∧ r.Pauses t d j ∧
        r.Offers j t st 1 u ∧
        ∃ (k : Fin 10 → Nat) (w : Fin 10 → Update), ∀ a, k a < i ∧ r.Rival t (k a) (w a) ∧
          c.version < (w a).version ∧ (0 < a → j < k a) ∧
          ∀ b, a < b → (w a).version < (w b).version := by
  refine ⟨fun j a u h => ⟨h.rival hs hl, ?later, ?increasing⟩, ?drafted, ?limit⟩
  case later =>
    intro d b c hd hjd
    exact Nat.le_trans (h.version_le hs hl).2 (h.length_le hs hm hd hjd)
  case increasing =>
    intro i b w ho hji
    exact h.version_lt hs hl hm ho hji
  case drafted =>
    intro j a u ho
    obtain ⟨x, hx, hp⟩ := ho.offered
    exact hs.offer_drafted hx hp
  case limit =>
    intro i m ho
    obtain ⟨js, losses, length⟩ := hs.losses_of_limit hm ho
    -- The moments of the refusals, the updates refused, and those that they lost to.
    have each : ∀ a : Fin 10, ∃ j u k w, js[a.val]? = some j ∧ r.Loses j t st (a + 1) u ∧
        k < j ∧ r.Rival t k w ∧ w.version = u.version := by
      intro a
      have entry := List.getElem?_eq_getElem (l := js) (Nat.lt_of_lt_of_le a.isLt length)
      obtain ⟨u, loses⟩ := losses.loses a _ entry
      obtain ⟨k, w, found⟩ := loses.rival hs hl
      exact ⟨_, u, k, w, entry, loses, found⟩
    choose j u k w entry loses hkj rival version using each
    have before : ∀ a b, a < b → j a < j b := fun a b hab =>
      losses.sorted a b _ _ hab (entry a) (entry b)
    have increasing : ∀ a b, a < b → (w a).version < (w b).version := fun a b hab => by
      rw [version a, version b]
      exact (loses a).version_lt hs hl hm (loses b).toOffers (before a b hab)
    obtain ⟨x, hx, hp⟩ := (loses 0).offered
    obtain ⟨d, c, hd, drafts, yields, pauses⟩ := hs.offer_drafted hx hp
    obtain ⟨z, hz, hzp, -⟩ := drafts.latest
    refine ⟨d, c, j 0, u 0, hs.first_draft hz hzp, drafts, hd, pauses, (loses 0).toOffers, k, w,
      fun a => ⟨?_, rival a, ?_, fun ha => ?_, increasing a⟩⟩
    · exact Nat.lt_trans (hkj a) (losses.before _ (List.mem_of_getElem? (entry a)))
    · have first : c.version < (w 0).version := by
        rw [version 0, Version.lt_def, Version.next?_val yields.next]
        exact Nat.lt_succ_self _
      rcases Fin.eq_zero_or_eq_succ a with rfl | ⟨b, rfl⟩
      · exact first
      · exact Nat.lt_trans first (increasing 0 _ (Fin.succ_pos b))
    · exact (loses 0).lt_rival hs hm (loses a).toOffers (before 0 a ha) (rival a) (version a)

/-! ## A statement that gives up -/

/-- Another writer is first, the statement is refused, and the node gets done with the version. -/
def outpaced.round (k : Nat) : List Move :=
  [.request 0 .zero (.commit (blank ⟨Word64.capped (k + 1)⟩)), .step (k + 4), .step 3, .step 3,
    .step 2, .step 1, .step 1, .step 3, .step 3]

/-- A node is started, and another writer is first in each attempt of a statement. -/
def outpaced : Run :=
  ofMoves Clock.unset
    ([.join Config.unset none, .request 0 .zero .start, .step 0, .step 0, .step 0, .step 0,
      .request 0 .zero (.execute repartition), .step 3] ++
      ((List.range 10).map outpaced.round).flatten)
    (by decide +kernel)

theorem lost_to_others_outpaced :
    (outpaced.fleet 98).outcome? 3 = some (.failed (.retryLimitExceeded 10)) ∧
      ∃ (c : Catalog) (k : Fin 10 → Nat) (w : Fin 10 → Update),
        ∀ a, outpaced.Rival 3 (k a) (w a) ∧ c.version < (w a).version := by
  have starts : outpaced.Starts 6 0 repartition 3 :=
    ⟨⟨.zero, rfl⟩, by decide +kernel, by decide +kernel⟩
  have link : ((outpaced.fleet 6).node 0).link = .shared 0 := by decide +kernel
  have spares : ∀ i, (outpaced.moves i).sparesMarkOf 0 = true :=
    moves_ofMoves (P := fun m => m.sparesMarkOf 0 = true) (by decide) rfl
  have ended : (outpaced.fleet 98).outcome? 3 = some (.failed (.retryLimitExceeded 10)) := by
    decide +kernel
  obtain ⟨-, -, limit⟩ := lost_to_others outpaced starts link spares
  obtain ⟨d, c, j, u, -, -, -, -, -, k, w, rivals⟩ := limit 98 10 ended
  exact ⟨ended, c, k, w, fun a => ⟨(rivals a).2.1, (rivals a).2.2.1⟩⟩

end Run

end SchemaCatalog
