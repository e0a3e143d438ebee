import SchemaCatalog.Proofs.Fleet.Feeding
import SchemaCatalog.Proofs.Run.Handing
import SchemaCatalog.Proofs.Run.Success

/-!
# Nobody is stuck

The versions that are done on a node never get ahead of the latest one that is registered, and that
one not ahead of the storage. While a node that was started is left alone, the three come together
whenever none of its tasks can go on: whoever waits for a version has been released by then, and
what is left of its statements waits for the clock (`Run.heads_ordered`).
-/

namespace SchemaCatalog

/-- Whether a move asks to stop a node or a log. -/
def Move.stops : Move → Bool
  | .request _ _ q => q.isStop
  | _ => false

namespace Fleet

lemma quiescent_iff {f : Fleet} : f.Quiescent ↔ ∀ t < f.tasks.length, f.step t = none := by
  constructor
  · exact fun stuck t _ => stuck t
  · intro stuck t
    rcases Nat.lt_or_ge t f.tasks.length with lt | ge
    · exact stuck t lt
    · rw [step, List.getElem?_eq_none ge]

instance (f : Fleet) : Decidable f.Quiescent := decidable_of_iff _ quiescent_iff.symm

/-- No calls of a dispatcher are pending where no task has a notice in hand. -/
lemma not_gathers {f : Fleet} (none : ∀ x ∈ f.tasks, x.point.notice? = none) (n t : Nat)
    (event : Event) (v : Version) (rest : List Event) (names : List String) :
    ¬ f.Gathers n t event (.dispatch v rest) names := by
  rintro ⟨x, calls, hx, -, hp, -⟩
  have notice := none x (List.mem_of_getElem? hx)
  rw [hp] at notice
  cases notice

/-- Where a dispatcher at work cannot go on and awaits no calls, all versions are done to which its
notices lead. -/
lemma done_of_stuck {f : Fleet} {n k : Nat} {d : Dispatch} {x : Task}
    (hd : (f.node n).dispatch = some d) (hx : f.tasks[d.task]? = some x) (hxn : x.node = n)
    (works : x.point.dispatches = true)
    (leads : Leads f.storage.log (x.point.takenUp (f.node n).mark.doneUntil.number.val) d.queue k)
    (answered : ∀ (t : Nat) (event : Event) (v : Version) (rest : List Event)
      (names : List String), ¬ f.Gathers n t event (.dispatch v rest) names)
    (stuck : f.step d.task = none) : (f.node n).mark.doneUntil.number.val = k := by
  cases hp : x.point with
  | dispatch =>
    subst hxn
    obtain ⟨d', hd', empty, -⟩ := (stuck_dispatch_iff hx hp).1 stuck
    cases hd.symm.trans hd'
    rw [empty, hp] at leads
    cases leads
    rfl
  | announce v events =>
    rw [step, hx] at stuck
    simp only [hp] at stuck
    cases stuck
  | gather event calls after =>
    cases after with
    | report =>
      rw [hp] at works
      cases works
    | dispatch v rest => exact (answered _ _ _ _ _ ⟨x, calls, hx, hxn, hp, rfl⟩).elim
  | _ =>
    rw [hp] at works
    cases works

end Fleet

namespace Run

variable {r : Run} {i j n s t : Nat} {x : Task}

/-- Whatever stops something was asked for. -/
lemma exists_stops (hx : (r.fleet i).tasks[t]? = some x) (hs : x.point.stops = true) :
    ∃ q < i, (r.moves q).stops = true ∧ t = (r.fleet q).tasks.length := by
  induction i generalizing x with
  | zero => cases hx
  | succ i ih =>
    rcases (r.asked i).stops t x hx hs with ⟨z, hz, hzs⟩ | ⟨_, q, hm, hq, task⟩
    · obtain ⟨q, hqi, asked, task⟩ := ih hz hzs
      exact ⟨q, Nat.lt_succ_of_lt hqi, asked, task⟩
    · refine ⟨i, Nat.lt_succ_self i, ?_, task⟩
      rw [hm, Move.stops, Request.isStop_of_errand hq hs]

/-- Where nothing was asked to stop nothing is being stopped. -/
lemma unstopped (hq : ∀ j < i, (r.moves j).stops = false) : (r.fleet i).Unstopped := by
  refine fun t x hx => Bool.eq_false_iff.2 fun hs => ?_
  obtain ⟨q, hqi, asked, -⟩ := exists_stops hx hs
  exact Bool.false_ne_true ((hq q hqi).symm.trans asked)

/-- The version that is committed never falls. -/
lemma committed_mono (h : i ≤ j) :
    (r.fleet i).storage.committed ≤ (r.fleet j).storage.committed := by
  rw [Version.le_def, (r.tracks i).sound.committed, (r.tracks j).sound.committed]
  exact (r.log_grows h).length_le

/-- Whoever waits for a version on account of a statement or of a start waits for one that is
committed. -/
lemma target_le {v : Version} (hx : (r.fleet i).tasks[t]? = some x)
    (hv : x.point.target? = some v) : v ≤ (r.fleet i).storage.committed := by
  induction i generalizing x with
  | zero => cases hx
  | succ i ih =>
    rcases (r.asked i).target t x v hx hv with ⟨z, hz, hzv⟩ | rfl
    · exact Nat.le_trans (ih hz hzv) (r.committed_mono (Nat.le_succ i))
    · exact Nat.le_refl _

lemma logsKept (r : Run) (i : Nat) : (r.fleet i).LogsKept (r.fleet (i + 1)).logs := by
  obtain ⟨k, hk, e⟩ := r.change i
  obtain ⟨-, -, -, logs, -, -, -⟩ := Fleet.core_inj e
  rw [logs]
  exact Fleet.logsKept_of_change hk

/-- Every node works with a log that is there. -/
lemma linked (r : Run) (i : Nat) (hn : n < (r.fleet i).nodes.length) :
    ∃ l lg, ((r.fleet i).node n).link.log? = some l ∧ (r.fleet i).logs[l]? = some lg := by
  induction i with
  | zero => cases hn
  | succ i ih =>
    by_cases old : n < (r.fleet i).nodes.length
    · obtain ⟨l, lg, hl, hlg⟩ := ih old
      obtain ⟨lg', hlg', -⟩ := r.logsKept i l lg hlg
      exact ⟨l, lg', ((r.frame i).node n old).log.trans hl, hlg'⟩
    · obtain ⟨c, link, l, e, hl, lt⟩ := (r.frame i).joined n (Nat.not_lt.1 old) hn
      exact ⟨l, _, by rw [e]; exact hl, List.getElem?_eq_getElem lt⟩

/-! ## Nodes that were started -/

/-- A task that starts a node fails, or attends to it, unless something is stopped or the node is
halted. -/
lemma starting_succ (hs : (r.fleet i).Unstopped)
    (ok : ((r.fleet (i + 1)).node x.node).mark.failure = none)
    (hx : (r.fleet i).tasks[t]? = some x) (h : (r.fleet i).Starting x.node x) :
    ∃ y, (r.fleet (i + 1)).tasks[t]? = some y ∧ y.node = x.node ∧
      (r.fleet (i + 1)).Starting y.node y := by
  obtain ⟨k, hk, e⟩ := r.change i
  obtain ⟨-, -, -, -, -, nodes, -⟩ := Fleet.core_inj e
  have hn := (r.plain i).placed t x hx
  obtain ⟨y, hy, hyn, hyp⟩ := (r.frame i).task t x hx
  have node : (r.fleet (i + 1)).node x.node = k.node x.node := Fleet.node_congr nodes _
  rw [node] at ok
  refine ⟨y, hy, hyn, ?_⟩
  rw [hyn]
  cases h with
  | attends h => exact .attends ((h.change (r.plain i) (r.tracks i) hs ok hk).congr e)
  | failed hp => exact .failed ((hyp (.inr (by rw [Task.outcome?, hp]; rfl))).trans hp)
  | begins hp =>
    by_cases hm : r.moves i = .step t
    · obtain ⟨l, lg, hl, hlg⟩ := r.linked i hn
      rcases r.step_cases hm with ⟨none, -⟩ | some
      · rw [Fleet.step, hx] at none
        simp only [hp] at none
        cases none
      · obtain ⟨z, hz, result⟩ := Fleet.step_start hn hl hlg hx hp some
        rw [hy] at hz
        cases hz
        rcases result with ⟨e, failed⟩ | ⟨hp, registered, takes⟩
        · exact .failed failed
        · exact .links hp registered takes
    · exact .begins ((hyp (.inl hm)).trans hp)
  | links hp registered takes =>
    by_cases hm : r.moves i = .step t
    · rcases r.step_cases hm with ⟨none, -⟩ | some
      · rw [Fleet.step, hx] at none
        simp only [hp] at none
        cases none
      · obtain ⟨z, hz, result⟩ := Fleet.step_startLink registered takes hx hp some
        rw [hy] at hz
        cases hz
        rcases result with ⟨e, failed⟩ | attends
        · exact .failed failed
        · exact .attends attends
    · refine .links ((hyp (.inl hm)).trans hp) (registered.change hn (r.frame i) (r.logsKept i)) ?_
      rw [node]
      exact Fleet.takes_of_change hs ok hk takes

/-- A node that is not halted was not halted before. -/
lemma unhalted_before (h : i ≤ j) (hn : n < (r.fleet i).nodes.length)
    (ok : ((r.fleet j).node n).mark.failure = none) :
    ((r.fleet i).node n).mark.failure = none := by
  cases he : ((r.fleet i).node n).mark.failure with
  | none => rfl
  | some e =>
    rw [(r.kept h hn).failure e he] at ok
    cases ok

/-- What the task has come to that was asked to start a node. -/
lemma starting {skew : Duration} (move : r.moves s = .request n skew .start)
    (hn : n < (r.fleet s).nodes.length) (hi : s < i) (hq : ∀ j < i, (r.moves j).stops = false)
    (ok : ((r.fleet i).node n).mark.failure = none) :
    ∃ x, (r.fleet i).tasks[(r.fleet s).tasks.length]? = some x ∧ x.node = n ∧
      (r.fleet i).Starting x.node x := by
  induction hi with
  | refl => exact ⟨⟨n, .start, none⟩, r.errand_begins move hn rfl, rfl, .begins rfl⟩
  | @step i hi ih =>
    have before : ∀ j < i, (r.moves j).stops = false := fun j hj => hq j (Nat.lt_succ_of_lt hj)
    have node : n < (r.fleet i).nodes.length :=
      Nat.lt_of_lt_of_le hn (r.nodes_le (Nat.le_of_lt hi))
    obtain ⟨x, hx, rfl, starting⟩ := ih before (unhalted_before (Nat.le_succ i) node ok)
    obtain ⟨y, hy, hyn, starting⟩ := starting_succ (unstopped before) ok hx starting
    exact ⟨y, hy, hyn, starting⟩

/-- A node that the storage feeds, where none of its tasks can go on, has come to the end of the
log. -/
lemma reached_of_feeds (feeds : (r.fleet i).Feeds n)
    (stuck : ∀ (t : Nat) (x : Task), (r.fleet i).tasks[t]? = some x → x.node = n →
      (r.fleet i).step t = none) :
    (r.fleet i).Reached n (r.fleet i).storage.log.length := by
  have ht := r.tracks i
  obtain ⟨d, y, x, feeding⟩ := feeds
  have queue := Fleet.queue_of_stuck feeding.task feeding.point feeding.delivery
    (stuck _ x feeding.task feeding.node)
  have live : (r.fleet i).outcome? y.task = none := by
    rw [Fleet.outcome?, feeding.task, Option.bind_some, Task.outcome?, feeding.point]
  -- Nothing is left of the stretch that the delivery hands over, which ends with the log.
  obtain ⟨j, -, -, all, reached⟩ := ht.deliveries d y feeding.delivery live
  have last := all feeding.sink
  rw [queue, eq_comm, List.drop_eq_nil_iff, ← ht.sound.length] at last
  obtain ⟨k, hjk, hk⟩ := reached n feeding.receiver
  rw [Nat.le_antisymm (Nat.le_trans last hjk) hk.follows.le]
  exact hk

/-- At this moment none of the tasks of a node can go on. Its dispatcher takes notices, and none of
the calls that the dispatcher made are pending. The log has room for another version, as every log
has that fits in memory. -/
structure Still (r : Run) (i n : Nat) : Prop where
  takes : ((r.fleet i).node n).TakesNotices
  answered : ∀ (t : Nat) (event : Event) (v : Version) (rest : List Event) (names : List String),
    ¬ (r.fleet i).Gathers n t event (.dispatch v rest) names
  stuck : ∀ (t : Nat) (x : Task), (r.fleet i).tasks[t]? = some x → x.node = n →
    (r.fleet i).step t = none
  room : (r.fleet i).storage.log.length + 1 < 18_446_744_073_709_551_616

/-- On such a node all versions are done that it has come to. -/
lemma Still.done {k : Nat} (h : r.Still i n) (hm : ∀ i, (r.moves i).sparesMarkOf n = true)
    (hk : (r.fleet i).Reached n k) : ((r.fleet i).node n).mark.doneUntil.number.val = k := by
  obtain ⟨d, hd, accepting⟩ := h.takes
  have dispatches := r.dispatches hm i
  obtain ⟨x, hx, hxn, -⟩ := dispatches.placed d hd
  have agenda := dispatches.agenda d x k hd hx hk
  obtain ⟨m, leads, -, all⟩ := agenda.queued
  rcases agenda.alive accepting with working | ⟨hlt, full⟩
  · rw [all accepting] at leads
    exact Fleet.done_of_stuck hd hx hxn working leads h.answered (h.stuck _ x hx hxn)
  · have := h.room
    have := hk.follows.le
    omega

/-- At this moment none of the tasks of a node can go on. The node was asked to start, and that has
not failed; nobody asked to stop a node or a log, the node was not halted, and no calls of its
dispatcher are pending. The log has room for another version, as every log has that fits in
memory. -/
structure AtRest (r : Run) (i n : Nat) : Prop where
  started : ∃ s skew, s < i ∧ r.moves s = .request n skew .start ∧ n < (r.fleet s).nodes.length ∧
    ∀ e, (r.fleet i).outcome? (r.fleet s).tasks.length ≠ some (.failed e)
  unstopped : ∀ j < i, (r.moves j).stops = false
  unhalted : ((r.fleet i).node n).mark.failure = none
  answered : ∀ (t : Nat) (event : Event) (v : Version) (rest : List Event) (names : List String),
    ¬ (r.fleet i).Gathers n t event (.dispatch v rest) names
  stuck : ∀ (t : Nat) (x : Task), (r.fleet i).tasks[t]? = some x → x.node = n →
    (r.fleet i).step t = none
  room : (r.fleet i).storage.log.length + 1 < 18_446_744_073_709_551_616

namespace AtRest

/-- A node at rest is attended. -/
lemma attended (h : r.AtRest i n) : (r.fleet i).Attended n := by
  obtain ⟨s, skew, hs, move, hn, succeeds⟩ := h.started
  obtain ⟨x, hx, rfl, starting⟩ := starting move hn hs h.unstopped h.unhalted
  have stuck := h.stuck _ x hx rfl
  rw [Fleet.step, hx] at stuck
  cases starting with
  | attends attended => exact attended
  | begins hp =>
    simp only [hp] at stuck
    cases stuck
  | links hp _ _ =>
    simp only [hp] at stuck
    cases stuck
  | @failed e hp =>
    refine absurd ?_ (succeeds e)
    rw [Fleet.outcome?, hx, Option.bind_some, Task.outcome?, hp]

/-- A node at rest has come to the end of the log. -/
lemma reached (h : r.AtRest i n) : (r.fleet i).Reached n (r.fleet i).storage.log.length :=
  reached_of_feeds h.attended.feeds h.stuck

lemma still (h : r.AtRest i n) : r.Still i n :=
  ⟨h.attended.takes, h.answered, h.stuck, h.room⟩

/-- On a node at rest all versions are done that it has come to. -/
lemma done {k : Nat} (h : r.AtRest i n) (hm : ∀ i, (r.moves i).sparesMarkOf n = true)
    (hk : (r.fleet i).Reached n k) : ((r.fleet i).node n).mark.doneUntil.number.val = k :=
  h.still.done hm hk

/-- Nobody waits for a version of a node at rest on account of a statement or of a start. -/
lemma bare (h : r.AtRest i n) (hm : ∀ i, (r.moves i).sparesMarkOf n = true)
    (hx : (r.fleet i).tasks[t]? = some x) (hxn : x.node = n) {v : Version} {q : Purpose}
    (hp : x.point = .await v q ∨ x.point = .awaiting v q) : q = .bare := by
  have stuck := h.stuck t x hx hxn
  rcases hp with hp | hp
  · rw [Fleet.step, hx] at stuck
    simp only [hp] at stuck
    cases stuck
  · have untold := (Fleet.stuck_awaiting_iff hx hp).1 stuck
    obtain ⟨l, hl, -⟩ := (r.waiting i).held t x v q hx hp untold
    obtain ⟨above, -⟩ := (r.waiting i).beyond x.node v.number.val l hl
    have done := h.done hm h.reached
    -- The version would be one that is committed, and those are done.
    have awaited : x.point.target? = some v → False := by
      intro target
      have le : v.number.val ≤ (r.fleet i).storage.committed.number.val := target_le hx target
      rw [(r.tracks i).sound.committed, ← done] at le
      rw [hxn] at above
      exact Nat.not_lt.2 le above
    rw [hp] at awaited
    cases q with
    | bare => rfl
    | _ => exact (awaited rfl).elim

/-- A statement that was started on a node at rest has ended, or sleeps. -/
lemma sleeps {st : Statement} (h : r.AtRest i n) (hm : ∀ i, (r.moves i).sparesMarkOf n = true)
    (hs : r.Starts s n st t) (hi : s < i) : (∃ o, (r.fleet i).outcome? t = some o) ∨
      ∃ x target o, (r.fleet i).tasks[t]? = some x ∧ x.point = .sleep target o ∧
        (r.fleet i).clock.current < target := by
  obtain ⟨x, hx, hxn, of, -⟩ := hs.drafted hi
  have stuck := h.stuck t x hx hxn
  have waits := fun v q => h.bare hm hx hxn (v := v) (q := q)
  rw [Fleet.step, hx] at stuck
  generalize hp : x.point = p at of waits
  simp only [hp] at stuck
  cases of with
  | ended o =>
    refine .inl ⟨o, ?_⟩
    rw [Fleet.outcome?, hx, Option.bind_some, Task.outcome?, hp]
  | sleep target v =>
    refine .inr ⟨x, target, _, hx, hp, ?_⟩
    dsimp only [Fleet.stepSleep] at stuck
    split at stuck
    · cases stuck
    · rename_i early
      exact Nat.lt_of_not_le early
  | awaitSaved v => cases waits v .saved (.inl rfl)
  | awaitRetry v a => cases waits v (.retry st a) (.inl rfl)
  | awaitingSaved v => cases waits v .saved (.inr rfl)
  | awaitingRetry v a => cases waits v (.retry st a) (.inr rfl)
  | _ => cases stuck

end AtRest

/-- The heads of a node that is started, where only the node marks its versions. The version up to
which all are done is not ahead of the latest one that is registered, nor that one of the one that
is committed. If the node is at rest the three are the same, nobody waits for a version on account
of a statement or of a start, and every statement of the node has ended or sleeps until a time that
the clock has not reached. -/
theorem heads_ordered (r : Run) (hm : ∀ i, (r.moves i).sparesMarkOf n = true)
    (started : ((r.fleet i).node n).started = true) :
    ∃ c, ((r.fleet i).node n).history.latest = .ok c ∧
      ((r.fleet i).node n).mark.doneUntil ≤ c.version ∧
      c.version ≤ (r.fleet i).storage.committed ∧
      (r.AtRest i n →
        ((r.fleet i).node n).mark.doneUntil = c.version ∧
        c.version = (r.fleet i).storage.committed ∧
        (∀ (t : Nat) (x : Task) (v : Version) (q : Purpose), (r.fleet i).tasks[t]? = some x →
          x.node = n → x.point = .await v q ∨ x.point = .awaiting v q → q = .bare) ∧
        ∀ (s t : Nat) (st : Statement), r.Starts s n st t → s < i →
          (∃ o, (r.fleet i).outcome? t = some o) ∨
          ∃ x target o, (r.fleet i).tasks[t]? = some x ∧ x.point = .sleep target o ∧
            (r.fleet i).clock.current < target) := by
  have ht := r.tracks i
  -- What the node has reached lies between what it is done with and what is stored.
  obtain ⟨k, hk⟩ := ht.started n (Fleet.lt_of_started started) started
  obtain ⟨c, hc, version⟩ := hk.snapshot ht (Nat.le_refl k)
  have committed := ht.sound.committed
  refine ⟨c, (hk.latest ht).trans hc, ?_, ?_, fun rest => ⟨?_, ?_, ?_, ?_⟩⟩
  · rw [Version.le_def, version]
    exact (r.dispatches hm i).doneUntil_le hk
  · rw [Version.le_def, version, committed]
    exact hk.follows.le
  · exact Version.ext_val ((rest.done hm hk).trans version.symm)
  · refine Version.ext_val ?_
    rw [version, committed, ← hk.unique ht rest.reached]
  · exact fun t x v q hx hxn hp => rest.bare hm hx hxn hp
  · exact fun s t st hs hi => rest.sleeps hm hs hi

lemma repartitioned_quiescent : (repartitioned.fleet 18).Quiescent := by decide

lemma repartitioned_atRest : repartitioned.AtRest 18 0 where
  started := ⟨1, .zero, by decide, rfl, by decide, fun e he => by
    have done : (repartitioned.fleet 18).outcome? (repartitioned.fleet 1).tasks.length =
        some .done := by decide
    rw [done] at he
    cases he⟩
  unstopped j _ := moves_ofMoves (P := fun m => m.stops = false) (by decide) rfl j
  unhalted := by decide
  answered := Fleet.not_gathers (by decide) 0
  stuck t _ _ _ := repartitioned_quiescent t
  room := by decide

theorem heads_ordered_repartitioned :
    ((repartitioned.fleet 18).node 0).mark.doneUntil = (repartitioned.fleet 18).storage.committed ∧
      ∃ x target o, (repartitioned.fleet 18).tasks[3]? = some x ∧ x.point = .sleep target o ∧
        (repartitioned.fleet 18).clock.current < target := by
  have spares : ∀ i, (repartitioned.moves i).sparesMarkOf 0 = true :=
    moves_ofMoves (P := fun m => m.sparesMarkOf 0 = true) (by decide) rfl
  obtain ⟨c, -, -, -, rest⟩ := heads_ordered repartitioned spares (i := 18) (by decide +kernel)
  obtain ⟨done, latest, -, statements⟩ := rest repartitioned_atRest
  refine ⟨done.trans latest, ?_⟩
  rcases statements 6 3 repartition repartitioned_starts (by decide) with ⟨o, ho⟩ | sleeps
  · have running : (repartitioned.fleet 18).outcome? 3 = none := by decide +kernel
    rw [running] at ho
    cases ho
  · exact sleeps

end Run

end SchemaCatalog
