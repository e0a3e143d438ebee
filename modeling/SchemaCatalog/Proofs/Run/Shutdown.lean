import SchemaCatalog.Proofs.Fleet.Completion
import SchemaCatalog.Proofs.Run.Delivery
import SchemaCatalog.Proofs.Run.Lifecycle

/-!
# How a node comes to a stop

A stop detaches the storage and waits for the delivery to end, has the dispatcher take no notices
any more and waits for it to end, and drops those who still wait. The order is what makes the node
come to a stop with nothing left undone: it needs the notices as long as anything is handed over,
and it drops nobody before all is announced (`Orderly`). The order is kept by stops that overlap as
long as none goes on past a task that another one still waits for (`Fleet.Overtakes`,
`Managed.orderly`).
-/

namespace SchemaCatalog

namespace Fleet

/-- A stop of a node finds that the log has no delivery of its own any more, or that the node has
given its handler up, and goes on at once, although the delivery to the node has not ended or the
dispatcher has not finished. -/
def Overtakes (f : Fleet) (n : Nat) : Move → Prop
  | .step t => ∃ x ∈ f.tasks[t]?, x.node = n ∧
      (x.point = .stop ∧ (∃ log ∈ (f.node n).link.log?, (f.stopLog log).2 = none) ∧
          (∃ y ∈ f.deliveries, y.receiver = .node n ∧ f.outcome? y.task = none) ∨
        x.point = .releaseHandler ∧ (f.node n).holdsHandler = false ∧
          ∃ d ∈ (f.node n).dispatch, f.outcome? d.task ≠ some .done)
  | _ => False

instance (f : Fleet) (n : Nat) (m : Move) : Decidable (f.Overtakes n m) :=
  match m with
  | .step t => inferInstanceAs (Decidable (∃ x ∈ f.tasks[t]?, _ ∧ (_ ∧ _ ∧ _ ∨ _ ∧ _ ∧ _)))
  | .request .. => inferInstanceAs (Decidable False)
  | .join .. => inferInstanceAs (Decidable False)
  | .turnClock _ => inferInstanceAs (Decidable False)

/-- What holds where a stop of a node stands. -/
inductive Closing (f : Fleet) (n : Nat) : Point → Prop where
  | stop : Closing f n .stop
  | joins {y : Delivery} :
      f.sink = none → f.deliveries = [y] → Closing f n (.join y.task .releaseHandler)
  | releases : f.Drained → Closing f n .releaseHandler
  | awaits {d : Dispatch} :
      f.Drained → (f.node n).dispatch = some d → Closing f n (.join d.task .closeMark)
  | closes : f.Drained → f.Finished n → Closing f n .closeMark

/-- A node misses nothing. It takes no notices any more only where nothing is handed over any more,
and its watermark fails only where all is done, as the node is stopped. -/
structure Orderly (f : Fleet) (n : Nat) : Prop where
  complete : f.CompleteOn n
  closed : ∀ d, (f.node n).dispatch = some d → d.accepting = false → f.Drained
  failed : ∀ e, (f.node n).mark.failure = some e → e = .stopped ∧ f.Drained ∧ f.Finished n
  closing : ∀ (t : Nat) (x : Task), f.tasks[t]? = some x → x.point.stops = true →
    f.Closing n x.point

end Fleet

namespace Run

open Fleet

variable {r : Run} {n s b c i j k t q : Nat} {x : Task} {e : Error}

namespace Managed

/-! ## What a move leaves of a stop -/

/-- The delivery stays, and a storage that is detached is not attached again. -/
lemma delivery_succ {y : Delivery} (hr : r.Managed n s b) (hy : (r.fleet i).deliveries = [y]) :
    ∃ y', (r.fleet (i + 1)).deliveries = [y'] ∧ y'.task = y.task ∧
      ((r.fleet i).sink = none → (r.fleet (i + 1)).sink = none) := by
  have sole := (beginsOnce hr.spared hr.alone (i + 1)).sole
  rcases r.deliveries_succ i with ⟨same, free⟩ | ⟨-, more⟩
  · obtain ⟨z, hz, -, task⟩ :=
      delivery_stays (r := r) (d := 0) (y := y) (Nat.le_succ i) (by rw [hy]; rfl)
    rw [hy] at same
    obtain ⟨w, hw⟩ := List.length_eq_one_iff.1 same
    rw [hw] at hz
    cases hz
    exact ⟨z, hw, task, free⟩
  · rw [hy] at more
    rw [more] at sole
    exact absurd sole (Nat.not_succ_le_self 1)

/-- A storage that is detached, and whose delivery has ended, stays so. -/
lemma drained_succ (hr : r.Managed n s b) (h : (r.fleet i).Drained) :
    (r.fleet (i + 1)).Drained := by
  obtain ⟨y, hy, ended⟩ := h.ended
  obtain ⟨o, ho⟩ := Option.isSome_iff_exists.1 ended
  obtain ⟨y', hy', task, free⟩ := hr.delivery_succ hy
  refine ⟨free h.detached, y', hy', ?_⟩
  rw [task, (r.frame i).outcome ho]
  rfl

/-- A node has been started where its delivery has ended. -/
lemma started_of_drained (hr : r.Managed n s b) (h : (r.fleet i).Drained) :
    ((r.fleet i).node n).started = true := by
  obtain ⟨y, hy, -⟩ := h.ended
  refine eq_true_of_ne_false fun unstarted => ?_
  rw [(beginsOnce hr.spared hr.alone i).unstarted unstarted] at hy
  cases hy

lemma finished_succ (hr : r.Managed n s b) (h : (r.fleet i).Finished n)
    (started : ((r.fleet i).node n).started = true) : (r.fleet (i + 1)).Finished n :=
  h.serves (r.dispatches hr.spared i) (r.frame i) (r.serves hr.spared i) started

/-- What holds where a stop stands goes on to hold while it stands there. -/
lemma closing_succ {p : Point} (hr : r.Managed n s b) (h : (r.fleet i).Closing n p) :
    (r.fleet (i + 1)).Closing n p := by
  cases h with
  | stop => exact .stop
  | joins free hy =>
    obtain ⟨y', hy', task, stays⟩ := hr.delivery_succ hy
    exact task ▸ .joins (stays free) hy'
  | releases drained => exact .releases (hr.drained_succ drained)
  | awaits drained hd =>
    have started := hr.started_of_drained drained
    have dispatches := r.dispatches hr.spared (i + 1)
    obtain ⟨d', hd'⟩ := dispatches.started (started_stays (Nat.le_succ i) started)
    obtain ⟨d, hdd, same, -⟩ :=
      (r.dispatches hr.spared i).names_started (r.serves hr.spared i) started hd'
    cases hd.symm.trans hdd
    exact same ▸ .awaits (hr.drained_succ drained) hd'
  | closes drained finished =>
    exact .closes (hr.drained_succ drained)
      (hr.finished_succ finished (hr.started_of_drained drained))

/-! ## What a stop finds -/

/-- A task that a log names as its own hands a delivery over. -/
lemma own_delivery {f : Fleet} {log u : Nat} (h : (f.stopLog log).2 = some u) :
    ∃ y ∈ f.deliveries, y.task = u := by
  obtain ⟨d, -, hd⟩ := Option.bind_eq_some_iff.1 h
  obtain ⟨y, hy, rfl⟩ := Option.map_eq_some_iff.1 hd
  exact ⟨y, List.mem_of_getElem? hy, rfl⟩

/-- When the task of the delivery has ended after the storage was detached, all is handed over. -/
lemma drained_of_ended {y : Delivery} {u : Nat} {o : Outcome} (free : (r.fleet i).sink = none)
    (hy : (r.fleet i).deliveries = [y]) (hu : y.task = u) (ho : (r.fleet i).outcome? u = some o) :
    (r.fleet i).Drained :=
  ⟨free, y, hy, by rw [hu, ho]; rfl⟩

/-- A stop detaches the storage in its first step. -/
lemma detached_of_stop {log : Nat} (hm : r.moves i = .step t)
    (hx : (r.fleet i).tasks[t]? = some x) (hp : x.point = .stop)
    (hl : ((r.fleet i).node x.node).link.log? = some log) : (r.fleet (i + 1)).sink = none :=
  (StopsLog.sink ⟨t, x, hm, hx, .inr ⟨hp, hl⟩⟩).1

/-- What holds where a step takes a stop that overtakes no other one. -/
lemma closing_retreat {p : Point} (hr : r.Managed n s b)
    (ho : ¬ (r.fleet i).Overtakes n (r.moves i)) (h : (r.fleet i).Orderly n)
    (hm : r.moves i = .step t) (hx : (r.fleet i).tasks[t]? = some x)
    (hs : x.point.stops = true) (hp : p.stops = true)
    (retreat : (r.fleet i).Retreat (r.fleet (i + 1)) x p) :
    (r.fleet (i + 1)).Closing n p := by
  have closing := h.closing t x hx hs
  obtain ⟨rfl, -⟩ := stopper hr.alone hx hs
  obtain ⟨y, hy, receiver, -⟩ := hr.delivery (Nat.le_of_lt (hr.lt_of_stops hx hs))
  rw [hm] at ho
  cases retreat with
  | @detaches log u point hl own =>
    obtain ⟨z, hz, rfl⟩ := own_delivery own
    rw [hy] at hz
    obtain rfl := List.mem_singleton.1 hz
    obtain ⟨y', hy', task, -⟩ := hr.delivery_succ hy
    exact task ▸ .joins (detached_of_stop hm hx point hl) hy'
  | @passes log point hl none =>
    obtain ⟨y', hy', task, -⟩ := hr.delivery_succ hy
    have ended : (r.fleet i).outcome? y.task ≠ Option.none := fun live =>
      ho ⟨x, hx, rfl, .inl ⟨point, ⟨log, hl, none⟩, y, hy ▸ List.mem_singleton_self y, receiver,
        live⟩⟩
    obtain ⟨o, ended⟩ := Option.ne_none_iff_exists'.1 ended
    exact .releases (drained_of_ended (detached_of_stop hm hx point hl) hy' task
      ((r.frame i).outcome ended))
  | joined point ended =>
    rw [point] at closing
    cases closing with
    | joins free hz =>
      exact .releases (hr.drained_succ (drained_of_ended free hz rfl ended))
  | @releases d point hd hd' =>
    rw [point] at closing
    cases closing with
    | releases drained =>
      exact .awaits (d := { d with accepting := false }) (hr.drained_succ drained) hd'
  | skips point given =>
    rw [point] at closing
    cases closing with
    | releases drained =>
      have started := hr.started_of_drained drained
      obtain ⟨d, hd⟩ := (r.dispatches hr.spared i).started started
      have free : ((r.fleet i).node x.node).holdsHandler = false := by
        refine Bool.eq_false_iff.2 fun holds => ?_
        cases hd.symm.trans (given holds)
      have finished : (r.fleet i).Finished x.node := fun d hd => by
        by_contra unfinished
        exact ho ⟨x, hx, rfl, .inr ⟨point, free, d, hd, unfinished⟩⟩
      exact .closes (hr.drained_succ drained) (hr.finished_succ finished started)
  | @served u o point ended fine =>
    rw [point] at closing
    cases closing with
    | @awaits d drained hd =>
      have started := hr.started_of_drained drained
      have dispatches := r.dispatches hr.spared i
      obtain ⟨z, hz, -⟩ := dispatches.placed d hd
      obtain ⟨k, hk⟩ := (r.tracks i).started x.node (lt_of_started started) started
      have complete := h.complete d z k hd hz hk
      -- A dispatcher that has ended and was not broken off has finished.
      have finished : (r.fleet i).Finished x.node := by
        intro d' hd'
        cases hd.symm.trans hd'
        rw [outcome?, hz, Option.bind_some] at ended
        have point := Task.point_of_outcome ended
        rw [point] at complete
        rcases complete.ended with works | ⟨done, -⟩ | ⟨⟨a, aborted⟩, -⟩
        · cases works
        · cases done
          rw [outcome?, hz, Option.bind_some, ended]
        · cases aborted
          exact absurd rfl (fine a)
      exact .closes (hr.drained_succ drained) (hr.finished_succ finished started)
  | broken => cases hp
  | closes => cases hp

/-! ## Every moment of a run -/

/-- A node that misses nothing goes on to as long as it takes notices of what it is handed. -/
lemma complete_succ (hr : r.Managed n s b) (h : (r.fleet i).Orderly n) :
    (r.fleet (i + 1)).CompleteOn n := by
  have dispatches := r.dispatches hr.spared i
  refine h.complete.serves dispatches (r.tracks i) (r.tracks (i + 1)) (r.frame i)
    (fun t _ hands => ?_) (r.serves hr.spared i)
  obtain ⟨k, hk⟩ := hands.reached (r.tracks i)
  obtain ⟨d, hd⟩ := dispatches.started hk.started
  refine ⟨d, hd, eq_true_of_ne_false fun closed => ?_⟩
  exact (h.closed d hd closed).not_handsTo (r.tracks i) t n hands

/-- A dispatcher is closed only by a stop that has come to release the handler. -/
lemma closed_succ (hr : r.Managed n s b) (h : (r.fleet i).Orderly n) {d' : Dispatch}
    (hd' : ((r.fleet (i + 1)).node n).dispatch = some d') (closed : d'.accepting = false) :
    (r.fleet (i + 1)).Drained := by
  rcases (r.dispatches hr.spared i).names (r.serves hr.spared i) hd' with
    ⟨d, hd, -, -⟩ | ⟨-, accepting⟩
  · cases acc : d.accepting with
    | false => exact hr.drained_succ (h.closed d hd acc)
    | true =>
      obtain ⟨k, hk, core⟩ := r.change i
      obtain ⟨-, -, -, -, -, nodes, tasks⟩ := core_inj core
      rcases takes_or_closes hk ⟨d, hd, acc⟩ with takes | ⟨t, x, hm, hx, gives | halts⟩
      · rw [← node_congr nodes] at takes
        obtain ⟨d₀, hd₀, accepting⟩ := takes
        cases hd'.symm.trans hd₀
        cases closed.symm.trans accepting
      · obtain ⟨point, rfl⟩ := gives
        have closing := h.closing t x hx (by rw [point]; rfl)
        rw [point] at closing
        cases closing with
        | releases drained => exact hr.drained_succ drained
      · obtain ⟨hands, ended, -⟩ := halts
        exact absurd ended (hr.not_stops_short hm hands tasks)
  · cases closed.symm.trans accepting

lemma failed_succ (hr : r.Managed n s b) (h : (r.fleet i).Orderly n)
    (he : ((r.fleet (i + 1)).node n).mark.failure = some e) :
    e = .stopped ∧ (r.fleet (i + 1)).Drained ∧ (r.fleet (i + 1)).Finished n := by
  have stays (drained : (r.fleet i).Drained) (finished : (r.fleet i).Finished n) :
      (r.fleet (i + 1)).Drained ∧ (r.fleet (i + 1)).Finished n :=
    ⟨hr.drained_succ drained, hr.finished_succ finished (hr.started_of_drained drained)⟩
  rcases hr.failure_succ he with old | ⟨rfl, t, x, -, hx, -, point⟩
  · obtain ⟨stopped, drained, finished⟩ := h.failed e old
    exact ⟨stopped, stays drained finished⟩
  · have closing := h.closing t x hx (by rw [point]; rfl)
    rw [point] at closing
    cases closing with
    | closes drained finished => exact ⟨rfl, stays drained finished⟩

lemma orderly_succ (hr : r.Managed n s b) (ho : ¬ (r.fleet i).Overtakes n (r.moves i))
    (h : (r.fleet i).Orderly n) : (r.fleet (i + 1)).Orderly n where
  complete := hr.complete_succ h
  closed _ := hr.closed_succ h
  failed _ := hr.failed_succ h
  closing t y hy hs := by
    rcases (r.asked i).stops t y hy hs with ⟨x, hx, hxs⟩ | ⟨skew, a, move, errand, -⟩
    · rcases r.rests_or_steps hx with ⟨⟨z, hz, -, same⟩, -⟩ | ⟨hm, hg⟩
      · cases hy.symm.trans hz
        rw [same]
        exact hr.closing_succ (h.closing t x hx hxs)
      · obtain ⟨p, hp, retreat⟩ :=
          retreat_of_step (r.plain i) hx (stopper hr.alone hx hxs).2 hg
        cases hy.symm.trans hp
        exact hr.closing_retreat ho h hm hx hxs hs retreat
    · obtain ⟨-, start | stop⟩ := Move.errand_of_managesOnly (move ▸ hr.alone i) errand
      · rw [start] at hs
        cases hs
      · exact stop ▸ .stop

/-- Where no stop overtakes another one, a node that is managed alone is orderly at every moment. -/
theorem orderly (hr : r.Managed n s b)
    (ho : ∀ i, ¬ (r.fleet i).Overtakes n (r.moves i)) (i : Nat) : (r.fleet i).Orderly n := by
  induction i with
  | zero =>
    exact ⟨fun d x k hd => (by cases hd), fun d hd => (by cases hd), fun e he => (by cases he),
      fun t x hx => (by cases hx)⟩
  | succ i ih => exact hr.orderly_succ (ho i) ih

/-- The watermark fails only after the storage was detached. -/
lemma exists_detaches_of_failure (hr : r.Managed n s b) (h : (r.fleet i).Orderly n)
    (he : ((r.fleet i).node n).mark.failure = some e) : ∃ c, c < i ∧ r.Detaches c := by
  obtain ⟨-, drained, -⟩ := h.failed e he
  refine hr.exists_detaches (Nat.le_of_not_lt fun lt => ?_) drained.detached
  cases (hr.healthy (Nat.le_of_lt lt)).symm.trans he

/-- Once the watermark has failed, the node has registered what was stored when the storage was
detached, and all of that is done. -/
lemma done_of_failure (hr : r.Managed n s b) (h : (r.fleet i).Orderly n) (hc : r.Detaches c)
    (he : ((r.fleet i).node n).mark.failure = some e) :
    c < i ∧ (r.fleet i).Reached n (r.fleet c).storage.log.length ∧
      ((r.fleet i).node n).mark.doneUntil.number.val = (r.fleet c).storage.log.length := by
  obtain ⟨-, drained, finished⟩ := h.failed e he
  have hi : b ≤ i := by
    refine Nat.le_of_not_lt fun lt => ?_
    rw [hr.healthy (Nat.le_of_lt lt)] at he
    cases he
  have reached := hr.reached_of_drained hc drained hi
  exact ⟨hr.lt_of_free hc hi drained.detached, reached,
    finished.doneUntil h.complete (r.dispatches hr.spared i) reached⟩

end Managed

/-- A node has registered the versions up to `k`, and they are done: their events were handed over,
in rounds of calls that have ended. -/
structure Settled (r : Run) (i n k : Nat) : Prop where
  registered : ∀ v : Version, v.number.val ≤ k →
    ∃ c, ((r.fleet i).node n).history.catalog? v = some c ∧
      snapshot (r.fleet i).storage.log v.number.val = .ok c
  done : k ≤ ((r.fleet i).node n).mark.doneUntil.number.val
  announced : ∃ rounds : List Round, (r.fleet i).dispatched n = Round.calls rounds ∧
    eventsUpTo (r.fleet i).storage.log k <+: rounds.map Round.event ∧
    ∀ x ∈ rounds, x.event.version.number.val ≤ k →
      ∃ t rest, x.Made r n t rest ∧ x.Ended r i t rest

/-- Versions that are done are registered, and their events were handed over. -/
lemma settled_of_done {l : Nat} (hm : ∀ i, (r.moves i).sparesMarkOf n = true)
    (hl : (r.fleet i).Reached n l) (hk : k ≤ ((r.fleet i).node n).mark.doneUntil.number.val) :
    r.Settled i n k where
  registered v hv := by
    have le := Nat.le_trans hv (Nat.le_trans hk ((r.dispatches hm i).doneUntil_le hl))
    obtain ⟨c, hc, -⟩ := hl.snapshot (r.tracks i) le
    exact ⟨c, (hl.catalog? (r.tracks i) v c).2 ⟨le, hc⟩, hc⟩
  done := hk
  announced := by
    obtain ⟨rounds, h⟩ := r.exists_rounds hm i
    refine ⟨rounds, h.calls, (eventsUpTo_mono hk).trans (h.bounds hm).1, fun x hx hv => ?_⟩
    obtain ⟨hi, t, rest, made⟩ := h.made x hx
    exact ⟨t, rest, made, made.ended hm hi (Nat.le_trans hv hk)⟩

/-! ## Stops that return -/

/-- At this moment a stop of a node is asked for, as this task. -/
structure AsksStop (r : Run) (q n t : Nat) : Prop where
  move : ∃ skew, r.moves q = .request n skew .stop
  node : n < (r.fleet q).nodes.length
  task : t = (r.fleet q).tasks.length

lemma AsksStop.begins (ha : r.AsksStop q n t) :
    (r.fleet (q + 1)).tasks[t]? = some ⟨n, .stop, none⟩ := by
  obtain ⟨skew, hm⟩ := ha.move
  rw [ha.task]
  exact r.errand_begins hm ha.node rfl

/-- A stop is on its way, or has failed, or lets nobody wait any more. -/
lemma AsksStop.course (ha : r.AsksStop q n t) (hi : q < i) :
    ∃ x, (r.fleet i).tasks[t]? = some x ∧ x.node = n ∧
      (x.point.stage < 5 ∨ (∃ e, x.point = .ended (.failed e)) ∨
        x.point = .ended .done ∧ ∃ e, ((r.fleet i).node n).mark.failure = some e) := by
  induction hi with
  | refl => exact ⟨_, ha.begins, rfl, .inl (Nat.zero_lt_succ 4)⟩
  | @step i hi ih =>
    obtain ⟨x, hx, rfl, course⟩ := ih
    have placed := (r.plain i).placed t x hx
    rcases r.rests_or_steps hx with ⟨⟨y, hy, node, same⟩, -⟩ | ⟨-, hg⟩
    · refine ⟨y, hy, node, ?_⟩
      rw [same]
      exact course.imp id (.imp id fun ⟨ended, e, he⟩ =>
        ⟨ended, e, (r.kept (Nat.le_succ i) placed).failure e he⟩)
    · rcases course with going | ended
      · obtain ⟨p, hp, retreat⟩ := retreat_of_step (r.plain i) hx going hg
        exact ⟨_, hp, rfl, retreat.stage_lt_or_ended⟩
      · have past : x.outcome?.isSome := by
          rcases ended with ⟨e, failed⟩ | ⟨done, -⟩
          · rw [Task.outcome?, failed]
            rfl
          · rw [Task.outcome?, done]
            rfl
        rw [outcome_of_step hx hg] at past
        cases past

/-- When a stop has returned nobody waits any more. -/
lemma AsksStop.closed (ha : r.AsksStop q n t) (ho : (r.fleet i).outcome? t = some .done) :
    ∃ e, ((r.fleet i).node n).mark.failure = some e := by
  obtain ⟨x, hx, ended⟩ := Option.bind_eq_some_iff.1 ho
  have ended := Task.point_of_outcome ended
  have hi := r.lt_of_task (Nat.le_of_eq ha.task.symm) hx
  obtain ⟨y, hy, -, going | ⟨e, failed⟩ | ⟨-, closed⟩⟩ := ha.course hi
  · cases hx.symm.trans hy
    rw [ended] at going
    exact absurd going (Nat.lt_irrefl 5)
  · cases hx.symm.trans hy
    cases ended.symm.trans failed
  · exact closed

/-- A stop of a node has returned by this moment. -/
def Stopped (r : Run) (i n : Nat) : Prop :=
  ∃ q t, r.AsksStop q n t ∧ (r.fleet i).outcome? t = some .done

lemma Stopped.failed (h : r.Stopped i n) : ∃ e, ((r.fleet i).node n).mark.failure = some e := by
  obtain ⟨q, t, asks, returned⟩ := h
  exact asks.closed returned

/-! ## Statements that were accepted in time -/

section

variable {a : Nat} {st : Statement} {u : Update} {v : Version}

/-- What a step that lets nobody wait any more does to the watermark and the tasks of its node. -/
lemma step_closeMark (hm : r.moves i = .step t) (hx : (r.fleet i).tasks[t]? = some x)
    (hp : x.point = .closeMark) :
    (r.fleet (i + 1)).tasks = ((r.fleet i).tasks.mapIdx (Fleet.told .dropped
      (((r.fleet i).node x.node).mark.fail .stopped).2)).modify t
        fun x => { x with point := .ended .done, signal := none } := by
  have hg : (r.fleet i).step t = some ((r.fleet i).stepCloseMark t x.node) := by
    rw [Fleet.step, hx]
    simp only [hp]
  rw [r.fleet_of_step hm hg]
  exact (core_inj (core_stepCloseMark ..)).2.2.2.2.2.2

/-- A statement that was accepted before the storage was detached was accepted before all was
over. -/
lemma Accepts.lt_of_detaches (ha : r.Accepts a t st u)
    (hk : u.version.number.val ≤ (r.fleet c).storage.log.length) : a < c := by
  obtain ⟨-, -, -, hv, -⟩ := ha.serial
  refine Nat.lt_of_not_le fun hc => ?_
  have := (r.log_grows hc).length_le
  omega

/-- A statement whose version is one that was stored when the storage was detached is not dropped
when the node lets nobody wait any more. -/
lemma Managed.rescued (hr : r.Managed n s b) (ho : ∀ i, (r.fleet i).Orderly n)
    (hc : r.Detaches c) (hs : r.Starts q n st t) (ha : r.Accepts a t st u)
    (hk : u.version.number.val ≤ (r.fleet c).storage.log.length)
    (he : ((r.fleet i).node n).mark.failure = some e) :
    ∃ x, (r.fleet i).tasks[t]? = some x ∧ x.node = n ∧ (r.fleet i).Rescued u.version x := by
  have pos : 0 < u.version.number.val := by
    obtain ⟨-, -, -, hv, -⟩ := ha.serial
    omega
  have registered := fun i => registered_of_done (i := i) hr.spared pos
  -- The induction is on the moments. A node that has failed had failed before, or is closed now.
  induction i generalizing e with
  | zero => cases he
  | succ i ih =>
    cases hf : ((r.fleet i).node n).mark.failure with
    | some e' =>
      obtain ⟨x, hx, rfl, rescued⟩ := ih hf
      have kept := r.preserves i ((r.plain i).placed t x hx)
      rcases same_or_turn hx rescued.isStatement hf with same | ⟨p, hp, hturn⟩
      · exact ⟨x, same, rfl, rescued.stays kept⟩
      · exact ⟨_, hp, rfl, rescued.turn (r.waiting i) hx (registered i) kept hturn⟩
    | none =>
      rcases hr.failure_succ he with old | ⟨-, t', z, hm, hz, hzn, point⟩
      · cases old.symm.trans hf
      · -- The node lets nobody wait any more, and all is done by then.
        have closing := (ho i).closing t' z hz (by rw [point]; rfl)
        have hi : b ≤ i := Nat.le_of_lt (hr.lt_of_stops hz (by rw [point]; rfl))
        rw [point] at closing
        cases closing with
        | closes drained finished =>
          have done := finished.doneUntil (ho i).complete (r.dispatches hr.spared i)
            (hr.reached_of_drained hc drained hi)
          have hai := Nat.lt_trans (ha.lt_of_detaches hk) (hr.lt_of_free hc hi drained.detached)
          obtain ⟨x, hx, hxn, course⟩ := ha.course hr.spared hs hai
          have ne : t' ≠ t := by
            rintro rfl
            cases hz.symm.trans hx
            rw [point] at course
            cases course with
            | bound _ hb => cases hb
          subst hxn
          obtain ⟨-, node⟩ :=
            told_point .dropped (((r.fleet i).node x.node).mark.fail .stopped).2 t x
          refine ⟨told .dropped (((r.fleet i).node x.node).mark.fail .stopped).2 t x, ?_, node, ?_⟩
          · rw [step_closeMark hm hz point, hzn, List.getElem?_modify_ne _ _ ne, getElem?_told hx]
          · rcases course.halted (r.waiting i) hx hf .stopped with ⟨-, rescued⟩ | ⟨late, -⟩
            · refine rescued.stays ?_
              rw [node]
              exact r.preserves i ((r.plain i).placed t x hx)
            · exact absurd (show u.version.number.val ≤ _ from done ▸ hk) late

/-- Such a statement ends with its version and with nothing else. -/
lemma Managed.returns (hr : r.Managed n s b) (ho : ∀ i, (r.fleet i).Orderly n)
    (hc : r.Detaches c) (hs : r.Starts q n st t) (ha : r.Accepts a t st u)
    (hk : u.version.number.val ≤ (r.fleet c).storage.log.length) {o : Outcome}
    (ended : (r.fleet i).outcome? t = some o) : o = .version u.version := by
  have later := r.outcome (Nat.le_max_left i (a + 1)) ended
  have hai : a < max i (a + 1) := Nat.lt_of_lt_of_le (Nat.lt_succ_self a) (Nat.le_max_right ..)
  generalize max i (a + 1) = m at later hai
  cases hf : ((r.fleet m).node n).mark.failure with
  | some e =>
    obtain ⟨x, hx, -, rescued⟩ := hr.rescued ho hc hs ha hk hf
    exact rescued.outcome hx later
  | none =>
    obtain ⟨x, hx, -, course⟩ := ha.course hr.spared hs hai
    rw [outcome?, hx, Option.bind_some] at later
    rw [Task.point_of_outcome later] at course
    cases course with
    | bound _ hb =>
      cases hb
      rfl
    | failed he => cases hf.symm.trans he

/-- None of the tasks of a node can go on, and none of the calls of its dispatcher are pending. The
log has room for another version, as every log has that fits in memory. -/
structure Idle (r : Run) (i n : Nat) : Prop where
  answered : ∀ (t : Nat) (event : Event) (v : Version) (rest : List Event) (names : List String),
    ¬ (r.fleet i).Gathers n t event (.dispatch v rest) names
  stuck : ∀ (t : Nat) (x : Task), (r.fleet i).tasks[t]? = some x → x.node = n →
    (r.fleet i).step t = none
  room : (r.fleet i).storage.log.length + 1 < 18_446_744_073_709_551_616

/-- When none of the tasks of a node can go on after the storage was detached, the node has
registered what was stored by then, and all of that is done. -/
lemma Managed.idle (hr : r.Managed n s b) (h : (r.fleet i).Orderly n) (hc : r.Detaches c)
    (hi : c < i) (idle : r.Idle i n) :
    (r.fleet i).Reached n (r.fleet c).storage.log.length ∧
      ((r.fleet i).node n).mark.doneUntil.number.val = (r.fleet c).storage.log.length := by
  obtain ⟨y, hy, receiver, account, -⟩ := hr.account hc (Nat.le_of_lt hi)
  obtain ⟨log, stops⟩ := hc.stops
  obtain ⟨z, hz, -, x, hx, hxn⟩ :=
    hr.delivery (Nat.le_trans (Nat.le_of_lt (hr.lt_of_stopsLog stops)) (Nat.le_of_lt hi))
  rw [hy] at hz
  cases hz
  have reached := hr.reached receiver account (account.drained (idle.stuck _ x hx hxn))
  have dispatches := r.dispatches hr.spared i
  obtain ⟨d, hd⟩ := dispatches.started reached.started
  obtain ⟨w, hw, hwn, -⟩ := dispatches.placed d hd
  have complete := h.complete d w _ hd hw reached
  refine ⟨reached, ?_⟩
  rcases complete.ended with works | ⟨point, -⟩ | ⟨-, full⟩
  · exact done_of_stuck hd hw hwn works complete.leads idle.answered (idle.stuck _ w hw hwn)
  · rw [point] at complete
    exact complete.doneUntil
  · have := dispatches.doneUntil_le reached
    have := reached.follows.le
    have := idle.room
    omega

/-! ## When a stop has returned, or the node is at rest -/

/-- The node comes to rest with all done that was stored when the storage was detached. -/
lemma Managed.settled (hr : r.Managed n s b) (ho : ∀ i, (r.fleet i).Orderly n)
    (hc : r.Detaches c) (hi : r.Stopped i n ∨ c < i ∧ r.Idle i n) :
    c < i ∧ r.Settled i n (r.fleet c).storage.log.length := by
  have rests : c < i ∧ (r.fleet i).Reached n (r.fleet c).storage.log.length ∧
      ((r.fleet i).node n).mark.doneUntil.number.val = (r.fleet c).storage.log.length := by
    rcases hi with stopped | ⟨hci, idle⟩
    · obtain ⟨e, he⟩ := stopped.failed
      exact hr.done_of_failure (ho i) hc he
    · exact ⟨hci, hr.idle (ho i) hc hci idle⟩
  obtain ⟨hci, reached, done⟩ := rests
  exact ⟨hci, settled_of_done hr.spared reached (Nat.le_of_eq done.symm)⟩

/-- When a stop has returned, a statement that was accepted in time does not wait any more without
having been released. -/
lemma Managed.told {w : Version} {p : Purpose} (hr : r.Managed n s b)
    (ho : ∀ i, (r.fleet i).Orderly n) (hc : r.Detaches c) (hs : r.Starts q n st t)
    (ha : r.Accepts a t st u) (hk : u.version.number.val ≤ (r.fleet c).storage.log.length)
    (stopped : r.Stopped i n) (hx : (r.fleet i).tasks[t]? = some x)
    (hp : x.point = .awaiting w p) : x.signal = some .released := by
  obtain ⟨e, he⟩ := stopped.failed
  obtain ⟨y, hy, -, rescued⟩ := hr.rescued ho hc hs ha hk he
  cases hx.symm.trans hy
  cases rescued with
  | asks point _ => cases hp.symm.trans point
  | told _ released => exact released
  | bound bound =>
    rw [hp] at bound
    cases bound

/-- A statement that was accepted in time can then go on until it has returned, or sleeps. -/
lemma Managed.rests (hr : r.Managed n s b) (ho : ∀ i, (r.fleet i).Orderly n)
    (hc : r.Detaches c) (hs : r.Starts q n st t) (ha : r.Accepts a t st u)
    (hk : u.version.number.val ≤ (r.fleet c).storage.log.length)
    (hi : r.Stopped i n ∨ c < i ∧ r.Idle i n) (stuck : (r.fleet i).step t = none) :
    (r.fleet i).outcome? t = some (.version u.version) ∨ (r.fleet i).SleepsFor t n u.version := by
  obtain ⟨hci, settled⟩ := hr.settled ho hc hi
  cases hf : ((r.fleet i).node n).mark.failure with
  | some e =>
    obtain ⟨x, hx, rfl, rescued⟩ := hr.rescued ho hc hs ha hk hf
    exact rescued.rests hx stuck
  | none =>
    obtain ⟨x, hx, rfl, course⟩ :=
      ha.course hr.spared hs (Nat.lt_trans (ha.lt_of_detaches hk) hci)
    rcases course.rests (r.waiting i) hx hf stuck with ⟨-, ended⟩ | ⟨late, -⟩
    · exact ended
    · exact absurd (Nat.le_trans hk settled.done) late

end

end Run

end SchemaCatalog
