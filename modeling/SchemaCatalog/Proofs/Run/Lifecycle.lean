import SchemaCatalog.Proofs.Fleet.Stages
import SchemaCatalog.Proofs.Run.Stopping

/-!
# A node that is managed alone

Where nothing is started and stopped but one node, whatever stops something is a stop of that node,
and the storage begins one delivery at most, that of the node. A node that was started with success
and is never halted is attended then until it is first stopped. From that moment on no update is
passed on any more, and the node has registered all that was committed by then once its delivery has
ended (`Managed.reached`).
-/

namespace SchemaCatalog

/-- Whether a move leaves it to one node to be started and stopped. -/
def Move.managesOnly (n : Nat) : Move → Bool
  | .request k _ .start => k = n
  | .request k _ .stop => k = n
  | .request _ _ (.startLog _) => false
  | .request _ _ (.stopLog _) => false
  | _ => true

/-- What is asked to start or stop then is that node. -/
lemma Move.errand_of_managesOnly {n k : Nat} {skew : Duration} {q : Request} {p : Point}
    (h : (Move.request k skew q).managesOnly n = true) (hq : q.errand? = some p) :
    k = n ∧ (p = .start ∨ p = .stop) := by
  cases q with
  | start =>
    cases hq
    exact ⟨of_decide_eq_true h, .inl rfl⟩
  | stop =>
    cases hq
    exact ⟨of_decide_eq_true h, .inr rfl⟩
  | startLog _ => cases h
  | stopLog _ => cases h
  | _ => cases hq

namespace Fleet

/-- The storage has begun no delivery before this node was started, and begins one at most. -/
structure BeginsOnce (f : Fleet) (n : Nat) : Prop where
  unstarted : (f.node n).started = false → f.deliveries = []
  linking : ∀ (t : Nat) (x : Task), f.tasks[t]? = some x → x.point = .startLink →
    (f.node n).started = true ∧ f.deliveries = [] ∧
      ∀ (s : Nat) (y : Task), f.tasks[s]? = some y → y.point = .startLink → s = t
  sole : f.deliveries.length ≤ 1

/-- The storage feeds nobody any more, and the delivery that it fed has ended. -/
structure Drained (f : Fleet) : Prop where
  detached : f.sink = none
  ended : ∃ y, f.deliveries = [y] ∧ (f.outcome? y.task).isSome

/-- Nothing is handed over any more where the delivery has ended. -/
lemma Drained.not_handsTo {f : Fleet} (h : f.Drained) (ht : f.Tracks) (t n : Nat) :
    ¬ f.HandsTo t n := by
  rintro ⟨x, d, y, hx, hxd, hy, -⟩
  obtain ⟨z, hz, ended⟩ := h.ended
  rw [hz] at hy
  obtain rfl := List.mem_singleton.1 (List.mem_of_getElem? hy)
  rw [ht.task_of_delivery hx hxd (hz ▸ hy), outcome?, hx, Option.bind_some, Task.outcome?, hxd]
    at ended
  cases ended

end Fleet

namespace Run

open Fleet

variable {r : Run} {n i j t log d : Nat} {x : Task} {h : Receiver}

/-! ## Tasks that start and stop the node -/

/-- Whoever stops something stops that node. -/
lemma stopper (hm : ∀ i, (r.moves i).managesOnly n = true) (hx : (r.fleet i).tasks[t]? = some x)
    (hs : x.point.stops = true) : x.node = n ∧ x.point.stage < 5 := by
  induction i generalizing x with
  | zero => cases hx
  | succ i ih =>
    rcases (r.asked i).stops t x hx hs with ⟨z, hz, hzs⟩ | ⟨skew, q, move, errand, -⟩
    · obtain ⟨node, stage⟩ := ih hz hzs
      rcases r.rests_or_steps hz with ⟨⟨y, hy, hyn, hyp⟩, -⟩ | ⟨-, hg⟩
      · cases hx.symm.trans hy
        exact ⟨hyn.trans node, hyp ▸ stage⟩
      · obtain ⟨p, hp, retreat⟩ := retreat_of_step (r.plain i) hz stage hg
        cases hx.symm.trans hp
        rcases retreat.stage_lt_or_ended with going | ⟨e, rfl⟩ | ⟨rfl, -⟩
        · exact ⟨node, going⟩
        · cases hs
        · cases hs
    · obtain ⟨node, start | stop⟩ := Move.errand_of_managesOnly (move ▸ hm i) errand
      · rw [start] at hs
        cases hs
      · exact ⟨node, stop ▸ Nat.zero_lt_succ 4⟩

/-- Whoever starts something starts that node. -/
lemma starter (hm : ∀ i, (r.moves i).managesOnly n = true) (hx : (r.fleet i).tasks[t]? = some x)
    (hs : x.point.starts = true) : x.node = n ∧ (x.point = .start ∨ x.point = .startLink) := by
  induction i generalizing x with
  | zero => cases hx
  | succ i ih =>
    rcases (r.asked i).starts t x hx hs with ⟨z, hz, hzs⟩ | ⟨skew, q, move, errand, -⟩
    · obtain ⟨node, point⟩ := ih hz hzs
      rcases r.rests_or_steps hz with ⟨⟨y, hy, hyn, hyp⟩, -⟩ | ⟨-, hg⟩
      · cases hx.symm.trans hy
        exact ⟨hyn.trans node, hyp ▸ point⟩
      · obtain ⟨y, hy, hyn, -⟩ := (r.frame i).task t z hz
        cases hx.symm.trans hy
        exact ⟨hyn.trans node, .inr (start_of_step (r.plain i) hz hg hx hs).1⟩
    · obtain ⟨node, start | stop⟩ := Move.errand_of_managesOnly (move ▸ hm i) errand
      · exact ⟨node, .inl start⟩
      · rw [stop] at hs
        cases hs

/-! ## The delivery that begins -/

/-- There is another delivery after a move, and a storage that fed nobody feeds somebody, only if
the move begins a delivery. -/
lemma deliveries_succ (r : Run) (i : Nat) :
    (r.fleet (i + 1)).deliveries.length = (r.fleet i).deliveries.length ∧
        ((r.fleet i).sink = none → (r.fleet (i + 1)).sink = none) ∨
      (∃ log h, r.Begins i log (r.fleet i).deliveries.length h) ∧
        (r.fleet (i + 1)).deliveries.length = (r.fleet i).deliveries.length + 1 := by
  obtain ⟨k, -, supply, e⟩ := r.supply i
  obtain ⟨-, -, sink, -, deliveries, -, -⟩ := core_inj e
  rw [sink, deliveries]
  cases supply with
  | rests _ _ sink deliveries => exact .inl ⟨congrArg List.length deliveries, sink.trans⟩
  | feeds _ _ sink deliveries => exact .inl ⟨deliveries ▸ length_fed .., sink.trans⟩
  | begins _ hm hx hs receiver free _ _ deliveries =>
    refine .inr ⟨⟨_, _, ⟨_, _, hm, hx, hs⟩, receiver, free, rfl⟩, ?_⟩
    rw [deliveries, List.length_append]
    rfl
  | detaches _ _ _ _ _ sink deliveries => exact .inl ⟨deliveries ▸ length_detached, fun _ => sink⟩
  | delivers _ _ _ _ hd => exact .inl ⟨hd.length_deliveries, hd.fields.2.1.trans⟩

/-- Every delivery was begun. -/
lemma exists_begins {y : Delivery} (hy : (r.fleet i).deliveries[d]? = some y) :
    ∃ a log h, a < i ∧ r.Begins a log d h := by
  induction i generalizing y with
  | zero => cases hy
  | succ i ih =>
    cases hz : (r.fleet i).deliveries[d]? with
    | some z =>
      obtain ⟨a, log, h, ha, hb⟩ := ih hz
      exact ⟨a, log, h, Nat.lt_succ_of_lt ha, hb⟩
    | none =>
      obtain ⟨lt, -⟩ := List.getElem?_eq_some_iff.1 hy
      have le := List.getElem?_eq_none_iff.1 hz
      rcases r.deliveries_succ i with ⟨same, -⟩ | ⟨⟨log, h, hb⟩, more⟩
      · omega
      · obtain rfl : d = (r.fleet i).deliveries.length := by omega
        exact ⟨i, log, h, Nat.lt_succ_self i, hb⟩

/-- What begins a delivery is the start of the log of the node. -/
lemma Begins.startLink (hm : ∀ i, (r.moves i).managesOnly n = true) (hb : r.Begins i log d h) :
    ∃ t x, r.moves i = .step t ∧ (r.fleet i).tasks[t]? = some x ∧ x.node = n ∧
      x.point = .startLink ∧ ((r.fleet i).node n).link.log? = some log := by
  obtain ⟨t, x, move, hx, point | ⟨point, link⟩⟩ := hb.starts
  · obtain ⟨-, other | other⟩ := starter hm hx (by rw [point]; rfl)
    · cases point.symm.trans other
    · cases point.symm.trans other
  · obtain ⟨node, -⟩ := starter hm hx (by rw [point]; rfl)
    exact ⟨t, x, move, hx, node, point, node ▸ link⟩

/-- A task that starts the log of the node after a move stood there before it, or starts a node that
was not started. -/
lemma startLink_cases (hm : ∀ i, (r.moves i).managesOnly n = true)
    (hx : (r.fleet (i + 1)).tasks[t]? = some x) (hp : x.point = .startLink) :
    (∃ z, (r.fleet i).tasks[t]? = some z ∧ z.point = .startLink ∧
        (r.moves i = .step t → (r.fleet i).step t = none)) ∨
      ∃ z, r.moves i = .step t ∧ (r.fleet i).step t = some (r.fleet (i + 1)) ∧
        (r.fleet i).tasks[t]? = some z ∧ z.node = n ∧ z.point = .start ∧
        ((r.fleet i).node n).started = false := by
  have hs : x.point.starts = true := by rw [hp]; rfl
  rcases (r.asked i).starts t x hx hs with ⟨z, hz, hzs⟩ | ⟨skew, q, move, errand, -⟩
  · rcases r.rests_or_steps hz with ⟨⟨y, hy, -, hyp⟩, stuck⟩ | ⟨move, hg⟩
    · cases hx.symm.trans hy
      exact .inl ⟨z, hz, hyp ▸ hp, stuck⟩
    · obtain ⟨-, start, unstarted⟩ := start_of_step (r.plain i) hz hg hx hs
      obtain ⟨node, -⟩ := starter hm hz hzs
      exact .inr ⟨z, move, hg, hz, node, start, node ▸ unstarted⟩
  · obtain ⟨-, start | stop⟩ := Move.errand_of_managesOnly (move ▸ hm i) errand
    · cases hp.symm.trans start
    · cases hp.symm.trans stop

lemma started_stays (hij : i ≤ j) (hs : ((r.fleet i).node n).started = true) :
    ((r.fleet j).node n).started = true :=
  (r.kept hij (lt_of_started hs)).started hs

/-- A node is started once its task has come to start its log. -/
lemma started_of_start (hm : ∀ i, (r.moves i).sparesMarkOf n = true)
    (hg : (r.fleet i).step t = some (r.fleet (i + 1))) (hx : (r.fleet i).tasks[t]? = some x)
    (hn : x.node = n) (hp : x.point = .start) {y : Task}
    (hy : (r.fleet (i + 1)).tasks[t]? = some y) (hyp : y.point = .startLink) :
    ((r.fleet (i + 1)).node n).started = true := by
  subst hn
  have placed := (r.plain i).placed t x hx
  obtain ⟨l, lg, hl, hlg⟩ := r.linked i placed
  obtain ⟨z, hz, ⟨e, failed⟩ | ⟨-, -, d, hd, -⟩⟩ := step_start placed hl hlg hx hp hg
  · cases hy.symm.trans hz
    cases hyp.symm.trans failed
  · exact (r.dispatches hm (i + 1)).started_of_dispatch hd

lemma beginsOnce (hm : ∀ i, (r.moves i).sparesMarkOf n = true)
    (ha : ∀ i, (r.moves i).managesOnly n = true) (i : Nat) : (r.fleet i).BeginsOnce n := by
  induction i with
  | zero => exact ⟨fun _ => rfl, fun _ _ hx => (by cases hx), Nat.zero_le 1⟩
  | succ i ih =>
    -- The node is started once, and the task that starts its log is the one that started it.
    have before (hs : ((r.fleet (i + 1)).node n).started = false) :
        ((r.fleet i).node n).started = false :=
      Bool.eq_false_iff.2 fun hs' =>
        Bool.false_ne_true (hs.symm.trans (started_stays (Nat.le_succ i) hs'))
    rcases r.deliveries_succ i with ⟨same, -⟩ | ⟨⟨log, h, hb⟩, more⟩
    · have nothing (none : (r.fleet i).deliveries = []) : (r.fleet (i + 1)).deliveries = [] := by
        rw [none] at same
        exact List.length_eq_zero_iff.1 same
      refine ⟨fun hs => nothing (ih.unstarted (before hs)), fun t x hx hp => ?_,
        same ▸ ih.sole⟩
      rcases startLink_cases ha hx hp with ⟨z, hz, hzp, -⟩ | ⟨z, move, hg, hz, hzn, hzp, unstarted⟩
      · obtain ⟨started, none, unique⟩ := ih.linking t z hz hzp
        refine ⟨started_stays (Nat.le_succ i) started, nothing none, fun s y hy hyp => ?_⟩
        rcases startLink_cases ha hy hyp with ⟨w, hw, hwp, -⟩ | ⟨w, -, -, -, -, -, unstarted⟩
        · exact unique s w hw hwp
        · cases unstarted.symm.trans started
      · refine ⟨started_of_start hm hg hz hzn hzp hx hp, nothing (ih.unstarted unstarted),
          fun s y hy hyp => ?_⟩
        rcases startLink_cases ha hy hyp with ⟨w, hw, hwp, -⟩ | ⟨w, move', -⟩
        · cases unstarted.symm.trans (ih.linking s w hw hwp).1
        · cases move.symm.trans move'
          rfl
    · obtain ⟨t, x, move, hx, -, hp, -⟩ := hb.startLink ha
      obtain ⟨started, none, unique⟩ := ih.linking t x hx hp
      refine ⟨fun hs => ?_, fun s y hy hyp => ?_, ?_⟩
      · cases (before hs).symm.trans started
      · -- The task that starts the log leaves that point, and no other one stands there.
        rcases startLink_cases ha hy hyp with ⟨w, hw, hwp, stuck⟩ | ⟨w, -, -, -, -, -, unstarted⟩
        · obtain rfl := unique s w hw hwp
          have stuck := stuck move
          rw [step, hx] at stuck
          simp only [hp] at stuck
          cases stuck
        · cases unstarted.symm.trans started
      · rw [more, none]
        exact Nat.le_refl 1

/-! ## A node that was started -/

/-- A node drives its own watermark, nothing is started and stopped but the node, and it is never
halted. It was asked to start at `s`, which had succeeded by `b`, and nobody asked to stop it
before. -/
structure Managed (r : Run) (n s b : Nat) : Prop where
  spared : ∀ i, (r.moves i).sparesMarkOf n = true
  alone : ∀ i, (r.moves i).managesOnly n = true
  unhalted : ∀ i k, ¬ r.StopsAt i n k
  asked : ∃ skew, r.moves s = .request n skew .start
  node : n < (r.fleet s).nodes.length
  returned : (r.fleet b).outcome? (r.fleet s).tasks.length = some .done
  unstopped : ∀ j < b, (r.moves j).stops = false

/-- Where the moves that are made manage a node and everything that is stored applies, the node is
managed in the whole run. -/
lemma managed_ofMoves {c : Clock} {l : List Move} {fit : OffersFit (Fleet.ofClock c) l} {s b : Nat}
    (moves : ∀ m ∈ l, m.sparesMarkOf n = true ∧ m.managesOnly n = true)
    (applies : ∀ i < l.length + 1, (snapshot ((ofMoves c l fit).fleet i).storage.log
      ((ofMoves c l fit).fleet i).storage.log.length).toOption.isSome = true)
    (asked : ∃ skew, (ofMoves c l fit).moves s = .request n skew .start)
    (node : n < ((ofMoves c l fit).fleet s).nodes.length)
    (returned : ((ofMoves c l fit).fleet b).outcome? ((ofMoves c l fit).fleet s).tasks.length =
      some .done)
    (unstopped : ∀ j < b, ((ofMoves c l fit).moves j).stops = false) :
    (ofMoves c l fit).Managed n s b where
  spared := moves_ofMoves (fun m hm => (moves m hm).1) rfl
  alone := moves_ofMoves (fun m hm => (moves m hm).2) rfl
  unhalted _ _ := not_stopsAt _ (fleet_ofMoves (P := fun f =>
    (snapshot f.storage.log f.storage.log.length).toOption.isSome = true) applies)
  asked := asked
  node := node
  returned := returned
  unstopped := unstopped

/-- A delivery to a node that ends with something left to hand over stops short. -/
lemma stopsAt_of_hands (hm : r.moves i = .step t) (hh : (r.fleet i).HandsTo t n)
    (ho : (r.fleet (i + 1)).outcome? t = some .done) : ∃ k, r.StopsAt i n k := by
  obtain ⟨k, hk⟩ := hh.reached (r.tracks i)
  exact ⟨k, t, hm, hh, hk, ho⟩

/-- A node on which a delivery fails is halted. -/
lemma stopsAt_of_fails {y : Delivery} (hf : r.Fails i d)
    (hy : (r.fleet i).deliveries[d]? = some y) (hr : y.receiver = .node n) :
    ∃ k, r.StopsAt i n k := by
  cases hm : r.moves i with
  | step t =>
    rw [Run.Fails, hm] at hf
    obtain ⟨hands, ended⟩ := hf
    obtain ⟨e, he⟩ := List.exists_mem_of_ne_nil _ hands
    obtain ⟨_, x, z, rest, ⟨⟩, hx, hxd, hz, hq⟩ := mem_handsOver he
    cases hy.symm.trans hz
    obtain ⟨g, effect, core⟩ := effect_of_front hm hx hxd hy hq
    refine stopsAt_of_hands hm ⟨x, d, y, hx, hxd, hy, hr, hq ▸ List.cons_ne_nil _ _⟩ ?_
    have same : (r.fleet (i + 1)).outcome? t = g.outcome? t := by
      rw [outcome?, outcome?, (core_inj core).2.2.2.2.2.2]
    rw [same] at ended ⊢
    rcases handed_of_effect effect hxd hy hq hr with ⟨_, -, rfl⟩ | ⟨_, -, rfl⟩
    · rw [outcome?, hx, Option.bind_some, Task.outcome?, hxd] at ended
      cases ended
    · exact outcome?_moveTo (getElem?_told hx) rfl
  | _ =>
    rw [Run.Fails, hm] at hf
    exact hf.elim

/-- At this moment a log is stopped for the first time. -/
structure Detaches (r : Run) (c : Nat) : Prop where
  stops : ∃ log, r.StopsLog c log
  first : ∀ j < c, ∀ log, ¬ r.StopsLog j log

lemma Detaches.unique {c : Nat} (hi : r.Detaches i) (hc : r.Detaches c) : i = c := by
  obtain ⟨log, stops⟩ := hi.stops
  obtain ⟨log', stops'⟩ := hc.stops
  rcases Nat.lt_trichotomy i c with lt | e | lt
  · exact absurd stops (hc.first i lt log)
  · exact e
  · exact absurd stops' (hi.first c lt log')

namespace Managed

variable {s b c k : Nat}

/-- No delivery to the node ends with something left to hand over. -/
lemma not_stops_short {g : Fleet} (hr : r.Managed n s b) (hm : r.moves i = .step t)
    (hands : (r.fleet i).HandsTo t n) (tasks : (r.fleet (i + 1)).tasks = g.tasks) :
    g.outcome? t ≠ some .done := by
  intro ended
  rw [outcome?, ← tasks] at ended
  obtain ⟨k, halted⟩ := stopsAt_of_hands hm hands ended
  exact hr.unhalted i k halted

/-- The watermark of the node fails only as the node lets nobody wait any more. -/
lemma failure_succ {e : Error} (hr : r.Managed n s b)
    (he : ((r.fleet (i + 1)).node n).mark.failure = some e) :
    ((r.fleet i).node n).mark.failure = some e ∨
      e = .stopped ∧ ∃ t x, r.moves i = .step t ∧ (r.fleet i).tasks[t]? = some x ∧
        x.node = n ∧ x.point = .closeMark := by
  obtain ⟨k, hk, core⟩ := r.change i
  obtain ⟨-, -, -, -, -, nodes, tasks⟩ := core_inj core
  rw [node_congr nodes] at he
  rcases fails_of_change hk he with old | ⟨t, x, hm, hx, fails⟩ | ⟨skew, hm⟩
  · exact .inl old
  · cases fails with
    | closed point node => exact .inr ⟨rfl, t, x, hm, hx, node, point⟩
    | halted hands _ ended => exact absurd ended (hr.not_stops_short hm hands tasks)
  · have spared := hr.spared i
    rw [hm] at spared
    exact absurd rfl (of_decide_eq_true spared)

lemma healthy (hr : r.Managed n s b) (hi : i ≤ b) :
    ((r.fleet i).node n).mark.failure = none := by
  induction i with
  | zero => rfl
  | succ i ih =>
    cases he : ((r.fleet (i + 1)).node n).mark.failure with
    | none => rfl
    | some e =>
      rcases hr.failure_succ he with old | ⟨-, t, x, -, hx, -, point⟩
      · cases old.symm.trans (ih (Nat.le_of_succ_le hi))
      · have still := Run.unstopped
          (fun j hj => hr.unstopped j (Nat.lt_trans hj hi)) t x hx
        rw [point] at still
        cases still

/-- Whatever stops the node was asked for after its start had succeeded. -/
lemma lt_of_stops (hr : r.Managed n s b) (hx : (r.fleet i).tasks[t]? = some x)
    (hs : x.point.stops = true) : b < i := by
  refine Nat.lt_of_not_le fun hi => ?_
  rw [Run.unstopped (fun j hj => hr.unstopped j (Nat.lt_of_lt_of_le hj hi)) t x hx] at hs
  cases hs

lemma lt_of_stopsLog (hr : r.Managed n s b) (hs : r.StopsLog i log) : b < i := by
  obtain ⟨t, x, -, hx, hs⟩ := hs
  exact hr.lt_of_stops hx hs.stops

lemma lt (hr : r.Managed n s b) : s < b := by
  obtain ⟨x, hx, -⟩ := Option.bind_eq_some_iff.1 hr.returned
  exact r.lt_of_task (Nat.le_refl _) hx

/-- The node is attended when its start has succeeded. -/
lemma attended (hr : r.Managed n s b) : (r.fleet b).Attended n := by
  obtain ⟨skew, move⟩ := hr.asked
  obtain ⟨x, hx, rfl, starting⟩ := starting move hr.node hr.lt hr.unstopped
    (hr.healthy (Nat.le_refl b))
  have ended := hr.returned
  rw [outcome?, hx, Option.bind_some] at ended
  have ended := Task.point_of_outcome ended
  cases starting with
  | begins point => cases point.symm.trans ended
  | links point _ _ => cases point.symm.trans ended
  | failed point => cases point.symm.trans ended
  | attends attended => exact attended

/-- The storage has begun a delivery to the node by then. -/
lemma begins (hr : r.Managed n s b) : ∃ a log, a < b ∧ r.Begins a log 0 (.node n) := by
  obtain ⟨d, y, x, feeding⟩ := hr.attended.feeds
  obtain ⟨a, log, h, ha, hb⟩ := exists_begins feeding.delivery
  obtain ⟨z, hz, receiver⟩ := hb.delivery_of_lt ha
  cases feeding.delivery.symm.trans hz
  cases feeding.receiver.symm.trans receiver
  have sole := (beginsOnce hr.spared hr.alone b).sole
  have lt := (List.getElem?_eq_some_iff.1 feeding.delivery).1
  obtain rfl : d = 0 := by omega
  exact ⟨a, log, ha, hb⟩

/-- There is that delivery from then on and no other, and its task is one of the node. -/
lemma delivery (hr : r.Managed n s b) (hi : b ≤ i) : ∃ y, (r.fleet i).deliveries = [y] ∧
    y.receiver = .node n ∧ ∃ x, (r.fleet i).tasks[y.task]? = some x ∧ x.node = n := by
  obtain ⟨d, y, x, feeding⟩ := hr.attended.feeds
  obtain ⟨z, hz, receiver, task⟩ := delivery_stays hi feeding.delivery
  obtain ⟨w, hw, node⟩ := r.task_stays hi feeding.task
  have sole := (beginsOnce hr.spared hr.alone i).sole
  match hl : (r.fleet i).deliveries with
  | [] =>
    rw [hl] at hz
    cases hz
  | [u] =>
    rw [hl] at hz
    obtain rfl := List.mem_singleton.1 (List.mem_of_getElem? hz)
    exact ⟨z, rfl, receiver.trans feeding.receiver, w, task ▸ hw, node.trans feeding.node⟩
  | _ :: _ :: _ =>
    rw [hl] at sole
    exact absurd sole (by simp)

lemma started (hr : r.Managed n s b) (hi : b ≤ i) : ((r.fleet i).node n).started = true := by
  obtain ⟨d, hd, -⟩ := hr.attended.takes
  exact started_stays hi ((r.dispatches hr.spared b).started_of_dispatch hd)

/-- The node does not fail on what is handed to it. -/
lemma fine (hr : r.Managed n s b) (i : Nat) : ¬ r.Fails i 0 := by
  intro fails
  obtain ⟨a, log, -, hb⟩ := hr.begins
  cases hm : r.moves i with
  | step t =>
    have hands := fails
    rw [Run.Fails, hm] at hands
    obtain ⟨e, he⟩ := List.exists_mem_of_ne_nil _ hands.1
    obtain ⟨_, x, y, rest, -, -, -, hy, -⟩ := mem_handsOver he
    have ha : a < i := by
      refine Nat.lt_of_not_le fun hi => ?_
      rw [absent_before hi hb.absent] at hy
      cases hy
    obtain ⟨z, hz, receiver⟩ := hb.delivery_of_lt ha
    cases hy.symm.trans hz
    obtain ⟨k, halted⟩ := stopsAt_of_fails fails hy receiver
    exact hr.unhalted i k halted
  | _ =>
    rw [Run.Fails, hm] at fails
    exact fails.elim

/-! ## Until the storage is detached -/

/-- What the delivery was given after the storage was detached is what was stored by then. -/
lemma account (hr : r.Managed n s b) (hc : r.Detaches c) (hi : c ≤ i) :
    ∃ y, (r.fleet i).deliveries = [y] ∧ y.receiver = .node n ∧
      (r.fleet i).Account 0 y (r.handed 0 i) (r.fleet c).storage.entries ∧
      ((r.fleet i).sink = some 0 ↔ c = i) := by
  obtain ⟨a, log, ha, hb⟩ := hr.begins
  obtain ⟨log', hs⟩ := hc.stops
  have hbc := hr.lt_of_stopsLog hs
  obtain ⟨y, receiver, account, sink⟩ := hb.account
    (i := i) ⟨Nat.lt_trans ha hbc, hi, fun j log _ hj => hc.first j hj log, .inr ⟨log', hs⟩⟩
    fun j _ => hr.fine j
  obtain ⟨z, hz, -⟩ := hr.delivery (Nat.le_trans (Nat.le_of_lt hbc) hi)
  have same := account.delivery
  rw [hz] at same
  cases same
  exact ⟨y, hz, receiver, account, sink⟩

/-- Where the storage feeds nobody, it was detached. -/
lemma exists_detaches (hr : r.Managed n s b) (hi : b ≤ i) (free : (r.fleet i).sink = none) :
    ∃ c, c < i ∧ r.Detaches c := by
  obtain ⟨a, log, ha, hb⟩ := hr.begins
  obtain ⟨c, hc⟩ := exists_fedUntil (Nat.lt_of_lt_of_le ha hi)
  obtain ⟨y, -, -, fed⟩ := hb.account hc fun j _ => hr.fine j
  have ne : c ≠ i := fun e => by
    rw [fed.2 e] at free
    cases free
  refine ⟨c, Nat.lt_of_le_of_ne hc.le ne, hc.last.resolve_left ne, fun j hj log hs => ?_⟩
  exact hc.unstopped j log (Nat.lt_trans ha (hr.lt_of_stopsLog hs)) hj hs

/-- The storage feeds the node until it is detached. -/
lemma lt_of_free (hr : r.Managed n s b) (hc : r.Detaches c) (hi : b ≤ i)
    (free : (r.fleet i).sink = none) : c < i := by
  obtain ⟨c', hc', detaches⟩ := hr.exists_detaches hi free
  refine Nat.lt_of_not_le fun le => ?_
  obtain ⟨log, hs⟩ := detaches.stops
  exact hc.first c' (Nat.lt_of_lt_of_le hc' le) log hs

/-- The storage is detached by the move that leaves it to feed nobody. -/
lemma detaches_of_sink (hr : r.Managed n s b) (hi : b ≤ i)
    (fed : (r.fleet i).sink = some 0) (free : (r.fleet (i + 1)).sink = none) : r.Detaches i := by
  obtain ⟨c, hc, detaches⟩ := hr.exists_detaches (Nat.le_succ_of_le hi) free
  obtain ⟨y, -, -, -, at_end⟩ := hr.account detaches (Nat.le_of_lt_succ hc)
  cases at_end.1 fed
  exact detaches

lemma sole (hr : r.Managed n s b) (i : Nat) : (r.fleet i).Sole n 0 := by
  intro d y hy _
  have sole := (beginsOnce hr.spared hr.alone i).sole
  have lt := (List.getElem?_eq_some_iff.1 hy).1
  omega

/-- The node has registered what was stored when the storage was detached once its delivery has
handed everything over. -/
lemma reached {y : Delivery} (hr : r.Managed n s b) (hy : y.receiver = .node n)
    (account : (r.fleet i).Account 0 y (r.handed 0 i) (r.fleet c).storage.entries)
    (empty : y.queue = []) : (r.fleet i).Reached n (r.fleet c).storage.log.length := by
  obtain ⟨k, le, hk⟩ := account.reached n hy
  have ge := reached_le hr.spared (hr.sole i) hk
  have all := account.balance
  rw [empty, List.append_nil] at all
  rw [all] at le ge
  rw [(r.tracks c).sound.length, Nat.le_antisymm le ge]
  exact hk

lemma reached_of_drained (hr : r.Managed n s b) (hc : r.Detaches c) (h : (r.fleet i).Drained)
    (hi : b ≤ i) : (r.fleet i).Reached n (r.fleet c).storage.log.length := by
  obtain ⟨y, hy, receiver, account, -⟩ := hr.account hc
    (Nat.le_of_lt (hr.lt_of_free hc hi h.detached))
  obtain ⟨z, hz, ended⟩ := h.ended
  rw [hy] at hz
  cases hz
  rcases account.going with ⟨x, hx, point⟩ | ⟨empty, -⟩
  · rw [outcome?, hx, Option.bind_some, Task.outcome?, point] at ended
    cases ended
  · exact hr.reached receiver account empty

end Managed

end Run

end SchemaCatalog
