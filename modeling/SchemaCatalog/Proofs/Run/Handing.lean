import SchemaCatalog.Proofs.Run.Snapshots

/-!
# What becomes of an update that is handed over

A node that is handed an update of the log has registered its version afterwards and goes on as
before, or it is halted on it. The log alone decides which: the version is registered if the log has
a snapshot of it (`Run.Hands.registered`), and otherwise the node is halted with the error for which
there is none (`Run.Hands.halted`). A delivery that stops short halts its node in the same way
(`Run.halt_of_stop`).
-/

namespace SchemaCatalog

/-- A node that is halted takes no notices any more, and its watermark has failed. -/
def Node.halted (y : Node) (e : Error) : Node :=
  { y.closeDispatch with mark := (y.mark.fail e).1 }

namespace Run

/-- At this moment the task takes a step in which it hands an update to a node. -/
structure Hands (r : Run) (i t n : Nat) (x : Committed) : Prop where
  move : r.moves i = .step t
  front : ∃ y d z rest, (r.fleet i).tasks[t]? = some y ∧ y.point = .deliver d ∧
    (r.fleet i).deliveries[d]? = some z ∧ z.receiver = .node n ∧ z.queue = x.stored :: rest

variable {r : Run} {i t n v k : Nat} {x : Committed} {c : Catalog} {err : Error}

/-- The step of a delivery, on what the fleet keeps. -/
lemma effect_of_front {y : Task} {d : Nat} {z : Delivery} {e : Stored} {rest : List Stored}
    (hm : r.moves i = .step t) (hy : (r.fleet i).tasks[t]? = some y) (hd : y.point = .deliver d)
    (hz : (r.fleet i).deliveries[d]? = some z) (hq : z.queue = e :: rest) :
    (r.fleet i).Effects t y (r.fleet (i + 1)) := by
  obtain ⟨g, hg⟩ := Fleet.step_of_front hy hd hz hq
  rcases r.step_cases hm with ⟨none, -⟩ | some
  · rw [hg] at none
    cases none
  · exact Fleet.effects_of_step (r.plain i) hy some

/-- A node is handed an update that it has registered already, or the next one. -/
lemma Hands.reached (h : r.Hands i t n x) (hx : (r.fleet i).storage.log[v]? = some x) :
    ∃ d k rest, (r.fleet i).Front d n v k x.stored rest x := by
  obtain ⟨y, d, z, rest, hy, hd, hz, hr, hq⟩ := h.front
  have live : y.outcome? = none := by rw [Task.outcome?, hd]
  obtain ⟨j, k, w, front⟩ := (r.tracks i).front hy live hd hz hq hr
  obtain ⟨rfl, rfl⟩ := front.eq_of_stored (r.tracks i) hx rfl
  exact ⟨d, k, rest, front⟩

/-- A node that is handed an update of which there is a snapshot has registered that afterwards, and
goes on as before. -/
theorem Hands.registered (h : r.Hands i t n x) (hx : (r.fleet i).storage.log[v]? = some x)
    (hc : snapshot (r.fleet i).storage.log (v + 1) = .ok c) :
    ((r.fleet (i + 1)).node n).history.catalog? x.update.version = some c ∧
      ((r.fleet (i + 1)).node n).mark = ((r.fleet i).node n).mark ∧
      (r.fleet (i + 1)).tasks = (r.fleet i).tasks := by
  have ht := r.tracks i
  obtain ⟨_, k, _, front⟩ := h.reached hx
  obtain ⟨y, d, z, rest, hy, hd, hz, hr, hq⟩ := h.front
  obtain ⟨g, he, core⟩ := effect_of_front h.move hy hd hz hq
  obtain ⟨-, -, -, -, -, nodes, tasks⟩ := Fleet.core_inj core
  rcases Fleet.handed_of_effect he hd hz hq hr with ⟨w, hw, rfl⟩ | ⟨err, herr, -⟩
  · have node : (r.fleet (i + 1)).node n = w := by
      rw [Fleet.node_congr nodes, Fleet.node_modify (f := r.fleet i) rfl front.reached.lt,
        if_pos rfl]
    obtain ⟨-, follows⟩ := front.follows ht hw
    have version := ht.sound.numbered v x hx
    refine ⟨?_, ?_, tasks⟩
    · rw [node, follows.catalog? ht.sound.numbered, version]
      exact ⟨Nat.le_max_right .., hc⟩
    · rw [front.handed ht] at hw
      obtain ⟨history, notice, -, rfl⟩ := Node.handle_ok hw
      rw [node]
      simp only [Node.notify_fields]
  · -- There would be no snapshot of the version.
    obtain ⟨-, hs⟩ := front.of_error ht herr
    rcases Nat.lt_or_eq_of_le front.le with hlt | rfl
    · rw [front.handed_old ht hlt] at herr
      cases herr
    · rw [hc] at hs
      cases hs

/-- A node whose delivery takes a step that does not go on is halted. -/
lemma halted_of_error {y : Task} {d : Nat} {z : Delivery} {e : Stored} {rest : List Stored}
    (hm : r.moves i = .step t) (hy : (r.fleet i).tasks[t]? = some y) (hd : y.point = .deliver d)
    (hz : (r.fleet i).deliveries[d]? = some z) (hq : z.queue = e :: rest)
    (hr : z.receiver = .node n) (hn : n < (r.fleet i).nodes.length)
    (herr : Fleet.handed ((r.fleet i).node n) e = .error err) :
    (r.fleet (i + 1)).node n = ((r.fleet i).node n).halted err ∧
      (r.fleet (i + 1)).tasks = ((r.fleet i).tasks.mapIdx (Fleet.told .dropped
        (((r.fleet i).node n).mark.fail err).2)).modify t
          fun x => { x with point := .ended .done, signal := none } := by
  obtain ⟨g, he, core⟩ := effect_of_front hm hy hd hz hq
  obtain ⟨-, -, -, -, -, nodes, tasks⟩ := Fleet.core_inj core
  rcases Fleet.handed_of_effect he hd hz hq hr with ⟨w, hw, -⟩ | ⟨err', herr', rfl⟩
  · rw [herr] at hw
    cases hw
  · rw [herr] at herr'
    cases herr'
    refine ⟨?_, tasks⟩
    rw [Fleet.node_congr nodes, Fleet.node_modify (f := r.fleet i) rfl hn, if_pos rfl]
    rfl

/-- A node that is handed an update of which there is no snapshot is halted, with the error for
which there is none. -/
theorem Hands.halted (h : r.Hands i t n x) (hx : (r.fleet i).storage.log[v]? = some x)
    (he : snapshot (r.fleet i).storage.log (v + 1) = .error err) :
    r.StopsAt i n v ∧ (r.fleet (i + 1)).node n = ((r.fleet i).node n).halted err := by
  have ht := r.tracks i
  obtain ⟨_, k, _, front⟩ := h.reached hx
  -- No node is beyond a version without a snapshot.
  obtain rfl : v = k := by
    rcases Nat.lt_or_eq_of_le front.le with hlt | rfl
    · obtain ⟨c, hc, -⟩ := front.reached.snapshot ht (show v + 1 ≤ k from hlt)
      rw [he] at hc
      cases hc
    · rfl
  obtain ⟨y, d, z, rest, hy, hd, hz, hr, hq⟩ := h.front
  obtain ⟨node, tasks⟩ := halted_of_error h.move hy hd hz hq hr front.reached.lt
    (front.handed_error ht he)
  refine ⟨⟨t, h.move, ⟨y, d, z, hy, hd, hz, hr, by rw [hq]; exact List.cons_ne_nil _ _⟩,
    front.reached, ?_⟩, node⟩
  exact Fleet.outcome?_moveTo (Fleet.getElem?_told hy) tasks

/-- Where a delivery stops short its node is halted, with the error for which the next version has
no snapshot. All who wait for a version of the node are dropped. -/
theorem halt_of_stop (h : r.StopsAt i n k) :
    ∃ t err, r.moves i = .step t ∧ (r.fleet i).HandsTo t n ∧
      snapshot (r.fleet i).storage.log (k + 1) = .error err ∧
      (r.fleet (i + 1)).node n = ((r.fleet i).node n).halted err ∧
      (r.fleet (i + 1)).tasks = ((r.fleet i).tasks.mapIdx (Fleet.told .dropped
        (((r.fleet i).node n).mark.fail err).2)).modify t
          fun x => { x with point := .ended .done, signal := none } := by
  obtain ⟨-, err, he⟩ := r.stop h
  obtain ⟨t, hm, hands, reached, ended⟩ := h
  obtain ⟨y, d, z, hy, hd, hz, hr, hne⟩ := hands
  obtain ⟨e, rest, hq⟩ := List.exists_cons_of_ne_nil hne
  have ht := r.tracks i
  have live : y.outcome? = none := by rw [Task.outcome?, hd]
  obtain ⟨j, k', w, front⟩ := ht.front hy live hd hz hq hr
  cases reached.unique ht front.reached
  -- The delivery would not have ended with an update that its node has registered.
  obtain rfl : j = k := by
    rcases Nat.lt_or_eq_of_le front.le with hlt | rfl
    · obtain ⟨g, heff, core⟩ := effect_of_front hm hy hd hz hq
      have handed := front.handed_old ht hlt
      rcases Fleet.handed_of_effect heff hd hz hq hr with ⟨w, -, rfl⟩ | ⟨err', herr', -⟩
      · rw [Fleet.outcome?, (Fleet.core_inj core).2.2.2.2.2.2, hy, Option.bind_some, live] at ended
        cases ended
      · rw [handed] at herr'
        cases herr'
    · rfl
  obtain ⟨node, tasks⟩ := halted_of_error hm hy hd hz hq hr front.reached.lt
    (front.handed_error ht he)
  exact ⟨t, err, hm, ⟨y, d, z, hy, hd, hz, hr, hne⟩, he, node, tasks⟩

end Run

end SchemaCatalog
