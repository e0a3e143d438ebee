import SchemaCatalog.Proofs.Fleet.Tracks

/-!
# Handing updates over

The front of a delivery to a node is an update that the node has registered already, or the next one
of the log. A node that is handed it goes on to follow the log, and a node that cannot apply it
halts where it stands.
-/

namespace SchemaCatalog

namespace Fleet

section

variable {f g : Fleet} {m : Move} {t n k : Nat}

/-- The node after the front of a queue was handed to it, or the error on which it is halted. -/
def handed (y : Node) (e : Stored) : Except Error Node :=
  Update.decode e.bytes >>= fun u => y.handle u e.commit e.token

/-- Whether a task has an update to hand over to a node. -/
def HandsTo (f : Fleet) (t n : Nat) : Prop :=
  ∃ x d y, f.tasks[t]? = some x ∧ x.point = .deliver d ∧ f.deliveries[d]? = some y ∧
    y.receiver = .node n ∧ y.queue ≠ []

/-- What a step of the task of a delivery can do: it hands the front of the queue to the receiver,
which fails on it or not, or ends. -/
inductive Delivers (f : Fleet) (t d : Nat) (y : Delivery) : Fleet → Prop where
  | hand {n : Nat} {e : Stored} {rest : List Stored} {z : Node} :
      y.queue = e :: rest → y.receiver = .node n → handed (f.node n) e = .ok z →
      Delivers f t d y
        { f with deliveries := f.popped d rest, nodes := f.nodes.modify n fun _ => z }
  | note {e : Stored} {rest : List Stored} {name : String} {failAt : Option (Version × Error)} :
      y.queue = e :: rest → y.receiver = .recorder name failAt →
      Delivers f t d y { f with deliveries := f.popped d rest }
  | halt {n : Nat} {e : Stored} {rest : List Stored} {err : Error} :
      y.queue = e :: rest → y.receiver = .node n → handed (f.node n) e = .error err →
      Delivers f t d y
        ({ f with
          deliveries := f.popped d rest
          nodes := f.nodes.modify n fun z =>
            { z.closeDispatch with mark := ((f.node n).mark.fail err).1 }
          tasks := f.tasks.mapIdx (told .dropped ((f.node n).mark.fail err).2)
        }.moveTo t (.ended .done))
  | haltRecorder {e : Stored} {rest : List Stored} {name : String}
      {failAt : Option (Version × Error)} :
      y.queue = e :: rest → y.receiver = .recorder name failAt →
      Delivers f t d y ({ f with deliveries := f.popped d rest }.moveTo t (.ended .done))
  | quit : y.queue = [] → y.attached = false → Delivers f t d y (f.moveTo t (.ended .done))

lemma not_isFree_of_deliver {x : Task} {d : Nat} (hxd : x.point = .deliver d) : ¬ x.isFree := by
  rintro (h | ⟨v, p, s, h, -⟩)
  · rw [hxd] at h
    cases h
  · rw [hxd] at h
    cases h

/-- A task hands one delivery over. -/
lemma same_delivery {x : Task} {d d' : Nat} {y y' : Delivery} (hxd : x.point = .deliver d)
    (hy : f.deliveries[d]? = some y) (hxd' : x.point = .deliver d')
    (hy' : f.deliveries[d']? = some y') : d' = d ∧ y' = y := by
  rw [hxd] at hxd'
  cases hxd'
  rw [hy] at hy'
  cases hy'
  exact ⟨rfl, rfl⟩

/-- There is nothing else that a step of a delivery can do. -/
lemma delivers_of_effect {x : Task} {d : Nat} {y : Delivery} (he : f.Effect t x g)
    (hxd : x.point = .deliver d) (hy : f.deliveries[d]? = some y) : f.Delivers t d y g := by
  cases he with
  | hand hxd' hy' hq hu hr hz =>
    obtain ⟨rfl, rfl⟩ := same_delivery hxd hy hxd' hy'
    refine .hand hq hr ?_
    rw [handed, hu]
    exact hz
  | note hxd' hy' hq hr =>
    obtain ⟨rfl, rfl⟩ := same_delivery hxd hy hxd' hy'
    exact .note hq hr
  | halt hxd' hy' hq hr herr =>
    obtain ⟨rfl, rfl⟩ := same_delivery hxd hy hxd' hy'
    exact .halt hq hr herr
  | haltRecorder hxd' hy' hq hr =>
    obtain ⟨rfl, rfl⟩ := same_delivery hxd hy hxd' hy'
    exact .haltRecorder hq hr
  | endDelivery hxd' last =>
    rw [hxd] at hxd'
    cases hxd'
    obtain ⟨queue, detached⟩ := last y hy
    exact .quit queue detached
  -- All other steps begin at other points.
  | idle hfree => exact absurd hfree (not_isFree_of_deliver hxd)
  | still hfree _ _ _ _ => exact absurd hfree (not_isFree_of_deliver hxd)
  | append _ hu _ _ =>
    rw [hxd] at hu
    cases hu
  | beginDelivery hfree _ _ _ _ _ => exact absurd (.inl hfree) (not_isFree_of_deliver hxd)
  | detach hfree _ _ _ => exact absurd (.inl hfree) (not_isFree_of_deliver hxd)
  | draft hp _ _ _ _ => cases hxd.symm.trans hp
  | enqueue hp _ => cases hxd.symm.trans hp
  | start hp _ _ _ _ => cases hxd.symm.trans hp
  | release hp _ _ => cases hxd.symm.trans hp
  | closeMark hp => cases hxd.symm.trans hp
  | takeNotice hp _ _ => cases hxd.symm.trans hp
  | endDispatch hp _ => cases hxd.symm.trans hp
  | call hp => cases hxd.symm.trans hp
  | wait hp => cases hxd.symm.trans hp
  | called hp _ => cases hxd.symm.trans hp
  | done hp _ => cases hxd.symm.trans hp
  | overflow hp _ => cases hxd.symm.trans hp

/-- A delivery that has something to hand over can take a step. -/
lemma step_of_front {x : Task} {d : Nat} {y : Delivery} {e : Stored} {rest : List Stored}
    (hx : f.tasks[t]? = some x) (hxd : x.point = .deliver d)
    (hy : f.deliveries[d]? = some y) (hq : y.queue = e :: rest) : ∃ g, f.step t = some g := by
  rw [step, hx]
  simp only [hxd, stepDeliver, hy, hq]
  split
  · exact ⟨_, rfl⟩
  · split
    · exact ⟨_, rfl⟩
    · exact ⟨_, rfl⟩

/-- Nothing is left of a delivery whose task has no step. -/
lemma queue_of_stuck {x : Task} {d : Nat} {y : Delivery} (hx : f.tasks[t]? = some x)
    (hxd : x.point = .deliver d) (hy : f.deliveries[d]? = some y) (hs : f.step t = none) :
    y.queue = [] := by
  cases hq : y.queue with
  | nil => rfl
  | cons e rest =>
    obtain ⟨g, hg⟩ := step_of_front hx hxd hy hq
    rw [hs] at hg
    cases hg

/-- A delivery cannot go on if and only if it has nothing left and is still attached. -/
lemma stuck_deliver_iff {x : Task} {d : Nat} (hx : f.tasks[t]? = some x)
    (hxd : x.point = .deliver d) : f.step t = none ↔
      ∃ y, f.deliveries[d]? = some y ∧ y.queue = [] ∧ y.attached = true := by
  constructor
  · intro stuck
    cases hy : f.deliveries[d]? with
    | none => simp only [step, hx, hxd, stepDeliver, hy, reduceCtorEq] at stuck
    | some y =>
      have empty := queue_of_stuck hx hxd hy stuck
      simp only [step, hx, hxd, stepDeliver, hy, empty] at stuck
      exact ⟨y, rfl, empty, by simpa using stuck⟩
  · rintro ⟨y, hy, empty, attached⟩
    simp only [step, hx, hxd, stepDeliver, hy, empty, attached, if_true]

/-- A step of a delivery to a node hands the front of its queue over, or halts the node on it. -/
lemma handed_of_effect {x : Task} {d : Nat} {y : Delivery} {e : Stored} {rest : List Stored}
    (he : f.Effect t x g) (hxd : x.point = .deliver d) (hy : f.deliveries[d]? = some y)
    (hq : y.queue = e :: rest) (hr : y.receiver = .node n) :
    (∃ z, handed (f.node n) e = .ok z ∧ g = { f with
      deliveries := f.popped d rest, nodes := f.nodes.modify n fun _ => z }) ∨
      ∃ err, handed (f.node n) e = .error err ∧ g = { f with
        deliveries := f.popped d rest
        nodes := f.nodes.modify n fun z =>
          { z.closeDispatch with mark := ((f.node n).mark.fail err).1 }
        tasks := f.tasks.mapIdx (told .dropped ((f.node n).mark.fail err).2)
      }.moveTo t (.ended .done) := by
  have node : ∀ {i : Nat}, y.receiver = .node i → i = n := by
    intro i hi
    rw [hr] at hi
    cases hi
    rfl
  have front : ∀ {e' : Stored} {rest' : List Stored}, y.queue = e' :: rest' →
      e' = e ∧ rest' = rest := by
    intro e' rest' hq'
    rw [hq] at hq'
    cases hq'
    exact ⟨rfl, rfl⟩
  cases delivers_of_effect he hxd hy with
  | hand hq' hr' hz =>
    obtain ⟨rfl, rfl⟩ := front hq'
    obtain rfl := node hr'
    exact .inl ⟨_, hz, rfl⟩
  | halt hq' hr' herr =>
    obtain ⟨rfl, rfl⟩ := front hq'
    obtain rfl := node hr'
    exact .inr ⟨_, herr, rfl⟩
  | note _ hr' =>
    rw [hr] at hr'
    cases hr'
  | haltRecorder _ hr' =>
    rw [hr] at hr'
    cases hr'
  | quit hq' _ =>
    rw [hq] at hq'
    cases hq'

/-- Where the front of a delivery to a node is in the log. -/
structure Front (f : Fleet) (d n j k : Nat) (e : Stored) (rest : List Stored) (x : Committed) :
    Prop where
  reached : f.Reached n k
  le : j ≤ k
  log : f.storage.log[j]? = some x
  stored : e = x.stored
  remaining : rest <+: f.storage.entries.drop (j + 1)
  sink : f.sink = some d → rest = f.storage.entries.drop (j + 1)

lemma tail_of_drop {α : Type} {a : α} {l m : List α} {j : Nat} (h : a :: l <+: m.drop j) :
    ∃ hj : j < m.length, a = m[j] ∧ l <+: m.drop (j + 1) ∧
      (a :: l = m.drop j → l = m.drop (j + 1)) := by
  have hj : j < m.length := by
    have := h.length_le
    simp only [List.length_cons, List.length_drop] at this
    omega
  rw [List.drop_eq_getElem_cons hj] at h ⊢
  obtain ⟨r, hr⟩ := h
  obtain ⟨ha, hl⟩ := List.cons.inj hr
  exact ⟨hj, ha, ⟨r, hl⟩, fun e => (List.cons.inj e).2⟩

/-- The task that hands a delivery over is the one the delivery names. -/
lemma Tracks.task_of_delivery (h : f.Tracks) {d : Nat} {x : Task} {y : Delivery}
    (hx : f.tasks[t]? = some x) (hxd : x.point = .deliver d) (hy : f.deliveries[d]? = some y) :
    y.task = t := by
  obtain ⟨z, hz, e⟩ := h.deliverers t d x hx (by rw [hxd]; rfl)
  rw [hy] at hz
  cases hz
  exact e

/-- The front of a delivery that has not ended is an update of the log that follows no later than on
the last one its node has registered. -/
lemma Tracks.front (h : f.Tracks) {d : Nat} {x : Task} {y : Delivery} {e : Stored}
    {rest : List Stored} (hx : f.tasks[t]? = some x) (ho : x.outcome? = none)
    (hxd : x.point = .deliver d) (hy : f.deliveries[d]? = some y) (hq : y.queue = e :: rest)
    (hr : y.receiver = .node n) : ∃ j k z, f.Front d n j k e rest z := by
  have live : f.outcome? y.task = none := by
    rw [h.task_of_delivery hx hxd hy, outcome?, hx]
    exact ho
  obtain ⟨j, hj, hpre, hsink, hnode⟩ := h.deliveries d y hy live
  obtain ⟨k, hjk, hk⟩ := hnode n hr
  rw [hq] at hpre hsink
  obtain ⟨hlt, he, hrest, hall⟩ := tail_of_drop hpre
  have log : j < f.storage.log.length := by
    rw [h.sound.length]
    exact hlt
  refine ⟨j, k, f.storage.log[j], hk, hjk, List.getElem?_eq_getElem log, ?_, hrest,
    fun hs => hall (hsink hs)⟩
  have entries := congrArg (fun l => l[j]?) h.sound.entries
  simp only [List.getElem?_eq_getElem hlt, List.getElem?_map, List.getElem?_eq_getElem log,
    Option.map_some, Option.some.injEq] at entries
  exact he.trans entries

section

variable {d j : Nat} {e : Stored} {rest : List Stored} {x : Committed}

/-- Handing over the front is handing over the update that was committed. -/
lemma Front.handed (w : f.Front d n j k e rest x) (h : f.Tracks) (y : Node) :
    Fleet.handed y e = y.handle x.update x.commit ⟨x.update.version.number⟩ := by
  have fits := h.sound.fits x (List.mem_of_getElem? w.log)
  have decode := Update.decode_encode fits []
  rw [List.append_nil] at decode
  rw [Fleet.handed, w.stored, Committed.stored, Storage.stored, decode]
  rfl

/-- An update that the node has registered is passed over. -/
lemma Front.handed_old (w : f.Front d n j k e rest x) (h : f.Tracks) (hjk : j < k) :
    Fleet.handed (f.node n) e = .ok ((f.node n).notify ⟨x.update.version, []⟩) := by
  rw [w.handed h, Node.handle, w.reached.follows.handle_old h.sound.numbered w.log hjk]

/-- The next update is registered, with the events that are then to be delivered. -/
lemma Front.handed_next (w : f.Front d n k k e rest x) (h : f.Tracks) {c : Catalog}
    (hc : snapshot f.storage.log (k + 1) = .ok c) :
    Fleet.handed (f.node n) e =
      .ok ({ f.node n with history := (f.node n).history.register c }.notify
        ⟨x.update.version, x.update.events ⟨x.update.version.number⟩⟩) := by
  rw [w.handed h, Node.handle, w.reached.follows.handle_next h.sound.numbered w.log, hc]
  rfl

/-- The node is halted on an update that cannot be applied. -/
lemma Front.handed_error (w : f.Front d n k k e rest x) (h : f.Tracks) {err : Error}
    (hc : snapshot f.storage.log (k + 1) = .error err) :
    Fleet.handed (f.node n) e = .error err := by
  rw [w.handed h, Node.handle, w.reached.follows.handle_next h.sound.numbered w.log, hc]
  rfl

/-- A node is halted only on an update that follows on the last one and cannot be applied. -/
lemma Front.of_error (w : f.Front d n j k e rest x) (h : f.Tracks) {err : Error}
    (he : Fleet.handed (f.node n) e = .error err) :
    k < f.storage.log.length ∧ snapshot f.storage.log (k + 1) = .error err := by
  rcases Nat.lt_or_eq_of_le w.le with hjk | rfl
  · rw [w.handed_old h hjk] at he
    cases he
  · obtain ⟨hlt, -⟩ := List.getElem?_eq_some_iff.1 w.log
    refine ⟨hlt, ?_⟩
    cases hc : snapshot f.storage.log (j + 1) with
    | error err' =>
      rw [w.handed_error h hc] at he
      cases he
      rfl
    | ok c =>
      rw [w.handed_next h hc] at he
      cases he

/-- What stands at the front of a delivery as an update of the log is at its place of the log. -/
lemma Front.eq_of_stored {v : Nat} {z : Committed} (w : f.Front d n j k e rest x) (h : f.Tracks)
    (hz : f.storage.log[v]? = some z) (he : e = z.stored) : j = v ∧ x = z := by
  have same : x = z := Committed.eq_of_stored (h.sound.fits x (List.mem_of_getElem? w.log))
    (h.sound.fits z (List.mem_of_getElem? hz)) (w.stored.symm.trans he)
  have hj := h.sound.numbered j x w.log
  have hv := h.sound.numbered v z hz
  rw [same, hv] at hj
  exact ⟨(Nat.succ.inj hj).symm, same⟩

/-- The node has then registered what was handed over. -/
lemma Front.follows (w : f.Front d n j k e rest x) (h : f.Tracks) {z : Node}
    (hz : Fleet.handed (f.node n) e = .ok z) :
    z.started = true ∧ z.history.Follows f.storage.log (max k (j + 1)) := by
  -- The node stands beyond the front, or right before it.
  rcases Nat.lt_or_eq_of_le w.le with hjk | rfl
  · rw [w.handed_old h hjk] at hz
    cases hz
    rw [Nat.max_eq_left hjk]
    simp only [Node.notify_fields]
    exact ⟨w.reached.started, w.reached.follows⟩
  · rw [Nat.max_eq_right (Nat.le_succ j)]
    cases hc : snapshot f.storage.log (j + 1) with
    | error err =>
      rw [w.handed_error h hc] at hz
      cases hz
    | ok c =>
      rw [w.handed_next h hc] at hz
      cases hz
      obtain ⟨hlt, -⟩ := List.getElem?_eq_some_iff.1 w.log
      simp only [Node.notify_fields]
      exact ⟨w.reached.started, w.reached.follows.register hlt hc⟩

end

/-- A node has reached the version that it was handed, unless it was further on. -/
lemma Front.reached_hand {d j : Nat} {e : Stored} {rest : List Stored} {x : Committed} {z : Node}
    (w : f.Front d n j k e rest x) (h : f.Tracks) (hz : Fleet.handed (f.node n) e = .ok z)
    (storage : g.storage = f.storage) (nodes : g.nodes.length = f.nodes.length)
    (node : g.node n = z) : g.Reached n (max k (j + 1)) := by
  obtain ⟨started, follows⟩ := w.follows h hz
  refine ⟨nodes ▸ w.reached.lt, ?_, ?_⟩
  · rw [node]
    exact started
  · rw [node, storage]
    exact follows

/-- A node to which there is something to hand over has reached a version. -/
lemma HandsTo.reached (hh : f.HandsTo t n) (h : f.Tracks) : ∃ k, f.Reached n k := by
  obtain ⟨x, d, y, hx, hxd, hy, hr, hq⟩ := hh
  obtain ⟨e, rest, hq⟩ := List.exists_cons_of_ne_nil hq
  have live : x.outcome? = none := by rw [Task.outcome?, hxd]
  obtain ⟨_, k, _, front⟩ := h.front hx live hxd hy hq hr
  exact ⟨k, front.reached⟩

lemma Reached.unique {k' : Nat} (h : f.Tracks) (hk : f.Reached n k) (hk' : f.Reached n k') :
    k = k' := by
  obtain ⟨c, hc⟩ := History.snapshot_of_ofLog hk.follows.ofLog
  have e := hk.follows.latest h.sound.numbered
  rw [hk'.follows.latest h.sound.numbered, hc] at e
  rw [← snapshot_version h.sound.numbered hk.follows.le hc]
  exact snapshot_version h.sound.numbered hk'.follows.le e

lemma popped_cases {d i : Nat} {rest : List Stored} {y z : Delivery}
    (hy : f.deliveries[d]? = some y) (h : (f.popped d rest)[i]? = some z) :
    (i = d ∧ z = { y with queue := rest }) ∨ (i ≠ d ∧ f.deliveries[i]? = some z) := by
  rcases modify_cases h with ⟨rfl, x, hx, rfl⟩ | ⟨e, h⟩
  · rw [hy] at hx
    cases hx
    exact .inl ⟨rfl, rfl⟩
  · exact .inr ⟨Ne.symm e, h⟩

lemma task_popped (d : Nat) (rest : List Stored) {i : Nat} {z : Delivery}
    (h : f.deliveries[i]? = some z) : ∃ y, (f.popped d rest)[i]? = some y ∧ y.task = z.task := by
  rw [popped, List.getElem?_modify, h]
  split
  · exact ⟨_, rfl, rfl⟩
  · exact ⟨z, rfl, rfl⟩

/-- Where an update is taken out of a delivery, all other deliveries stay good if no node falls
back. -/
lemma tracks_popped {d : Nat} {y : Delivery} {rest : List Stored} (h : f.Tracks) (hf : f.Frame m g)
    (hs : g.storage = f.storage) (hk : g.sink = f.sink) (hl : g.logs = f.logs)
    (hd : g.deliveries = f.popped d rest) (hy : f.deliveries[d]? = some y)
    (ht : f.DeliverersFrom g.tasks) (hlen : g.nodes.length = f.nodes.length)
    (hst : ∀ n, (g.node n).started = (f.node n).started)
    (hun : ∀ n, (f.node n).started = false → (g.node n).history = (f.node n).history)
    (adv : f.Advances g) (new : g.outcome? y.task = none → g.Stretch d { y with queue := rest }) :
    g.Tracks where
  sound := hs ▸ h.sound
  started n hlt hstarted := by
    obtain ⟨k, hr⟩ := h.started n (hlen ▸ hlt) (hst n ▸ hstarted)
    obtain ⟨k', -, hr'⟩ := adv n k hr
    exact ⟨k', hr'⟩
  unstarted n hlt hun' := by
    rw [hst] at hun'
    exact (hun n hun').trans (h.unstarted n (hlen ▸ hlt) hun')
  receivers l n lg hlg hr := by
    obtain ⟨hlt, hstarted⟩ := h.receivers l n lg (hl ▸ hlg) hr
    exact ⟨hlen ▸ hlt, (hst n).trans hstarted⟩
  deliverers s i x hx hxd := by
    obtain ⟨z, hz, hzd⟩ := ht s i x hx hxd
    obtain ⟨y, hy, hyt⟩ := h.deliverers s i z hz hzd
    obtain ⟨y', hy', e⟩ := task_popped d rest hy
    exact ⟨y', hd ▸ hy', e.trans hyt⟩
  deliveries i z hz ho := by
    rcases popped_cases hy (hd ▸ hz) with ⟨rfl, rfl⟩ | ⟨-, hz⟩
    · exact new ho
    · exact (h.deliveries i z hz (hf.live ho)).mono hs (fun e => hk ▸ e) adv

/-- A node that is handed the front of a delivery goes on to follow the log. -/
lemma tracks_hand {d : Nat} {x : Task} {y : Delivery} {e : Stored} {rest : List Stored} {z : Node}
    (h : f.Tracks) (hf : f.Frame m { f with
      deliveries := f.popped d rest, nodes := f.nodes.modify n fun _ => z })
    (hx : f.tasks[t]? = some x) (ho : x.outcome? = none) (hxd : x.point = .deliver d)
    (hy : f.deliveries[d]? = some y) (hq : y.queue = e :: rest) (hr : y.receiver = .node n)
    (hz : handed (f.node n) e = .ok z) :
    Tracks { f with
      deliveries := f.popped d rest, nodes := f.nodes.modify n fun _ => z } ∧
      f.Advances { f with
        deliveries := f.popped d rest, nodes := f.nodes.modify n fun _ => z } := by
  obtain ⟨j, k, u, w⟩ := h.front hx ho hxd hy hq hr
  obtain ⟨started, -⟩ := w.follows h hz
  generalize hg : ({ f with
    deliveries := f.popped d rest, nodes := f.nodes.modify n fun _ => z } : Fleet) = g at hf ⊢
  have hs : g.storage = f.storage := by rw [← hg]
  have hlen : g.nodes.length = f.nodes.length := by simp [← hg]
  have node : ∀ i, g.node i = if i = n then z else f.node i :=
    node_modify (f := f) (g := g) (k := fun _ => z) (by rw [← hg]) w.reached.lt
  -- The node has reached the update that it was handed, or had gone beyond it before.
  have reached : g.Reached n (max k (j + 1)) :=
    w.reached_hand h hz hs hlen (by rw [node, if_pos rfl])
  -- No other node is touched, so nobody falls back.
  have adv : f.Advances g := by
    intro i k' hk'
    by_cases e : i = n
    · subst e
      exact ⟨_, (hk'.unique h w.reached) ▸ Nat.le_max_left .., reached⟩
    · have same : g.node i = f.node i := by rw [node, if_neg e]
      exact ⟨k', Nat.le_refl _, hk'.congr hs hf.nodes (by rw [same]) (by rw [same])⟩
  have popped : g.deliveries = f.popped d rest := by rw [← hg]
  refine ⟨tracks_popped h hf hs ?_ ?_ popped hy ?_ hlen ?_ ?_ adv ?_, adv⟩
  · rw [← hg]
  · rw [← hg]
  · rw [← hg]
    exact deliverersFrom_refl
  · intro i
    rw [node]
    split
    · rename_i e
      rw [e, started, w.reached.started]
    · rfl
  · intro i hi
    rw [node, if_neg]
    rintro rfl
    rw [w.reached.started] at hi
    cases hi
  · -- What remains begins one later, which the node has reached by now.
    intro _
    have entries : g.storage.entries = f.storage.entries := by rw [hs]
    refine ⟨j + 1, ?_, entries ▸ w.remaining, fun e => ?_, fun i hi => ?_⟩
    · obtain ⟨hlt, -⟩ := List.getElem?_eq_some_iff.1 w.log
      rw [entries, ← h.sound.length]
      exact hlt
    · rw [entries]
      refine w.sink ?_
      rw [← hg] at e
      exact e
    · rw [hr] at hi
      cases hi
      exact ⟨_, Nat.le_max_right .., reached⟩

/-- A recorder notes an update down, and no node changes. -/
lemma tracks_note {d : Nat} {x : Task} {y : Delivery} {e : Stored} {rest : List Stored}
    {name : String} {failAt : Option (Version × Error)} (h : f.Tracks)
    (hf : f.Frame m { f with deliveries := f.popped d rest })
    (hx : f.tasks[t]? = some x) (ho : x.outcome? = none) (hxd : x.point = .deliver d)
    (hy : f.deliveries[d]? = some y) (hq : y.queue = e :: rest)
    (hr : y.receiver = .recorder name failAt) :
    ({ f with deliveries := f.popped d rest } : Fleet).Tracks := by
  have live : f.outcome? y.task = none := by
    rw [h.task_of_delivery hx hxd hy, outcome?, hx]
    exact ho
  obtain ⟨j, hj, hpre, hsink, -⟩ := h.deliveries d y hy live
  rw [hq] at hpre hsink
  obtain ⟨hlt, -, hrest, hall⟩ := tail_of_drop hpre
  have adv : f.Advances { f with deliveries := f.popped d rest } :=
    fun i k' hk' => ⟨k', Nat.le_refl _, hk'.congr rfl (Nat.le_refl _) rfl rfl⟩
  refine tracks_popped h hf rfl rfl rfl rfl hy deliverersFrom_refl rfl (fun _ => rfl)
    (fun _ _ => rfl) adv fun _ => ?_
  refine ⟨j + 1, hlt, hrest, fun e => hall (hsink e), fun i hi => ?_⟩
  rw [hr] at hi
  cases hi

lemma outcome?_moveTo {l : List Task} {x : Task} {o : Outcome} (ht : l[t]? = some x)
    (hg : g.tasks = l.modify t fun x => { x with point := .ended o, signal := none }) :
    g.outcome? t = some o := by
  rw [outcome?, hg, List.getElem?_modify, ht]
  simp only [if_true, Option.map_eq_map, Option.map_some, Option.bind_some]
  rfl

/-- A delivery that halts its receiver ends, and what it had to hand over is of no account. -/
lemma tracks_halt {d : Nat} {x : Task} {y : Delivery} {rest : List Stored} (h : f.Tracks)
    (hf : f.Frame m g) (hs : g.storage = f.storage) (hk : g.sink = f.sink) (hl : g.logs = f.logs)
    (hd : g.deliveries = f.popped d rest) (hx : f.tasks[t]? = some x)
    (hxd : x.point = .deliver d) (hy : f.deliveries[d]? = some y) (ht : f.DeliverersFrom g.tasks)
    (hn : f.SameHistories g.nodes) (ho : g.outcome? t = some .done) :
    g.Tracks ∧ f.Advances g := by
  have adv : f.Advances g :=
    fun i k' hk' => ⟨k', Nat.le_refl _, hk'.congr hs hf.nodes (hn.2 i).1 (hn.2 i).2⟩
  refine ⟨tracks_popped h hf hs hk hl hd hy ht hn.1 (fun i => (hn.2 i).2)
    (fun i _ => (hn.2 i).1) adv fun e => ?_, adv⟩
  -- The delivery has ended, so that nothing is asked of what it leaves.
  rw [h.task_of_delivery hx hxd hy, ho] at e
  cases e

end

end Fleet

end SchemaCatalog
