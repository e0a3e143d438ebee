import SchemaCatalog.Proofs.Fleet.Account

/-!
# What keeps a node going

A node that was started is fed by the storage, and its dispatcher takes notices. This goes on
whatever moves, as long as nothing is stopped and the node is not halted
(`Attended.change`). A task that starts a node fails or comes to the point from which on the node
is attended (`step_startLink`).
-/

namespace SchemaCatalog

/-- The dispatcher of a node takes notices. -/
def Node.TakesNotices (y : Node) : Prop := ∃ d, y.dispatch = some d ∧ d.accepting = true

lemma Node.TakesNotices.notify {y : Node} (h : y.TakesNotices) (z : Notice) :
    (y.notify z).TakesNotices := by
  obtain ⟨d, hd, acc⟩ := h
  rw [Node.notify]
  simp only [hd, if_pos acc]
  exact ⟨_, rfl, acc⟩

namespace Fleet

/-- The storage feeds this delivery to a node, and this task of the node hands it over. -/
structure Feeding (f : Fleet) (n d : Nat) (y : Delivery) (x : Task) : Prop where
  sink : f.sink = some d
  delivery : f.deliveries[d]? = some y
  receiver : y.receiver = .node n
  attached : y.attached = true
  task : f.tasks[y.task]? = some x
  node : x.node = n
  point : x.point = .deliver d

/-- The storage feeds a node. -/
def Feeds (f : Fleet) (n : Nat) : Prop := ∃ d y x, f.Feeding n d y x

/-- The storage feeds a node, whose dispatcher takes notices. -/
structure Attended (f : Fleet) (n : Nat) : Prop where
  feeds : f.Feeds n
  takes : (f.node n).TakesNotices

/-- Nothing is being stopped. -/
def Unstopped (f : Fleet) : Prop :=
  ∀ (t : Nat) (x : Task), f.tasks[t]? = some x → x.point.stops = false

/-- Logs that are there still, with the receivers that they had. -/
def LogsKept (f : Fleet) (logs : List Log) : Prop :=
  ∀ (l : Nat) (lg : Log), f.logs[l]? = some lg →
    ∃ lg', logs[l]? = some lg' ∧ ∀ r, lg.receiver = some r → lg'.receiver = some r

section

variable {f g : Fleet} {m : Move} {t n : Nat} {x : Task}

/-! ## Receivers of logs -/

lemma logsKept_refl : f.LogsKept f.logs := fun _ lg h => ⟨lg, h, fun _ => id⟩

lemma logsKept_modify {l : Nat} {k : Log → Log}
    (hk : ∀ lg, f.logs[l]? = some lg → ∀ r, lg.receiver = some r → (k lg).receiver = some r) :
    f.LogsKept (f.logs.modify l k) := by
  intro i lg hi
  rw [List.getElem?_modify, hi]
  by_cases e : l = i
  · subst e
    exact ⟨k lg, by simp, hk lg hi⟩
  · exact ⟨lg, by simp [e], fun _ => id⟩

/-- A log gets a receiver only if it has none. -/
lemma logsKept_register {l : Nat} {lg : Log} (hl : f.logs[l]? = some lg)
    (free : lg.receiver = none) (r : Receiver) :
    f.LogsKept (f.logs.modify l fun l => { l with receiver := some r }) := by
  refine logsKept_modify fun lg' hl' r' hr => ?_
  rw [hl] at hl'
  cases hl'
  rw [free] at hr
  cases hr

lemma logsKept_append (lg : Log) : f.LogsKept (f.logs ++ [lg]) :=
  fun _ lg' h => ⟨lg', getElem?_concat h _, fun _ => id⟩

lemma logsKept_of_effect (he : f.Effect t x g) : f.LogsKept g.logs := by
  cases he with
  | start _ _ _ _ hk =>
    rcases hk with rfl | ⟨l, lg, hl, free, rfl⟩
    · exact logsKept_refl
    · exact logsKept_register hl free _
  | beginDelivery => exact logsKept_modify fun _ _ _ => id
  | detach => exact logsKept_modify fun _ _ _ => id
  | _ => exact logsKept_refl

/-- No log is given up by a move, and none gets another receiver. -/
lemma logsKept_of_change (hc : f.Change m g) : f.LogsKept g.logs := by
  cases hc with
  | step _ _ he => exact logsKept_of_effect he
  | register hl free => exact logsKept_register hl free _
  | join => exact logsKept_append _
  | _ => exact logsKept_refl

/-! ## Notices -/

/-- What holds of a node holds of it after one node has changed, if it holds of that one then. -/
lemma node_of_modify {P : Node → Prop} {j : Nat} {k : Node → Node} (h : P (f.node n))
    (hg : g.nodes = f.nodes.modify j k)
    (hk : n = j → g.node n = k (f.node n) → P (k (f.node n))) : P (g.node n) := by
  by_cases hj : j < f.nodes.length
  · have node := node_modify hg hj n
    split at node
    · rename_i e
      subst e
      rw [node]
      exact hk rfl node
    · rw [node]
      exact h
  · rw [List.modify_eq_self (Nat.not_lt.1 hj)] at hg
    rw [node_congr hg]
    exact h

lemma takes_modify {j : Nat} {k : Node → Node} (h : (f.node n).TakesNotices)
    (hg : g.nodes = f.nodes.modify j k)
    (hk : n = j → g.node n = k (f.node n) → (k (f.node n)).TakesNotices) :
    (g.node n).TakesNotices :=
  node_of_modify (P := Node.TakesNotices) h hg hk

lemma takes_alike {nodes : List Node} (h : (f.node n).TakesNotices) (ha : f.Alike nodes) :
    ({ f with nodes }.node n).TakesNotices := by
  rw [Node.TakesNotices, (ha.2 n).dispatch]
  exact h

lemma lt_of_takes (h : (f.node n).TakesNotices) : n < f.nodes.length := by
  refine Nat.lt_of_not_le fun none => ?_
  obtain ⟨d, hd, -⟩ := h
  rw [node_of_le none] at hd
  cases hd

/-- In a step a dispatcher goes on to take notices unless its node gives its handler up or is
halted. -/
lemma takes_of_effect (hx : f.tasks[t]? = some x) (he : f.Effect t x g)
    (h : (f.node n).TakesNotices) : (g.node n).TakesNotices ∨
      (x.point = .releaseHandler ∧ x.node = n) ∨ f.HandsTo t n ∧ g.outcome? t = some .done ∧
        ∃ e, (g.node n).mark.failure = some e := by
  -- A dispatcher is closed in two steps only, a release of the handler and a halt.
  cases he with
  | still _ _ _ _ ha => exact .inl (takes_alike h ha)
  | append _ _ _ ha => exact .inl (takes_alike h ha)
  | called _ ha => exact .inl (takes_alike h ha)
  | enqueue _ _ => exact .inl (takes_modify h rfl fun _ _ => h)
  | start _ _ _ _ _ => exact .inl (takes_modify h rfl fun _ _ => ⟨_, rfl, rfl⟩)
  | release hr _ _ =>
    by_cases e : x.node = n
    · exact .inr (.inl ⟨hr, e⟩)
    · exact .inl (takes_modify h rfl fun e' _ => absurd e'.symm e)
  | closeMark _ => exact .inl (takes_modify h rfl fun _ _ => h)
  | hand _ _ _ _ _ hz =>
    refine .inl (takes_modify h rfl fun e _ => ?_)
    subst e
    obtain ⟨history, notice, -, rfl⟩ := Node.handle_ok hz
    exact Node.TakesNotices.notify (y := { f.node n with history := history }) h notice
  | @halt d j y e rest err hxd hy hq hr herr =>
    by_cases ne : n = j
    · subst ne
      have node := node_modify (g := { f with nodes := f.nodes.modify n fun z =>
        { z.closeDispatch with mark := ((f.node n).mark.fail err).1 } }) rfl (lt_of_takes h) n
      rw [if_pos rfl] at node
      refine .inr (.inr ⟨⟨x, d, y, hx, hxd, hy, hr, by rw [hq]; nofun⟩, ?_,
        (f.node n).mark.failure.getD err, ?_⟩)
      · exact outcome?_moveTo (getElem?_told hx) rfl
      · exact congrArg (fun z : Node => z.mark.failure) node
    · exact .inl (takes_modify h rfl fun e _ => absurd e ne)
  | takeNotice _ hd _ =>
    refine .inl (takes_modify h rfl fun e _ => ?_)
    subst e
    obtain ⟨d, hd', acc⟩ := h
    rw [hd] at hd'
    cases hd'
    exact ⟨_, rfl, acc⟩
  | done _ _ => exact .inl (takes_modify h rfl fun _ _ => h)
  | overflow _ _ => exact .inl (takes_modify h rfl fun _ _ => h)
  | _ => exact .inl h

/-! ## Deliveries -/

/-- A delivery goes on where its task stays where it is. -/
lemma Feeding.stays {d : Nat} {y : Delivery} (h : f.Feeding n d y x) (sink : g.sink = f.sink)
    (deliveries : f.DeliveriesKept g.deliveries)
    (task : ∃ x', g.tasks[y.task]? = some x' ∧ x'.node = x.node ∧ x'.point = x.point) :
    g.Feeds n := by
  obtain ⟨y', hy', receiver, attached, same⟩ := deliveries d y h.delivery
  obtain ⟨x', hx', node, point⟩ := task
  exact ⟨d, y', x', sink.trans h.sink, hy', receiver.trans h.receiver, attached.trans h.attached,
    same ▸ hx', node.trans h.node, point.trans h.point⟩

/-- The delivery that feeds a node goes on with each of its steps, unless the node is halted. -/
lemma Feeding.delivers {d : Nat} {y : Delivery} (h : f.Feeding n d y x) (hn : n < f.nodes.length)
    (ok : (g.node n).mark.failure = none) (hd : f.Delivers y.task d y g) : g.Feeds n := by
  cases hd with
  | hand _ _ _ => exact h.stays rfl (deliveriesKept_popped _ _) ⟨x, h.task, rfl, rfl⟩
  | note _ _ => exact h.stays rfl (deliveriesKept_popped _ _) ⟨x, h.task, rfl, rfl⟩
  | halt _ hr _ =>
    rw [h.receiver] at hr
    cases hr
    rw [node_modify (f := f) rfl hn, if_pos rfl] at ok
    cases ok
  | haltRecorder _ hr =>
    rw [h.receiver] at hr
    cases hr
  | quit _ detached =>
    rw [h.attached] at detached
    cases detached

/-! ## Moves -/

/-- A dispatcher goes on to take notices unless its node gives its handler up or is halted. -/
lemma takes_or_closes (hc : f.Change m g) (h : (f.node n).TakesNotices) :
    (g.node n).TakesNotices ∨ ∃ t x, m = .step t ∧ f.tasks[t]? = some x ∧
      ((x.point = .releaseHandler ∧ x.node = n) ∨ f.HandsTo t n ∧ g.outcome? t = some .done ∧
        ∃ e, (g.node n).mark.failure = some e) := by
  cases hc with
  | step hx _ he => exact (takes_of_effect hx he h).imp id fun closes => ⟨_, _, rfl, hx, closes⟩
  | still _ ha => exact .inl (takes_alike h ha)
  | join _ _ =>
    rw [node_addNode, if_neg (Nat.ne_of_lt (lt_of_takes h))]
    exact .inl h
  | markDone _ _ => exact .inl (takes_modify h rfl fun _ _ => h)
  | overflow _ _ => exact .inl (takes_modify h rfl fun _ _ => h)
  | failMark _ => exact .inl (takes_modify h rfl fun _ _ => h)
  | _ => exact .inl h

/-- A dispatcher goes on to take notices as long as nothing is stopped and its node is not
halted. -/
lemma takes_of_change (hs : f.Unstopped) (ok : (g.node n).mark.failure = none)
    (hc : f.Change m g) (h : (f.node n).TakesNotices) : (g.node n).TakesNotices := by
  rcases takes_or_closes hc h with h | ⟨t, x, -, hx, ⟨released, -⟩ | ⟨-, -, e, failed⟩⟩
  · exact h
  · have still := hs _ _ hx
    rw [released] at still
    cases still
  · rw [ok] at failed
    cases failed

/-- The storage goes on to feed a node as long as nothing is stopped and the node is not halted. -/
lemma feeds_of_supply (hp : f.Plain) (hf : f.Frame m g) (hu : f.Unstopped)
    (ok : (g.node n).mark.failure = none) (hs : f.Supply m g) (h : f.Feeds n) : g.Feeds n := by
  obtain ⟨d, y, z, h⟩ := h
  obtain ⟨z', hz', node, point⟩ := hf.task y.task z h.task
  -- A task that hands nothing over stays at its delivery.
  have task : f.HandsNothing m g → ∃ z', g.tasks[y.task]? = some z' ∧ z'.node = z.node ∧
      z'.point = z.point := by
    intro idle
    obtain ⟨w, hw, hwd⟩ := idle.stays y.task d z h.task h.point
    rw [hz'] at hw
    cases hw
    exact ⟨z', hz', node, hwd.trans h.point.symm⟩
  cases hs with
  | rests idle _ sink deliveries =>
    exact h.stays sink (deliveries ▸ deliveriesKept_refl) (task idle)
  | feeds idle _ sink deliveries =>
    exact h.stays sink (deliveries ▸ deliveriesKept_fed _) (task idle)
  | begins _ _ _ _ _ free _ _ _ =>
    rw [h.sink] at free
    cases free
  | detaches _ _ hx stopped _ _ _ =>
    have still := hu _ _ hx
    rw [stopped.stops] at still
    cases still
  | @delivers t i x w hm hx hxd hw hd =>
    by_cases e : t = y.task
    · subst e
      rw [h.task] at hx
      cases hx
      cases h.point.symm.trans hxd
      rw [h.delivery] at hw
      cases hw
      exact h.delivers (h.node ▸ hp.placed y.task z h.task) ok hd
    · -- A step of another task leaves the task of the delivery where it is.
      refine h.stays hd.fields.2.1 hd.deliveriesKept ⟨z', hz', node, point (.inl fun e' => e ?_)⟩
      rw [hm] at e'
      exact Move.step.inj e'

/-- A node that is attended goes on to be as long as nothing is stopped and it is not halted. -/
theorem Attended.change (h : f.Attended n) (hp : f.Plain) (ht : f.Tracks) (hs : f.Unstopped)
    (ok : (g.node n).mark.failure = none) (hc : f.Change m g) : g.Attended n := by
  have frame := frame_of_change hp.placed hc
  exact ⟨feeds_of_supply hp frame hs ok (supply_of_change hp ht hc) h.feeds,
    takes_of_change hs ok hc h.takes⟩

lemma Attended.congr {k : Fleet} (h : k.Attended n) (e : g.core = k.core) : g.Attended n := by
  obtain ⟨-, -, sink, -, deliveries, nodes, tasks⟩ := core_inj e
  obtain ⟨⟨d, y, z, feeding⟩, takes⟩ := h
  refine ⟨⟨d, y, z, sink ▸ feeding.sink, deliveries ▸ feeding.delivery, feeding.receiver,
    feeding.attached, tasks ▸ feeding.task, feeding.node, feeding.point⟩, ?_⟩
  rw [node_congr nodes]
  exact takes

/-! ## Starting a node -/

/-- The log that a node works with has the node as its receiver. -/
def Registered (f : Fleet) (n : Nat) : Prop :=
  ∃ l lg, (f.node n).link.log? = some l ∧ f.logs[l]? = some lg ∧ lg.receiver = some (.node n)

/-- A step of a task that starts a node fails, or registers the node and has its dispatcher take
notices. -/
lemma step_start {l : Nat} {lg : Log} (hn : x.node < f.nodes.length)
    (hl : (f.node x.node).link.log? = some l) (hlg : f.logs[l]? = some lg)
    (hx : f.tasks[t]? = some x) (hp : x.point = .start) (hg : f.step t = some g) :
    ∃ y, g.tasks[t]? = some y ∧ ((∃ e, y.point = .ended (.failed e)) ∨
      y.point = .startLink ∧ g.Registered x.node ∧ (g.node x.node).TakesNotices) := by
  rw [step, hx] at hg
  simp only [hp] at hg
  cases hg
  rw [stepStart]
  split
  · exact ⟨_, getElem?_finish hx _, .inl ⟨_, rfl⟩⟩
  · dsimp only
    have spawned (k : Node → Node) :
        ((f.onNode x.node k).spawn x.node .dispatch).node x.node = k (f.node x.node) := by
      rw [node_modify (f := f) (k := k) (by simp) hn, if_pos rfl]
    have task (k : Node → Node) :
        ((f.onNode x.node k).spawn x.node .dispatch).tasks[t]? = some x := by
      simpa using getElem?_concat hx _
    have logs (k : Node → Node) : ((f.onNode x.node k).spawn x.node .dispatch).logs = f.logs := by
      simp
    rw [registerLink_of_log (l := l) (by rw [spawned]; exact hl), register, logs, hlg,
      Option.bind_some]
    cases lg.receiver with
    | some r => exact ⟨_, getElem?_finish (task _) _, .inl ⟨_, rfl⟩⟩
    | none =>
      refine ⟨_, getElem?_moveTo (task _) _, .inr ⟨rfl,
        ⟨l, { lg with receiver := some (.node x.node) }, ?_, ?_, rfl⟩, ?_⟩⟩
      · exact (congrArg (fun y : Node => y.link.log?) (spawned _)).trans hl
      · simp [hlg]
      · exact ⟨_, congrArg Node.dispatch (spawned _), rfl⟩

/-- A step of a task that starts the log of a node fails, or attaches the node. -/
lemma step_startLink (h : f.Registered x.node) (takes : (f.node x.node).TakesNotices)
    (hx : f.tasks[t]? = some x) (hp : x.point = .startLink) (hg : f.step t = some g) :
    ∃ y, g.tasks[t]? = some y ∧ ((∃ e, y.point = .ended (.failed e)) ∨ g.Attended x.node) := by
  obtain ⟨l, lg, hl, hlg, hr⟩ := h
  rw [step, hx] at hg
  simp only [hp] at hg
  cases hg
  rw [stepStartLink, startLink_of_log hl, startLog, hlg, Option.bind_some, hr]
  cases hs : f.sink with
  | some d => exact ⟨_, getElem?_finish hx _, .inl ⟨_, rfl⟩⟩
  | none =>
    obtain ⟨lt, -⟩ := List.getElem?_eq_some_iff.1 hx
    have task : (f.beginDelivery l x.node (.node x.node)).tasks[t]? = some x := by
      simpa [beginDelivery] using getElem?_concat hx _
    refine ⟨_, getElem?_moveTo task _, .inr ⟨⟨f.deliveries.length,
      ⟨.node x.node, f.storage.entries, true, f.tasks.length⟩,
      ⟨x.node, .deliver f.deliveries.length, none⟩, ?_⟩, takes⟩⟩
    constructor
    · simp [beginDelivery]
    · simp [beginDelivery]
    · rfl
    · rfl
    · show ((f.tasks ++ [_]).modify t _)[f.tasks.length]? = _
      rw [List.getElem?_modify_ne _ _ (Nat.ne_of_lt lt), List.getElem?_concat_length]
    · rfl
    · rfl

/-- A node goes on to be registered with its log. -/
lemma Registered.change (h : f.Registered n) (hn : n < f.nodes.length) (hf : f.Frame m g)
    (logs : f.LogsKept g.logs) : g.Registered n := by
  obtain ⟨l, lg, hl, hlg, hr⟩ := h
  obtain ⟨lg', hlg', kept⟩ := logs l lg hlg
  exact ⟨l, lg', (hf.node n hn).log.trans hl, hlg', kept _ hr⟩

/-- What a task that starts a node has come to. -/
inductive Starting (f : Fleet) (n : Nat) (x : Task) : Prop where
  | begins : x.point = .start → Starting f n x
  | links : x.point = .startLink → f.Registered n → (f.node n).TakesNotices → Starting f n x
  | failed {e : Error} : x.point = .ended (.failed e) → Starting f n x
  | attends : f.Attended n → Starting f n x

end

end Fleet

end SchemaCatalog
