import SchemaCatalog.Proofs.Fleet.Core

/-!
# What a step can do

A step of a task is one of few effects on what the fleet keeps (`Effect`). Most steps are `still`:
they move their task between points at which nothing of its node is held, and besides may move the
clock ahead or change a publisher. Every invariant of a fleet is proved once for each effect, and
`effects_of_step` makes an invariant of all steps of it.
-/

namespace SchemaCatalog

/-- The log that a node works with, if it is one over the shared storage. -/
def Link.log? : Link → Option Nat
  | .shared log => some log
  | .contended log _ _ => some log
  | .scripted _ => none

/-- Nodes that differ in their publisher, their delay and what their log refuses by itself at most.
A log that refuses nothing by itself goes on so. Whoever listens to the first node listens to the
second one. -/
structure Node.Alike (x y : Node) : Prop where
  history : y.history = x.history
  mark : y.mark = x.mark
  log : y.link.log? = x.link.log?
  shared : ∀ log, x.link = .shared log → y.link = .shared log
  skew : y.skew = x.skew
  started : y.started = x.started
  dispatch : y.dispatch = x.dispatch
  holdsHandler : y.holdsHandler = x.holdsHandler
  listeners : ∀ type, x.publisher.listenersOf type <+: y.publisher.listenersOf type

lemma Node.Alike.refl (x : Node) : x.Alike x :=
  ⟨rfl, rfl, rfl, fun _ => id, rfl, rfl, rfl, rfl, fun _ => List.prefix_refl _⟩

/-- The update that a task at this point offers. -/
def Point.offer? : Point → Option Update
  | .submit _ _ u => some u
  | .commit u => some u
  | _ => none

/-- The answer that a task at this point got to what it offered. -/
def Point.answer? : Point → Option Bool
  | .ended (.accepted yes) => some yes
  | .await _ .saved => some true
  | .review .. => some false
  | _ => none

/-- The statement that a task at this point has still to get accepted. -/
def Point.statement? : Point → Option Statement
  | .draft st _ => some st
  | .submit st _ _ => some st
  | .review st _ => some st
  | .await _ (.retry st _) => some st
  | .awaiting _ (.retry st _) => some st
  | _ => none

/-- The version that a task at this point waits for, if that is on account of a statement or of the
start of its node. -/
def Point.target? : Point → Option Version
  | .await _ .bare => none
  | .await v _ => some v
  | .awaiting _ .bare => none
  | .awaiting v _ => some v
  | _ => none

/-- Whether a task at this point stops a node or a log. -/
def Point.stops : Point → Bool
  | .stop => true
  | .stopLog _ => true
  | .join .. => true
  | .releaseHandler => true
  | .closeMark => true
  | _ => false

/-- Whether a task at this point starts a node or a log. -/
def Point.starts : Point → Bool
  | .start => true
  | .startLink => true
  | .startLog _ => true
  | _ => false

/-- Whether a task that comes to this point from the point `o` offers nothing, has no other
statement to get accepted than it had, waits for the version that is committed if for any, and
stops and starts nothing unless it did before. -/
structure Point.Continues (p : Point) (committed : Version) (o : Point) : Prop where
  offer : p.offer? = none
  statement : p.statement? = none ∨ p.statement? = o.statement?
  target : ∀ v, p.target? = some v → v = committed
  stops : p.stops = true → o.stops = true
  starts : p.starts = true → o.starts = true

/-- Whether a task at this point has nothing to do with offers, statements, versions to wait for,
stops and starts. -/
def Point.isIdle (p : Point) : Bool :=
  p.offer?.isNone && p.statement?.isNone && p.target?.isNone && !p.stops && !p.starts

lemma Point.Continues.of_isIdle {p o : Point} {v : Version} (h : p.isIdle = true) :
    p.Continues v o := by
  simp only [Point.isIdle, Bool.and_eq_true, Option.isNone_iff_eq_none, Bool.not_eq_true'] at h
  obtain ⟨⟨⟨⟨offer, statement⟩, target⟩, stops⟩, starts⟩ := h
  refine ⟨offer, .inl statement, fun w hw => ?_, fun hs => ?_, fun hs => ?_⟩
  · rw [target] at hw
    cases hw
  · rw [stops] at hs
    cases hs
  · rw [starts] at hs
    cases hs

/-- A task goes on with the statement that it has. -/
lemma Point.Continues.of_statement {p o : Point} {v : Version} (offer : p.offer? = none)
    (statement : p.statement? = o.statement?) (target : p.target? = none)
    (stops : p.stops = false) (starts : p.starts = false) : p.Continues v o where
  offer := offer
  statement := .inr statement
  target w hw := by
    rw [target] at hw
    cases hw
  stops hs := by
    rw [stops] at hs
    cases hs
  starts hs := by
    rw [starts] at hs
    cases hs

/-- A task goes on to stop a node or a log. -/
lemma Point.Continues.of_stops {p o : Point} {v : Version} (stops : o.stops = true)
    (offer : p.offer? = none) (statement : p.statement? = none) (target : p.target? = none)
    (starts : p.starts = false) : p.Continues v o where
  offer := offer
  statement := .inl statement
  target w hw := by
    rw [target] at hw
    cases hw
  stops _ := stops
  starts hs := by
    rw [starts] at hs
    cases hs

/-- A task goes on to start a node or a log. -/
lemma Point.Continues.of_starts {p o : Point} {v : Version} (starts : o.starts = true)
    (offer : p.offer? = none) (statement : p.statement? = none) (target : p.target? = none)
    (stops : p.stops = false) : p.Continues v o where
  offer := offer
  statement := .inl statement
  target w hw := by
    rw [target] at hw
    cases hw
  stops hs := by
    rw [stops] at hs
    cases hs
  starts _ := starts

/-- Whether the next step of a task at this point turns to the log of its node. -/
def Point.asksLog : Point → Bool
  | .submit .. => true
  | .review .. => true
  | .start => true
  | .startLink => true
  | .replay => true
  | .stop => true
  | _ => false

/-- The notice that a dispatcher at this point sees to, with the events it has not done with. -/
def Point.notice? : Point → Option Notice
  | .announce v events => some ⟨v, events⟩
  | .gather event _ (.dispatch v rest) => some ⟨v, event :: rest⟩
  | _ => none

/-- Whether nothing of a node is held at this point: neither a place among those who wait for a
version, nor a delivery, nor the notices of the dispatcher. -/
def Point.isFree : Point → Bool
  | .awaiting .. => false
  | .deliver _ => false
  | .dispatch => false
  | .announce .. => false
  | .gather _ _ (.dispatch ..) => false
  | _ => true

/-- Whether a task holds nothing of a node, or was told that its wait is over. -/
def Task.isFree (x : Task) : Prop :=
  x.point.isFree = true ∨ ∃ v p s, x.point = .awaiting v p ∧ x.signal = some s

namespace Fleet

/-- Nodes of which each is alike. -/
def Alike (f : Fleet) (nodes : List Node) : Prop :=
  nodes.length = f.nodes.length ∧ ∀ m, (f.node m).Alike ({ f with nodes }.node m)

lemma alike_refl (f : Fleet) : f.Alike f.nodes := ⟨rfl, fun _ => .refl _⟩

lemma alike_modify (f : Fleet) {n : Nat} (hn : n < f.nodes.length) {k : Node → Node}
    (h : (f.node n).Alike (k (f.node n))) : f.Alike (f.nodes.modify n k) := by
  refine ⟨by simp, fun m => ?_⟩
  rw [node_modify (g := { f with nodes := f.nodes.modify n k }) rfl hn]
  by_cases e : m = n
  · rw [if_pos e, e]
    exact h
  · rw [if_neg e]
    exact .refl _

/-- The deliveries after an update was passed on. -/
def fed (f : Fleet) (e : Stored) : List Delivery :=
  match f.sink with
  | none => f.deliveries
  | some d =>
    match f.deliveries[d]? with
    | none => f.deliveries
    | some x =>
      if (f.outcome? x.task).isSome then f.deliveries
      else f.deliveries.modify d fun y => { y with queue := y.queue ++ [e] }

/-- The deliveries after the storage was detached. -/
def detached (f : Fleet) : List Delivery :=
  match f.sink with
  | none => f.deliveries
  | some d => f.deliveries.modify d fun x => { x with attached := false }

/-- The deliveries after the first update of one was taken out. -/
def popped (f : Fleet) (d : Nat) (rest : List Stored) : List Delivery :=
  f.deliveries.modify d fun y => { y with queue := rest }

/-- The tasks are on nodes. -/
def Placed (f : Fleet) : Prop :=
  ∀ (t : Nat) (x : Task), f.tasks[t]? = some x → x.node < f.nodes.length

/-- The nodes are over the shared storage, and the tasks are on nodes. -/
structure Plain (f : Fleet) : Prop where
  linked : ∀ n, (f.node n).link.log?.isSome
  placed : f.Placed

/-- Whether the next step of a task stops this log, on its own or as the log of the node. -/
def StopsLog (f : Fleet) (x : Task) (log : Nat) : Prop :=
  x.point = .stopLog log ∨ x.point = .stop ∧ (f.node x.node).link.log? = some log

/-- Whether the next step of a task starts this log, on its own or as the log of the node. -/
def StartsLog (f : Fleet) (x : Task) (log : Nat) : Prop :=
  x.point = .startLog log ∨ x.point = .startLink ∧ (f.node x.node).link.log? = some log

instance (f : Fleet) (x : Task) (log : Nat) : Decidable (f.StopsLog x log) :=
  inferInstanceAs (Decidable (_ ∨ _ ∧ _))

lemma StopsLog.stops {f : Fleet} {x : Task} {log : Nat} (h : f.StopsLog x log) :
    x.point.stops = true := by
  rcases h with hp | ⟨hp, -⟩
  · rw [hp]
    rfl
  · rw [hp]
    rfl

/-- What a step of the task `t`, which is `x`, can do. -/
inductive Effect (f : Fleet) (t : Nat) (x : Task) : Fleet → Prop where
  | idle : x.isFree → Effect f t x f
  | still {p : Point} {c : Clock} {nodes : List Node} :
      x.isFree → p.isFree = true → p.Continues f.storage.committed x.point →
      f.clock.current ≤ c.current → f.Alike nodes →
      Effect f t x { f.moveTo t p with clock := c, nodes := nodes }
  | draft {st : Statement} {a : Nat} {c : Catalog} {es : List Entry} {v : Version} :
      x.point = .draft st a → (f.node x.node).history.latest = .ok c → st.entries c = .ok es →
      es ≠ [] → c.version.next? = some v →
      Effect f t x (f.moveTo t (.submit st a ⟨v, Duration.ofMillis (f.node x.node).delay, es⟩))
  | append {u : Update} {p : Point} {nodes : List Node} (h : f.storage.accepts u) :
      x.point.offer? = some u → p = .await u.version .saved ∨ p = .ended (.accepted true) →
      f.Alike nodes →
      Effect f t x { f.moveTo t p with
        clock := f.clock.tick
        storage := f.storage.append u f.clock.tick.current h
        nodes := nodes
        deliveries := f.fed (Storage.stored u f.clock.tick.current) }
  | enqueue {v : Version} {q : Purpose} :
      x.point = .await v q → (f.node x.node).mark.reply v = .wait →
      Effect f t x
        ((f.onNode x.node fun y => { y with mark := y.mark.enqueue v t }).moveTo t (.awaiting v q))
  | start {k : List Log} {p : Point} :
      x.point = .start → (f.node x.node).started = false → p.isFree = true →
      p.Continues f.storage.committed x.point →
      (k = f.logs ∨ ∃ l lg, f.logs[l]? = some lg ∧ lg.receiver = none ∧
        k = f.logs.modify l fun l => { l with receiver := some (.node x.node) }) →
      Effect f t x
        { (((f.onNode x.node fun y =>
            { y with
              started := true
              history := y.history.register Catalog.initial
              dispatch := some ⟨[], true, f.tasks.length⟩
              holdsHandler := true }).spawn x.node .dispatch).moveTo t p) with logs := k }
  | beginDelivery {log : Nat} {r : Receiver} {p : Point} :
      x.point.isFree = true → f.StartsLog x log → f.logs[log]?.bind Log.receiver = some r →
      f.sink = none → p.isFree = true → p.Continues f.storage.committed x.point →
      Effect f t x ((f.beginDelivery log x.node r).moveTo t p)
  | detach {log : Nat} {p : Point} :
      x.point.isFree = true → f.StopsLog x log → p.isFree = true →
      p.Continues f.storage.committed x.point →
      Effect f t x { f.moveTo t p with
        sink := none
        deliveries := f.detached
        logs := f.logs.modify log fun l => { l with delivery := none } }
  | release {p : Point} :
      x.point = .releaseHandler → p.isFree = true → p.Continues f.storage.committed x.point →
      Effect f t x
        ((f.onNode x.node fun y => { y with holdsHandler := false }.closeDispatch).moveTo t p)
  | closeMark :
      x.point = .closeMark →
      Effect f t x
        ({ f with
          nodes := f.nodes.modify x.node fun y =>
            { y with mark := ((f.node x.node).mark.fail .stopped).1 }
          tasks := f.tasks.mapIdx (told .dropped ((f.node x.node).mark.fail .stopped).2)
        }.moveTo t (.ended .done))
  | hand {d n : Nat} {y : Delivery} {e : Stored} {rest : List Stored} {u : Update} {z : Node} :
      x.point = .deliver d → f.deliveries[d]? = some y → y.queue = e :: rest →
      Update.decode e.bytes = .ok u → y.receiver = .node n →
      (f.node n).handle u e.commit e.token = .ok z →
      Effect f t x
        { f with deliveries := f.popped d rest, nodes := f.nodes.modify n fun _ => z }
  | note {d : Nat} {y : Delivery} {e : Stored} {rest : List Stored} {name : String}
      {failAt : Option (Version × Error)} :
      x.point = .deliver d → f.deliveries[d]? = some y → y.queue = e :: rest →
      y.receiver = .recorder name failAt → Effect f t x { f with deliveries := f.popped d rest }
  | halt {d n : Nat} {y : Delivery} {e : Stored} {rest : List Stored} {err : Error} :
      x.point = .deliver d → f.deliveries[d]? = some y → y.queue = e :: rest →
      y.receiver = .node n →
      (Update.decode e.bytes >>= fun u => (f.node n).handle u e.commit e.token) = .error err →
      Effect f t x
        ({ f with
          deliveries := f.popped d rest
          nodes := f.nodes.modify n fun z =>
            { z.closeDispatch with mark := ((f.node n).mark.fail err).1 }
          tasks := f.tasks.mapIdx (told .dropped ((f.node n).mark.fail err).2)
        }.moveTo t (.ended .done))
  | haltRecorder {d : Nat} {y : Delivery} {e : Stored} {rest : List Stored} {name : String}
      {failAt : Option (Version × Error)} :
      x.point = .deliver d → f.deliveries[d]? = some y → y.queue = e :: rest →
      y.receiver = .recorder name failAt →
      Effect f t x ({ f with deliveries := f.popped d rest }.moveTo t (.ended .done))
  | endDelivery {d : Nat} :
      x.point = .deliver d →
      (∀ y, f.deliveries[d]? = some y → y.queue = [] ∧ y.attached = false) →
      Effect f t x (f.moveTo t (.ended .done))
  | takeNotice {d : Dispatch} {notice : Notice} {rest : List Notice} :
      x.point = .dispatch → (f.node x.node).dispatch = some d → d.queue = notice :: rest →
      Effect f t x
        ((f.onNode x.node fun y => { y with dispatch := some { d with queue := rest } }).moveTo t
          (.announce notice.version notice.events))
  | endDispatch :
      x.point = .dispatch →
      (∀ d, (f.node x.node).dispatch = some d → d.queue = [] ∧ d.accepting = false) →
      Effect f t x (f.moveTo t (.ended .done))
  | call {event : Event} {calls : List Call} {v : Version} {rest : List Event} :
      x.point = .announce v (event :: rest) →
      Effect f t x (f.moveTo t (.gather event calls (.dispatch v rest)))
  | wait {event : Event} {calls calls' : List Call} {v : Version} {rest : List Event} :
      x.point = .gather event calls (.dispatch v rest) →
      Effect f t x (f.moveTo t (.gather event calls' (.dispatch v rest)))
  | called {event : Event} {calls : List Call} {v : Version} {rest : List Event}
      {nodes : List Node} :
      x.point = .gather event calls (.dispatch v rest) → f.Alike nodes →
      Effect f t x { f.moveTo t (.announce v rest) with nodes := nodes }
  | done {v : Version} {mark : Watermark Nat} {released : List Nat} :
      x.point = .announce v [] → (f.node x.node).mark.finish v = (mark, .ok released) →
      Effect f t x
        ({ f with
          nodes := f.nodes.modify x.node fun y => { y with mark := mark }
          tasks := f.tasks.mapIdx (told .released released) }.moveTo t .dispatch)
  | overflow {v : Version} {mark : Watermark Nat} {a : Abort} :
      x.point = .announce v [] → (f.node x.node).mark.finish v = (mark, .error a) →
      Effect f t x
        ((f.onNode x.node fun y => { y with mark := mark }).moveTo t (.ended (.aborted a)))

end Fleet

end SchemaCatalog
