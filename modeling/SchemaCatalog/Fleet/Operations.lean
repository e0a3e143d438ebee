import SchemaCatalog.Fleet.State

/-!
# Operations on a fleet

The single changes of which the steps of tasks are made. Whatever may let a task go on wakes it,
which puts it at the end of the ready tasks unless it is among them. None of these operations lets a
task go on.
-/

namespace SchemaCatalog.Fleet

/-! ## Tasks -/

/-- Puts a task at the end of the ready ones. -/
def wake (f : Fleet) (t : Nat) : Fleet :=
  if f.ready.contains t then f else { f with ready := f.ready ++ [t] }

/-- Wakes tasks in order. -/
def wakeAll (f : Fleet) (ts : List Nat) : Fleet := ts.foldl wake f

/-- The tasks that pass a test, in the order of their start. -/
def tasksWhere (f : Fleet) (test : Task → Bool) : List Nat :=
  (f.tasks.zipIdx.filter fun x => test x.1).map Prod.snd

/-- A new task, which is ready. -/
def spawn (f : Fleet) (node : Nat) (p : Point) : Fleet :=
  { f with tasks := f.tasks ++ [⟨node, p, none⟩], ready := f.ready ++ [f.tasks.length] }

/-- A task stands at another point. -/
def moveTo (f : Fleet) (t : Nat) (p : Point) : Fleet :=
  { f with tasks := f.tasks.modify t fun x => { x with point := p, signal := none } }

/-- What a task left behind. -/
def outcome? (f : Fleet) (t : Nat) : Option Outcome := f.tasks[t]?.bind Task.outcome?

/-- Whether a task waits for the end of another one. -/
def joins (t : Nat) (x : Task) : Bool :=
  match x.point with
  | .join u _ => u = t
  | _ => false

/-- A task ends. -/
def finish (f : Fleet) (t : Nat) (o : Outcome) : Fleet :=
  (f.moveTo t (.ended o)).wakeAll (f.tasksWhere (joins t))

/-- Tells tasks what became of their wait. -/
def tell (f : Fleet) (s : Signal) (ts : List Nat) : Fleet :=
  let told (i : Nat) (x : Task) : Task := if ts.contains i then { x with signal := some s } else x
  { f with tasks := f.tasks.mapIdx told }.wakeAll ts

/-! ## The clock -/

/-- Whether a task sleeps no longer than to a time. -/
def sleepsUntil (now : Timestamp) (x : Task) : Bool :=
  match x.point with
  | .sleep target _ => target ≤ now
  | _ => false

/-- The clock stands elsewhere. -/
def setClock (f : Fleet) (c : Clock) : Fleet :=
  { f with clock := c }.wakeAll (f.tasksWhere (sleepsUntil c.current))

/-! ## Nodes -/

/-- A node. -/
def node (f : Fleet) (n : Nat) : Node := f.nodes.getD n (Node.ofConfig Config.unset (.shared 0))

/-- Something changes on a node. -/
def onNode (f : Fleet) (n : Nat) (g : Node → Node) : Fleet :=
  { f with nodes := f.nodes.modify n g }

/-- Whether a task waits for a notice. One that is held up elsewhere does not. -/
def awaitsNotice (f : Fleet) (t : Nat) : Bool := f.tasks[t]?.map Task.point = some .dispatch

/-- Wakes the dispatcher of a node, if it waits for a notice. One whose calls wait at a gate finds
its notices when the gate is open. -/
def wakeDispatcher (f : Fleet) (n : Nat) : Fleet :=
  match (f.node n).dispatch with
  | some d => if f.awaitsNotice d.task then f.wake d.task else f
  | none => f

/-- The dispatcher of a node takes nothing any more. -/
def closeDispatch (f : Fleet) (n : Nat) : Fleet :=
  (f.onNode n Node.closeDispatch).wakeDispatcher n

/-- The watermark of a node fails, and those who wait are dropped. -/
def failMark (f : Fleet) (n : Nat) (e : Error) : Fleet :=
  let (mark, dropped) := (f.node n).mark.fail e
  (f.onNode n fun x => { x with mark }).tell .dropped dropped

/-- A version is done on a node, and those who waited for it are released. -/
def finishVersion (f : Fleet) (n : Nat) (v : Version) : Fleet × Except Abort Unit :=
  match (f.node n).mark.finish v with
  | (mark, .ok released) =>
    ((f.onNode n fun x => { x with mark }).tell .released released, .ok ())
  | (mark, .error e) => (f.onNode n fun x => { x with mark }, .error e)

/-! ## Receivers -/

/-- Hands a committed update to a receiver. -/
def handle (f : Fleet) (r : Receiver) (u : Update) (commit : Timestamp) (token : Token) :
    Except Error Fleet :=
  match r with
  | .node n =>
    match (f.node n).handle u commit token with
    | .ok x => .ok ((f.onNode n fun _ => x).wakeDispatcher n)
    | .error e => .error e
  | .recorder name failAt =>
    match failAt with
    | some (v, e) =>
      if v = u.version then .error e
      else .ok { f with receipts := f.receipts ++ [.update name u commit token] }
    | none => .ok { f with receipts := f.receipts ++ [.update name u commit token] }

/-- Tells a receiver that nothing will be handed to it any more. -/
def halt (f : Fleet) (r : Receiver) (e : Error) : Fleet :=
  match r with
  | .node n => (f.closeDispatch n).failMark n e
  | .recorder name _ => { f with receipts := f.receipts ++ [.halt name e] }

/-- Hands a committed update to a receiver, and halts the receiver if it fails on it. -/
def handleOrHalt (f : Fleet) (r : Receiver) (u : Update) (commit : Timestamp) (token : Token) :
    Fleet :=
  match f.handle r u commit token with
  | .ok g => g
  | .error e => f.halt r e

/-! ## Logs over the storage -/

/-- A log gets its receiver, unless it has one. -/
def register (f : Fleet) (log : Nat) (r : Receiver) : Except Error Fleet :=
  match f.logs[log]?.bind Log.receiver with
  | some _ => .error (.log .handlerTaken)
  | none => .ok { f with logs := f.logs.modify log fun l => { l with receiver := some r } }

/-- A delivery to this receiver begins with all that is stored, and is fed from now on. -/
def beginDelivery (f : Fleet) (log node : Nat) (r : Receiver) : Fleet :=
  let d := f.deliveries.length
  let delivery : Delivery := ⟨r, f.storage.entries, true, f.tasks.length⟩
  { f with
    sink := some d
    deliveries := f.deliveries ++ [delivery]
    logs := f.logs.modify log fun l => { l with delivery := some d }
  }.spawn node (.deliver d)

/-- Starts a log, unless it has no receiver or the storage feeds a delivery already. -/
def startLog (f : Fleet) (log node : Nat) : Except Error Fleet :=
  match f.logs[log]?.bind Log.receiver with
  | none => .error (.log .noHandler)
  | some r =>
    match f.sink with
    | some _ => .error (.log .attachedElsewhere)
    | none => .ok (f.beginDelivery log node r)

/-- The storage feeds no delivery any more. -/
def detach (f : Fleet) : Fleet :=
  match f.sink with
  | none => f
  | some d =>
    let f := { f with
      sink := none
      deliveries := f.deliveries.modify d fun x => { x with attached := false } }
    match f.deliveries[d]? with
    | some x => f.wake x.task
    | none => f

/-- Stops a log: the storage feeds no delivery any more, whichever it was. The log forgets its own
delivery, whose task is named so that its end can be waited for. -/
def stopLog (f : Fleet) (log : Nat) : Fleet × Option Nat :=
  let own := (f.logs[log]?.bind Log.delivery).bind fun d => f.deliveries[d]?.map Delivery.task
  ({ f.detach with logs := f.logs.modify log fun l => { l with delivery := none } }, own)

/-- Passes a stored update to the delivery that the storage feeds. -/
def feed (f : Fleet) (e : Stored) : Fleet :=
  match f.sink with
  | none => f
  | some d =>
    match f.deliveries[d]? with
    | none => f
    | some x =>
      if (f.outcome? x.task).isSome then f
      else
        { f with
          deliveries := f.deliveries.modify d fun y => { y with queue := y.queue ++ [e] }
        }.wake x.task

/-- Stores an update at the time of the clock if it is the next one. -/
def commit (f : Fleet) (u : Update) : Fleet × Bool :=
  if h : f.storage.accepts u then
    let clock := f.clock.tick
    ({ f with storage := f.storage.append u clock.current h }.setClock clock
      |>.feed (Storage.stored u clock.current), true)
  else (f, false)

/-! ## The log of a node -/

/-- How a call to the log of a node was told to fail. -/
def linkFault (f : Fleet) (n : Nat) (call : LogCall) : Except Error Unit :=
  match (f.node n).link with
  | .scripted s =>
    match s.fault? call with
    | some e => .error e
    | none => .ok ()
  | _ => .ok ()

/-- The log of a node gets the node as its receiver. -/
def registerLink (f : Fleet) (n : Nat) : Except Error Fleet := do
  f.linkFault n .register
  match (f.node n).link with
  | .shared log => f.register log (.node n)
  | .contended log _ _ => f.register log (.node n)
  | .scripted s =>
    .ok (f.onNode n fun x => { x with link := .scripted { s with registered := true } })

/-- Starts the log of a node. -/
def startLink (f : Fleet) (n : Nat) : Except Error Fleet := do
  f.linkFault n .start
  match (f.node n).link with
  | .shared log => f.startLog log n
  | .contended log _ _ => f.startLog log n
  | .scripted _ => .ok f

/-- Stops the log of a node. -/
def stopLink (f : Fleet) (n : Nat) : Except Error (Fleet × Option Nat) := do
  f.linkFault n .stop
  match (f.node n).link with
  | .shared log => .ok (f.stopLog log)
  | .contended log _ _ => .ok (f.stopLog log)
  | .scripted _ => .ok (f, none)

/-- The version that the log of a node has committed. -/
def committedOf (f : Fleet) (n : Nat) : Except Error Version := do
  f.linkFault n .committed
  match (f.node n).link with
  | .scripted s => .ok s.committed
  | _ => .ok f.storage.committed

/-- Offers an update to a scripted log, which takes its next answer. Without one it refuses. -/
def appendScripted (f : Fleet) (n : Nat) (s : Script) (u : Update) : Fleet × Bool :=
  let s' := { s with appended := s.appended ++ [u], answers := s.answers.tail }
  let set (s : Script) : Fleet := f.onNode n fun x => { x with link := .scripted s }
  match s.answers with
  | .accept :: _ => (set s', true)
  | .deliver :: _ =>
    let f := (set { s' with committed := u.version }).setClock f.clock.tick
    if s.registered then
      (f.handleOrHalt (.node n) u f.clock.current ⟨u.version.number⟩, true)
    else (f, true)
  | _ => (set s', false)

/-- Offers an update to the log of a node. -/
def appendLink (f : Fleet) (n : Nat) (u : Update) : Except Error (Fleet × Bool) := do
  f.linkFault n .append
  match (f.node n).link with
  | .shared _ => .ok (f.commit u)
  | .contended log 0 attempts =>
    .ok ((f.onNode n fun x => { x with link := .contended log 0 (attempts + 1) }).commit u)
  | .contended log (k + 1) attempts =>
    .ok (f.onNode n fun x => { x with link := .contended log k (attempts + 1) }, false)
  | .scripted s => .ok (f.appendScripted n s u)

/-! ## Listeners -/

/-- A listener. -/
def listener (f : Fleet) (name : String) : Listener :=
  (f.listeners.lookup name).getD ⟨.succeed, []⟩

/-- A listener changes. -/
def setListener (f : Fleet) (name : String) (l : Listener) : Fleet :=
  if (f.listeners.lookup name).isSome then
    { f with listeners := f.listeners.map fun x => if x.1 = name then (name, l) else x }
  else { f with listeners := f.listeners ++ [(name, l)] }

/-- Whether a task waits at the gate of a listener. -/
def waitsAt (f : Fleet) (t : Nat) (name : String) : Bool := (f.listener name).waiting.contains t

/-- The listener gets another mode. Those who wait at its gate leave it to look at the mode, also if
it is the gate again, where they then begin to wait anew. -/
def setMode (f : Fleet) (name : String) (m : Mode) : Fleet :=
  (f.setListener name ⟨m, []⟩).wakeAll (f.listener name).waiting

/-- A call of a task to a listener ends, or the task waits at the gate, if it does not already. -/
def attemptCall (f : Fleet) (t : Nat) (name : String) : Fleet × Option CallResult :=
  let l := f.listener name
  match l.mode.act? with
  | some (r, m) => (f.setListener name { l with mode := m }, some r)
  | none =>
    if f.waitsAt t name then (f, none)
    else (f.setListener name { l with waiting := l.waiting ++ [t] }, none)

/-- A call to a listener begins. -/
def beginCall (f : Fleet) (t : Nat) (event : Event) (name : String) :
    Fleet × Option CallResult :=
  let record : CallRecord := ⟨t, name, event⟩
  { f with calls := f.calls ++ [record] }.attemptCall t name

/-- Calls to some listeners begin, in order. -/
def beginCalls (f : Fleet) (t : Nat) (event : Event) : List String → Fleet × List Call
  | [] => (f, [])
  | name :: names =>
    let (f, r) := f.beginCall t event name
    let (f, calls) := f.beginCalls t event names
    (f, ⟨name, r⟩ :: calls)

/-- Whether some calls of a task have not ended, and the task waits at the gates of all of them. -/
def heldUp (f : Fleet) (t : Nat) (calls : List Call) : Bool :=
  calls.any (fun c => c.result.isNone)
    && calls.all fun c => c.result.isSome || f.waitsAt t c.listener

/-- The calls that have not ended go on, in order. -/
def resumeCalls (f : Fleet) (t : Nat) : List Call → Fleet × List Call
  | [] => (f, [])
  | c :: cs =>
    match c.result with
    | some _ =>
      let (f, cs) := f.resumeCalls t cs
      (f, c :: cs)
    | none =>
      let (f, r) := f.attemptCall t c.listener
      let (f, cs) := f.resumeCalls t cs
      (f, ⟨c.listener, r⟩ :: cs)

/-- The failed deliveries among some calls that have ended. -/
def failedCalls (event : Event) (calls : List Call) : List FailedDelivery :=
  calls.filterMap fun c =>
    match c.result with
    | some (.failed reason) => some ⟨event, c.listener, reason⟩
    | _ => none

/-- Records failed deliveries in order. -/
def recordAll (f : Fleet) (n : Nat) (fs : List FailedDelivery) : Fleet :=
  f.onNode n fun x => { x with publisher := fs.foldl Publisher.record x.publisher }

end SchemaCatalog.Fleet
