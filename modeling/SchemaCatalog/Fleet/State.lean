import SchemaCatalog.Handler
import SchemaCatalog.Watermark
import SchemaCatalog.Publisher
import SchemaCatalog.Storage
import SchemaCatalog.Config
import SchemaCatalog.Time.Clock
import SchemaCatalog.Statement.Entries

/-!
# The state of a fleet

A fleet is a number of nodes that share a clock and the storage of a log, with everything that is
under way on them. What is under way is a list of tasks; each stands at a point, which says what it
does next and, where it can be held up, what it waits for. Names of nodes, logs, deliveries and
tasks are positions in the lists of the fleet.
-/

namespace SchemaCatalog

/-! ## Logs -/

/-- Who is given the committed updates: a node, or a recorder, which notes them down and can be told
to fail at a version. -/
inductive Receiver where
  | node (n : Nat)
  | recorder (name : String) (failAt : Option (Version × Error))
  deriving Repr, DecidableEq

/-- A log over the shared storage: its receiver, and the delivery that its last start began. -/
structure Log where
  receiver : Option Receiver
  delivery : Option Nat
  deriving Repr, DecidableEq

/-- Updates on their way from the storage to a receiver, whether more can come, and the task that
hands them over. -/
structure Delivery where
  receiver : Receiver
  queue : List Stored
  attached : Bool
  task : Nat
  deriving Repr, DecidableEq

/-- The calls to a log that can be made to fail. -/
inductive LogCall where
  | register
  | start
  | stop
  | append
  | committed
  deriving Repr, DecidableEq

/-- What a scripted log does with an update: refuses it, accepts it, or accepts it and hands it over
at once. -/
inductive Answer where
  | reject
  | accept
  | deliver
  deriving Repr, DecidableEq

/-- A log that does what it is told, and the updates it was given. -/
structure Script where
  registered : Bool
  answers : List Answer
  committed : Version
  faults : List (LogCall × String)
  appended : List Update
  deriving Repr, DecidableEq

namespace Script

/-- A scripted log that was told nothing. -/
def blank : Script := ⟨false, [], Version.initial, [], []⟩

/-- How a call fails, if it was told to. -/
def fault? (s : Script) (call : LogCall) : Option Error :=
  (s.faults.lookup call).map fun words => .log (.stated words)

/-- The call fails from now on. -/
def fail (s : Script) (call : LogCall) (words : String) : Script :=
  { s with faults := (call, words) :: s.faults }

/-- The call no longer fails. -/
def heal (s : Script) (call : LogCall) : Script :=
  { s with faults := s.faults.filter fun x => x.1 ≠ call }

end Script

/-- The log that a node works with: one over the shared storage, one that also refuses so many
updates before it and counts the attempts, or a scripted one. -/
inductive Link where
  | shared (log : Nat)
  | contended (log rejections attempts : Nat)
  | scripted (script : Script)
  deriving Repr, DecidableEq

/-! ## Nodes -/

/-- The notices that a node's dispatcher has still to see to, whether more are taken, and the task
that sees to them. -/
structure Dispatch where
  queue : List Notice
  accepting : Bool
  task : Nat
  deriving Repr, DecidableEq

/-- A node. While it holds its handler, stopping it closes the dispatcher. -/
structure Node where
  history : History
  mark : Watermark Nat
  publisher : Publisher
  link : Link
  skew : Duration
  delay : Word64
  started : Bool
  dispatch : Option Dispatch
  holdsHandler : Bool
  deriving Repr, DecidableEq

namespace Node

/-- A node that is not started. -/
def ofConfig (c : Config) (link : Link) : Node where
  history := History.empty
  mark := Watermark.startingAt Version.initial
  publisher := Publisher.ofCapacity c.failureBuffer
  link := link
  skew := c.skew
  delay := c.delay.millis
  started := false
  dispatch := none
  holdsHandler := false

/-- Tells the dispatcher, unless it takes nothing any more. -/
def notify (x : Node) (notice : Notice) : Node :=
  match x.dispatch with
  | some d =>
    if d.accepting then { x with dispatch := some { d with queue := d.queue ++ [notice] } } else x
  | none => x

/-- The dispatcher takes nothing any more. -/
def closeDispatch (x : Node) : Node :=
  { x with dispatch := x.dispatch.map fun d => { d with accepting := false } }

/-- The node after a committed update. -/
def handle (x : Node) (u : Update) (commit : Timestamp) (token : Token) : Except Error Node :=
  match x.history.handle u commit token with
  | .ok (history, notice) => .ok ({ x with history := history }.notify notice)
  | .error e => .error e

end Node

/-! ## Listeners -/

/-- A listener with the tasks that wait at its gate, each once, in the order in which they began to
wait. -/
structure Listener where
  mode : Mode
  waiting : List Nat
  deriving Repr, DecidableEq

/-- A call to a listener, and how it ended. -/
structure Call where
  listener : String
  result : Option CallResult
  deriving Repr, DecidableEq

/-- A call that was begun, and the task that made it. -/
structure CallRecord where
  task : Nat
  listener : String
  event : Event
  deriving Repr, DecidableEq

/-- What a recorder notes down. -/
inductive Receipt where
  | update (recorder : String) (update : Update) (commit : Timestamp) (token : Token)
  | halt (recorder : String) (error : Error)
  deriving Repr, DecidableEq

/-! ## Tasks -/

/-- What a task leaves behind. -/
inductive Outcome where
  | done
  | aborted (reason : Abort)
  | version (v : Version)
  | accepted (yes : Bool)
  | failures (n : Nat)
  | delivered (n : Nat)
  deriving Repr, DecidableEq

/-- An error as an outcome. -/
def Outcome.failed (e : Error) : Outcome := .aborted (.failed e)

/-- Why a task waits for a version: it is the version of its update, or the one that its update lost
to, or the last one before its node was started, or it is waited for on its own account. -/
inductive Purpose where
  | saved
  | retry (statement : Statement) (attempt : Nat)
  | started
  | bare
  deriving Repr, DecidableEq

/-- What comes after all listeners were called: the number of failures is reported, or the
dispatcher goes on with the events of a version. -/
inductive AfterCalls where
  | report
  | dispatch (version : Version) (events : List Event)
  deriving Repr, DecidableEq

/-- What comes after another task has ended. -/
inductive AfterJoin where
  | finish
  | releaseHandler
  | closeMark
  deriving Repr, DecidableEq

/-- Where a task stands. -/
inductive Point where
  /-- The statement is checked against the latest catalog, at this attempt. -/
  | draft (statement : Statement) (attempt : Nat)
  /-- The update is offered to the log. -/
  | submit (statement : Statement) (attempt : Nat) (update : Update)
  /-- The update was refused, and the log is asked how far it is. -/
  | review (statement : Statement) (attempt : Nat)
  /-- A version has to be done. -/
  | await (version : Version) (purpose : Purpose)
  /-- The task is among those who wait for the version. -/
  | awaiting (version : Version) (purpose : Purpose)
  /-- The saved version is looked up. -/
  | confirm (version : Version)
  /-- The clock is read, and has to reach the target. -/
  | readClock (target : Timestamp) (outcome : Outcome)
  /-- The clock has to reach the target. -/
  | sleep (target : Timestamp) (outcome : Outcome)
  /-- The node is started. -/
  | start
  /-- The log of the node is started. -/
  | startLink
  /-- The log of the node is asked how far it is. -/
  | replay
  /-- The log of the node is stopped. -/
  | stop
  /-- The node gives its handler up. -/
  | releaseHandler
  /-- The node lets nobody wait any more. -/
  | closeMark
  /-- Another task has to end. -/
  | join (task : Nat) (after : AfterJoin)
  /-- The updates of a delivery are handed over. -/
  | deliver (delivery : Nat)
  /-- The notices to the dispatcher are seen to. -/
  | dispatch
  /-- The events of a version are published, and the version is done. -/
  | announce (version : Version) (events : List Event)
  /-- An event is published. -/
  | publish (event : Event)
  /-- Calls to listeners have to end. -/
  | gather (event : Event) (calls : List Call) (after : AfterCalls)
  /-- The failed deliveries are repeated. -/
  | redeliver
  /-- Some failed deliveries are still to be repeated, and some were repeated with success. -/
  | redeliverRest (pending : List FailedDelivery) (delivered : Nat)
  /-- A repeated delivery has to end. -/
  | redelivering (current : FailedDelivery) (pending : List FailedDelivery) (delivered : Nat)
  /-- A log is started on its own. -/
  | startLog (log : Nat)
  /-- A log is stopped on its own. -/
  | stopLog (log : Nat)
  /-- An update is offered to the storage. -/
  | commit (update : Update)
  /-- The storage is asked how far it is. -/
  | committed
  /-- The task has ended. -/
  | ended (outcome : Outcome)
  deriving Repr, DecidableEq

/-- What one who waits for a version is told. -/
inductive Signal where
  | released
  | dropped
  deriving Repr, DecidableEq

/-- A task on a node. -/
structure Task where
  node : Nat
  point : Point
  signal : Option Signal
  deriving Repr, DecidableEq

/-- What the task left behind, if it has ended. -/
def Task.outcome? (t : Task) : Option Outcome :=
  match t.point with
  | .ended o => some o
  | _ => none

/-! ## The fleet -/

/-- Nodes, logs over a shared storage, listeners and tasks. `sink` is the delivery that is fed with
new updates, `ready` lists the tasks that may be able to go on, in the order in which they are
tried. -/
structure Fleet where
  clock : Clock
  storage : Storage
  sink : Option Nat
  logs : List Log
  deliveries : List Delivery
  nodes : List Node
  listeners : List (String × Listener)
  tasks : List Task
  ready : List Nat
  calls : List CallRecord
  receipts : List Receipt
  deriving Repr, DecidableEq

/-- The fleet without nodes. -/
def Fleet.ofClock (clock : Clock) : Fleet :=
  ⟨clock, Storage.empty, none, [], [], [], [], [], [], [], []⟩

end SchemaCatalog
