import SchemaCatalog.Fleet.Run
import SchemaCatalog.Read

/-!
# Sessions

A session makes requests to a fleet, one after another or several at once. A request is carried out
at once or starts a task. After each round of requests the fleet runs until no task can go on, and
the session reports what came of the requests, which tasks of earlier rounds have ended, and what
was called, noted down and committed meanwhile.
-/

namespace SchemaCatalog

/-- A point in time: a timestamp, the reading of the clock, or so many ticks after the activation of
a version on the first node. -/
inductive Instant where
  | fixed (t : Timestamp)
  | clock
  | activation (v : Version) (ticks : Int)
  deriving Repr, DecidableEq

/-- A request to a fleet. -/
inductive Request where
  /-- Reads the clock. -/
  | now
  /-- Looks at the clock without moving it. -/
  | peek
  /-- Moves the clock ahead. -/
  | advance (d : Duration)
  /-- Moves the clock to a later time. -/
  | setClock (t : Timestamp)
  /-- Waits until the clock reaches a time. -/
  | waitUntil (t : Timestamp)
  /-- Reads the clock and waits until it reaches a time. -/
  | waitFor (t : Timestamp)
  /-- Reads the clock and waits until a time has passed on every node. -/
  | waitForActivation (t : Timestamp)
  /-- Reads the clock and tells the skew that is allowed for. -/
  | waiterNow
  /-- Marks a version as done. -/
  | markDone (v : Version)
  /-- Waits until a version is done. -/
  | awaitVersion (v : Version)
  /-- Fails the watermark. -/
  | failMark (e : Error)
  /-- Registers a listener for some types of events. -/
  | listen (name : String) (types : List EventType) (mode : Mode)
  /-- Gives a listener another mode. -/
  | setMode (name : String) (mode : Mode)
  /-- Counts the registrations for a type of events. -/
  | listenerCount (type : EventType)
  /-- Lists the failed deliveries that are kept. -/
  | failedDeliveries
  /-- Counts the deliveries that failed. -/
  | failureCount
  /-- Publishes the event of an entry. -/
  | publish (entry : Entry) (token : Token) (version : Version)
  /-- Repeats the failed deliveries. -/
  | redeliver
  /-- Registers a recorder with a log. -/
  | register (log : Nat) (recorder : String) (failAt : Option (Version × Error))
  /-- Starts a log. -/
  | startLog (log : Nat)
  /-- Stops a log. -/
  | stopLog (log : Nat)
  /-- Offers an update to the storage. -/
  | commit (u : Update)
  /-- Asks how far the storage is. -/
  | committed
  /-- Looks up a committed update. -/
  | stored (v : Version)
  /-- Starts the node. -/
  | start
  /-- Stops the node. -/
  | stop
  /-- Carries a statement out. -/
  | execute (statement : Statement)
  /-- Sets another node up over the same storage and clock. -/
  | reopen (config : Config)
  /-- Sets the delay of updates from now on. -/
  | setDelay (d : Duration)
  /-- Compares a version with the same one of another node. -/
  | compare (other : Nat) (v : Version)
  /-- Lets the log refuse so many updates. -/
  | rejectNext (n : Nat)
  /-- Puts a question about one time or none. -/
  | ask (instant : Instant) (query : Timestamp → Query)
  /-- Adds answers to a scripted log. -/
  | script (answers : List Answer)
  /-- Tells a scripted log how far it is. -/
  | scriptCommitted (v : Version)
  /-- Lets a call to a scripted log fail from now on. -/
  | breakCall (call : LogCall) (words : String)
  /-- Lets a call to a scripted log succeed again. -/
  | healCall (call : LogCall)
  /-- Hands an update to the node as its log would. -/
  | deliver (u : Update) (commit : Timestamp) (token : Token)
  /-- Tells the node that its log hands nothing over any more. -/
  | halt (e : Error)

/-- What comes of a request. -/
inductive Result where
  | pending
  | outcome (o : Outcome)
  | timestamp (t : Timestamp)
  | waiter (t : Timestamp) (skew : Duration)
  | count (n : Nat)
  | failureCount (n : Nat)
  | failedDeliveries (fs : List FailedDelivery)
  | update (u : Option Update)
  | duration (d : Duration)
  | truth (b : Bool)
  | answer (a : Answered)
  deriving Repr, DecidableEq

/-- The result of a request that has none. -/
def Result.done : Result := .outcome .done

/-- An error as a result. -/
def Result.failed (e : Error) : Result := .outcome (.failed e)

/-- The name of a task: the position of its request among all, or of its round and then within the
round. -/
structure Label where
  round : Nat
  position : Option Nat
  deriving Repr, DecidableEq

/-- A fleet, the skew that is allowed for in waits of a request, the number of rounds so far, and
the tasks of requests that have not ended. -/
structure Session where
  fleet : Fleet
  skew : Duration
  rounds : Nat
  unfinished : List (Label × Nat)
  deriving Repr, DecidableEq

/-- What a round of requests came to. -/
structure Report where
  results : List Result
  completed : List (Label × Outcome)
  calls : List CallRecord
  receipts : List Receipt
  committed : List Update
  appended : List Update
  deriving Repr, DecidableEq

namespace Session

/-! ## Setting up -/

/-- A session on a fleet, before its first round. -/
def ofFleet (f : Fleet) (skew : Duration) : Session := ⟨f, skew, 0, []⟩

/-- The fleet with one more node, over a new log of the shared storage. -/
def addNode (f : Fleet) (c : Config) (link : Nat → Link) : Fleet :=
  { f with
    logs := f.logs ++ [⟨none, none⟩]
    nodes := f.nodes ++ [Node.ofConfig c (link f.logs.length)] }

/-- A fleet of one node that is not started. -/
def oneNode (clock : Clock) (c : Config) (link : Nat → Link) : Fleet :=
  addNode (Fleet.ofClock clock) c link

/-- A fleet of one started node. -/
def oneStartedNode (clock : Clock) (c : Config) (link : Nat → Link) : Fleet :=
  ((oneNode clock c link).spawn 0 .start).settle

/-- A fleet of logs over a shared storage, without nodes. -/
def logsOnly (clock : Clock) (count : Nat) : Fleet :=
  { Fleet.ofClock clock with logs := List.replicate count ⟨none, none⟩ }

/-- A fleet of one node, whose watermark begins at a version. -/
def markedNode (v : Version) : Fleet :=
  (oneNode Clock.unset Config.unset .shared).onNode 0 fun x =>
    { x with mark := Watermark.startingAt v }

/-! ## Requests -/

/-- The timestamp of an instant. -/
def timestamp (f : Fleet) : Instant → Timestamp
  | .fixed t => t
  | .clock => f.clock.current
  | .activation v ticks =>
    match (f.node 0).history.catalog? v with
    | some c => ⟨Word64.capped (c.activation.raw.val + ticks).toNat⟩
    | none => Timestamp.least

/-- What was begun for a request: it is carried out with a result, or a task was started. -/
inductive Begun where
  | finished (r : Result)
  | started (task : Nat)
  deriving Repr, DecidableEq

/-- A request that is carried out, with its result. -/
def carriedOut (f : Fleet) (r : Result) : Fleet × Begun := (f, .finished r)

/-- A request that starts a task. -/
def startTask (f : Fleet) (n : Nat) (p : Point) : Fleet × Begun :=
  (f.spawn n p, .started f.tasks.length)

/-- The fleet with a change to the script of a node's log. -/
def onScript (f : Fleet) (n : Nat) (g : Script → Script) : Fleet :=
  f.onNode n fun x =>
    match x.link with
    | .scripted s => { x with link := .scripted (g s) }
    | _ => x

/-- Registers a listener of a name, which is a new one unless the name is known. -/
def listen (f : Fleet) (n : Nat) (name : String) (types : List EventType) (mode : Mode) : Fleet :=
  let f := if (f.listeners.lookup name).isSome then f else f.setListener name ⟨mode, []⟩
  f.onNode n fun x =>
    { x with publisher := types.foldl (fun p type => p.listen type name) x.publisher }

/-- Begins what a request to a node asks for. -/
def start (f : Fleet) (skew : Duration) (n : Nat) : Request → Fleet × Begun
  | .now =>
    let g := f.setClock f.clock.tick
    carriedOut g (.timestamp g.clock.current)
  | .peek => carriedOut f (.timestamp f.clock.current)
  | .advance d => carriedOut (f.setClock (f.clock.advance d)) .done
  | .setClock t => carriedOut (f.setClock (f.clock.set t)) .done
  | .waitUntil t => startTask f n (.sleep t .done)
  | .waitFor t => startTask f n (.readClock t .done)
  | .waitForActivation t => startTask f n (.readClock (t.everywhere skew) .done)
  | .waiterNow =>
    let g := f.setClock f.clock.tick
    carriedOut g (.waiter g.clock.current skew)
  | .markDone v =>
    match f.finishVersion n v with
    | (g, .ok ()) => carriedOut g .done
    | (g, .error a) => carriedOut g (.outcome (.aborted a))
  | .awaitVersion v => startTask f n (.await v .bare)
  | .failMark e => carriedOut (f.failMark n e) .done
  | .listen name types mode => carriedOut (listen f n name types mode) .done
  | .setMode name mode => carriedOut (f.setMode name mode) .done
  | .listenerCount type => carriedOut f (.count ((f.node n).publisher.listenersOf type).length)
  | .failedDeliveries => carriedOut f (.failedDeliveries (f.node n).publisher.failed)
  | .failureCount => carriedOut f (.failureCount (f.node n).publisher.failures)
  | .publish entry token version =>
    match entry.event? token version with
    | some event => startTask f n (.publish event)
    | none => carriedOut f (.outcome (.failures 0))
  | .redeliver => startTask f n .redeliver
  | .register log recorder failAt =>
    match f.register log (.recorder recorder failAt) with
    | .ok g => carriedOut g .done
    | .error e => carriedOut f (.failed e)
  | .startLog log => startTask f n (.startLog log)
  | .stopLog log => startTask f n (.stopLog log)
  | .commit u => startTask f n (.commit u)
  | .committed => startTask f n .committed
  | .stored v =>
    match f.storage.update? v with
    | .ok u => carriedOut f (.update u)
    | .error e => carriedOut f (.failed e)
  | .start => startTask f n .start
  | .stop => startTask f n .stop
  | .execute st => startTask f n (.draft st 1)
  | .reopen c => carriedOut (addNode f c .shared) (.count f.nodes.length)
  | .setDelay d =>
    carriedOut (f.onNode n fun x => { x with delay := d.millis })
      (.duration (Duration.ofMillis d.millis))
  | .compare other v =>
    carriedOut f (.truth ((f.node n).history.catalog? v = (f.node other).history.catalog? v))
  | .rejectNext k =>
    carriedOut
      (f.onNode n fun x =>
        match x.link with
        | .contended log _ attempts => { x with link := .contended log k attempts }
        | _ => x)
      .done
  | .ask instant query =>
    match (f.node n).history.answer (query (timestamp f instant)) with
    | .ok a => carriedOut f (.answer a)
    | .error e => carriedOut f (.failed e)
  | .script answers =>
    carriedOut (onScript f n fun s => { s with answers := s.answers ++ answers }) .done
  | .scriptCommitted v => carriedOut (onScript f n fun s => { s with committed := v }) .done
  | .breakCall call words => carriedOut (onScript f n fun s => s.fail call words) .done
  | .healCall call => carriedOut (onScript f n fun s => s.heal call) .done
  | .deliver u commit token =>
    match f.handle (.node n) u commit token with
    | .ok g => carriedOut g .done
    | .error e => carriedOut f (.failed e)
  | .halt e => carriedOut (f.halt (.node n) e) .done

/-! ## Rounds -/

/-- Begins requests to nodes, in order. -/
def startAll (f : Fleet) (skew : Duration) : List (Nat × Request) → Fleet × List Begun
  | [] => (f, [])
  | (n, r) :: rs =>
    let (f, b) := start f skew n r
    let (f, bs) := startAll f skew rs
    (f, b :: bs)

/-- What came of what was begun. -/
def result (f : Fleet) : Begun → Result
  | .finished r => r
  | .started t =>
    match f.outcome? t with
    | some o => .outcome o
    | none => .pending

/-- The tasks that have ended, with what they left behind. -/
def endedOf (f : Fleet) (tasks : List (Label × Nat)) : List (Label × Outcome) :=
  tasks.filterMap fun x => (f.outcome? x.2).map fun o => (x.1, o)

/-- The tasks that have not ended. -/
def unfinishedOf (f : Fleet) (tasks : List (Label × Nat)) : List (Label × Nat) :=
  tasks.filter fun x => (f.outcome? x.2).isNone

/-- The tasks that a round started, by the labels of their requests. -/
def labelled (round : Nat) (batch : Bool) (begun : List Begun) : List (Label × Nat) :=
  begun.zipIdx.filterMap fun x =>
    match x.1 with
    | .started t => some (⟨round, if batch then some x.2 else none⟩, t)
    | .finished _ => none

/-- The updates that a scripted log was given. -/
def appendedOf (f : Fleet) : List Update :=
  match (f.node 0).link with
  | .scripted s => s.appended
  | _ => []

/-- The updates behind the first so many that are stored. -/
def committedSince (f : Fleet) (k : Nat) : List Update :=
  (f.storage.entries.drop k).filterMap fun e => (Update.decode e.bytes).toOption

/-- Makes a round of requests and lets the fleet run until no task can go on. -/
def round (s : Session) (batch : Bool) (requests : List (Nat × Request)) : Session × Report :=
  let (f, begun) := startAll s.fleet s.skew requests
  let f := f.settle
  ({ s with
      fleet := f
      rounds := s.rounds + 1
      unfinished := unfinishedOf f (s.unfinished ++ labelled s.rounds batch begun) },
    { results := begun.map (result f)
      completed := endedOf f s.unfinished
      calls := f.calls.drop s.fleet.calls.length
      receipts := f.receipts.drop s.fleet.receipts.length
      committed := committedSince f s.fleet.storage.entries.length
      appended := (appendedOf f).drop (appendedOf s.fleet).length })

end Session

end SchemaCatalog
