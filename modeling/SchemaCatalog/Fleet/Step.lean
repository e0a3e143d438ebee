import SchemaCatalog.Fleet.Operations

/-!
# Steps of tasks

A step takes a task from the point where it stands to the next one. Between two steps of a task any
other task may take steps, so that everything a step does is done at once and nothing else is. A
task that has to wait, or has ended, has no step.
-/

namespace SchemaCatalog

/-- The number of times that the update of a statement is offered to the log. -/
def maxAttempts : Nat := 10

namespace Fleet

/-! ## Statements -/

/-- The statement is checked against the latest catalog. What it yields is to become the next
version, and if it yields nothing the latest version stands for it. -/
def stepDraft (f : Fleet) (t n : Nat) (st : Statement) (attempt : Nat) : Fleet :=
  match (f.node n).history.latest with
  | .error e => f.finish t (.failed e)
  | .ok c =>
    if st.isVacuous then f.finish t (.version c.version)
    else
      match st.entries c with
      | .error a => f.finish t (.aborted a)
      | .ok [] => f.moveTo t (.confirm c.version)
      | .ok es =>
        match c.version.next? with
        | none => f.finish t (.aborted .overflow)
        | some v => f.moveTo t (.submit st attempt ⟨v, Duration.ofMillis (f.node n).delay, es⟩)

/-- The update is offered to the log. -/
def stepSubmit (f : Fleet) (t n : Nat) (st : Statement) (attempt : Nat) (u : Update) : Fleet :=
  match f.appendLink n u with
  | .error e => f.finish t (.failed e)
  | .ok (g, true) => g.moveTo t (.await u.version .saved)
  | .ok (g, false) => g.moveTo t (.review st attempt)

/-- The update lost against another one, for which the statement waits before it is drafted anew. -/
def stepReview (f : Fleet) (t n : Nat) (st : Statement) (attempt : Nat) : Fleet :=
  match f.committedOf n with
  | .error e => f.finish t (.failed e)
  | .ok v => f.moveTo t (.await v (.retry st attempt))

/-- The saved version has to become active on every node. -/
def stepConfirm (f : Fleet) (t n : Nat) (v : Version) : Fleet :=
  match (f.node n).history.catalog? v with
  | none => f.finish t (.failed (.invariant (.unregistered v)))
  | some c => f.moveTo t (.readClock (c.activation.everywhere (f.node n).skew) (.version v))

/-! ## Waiting -/

/-- What a task does once the version it waited for is done. -/
def afterVersion (f : Fleet) (t : Nat) (v : Version) : Purpose → Fleet
  | .saved => f.moveTo t (.confirm v)
  | .retry st attempt =>
    if attempt < maxAttempts then f.moveTo t (.draft st (attempt + 1))
    else f.finish t (.failed (.retryLimitExceeded (Word64.capped maxAttempts)))
  | .started => f.finish t .done
  | .bare => f.finish t .done

/-- A version has to be done. -/
def stepAwait (f : Fleet) (t n : Nat) (v : Version) (p : Purpose) : Fleet :=
  match (f.node n).mark.reply v with
  | .ready => f.afterVersion t v p
  | .refused e => f.finish t (.failed e)
  | .wait => (f.onNode n fun x => { x with mark := x.mark.enqueue v t }).moveTo t (.awaiting v p)

/-- One who waits for a version goes on when told what became of the wait. -/
def stepAwaiting (f : Fleet) (t n : Nat) (v : Version) (p : Purpose) :
    Option Signal → Option Fleet
  | none => none
  | some .released => some (f.afterVersion t v p)
  | some .dropped => some (f.finish t (.failed (f.node n).mark.failureError))

/-- The clock is read, which moves it, and may have reached the target. -/
def stepReadClock (f : Fleet) (t : Nat) (target : Timestamp) (o : Outcome) : Fleet :=
  let f := f.setClock f.clock.tick
  if target ≤ f.clock.current then f.finish t o else f.moveTo t (.sleep target o)

/-- One who sleeps goes on when the clock has reached the target. -/
def stepSleep (f : Fleet) (t : Nat) (target : Timestamp) (o : Outcome) : Option Fleet :=
  if target ≤ f.clock.current then some (f.finish t o) else none

/-! ## Starting and stopping -/

/-- A node is started once. It gets the initial catalog, a dispatcher and a place at its log. -/
def stepStart (f : Fleet) (t n : Nat) : Fleet :=
  if (f.node n).started then f.finish t (.failed (.log .managerStarted))
  else
    let dispatch : Dispatch := ⟨[], true, f.tasks.length⟩
    let f := (f.onNode n fun x =>
      { x with
        started := true
        history := x.history.register Catalog.initial
        dispatch := some dispatch
        holdsHandler := true }).spawn n .dispatch
    match f.registerLink n with
    | .error e => f.finish t (.failed e)
    | .ok g => g.moveTo t .startLink

/-- The log of the node is started. -/
def stepStartLink (f : Fleet) (t n : Nat) : Fleet :=
  match f.startLink n with
  | .error e => f.finish t (.failed e)
  | .ok g => g.moveTo t .replay

/-- A node is started when all that its log has committed is done. -/
def stepReplay (f : Fleet) (t n : Nat) : Fleet :=
  match f.committedOf n with
  | .error e => f.finish t (.failed e)
  | .ok v => f.moveTo t (.await v .started)

/-- The log of the node is stopped, and its delivery has to end. -/
def stepStop (f : Fleet) (t n : Nat) : Fleet :=
  match f.stopLink n with
  | .error e => f.finish t (.failed e)
  | .ok (g, some u) => g.moveTo t (.join u .releaseHandler)
  | .ok (g, none) => g.moveTo t .releaseHandler

/-- The handler of the node is given up, if the node still has it, and the dispatcher has to
end. -/
def stepReleaseHandler (f : Fleet) (t n : Nat) : Fleet :=
  match (f.node n).holdsHandler, (f.node n).dispatch with
  | true, some d =>
    ((f.onNode n fun x => { x with holdsHandler := false }).closeDispatch n).moveTo t
      (.join d.task .closeMark)
  | _, _ => f.moveTo t .closeMark

/-- Nobody waits for a version of the node any more. -/
def stepCloseMark (f : Fleet) (t n : Nat) : Fleet := (f.failMark n .stopped).finish t .done

/-- What a task does once another one has ended. A dispatcher that ran out of versions is a failure
of the log. -/
def stepJoin (f : Fleet) (t u : Nat) (after : AfterJoin) : Option Fleet :=
  match f.outcome? u, after with
  | none, _ => none
  | some _, .finish => some (f.finish t .done)
  | some _, .releaseHandler => some (f.moveTo t .releaseHandler)
  | some (.aborted _), .closeMark =>
    some (f.finish t (.failed (.log (.dispatcherFailed Abort.overflowMessage))))
  | some _, .closeMark => some (f.moveTo t .closeMark)

/-! ## Handing updates over -/

/-- The next update of a delivery is handed over. The delivery ends when its receiver fails, or when
it is empty and nothing can come any more. -/
def stepDeliver (f : Fleet) (t d : Nat) : Option Fleet :=
  match f.deliveries[d]? with
  | none => some (f.finish t .done)
  | some x =>
    match x.queue with
    | [] => if x.attached then none else some (f.finish t .done)
    | e :: rest =>
      let f := { f with deliveries := f.deliveries.modify d fun y => { y with queue := rest } }
      match Update.decode e.bytes with
      | .error err => some ((f.halt x.receiver err).finish t .done)
      | .ok u =>
        match f.handle x.receiver u e.commit e.token with
        | .ok g => some g
        | .error err => some ((f.halt x.receiver err).finish t .done)

/-- The next notice is taken up. The dispatcher ends when there is none and none can come any
more. -/
def stepDispatch (f : Fleet) (t n : Nat) : Option Fleet :=
  match (f.node n).dispatch with
  | none => some (f.finish t .done)
  | some d =>
    match d.queue with
    | [] => if d.accepting then none else some (f.finish t .done)
    | notice :: rest =>
      some ((f.onNode n fun x => { x with dispatch := some { d with queue := rest } }).moveTo t
        (.announce notice.version notice.events))

/-! ## Publishing -/

/-- All listeners to an event are called. -/
def publish (f : Fleet) (t n : Nat) (event : Event) (after : AfterCalls) : Fleet :=
  let (f, calls) := f.beginCalls t event ((f.node n).publisher.listenersOf event.eventType)
  f.moveTo t (.gather event calls after)

/-- The next event of a version is published. After the last one the version is done. -/
def stepAnnounce (f : Fleet) (t n : Nat) (v : Version) : List Event → Fleet
  | event :: rest => f.publish t n event (.dispatch v rest)
  | [] =>
    match f.finishVersion n v with
    | (g, .ok ()) => g.moveTo t .dispatch
    | (g, .error a) => g.finish t (.aborted a)

/-- Calls go on where they can, unless the task waits at the gates of all of them. When all have
ended the failures are recorded. -/
def stepGather (f : Fleet) (t n : Nat) (event : Event) (calls : List Call) (after : AfterCalls) :
    Option Fleet :=
  if f.heldUp t calls then none
  else
    let (f, calls) := f.resumeCalls t calls
    if calls.all fun c => c.result.isSome then
      let failed := failedCalls event calls
      let f := f.recordAll n failed
      match after with
      | .report => some (f.finish t (.failures failed.length))
      | .dispatch v rest => some (f.moveTo t (.announce v rest))
    else some (f.moveTo t (.gather event calls after))

/-- The failed deliveries are taken out, to be repeated. -/
def stepRedeliver (f : Fleet) (t n : Nat) : Fleet :=
  let (publisher, pending) := (f.node n).publisher.drain
  (f.onNode n fun x => { x with publisher }).moveTo t (.redeliverRest pending 0)

/-- What comes after a repeated delivery. -/
def afterRedelivery (f : Fleet) (t n : Nat) (current : FailedDelivery)
    (pending : List FailedDelivery) (delivered : Nat) : CallResult → Fleet
  | .delivered => f.moveTo t (.redeliverRest pending (delivered + 1))
  | .failed reason =>
    (f.recordAll n [{ current with reason }]).moveTo t (.redeliverRest pending delivered)

/-- The next failed delivery is repeated. -/
def stepRedeliverRest (f : Fleet) (t n : Nat) (delivered : Nat) : List FailedDelivery → Fleet
  | [] => f.finish t (.delivered delivered)
  | current :: pending =>
    match f.beginCall t current.event current.listener with
    | (g, some r) => g.afterRedelivery t n current pending delivered r
    | (g, none) => g.moveTo t (.redelivering current pending delivered)

/-- A repeated delivery goes on when the task does not wait at the gate of its listener. -/
def stepRedelivering (f : Fleet) (t n : Nat) (current : FailedDelivery)
    (pending : List FailedDelivery) (delivered : Nat) : Option Fleet :=
  if f.waitsAt t current.listener then none
  else
    match f.attemptCall t current.listener with
    | (g, some r) => some (g.afterRedelivery t n current pending delivered r)
    | (g, none) => some g

/-! ## Logs on their own -/

/-- A log is started. -/
def stepStartLog (f : Fleet) (t n log : Nat) : Fleet :=
  match f.startLog log n with
  | .error e => f.finish t (.failed e)
  | .ok g => g.finish t .done

/-- A log is stopped, and its delivery has to end. -/
def stepStopLog (f : Fleet) (t log : Nat) : Fleet :=
  match f.stopLog log with
  | (g, some u) => g.moveTo t (.join u .finish)
  | (g, none) => g.finish t .done

/-- An update is offered to the storage. -/
def stepCommit (f : Fleet) (t : Nat) (u : Update) : Fleet :=
  let (g, accepted) := f.commit u
  g.finish t (.accepted accepted)

/-! ## All steps -/

/-- The step of a task, if it has one. -/
def step (f : Fleet) (t : Nat) : Option Fleet :=
  match f.tasks[t]? with
  | none => none
  | some x =>
    let n := x.node
    match x.point with
    | .draft st attempt => some (f.stepDraft t n st attempt)
    | .submit st attempt u => some (f.stepSubmit t n st attempt u)
    | .review st attempt => some (f.stepReview t n st attempt)
    | .await v p => some (f.stepAwait t n v p)
    | .awaiting v p => f.stepAwaiting t n v p x.signal
    | .confirm v => some (f.stepConfirm t n v)
    | .readClock target o => some (f.stepReadClock t target o)
    | .sleep target o => f.stepSleep t target o
    | .start => some (f.stepStart t n)
    | .startLink => some (f.stepStartLink t n)
    | .replay => some (f.stepReplay t n)
    | .stop => some (f.stepStop t n)
    | .releaseHandler => some (f.stepReleaseHandler t n)
    | .closeMark => some (f.stepCloseMark t n)
    | .join u after => f.stepJoin t u after
    | .deliver d => f.stepDeliver t d
    | .dispatch => f.stepDispatch t n
    | .announce v events => some (f.stepAnnounce t n v events)
    | .publish event => some (f.publish t n event .report)
    | .gather event calls after => f.stepGather t n event calls after
    | .redeliver => some (f.stepRedeliver t n)
    | .redeliverRest pending delivered => some (f.stepRedeliverRest t n delivered pending)
    | .redelivering current pending delivered =>
      f.stepRedelivering t n current pending delivered
    | .startLog log => some (f.stepStartLog t n log)
    | .stopLog log => some (f.stepStopLog t log)
    | .commit u => some (f.stepCommit t u)
    | .committed => some (f.finish t (.version f.storage.committed))
    | .ended _ => none

end Fleet

end SchemaCatalog
