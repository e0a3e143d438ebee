import SchemaCatalog.Proofs.Fleet.Run
import SchemaCatalog.Proofs.Fold

/-!
# What a move notes down

A fleet notes every call to a listener that is begun, and what recorders are told. A task begins
calls where it publishes an event, to all who listen to it, and where it repeats a failed delivery;
no other move begins any (`calls_after`). A recorder is told what a delivery hands to it, which it
notes, or is halted if it fails on that; no other move tells it anything (`receipts_after`).
-/

namespace SchemaCatalog

/-- The calls that a task at this point begins in its next step: to which listener, with which
event. -/
def Point.begins (listeners : EventType → List String) : Point → List (String × Event)
  | .announce _ (event :: _) => (listeners event.eventType).map fun l => (l, event)
  | .publish event => (listeners event.eventType).map fun l => (l, event)
  | .redeliverRest (current :: _) _ => [(current.listener, current.event)]
  | _ => []

namespace Receiver

/-- The note on an update. -/
def noting (r : Receiver) (u : Update) (commit : Timestamp) (token : Token) : List Receipt :=
  match r with
  | .node _ => []
  | .recorder name _ => [.update name u commit token]

/-- The note on the end. -/
def halting (r : Receiver) (e : Error) : List Receipt :=
  match r with
  | .node _ => []
  | .recorder name _ => [.halt name e]

/-- How a recorder was told to fail on an update. -/
def failure? (r : Receiver) (u : Update) : Option Error :=
  match r with
  | .recorder _ (some (v, e)) => if v = u.version then some e else none
  | _ => none

/-- What a receiver notes down of what a delivery hands to it: the update, or that it is halted. -/
def notes (r : Receiver) (e : Stored) : List Receipt :=
  match Update.decode e.bytes with
  | .error err => r.halting err
  | .ok u =>
    match r.failure? u with
    | some err => r.halting err
    | none => r.noting u e.commit e.token

end Receiver

namespace Fleet

/-- The calls that were begun, and the notes of recorders. -/
def notes (f : Fleet) : List CallRecord × List Receipt := (f.calls, f.receipts)

/-- What the receiver of a delivery notes down when the next update is handed to it. -/
def notesOf (f : Fleet) (d : Nat) : List Receipt :=
  match f.deliveries[d]? with
  | some y => (y.queue.take 1).flatMap y.receiver.notes
  | none => []

/-- What is noted down in the next step of a task. -/
def noted (f : Fleet) (t : Nat) : List Receipt :=
  match f.tasks[t]?.map Task.point with
  | some (.deliver d) => f.notesOf d
  | _ => []

/-- The calls that a task begins in its next step. -/
def begins (f : Fleet) (t : Nat) : List CallRecord :=
  match f.tasks[t]? with
  | some x =>
    (x.point.begins (f.node x.node).publisher.listenersOf).map fun c => ⟨t, c.1, c.2⟩
  | none => []

section

variable {f g : Fleet} {t n : Nat}

/-! ## Operations -/

lemma notes_ext (calls : g.calls = f.calls) (receipts : g.receipts = f.receipts) :
    g.notes = f.notes :=
  Prod.ext calls receipts

@[simp] lemma notes_wake (f : Fleet) (t : Nat) : (f.wake t).notes = f.notes := by
  apply notes_ext <;> simp

@[simp] lemma notes_wakeAll (f : Fleet) (ts : List Nat) : (f.wakeAll ts).notes = f.notes := by
  apply notes_ext <;> simp

@[simp] lemma notes_moveTo (f : Fleet) (t : Nat) (p : Point) : (f.moveTo t p).notes = f.notes := rfl

@[simp] lemma notes_finish (f : Fleet) (t : Nat) (o : Outcome) : (f.finish t o).notes = f.notes :=
  notes_wakeAll ..

@[simp] lemma notes_tell (f : Fleet) (s : Signal) (ts : List Nat) : (f.tell s ts).notes = f.notes :=
  notes_wakeAll ..

@[simp] lemma notes_setClock (f : Fleet) (c : Clock) : (f.setClock c).notes = f.notes :=
  notes_wakeAll ..

@[simp] lemma notes_onNode (f : Fleet) (n : Nat) (k : Node → Node) :
    (f.onNode n k).notes = f.notes :=
  rfl

@[simp] lemma notes_spawn (f : Fleet) (n : Nat) (p : Point) : (f.spawn n p).notes = f.notes := rfl

@[simp] lemma notes_setListener (f : Fleet) (name : String) (l : Listener) :
    (f.setListener name l).notes = f.notes := by
  unfold setListener
  split <;> rfl

@[simp] lemma notes_wakeDispatcher (f : Fleet) (n : Nat) :
    (f.wakeDispatcher n).notes = f.notes := by
  unfold wakeDispatcher
  split
  · split <;> simp
  · rfl

@[simp] lemma notes_failMark (f : Fleet) (n : Nat) (e : Error) :
    (f.failMark n e).notes = f.notes := by
  simp [failMark]

@[simp] lemma notes_finishVersion (f : Fleet) (n : Nat) (v : Version) :
    (f.finishVersion n v).1.notes = f.notes := by
  unfold finishVersion
  split <;> simp

lemma notes_handle {r : Receiver} {u : Update} {commit : Timestamp} {token : Token}
    (h : f.handle r u commit token = .ok g) :
    g.notes = (f.calls, f.receipts ++ r.noting u commit token) ∧ r.failure? u = none := by
  cases r with
  | node n =>
    dsimp only [handle] at h
    split at h
    · cases h
      rw [notes_wakeDispatcher, Receiver.noting, List.append_nil]
      exact ⟨rfl, rfl⟩
    · cases h
  | recorder name failAt =>
    cases failAt with
    | none =>
      cases h
      exact ⟨rfl, rfl⟩
    | some x =>
      dsimp only [handle] at h
      split at h
      · cases h
      · rename_i hv
        cases h
        exact ⟨rfl, if_neg hv⟩

/-- A recorder fails only where it was told to. -/
lemma failure_of_handle {name : String} {failAt : Option (Version × Error)} {u : Update}
    {commit : Timestamp} {token : Token} {e : Error}
    (h : f.handle (.recorder name failAt) u commit token = .error e) :
    (Receiver.recorder name failAt).failure? u = some e := by
  cases failAt with
  | none => cases h
  | some x =>
    dsimp only [handle] at h
    split at h
    · rename_i hv
      cases h
      exact if_pos hv
    · cases h

lemma notes_halt (f : Fleet) (r : Receiver) (e : Error) :
    (f.halt r e).notes = (f.calls, f.receipts ++ r.halting e) := by
  cases r with
  | node n =>
    have same : (f.halt (.node n) e).notes = f.notes := by simp [halt, closeDispatch]
    rw [same, Receiver.halting, List.append_nil]
    rfl
  | recorder name failAt => rfl

lemma notes_handleOrHalt (f : Fleet) (n : Nat) (u : Update) (commit : Timestamp)
    (token : Token) : (f.handleOrHalt (.node n) u commit token).notes = f.notes := by
  unfold handleOrHalt
  split
  · rename_i h
    rw [(notes_handle h).1, Receiver.noting, List.append_nil]
    rfl
  · rw [notes_halt, Receiver.halting, List.append_nil]
    rfl

lemma notes_register {log : Nat} {r : Receiver} (h : f.register log r = .ok g) :
    g.notes = f.notes := by
  unfold register at h
  split at h
  · cases h
  · cases h
    rfl

lemma notes_startLog {log : Nat} (h : f.startLog log n = .ok g) : g.notes = f.notes := by
  unfold startLog at h
  split at h
  · cases h
  · split at h
    · cases h
    · cases h
      rfl

@[simp] lemma notes_stopLog (f : Fleet) (log : Nat) : (f.stopLog log).1.notes = f.notes := by
  have same : f.detach.notes = f.notes := by
    unfold detach
    split
    · rfl
    · dsimp only
      split
      · exact notes_wake ..
      · rfl
  exact same

@[simp] lemma notes_feed (f : Fleet) (e : Stored) : (f.feed e).notes = f.notes := by
  unfold feed
  split
  · rfl
  · split
    · rfl
    · split
      · rfl
      · exact notes_wake ..

@[simp] lemma notes_commit (f : Fleet) (u : Update) : (f.commit u).1.notes = f.notes := by
  unfold commit
  split
  · exact (notes_feed ..).trans (notes_setClock ..)
  · rfl

lemma notes_registerLink (h : f.registerLink n = .ok g) : g.notes = f.notes := by
  obtain ⟨_, -, h⟩ := bind_ok h
  split at h
  · exact notes_register h
  · exact notes_register h
  · cases h
    rfl

lemma notes_startLink (h : f.startLink n = .ok g) : g.notes = f.notes := by
  obtain ⟨_, -, h⟩ := bind_ok h
  split at h
  · exact notes_startLog h
  · exact notes_startLog h
  · cases h
    rfl

lemma notes_stopLink {k : Fleet × Option Nat} (h : f.stopLink n = .ok k) :
    k.1.notes = f.notes := by
  obtain ⟨_, -, h⟩ := bind_ok h
  split at h
  · cases h
    simp
  · cases h
    simp
  · cases h
    rfl

lemma notes_appendScripted (f : Fleet) (n : Nat) (s : Script) (u : Update) :
    (f.appendScripted n s u).1.notes = f.notes := by
  unfold appendScripted
  dsimp only
  split
  · rfl
  · split
    · exact (notes_handleOrHalt ..).trans (notes_setClock ..)
    · simp
  · rfl

lemma notes_appendLink {u : Update} {k : Fleet × Bool} (h : f.appendLink n u = .ok k) :
    k.1.notes = f.notes := by
  obtain ⟨_, -, h⟩ := bind_ok h
  split at h
  · cases h
    simp
  · cases h
    simp
  · cases h
    rfl
  · cases h
    exact notes_appendScripted ..

@[simp] lemma notes_attemptCall (f : Fleet) (t : Nat) (name : String) :
    (f.attemptCall t name).1.notes = f.notes := by
  unfold attemptCall
  dsimp only
  split
  · simp
  · split <;> simp

@[simp] lemma notes_resumeCalls (f : Fleet) (t : Nat) (calls : List Call) :
    (f.resumeCalls t calls).1.notes = f.notes := by
  induction calls generalizing f with
  | nil => rfl
  | cons c cs ih =>
    unfold resumeCalls
    split
    · exact ih f
    · exact (ih _).trans (notes_attemptCall ..)

@[simp] lemma notes_recordAll (f : Fleet) (n : Nat) (fs : List FailedDelivery) :
    (f.recordAll n fs).notes = f.notes := by
  simp [recordAll]

lemma notes_beginCall (f : Fleet) (t : Nat) (event : Event) (name : String) :
    (f.beginCall t event name).1.notes = (f.calls ++ [⟨t, name, event⟩], f.receipts) :=
  notes_attemptCall ..

lemma notes_beginCalls (f : Fleet) (t : Nat) (event : Event) (names : List String) :
    (f.beginCalls t event names).1.notes =
      (f.calls ++ names.map fun l => ⟨t, l, event⟩, f.receipts) := by
  induction names generalizing f with
  | nil =>
    rw [List.map_nil, List.append_nil]
    rfl
  | cons name names ih =>
    obtain ⟨calls, receipts⟩ := Prod.ext_iff.1 (notes_beginCall f t event name)
    rw [beginCalls, ih]
    refine Prod.ext ?_ receipts
    refine (congrArg (· ++ _) calls).trans ?_
    rw [List.append_assoc]
    rfl

lemma notes_publish (f : Fleet) (t n : Nat) (event : Event) (after : AfterCalls) :
    (f.publish t n event after).notes = (f.calls ++
      ((f.node n).publisher.listenersOf event.eventType).map fun l => ⟨t, l, event⟩,
      f.receipts) := by
  rw [← notes_beginCalls]
  rfl

/-! ## Steps -/

@[simp] lemma notes_stepDraft (f : Fleet) (t n : Nat) (st : Statement) (attempt : Nat) :
    (f.stepDraft t n st attempt).notes = f.notes := by
  unfold stepDraft
  split
  · simp
  · split
    · simp
    · split
      · simp
      · simp
      · split <;> simp

@[simp] lemma notes_stepSubmit (f : Fleet) (t n : Nat) (st : Statement) (attempt : Nat)
    (u : Update) : (f.stepSubmit t n st attempt u).notes = f.notes := by
  unfold stepSubmit
  split
  · simp
  · rename_i h
    simpa using notes_appendLink h
  · rename_i h
    simpa using notes_appendLink h

@[simp] lemma notes_stepReview (f : Fleet) (t n : Nat) (st : Statement) (attempt : Nat) :
    (f.stepReview t n st attempt).notes = f.notes := by
  unfold stepReview
  split <;> simp

@[simp] lemma notes_stepConfirm (f : Fleet) (t n : Nat) (v : Version) :
    (f.stepConfirm t n v).notes = f.notes := by
  unfold stepConfirm
  split <;> simp

lemma notes_afterVersion (f : Fleet) (t : Nat) (v : Version) (p : Purpose) :
    (f.afterVersion t v p).notes = f.notes := by
  unfold afterVersion
  split
  · simp
  · split <;> simp
  · simp
  · simp

@[simp] lemma notes_stepAwait (f : Fleet) (t n : Nat) (v : Version) (p : Purpose) :
    (f.stepAwait t n v p).notes = f.notes := by
  unfold stepAwait
  split
  · exact notes_afterVersion ..
  · simp
  · simp

lemma notes_stepAwaiting {v : Version} {p : Purpose} {s : Option Signal}
    (h : f.stepAwaiting t n v p s = some g) : g.notes = f.notes := by
  unfold stepAwaiting at h
  split at h
  · cases h
  · cases h
    exact notes_afterVersion ..
  · cases h
    simp

@[simp] lemma notes_stepReadClock (f : Fleet) (t : Nat) (target : Timestamp) (o : Outcome) :
    (f.stepReadClock t target o).notes = f.notes := by
  unfold stepReadClock
  dsimp only
  split <;> simp

@[simp] lemma notes_stepStart (f : Fleet) (t n : Nat) : (f.stepStart t n).notes = f.notes := by
  unfold stepStart
  split
  · simp
  · dsimp only
    split
    · simp
    · rename_i h
      simpa using notes_registerLink h

@[simp] lemma notes_stepStartLink (f : Fleet) (t n : Nat) :
    (f.stepStartLink t n).notes = f.notes := by
  unfold stepStartLink
  split
  · simp
  · rename_i h
    simpa using notes_startLink h

@[simp] lemma notes_stepReplay (f : Fleet) (t n : Nat) : (f.stepReplay t n).notes = f.notes := by
  unfold stepReplay
  split <;> simp

@[simp] lemma notes_stepStop (f : Fleet) (t n : Nat) : (f.stepStop t n).notes = f.notes := by
  unfold stepStop
  split
  · simp
  · rename_i h
    simpa using notes_stopLink h
  · rename_i h
    simpa using notes_stopLink h

@[simp] lemma notes_stepReleaseHandler (f : Fleet) (t n : Nat) :
    (f.stepReleaseHandler t n).notes = f.notes := by
  unfold stepReleaseHandler
  split <;> simp [closeDispatch]

@[simp] lemma notes_stepCloseMark (f : Fleet) (t n : Nat) :
    (f.stepCloseMark t n).notes = f.notes := by
  simp [stepCloseMark]

lemma notes_stepJoin {u : Nat} {after : AfterJoin} (h : f.stepJoin t u after = some g) :
    g.notes = f.notes := by
  unfold stepJoin at h
  split at h <;> cases h <;> simp

/-- A delivery that hands nothing over notes nothing down. -/
lemma notesOf_of_empty {d : Nat} (h : ∀ y, f.deliveries[d]? = some y → y.queue = []) :
    f.notesOf d = [] := by
  unfold notesOf
  split
  · rename_i y hy
    rw [h y hy]
    rfl
  · rfl

/-- The step of a delivery notes down what its receiver makes of the update. -/
lemma notes_stepDeliver {d : Nat} (h : f.stepDeliver t d = some g) :
    g.notes = (f.calls, f.receipts ++ f.notesOf d) := by
  have ended : (∀ y, f.deliveries[d]? = some y → y.queue = []) →
      (f.finish t .done).notes = (f.calls, f.receipts ++ f.notesOf d) := by
    intro empty
    rw [notesOf_of_empty empty, List.append_nil, notes_finish]
    rfl
  unfold stepDeliver at h
  split at h
  · rename_i hd
    cases h
    refine ended fun y hy => ?_
    rw [hd] at hy
    cases hy
  · rename_i y hy
    split at h
    · rename_i hq
      split at h
      · cases h
      · cases h
        refine ended fun z hz => ?_
        rw [hy] at hz
        cases hz
        exact hq
    · rename_i e rest hq
      have made : f.notesOf d = y.receiver.notes e := by
        rw [notesOf, hy]
        dsimp only
        rw [hq, List.take_succ_cons, List.take_zero, List.flatMap_singleton]
      rw [made, Receiver.notes]
      dsimp only at h
      cases hu : Update.decode e.bytes with
      | error err =>
        rw [hu] at h
        cases h
        rw [notes_finish, notes_halt]
      | ok u =>
        rw [hu] at h
        dsimp only at h ⊢
        split at h
        · rename_i k hk
          cases h
          obtain ⟨noting, fine⟩ := notes_handle hk
          rw [fine, noting]
        · rename_i err herr
          cases h
          rw [notes_finish, notes_halt]
          -- A node notes nothing down, whatever it fails on.
          cases hr : y.receiver with
          | node n => rfl
          | recorder name failAt =>
            rw [hr] at herr
            rw [failure_of_handle herr]

lemma notes_stepDispatch (h : f.stepDispatch t n = some g) : g.notes = f.notes := by
  unfold stepDispatch at h
  split at h
  · cases h
    simp
  · split at h
    · split at h
      · cases h
      · cases h
        simp
    · cases h
      simp

lemma notes_stepGather {event : Event} {calls : List Call} {after : AfterCalls}
    (h : f.stepGather t n event calls after = some g) : g.notes = f.notes := by
  unfold stepGather at h
  split at h
  · cases h
  · dsimp only at h
    split at h
    · split at h <;> cases h <;> simp
    · cases h
      simp

@[simp] lemma notes_stepRedeliver (f : Fleet) (t n : Nat) :
    (f.stepRedeliver t n).notes = f.notes := by
  simp [stepRedeliver]

lemma notes_afterRedelivery (f : Fleet) (t n : Nat) (current : FailedDelivery)
    (pending : List FailedDelivery) (delivered : Nat) (r : CallResult) :
    (f.afterRedelivery t n current pending delivered r).notes = f.notes := by
  unfold afterRedelivery
  split <;> simp

lemma notes_stepRedeliverRest (f : Fleet) (t n delivered : Nat) (current : FailedDelivery)
    (pending : List FailedDelivery) :
    (f.stepRedeliverRest t n delivered (current :: pending)).notes =
      (f.calls ++ [⟨t, current.listener, current.event⟩], f.receipts) := by
  rw [stepRedeliverRest, ← notes_beginCall]
  split
  · rename_i h
    rw [notes_afterRedelivery, h]
  · rename_i h
    rw [notes_moveTo, h]

lemma notes_stepRedelivering {current : FailedDelivery} {pending : List FailedDelivery}
    {delivered : Nat} (h : f.stepRedelivering t n current pending delivered = some g) :
    g.notes = f.notes := by
  have attempt := notes_attemptCall f t current.listener
  unfold stepRedelivering at h
  split at h
  · cases h
  · split at h
    · rename_i k r e
      rw [e] at attempt
      cases h
      exact (notes_afterRedelivery ..).trans attempt
    · rename_i k e
      rw [e] at attempt
      cases h
      exact attempt

@[simp] lemma notes_stepStartLog (f : Fleet) (t n log : Nat) :
    (f.stepStartLog t n log).notes = f.notes := by
  unfold stepStartLog
  split
  · simp
  · rename_i h
    simpa using notes_startLog h

@[simp] lemma notes_stepStopLog (f : Fleet) (t log : Nat) :
    (f.stepStopLog t log).notes = f.notes := by
  have stop := notes_stopLog f log
  unfold stepStopLog
  split
  · rename_i e
    rw [e] at stop
    simpa using stop
  · rename_i e
    rw [e] at stop
    simpa using stop

@[simp] lemma notes_stepCommit (f : Fleet) (t : Nat) (u : Update) :
    (f.stepCommit t u).notes = f.notes := by
  simp [stepCommit]

/-- The last event of a version was published, and no call begins. -/
lemma notes_stepAnnounce_nil (f : Fleet) (t n : Nat) (v : Version) :
    (f.stepAnnounce t n v []).notes = f.notes := by
  have finish := notes_finishVersion f n v
  rw [stepAnnounce]
  split
  · rename_i e
    rw [e] at finish
    simpa using finish
  · rename_i e
    rw [e] at finish
    simpa using finish

/-- A step begins the calls that its task begins, and notes down what the receiver of its delivery
makes of the update. -/
theorem notes_step (h : f.step t = some g) :
    g.notes = (f.calls ++ f.begins t, f.receipts ++ f.noted t) := by
  rw [step] at h
  rw [begins, noted]
  cases hx : f.tasks[t]? with
  | none =>
    rw [hx] at h
    cases h
  | some x =>
    rw [hx] at h
    rw [Option.map_some]
    dsimp only at h ⊢
    generalize x.point = p at h ⊢
    have nothing : ∀ k : Fleet, k.notes = f.notes →
        k.notes = (f.calls ++ [], f.receipts ++ []) := by
      intro k e
      rw [e, List.append_nil, List.append_nil]
      rfl
    cases p with
    | announce v events =>
      cases h
      cases events with
      | nil => exact nothing _ (notes_stepAnnounce_nil ..)
      | cons event rest =>
        rw [stepAnnounce, notes_publish, Point.begins, List.map_map, List.append_nil]
        rfl
    | publish event =>
      cases h
      rw [notes_publish, Point.begins, List.map_map, List.append_nil]
      rfl
    | redeliverRest pending delivered =>
      cases h
      cases pending with
      | nil => exact nothing _ (notes_finish ..)
      | cons current pending =>
        rw [notes_stepRedeliverRest, List.append_nil]
        rfl
    | deliver d =>
      refine (notes_stepDeliver h).trans ?_
      rw [show Point.begins _ (.deliver d) = [] from rfl, List.map_nil, List.append_nil]
    -- At the other points no call begins, and nothing is noted down.
    | awaiting v q => exact nothing _ (notes_stepAwaiting h)
    | sleep target o =>
      dsimp only [stepSleep] at h
      split at h
      · cases h
        exact nothing _ (notes_finish ..)
      · cases h
    | join u after => exact nothing _ (notes_stepJoin h)
    | dispatch => exact nothing _ (notes_stepDispatch h)
    | gather event calls after => exact nothing _ (notes_stepGather h)
    | redelivering current pending delivered => exact nothing _ (notes_stepRedelivering h)
    | ended o => cases h
    | _ =>
      cases h
      exact nothing _ (by simp)

lemma task_of_begins {c : CallRecord} (h : c ∈ f.begins t) :
    c.task = t ∧ t < f.tasks.length := by
  rw [begins] at h
  split at h
  · rename_i x hx
    obtain ⟨lt, -⟩ := List.getElem?_eq_some_iff.1 hx
    obtain ⟨c', -, rfl⟩ := List.mem_map.1 h
    exact ⟨rfl, lt⟩
  · cases h

/-- Where calls begin a task is never held up. -/
lemma begins_of_stuck (h : f.step t = none) : f.begins t = [] := by
  rw [step] at h
  rw [begins]
  cases hx : f.tasks[t]? with
  | none => rfl
  | some x =>
    rw [hx] at h
    dsimp only at h ⊢
    generalize x.point = p at h ⊢
    cases p with
    | announce v events => cases h
    | publish event => cases h
    | redeliverRest pending delivered => cases h
    | _ => rfl

/-! ## Moves -/

lemma notes_request (f : Fleet) (skew : Duration) (n : Nat) {r : Request}
    (hr : r.isDelivery = false) : (Session.start f skew n r).1.notes = f.notes := by
  -- A request starts a task, or changes what is not noted down.
  cases r with
  | markDone v =>
    have finish := notes_finishVersion f n v
    rw [Session.start]
    split
    · rename_i e
      rw [e] at finish
      exact finish
    · rename_i e
      rw [e] at finish
      exact finish
  | listen name types mode =>
    rw [Session.start, Session.carriedOut, Session.listen]
    dsimp only
    split <;> simp
  | setMode name mode => simp [Session.start, Session.carriedOut, setMode]
  | publish entry token version =>
    rw [Session.start]
    split
    · simp [Session.startTask]
    · rfl
  | register log recorder failAt =>
    rw [Session.start]
    split
    · rename_i h
      exact notes_register h
    · rfl
  | stored v =>
    rw [Session.start]
    split
    · rfl
    · rfl
  | ask instant query =>
    rw [Session.start]
    split
    · rfl
    · rfl
  | reopen c => rfl
  | deliver u commit token => cases hr
  | halt e => cases hr
  | _ => simp [Session.start, Session.carriedOut, Session.startTask, Session.onScript]

/-- A task that cannot go on has nothing to hand over. -/
lemma noted_of_stuck (h : f.step t = none) : f.noted t = [] := by
  rw [step] at h
  rw [noted]
  cases hx : f.tasks[t]? with
  | none => rfl
  | some x =>
    rw [hx] at h
    rw [Option.map_some]
    dsimp only at h ⊢
    generalize x.point = p at h ⊢
    cases p with
    | deliver d =>
      refine notesOf_of_empty fun y hy => ?_
      dsimp only [stepDeliver] at h
      rw [hy] at h
      dsimp only at h
      split at h
      · rename_i hq
        exact hq
      · split at h
        · cases h
        · split at h
          · cases h
          · cases h
    | _ => rfl

/-- What a move notes down is what a step of its task does, if it is one. -/
lemma notes_after (f : Fleet) (m : Move) :
    (∃ t, m = .step t ∧ (f.after m).notes = (f.calls ++ f.begins t, f.receipts ++ f.noted t)) ∨
      m.isStep = false ∧ (f.after m).notes = f.notes := by
  cases m with
  | step t =>
    refine .inl ⟨t, rfl, ?_⟩
    rw [after]
    cases hg : f.step t with
    | none =>
      rw [begins_of_stuck hg, noted_of_stuck hg, List.append_nil, List.append_nil]
      rfl
    | some g => exact notes_step hg
  | request n skew r =>
    refine .inr ⟨rfl, ?_⟩
    rw [after]
    split
    · rename_i h
      exact notes_request f skew n h.2
    · rfl
  | join c rejections => exact .inr ⟨rfl, rfl⟩
  | turnClock c => exact .inr ⟨rfl, notes_setClock ..⟩

/-- A move begins the calls that its task begins, if it is a step, and no calls otherwise. -/
theorem calls_after (f : Fleet) (m : Move) :
    (∃ t, m = .step t ∧ (f.after m).calls = f.calls ++ f.begins t) ∨
      m.isStep = false ∧ (f.after m).calls = f.calls := by
  rcases notes_after f m with ⟨t, hm, notes⟩ | ⟨hm, notes⟩
  · exact .inl ⟨t, hm, congrArg Prod.fst notes⟩
  · exact .inr ⟨hm, congrArg Prod.fst notes⟩

/-- Recorders note down what a delivery hands to them in a step, and nothing else. -/
theorem receipts_after (f : Fleet) (m : Move) :
    (∃ t, m = .step t ∧ (f.after m).receipts = f.receipts ++ f.noted t) ∨
      m.isStep = false ∧ (f.after m).receipts = f.receipts := by
  rcases notes_after f m with ⟨t, hm, notes⟩ | ⟨hm, notes⟩
  · exact .inl ⟨t, hm, congrArg Prod.snd notes⟩
  · exact .inr ⟨hm, congrArg Prod.snd notes⟩

end

end Fleet

end SchemaCatalog
