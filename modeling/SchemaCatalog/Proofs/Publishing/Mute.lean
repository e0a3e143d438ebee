import SchemaCatalog.Proofs.Fleet.Frame
import SchemaCatalog.Proofs.Fold
import SchemaCatalog.Proofs.Publishing.Answers

/-!
# What leaves publishers and listeners alone

Little of what happens to a fleet has to do with publishing. What has not (`Fleet.Mute`) changes
neither publishers nor listeners, and puts no task among the calls of a publication or a
redelivery.
-/

namespace SchemaCatalog

namespace Point

/-- Whether a task at this point is among its calls to listeners. -/
def isCalling : Point → Bool
  | .gather .. => true
  | .redeliverRest .. => true
  | .redelivering .. => true
  | _ => false

/-- Whether the next step of a task at this point has to do with a publisher or with listeners. -/
def publishes : Point → Bool
  | .announce _ (_ :: _) => true
  | .publish _ => true
  | .gather .. => true
  | .redeliver => true
  | .redeliverRest (_ :: _) _ => true
  | .redelivering .. => true
  | _ => false

end Point

namespace Fleet

/-- A fleet with the same publishers and listeners, where no more tasks are among their calls. -/
structure Mute (f g : Fleet) : Prop where
  nodes : g.nodes.length = f.nodes.length
  publisher : ∀ n, (g.node n).publisher = (f.node n).publisher
  listeners : g.listeners = f.listeners
  calling : ∀ (t : Nat) (y : Task), g.tasks[t]? = some y → y.point.isCalling = true →
    ∃ x, f.tasks[t]? = some x ∧ x.node = y.node ∧ x.point = y.point

section

variable {f g k : Fleet} {t n : Nat} {p : Point} {u : Update}

/-! ## Operations -/

lemma mute_of_same (nodes : g.nodes = f.nodes) (listeners : g.listeners = f.listeners)
    (tasks : g.tasks = f.tasks) : f.Mute g where
  nodes := by rw [nodes]
  publisher n := by rw [node_congr nodes]
  listeners := listeners
  calling _ y hy _ := ⟨y, tasks ▸ hy, rfl, rfl⟩

lemma Mute.refl (f : Fleet) : f.Mute f := mute_of_same rfl rfl rfl

lemma Mute.after (hk : g.Mute k) (hg : f.Mute g) : f.Mute k where
  nodes := hk.nodes.trans hg.nodes
  publisher n := (hk.publisher n).trans (hg.publisher n)
  listeners := hk.listeners.trans hg.listeners
  calling t y hy hp := by
    obtain ⟨x, hx, hxn, hxp⟩ := hk.calling t y hy hp
    obtain ⟨z, hz, hzn, hzp⟩ := hg.calling t x hx (hxp ▸ hp)
    exact ⟨z, hz, hzn.trans hxn, hzp.trans hxp⟩

lemma mute_wakeAll (f : Fleet) (ts : List Nat) : f.Mute (f.wakeAll ts) := by
  apply mute_of_same <;> simp

lemma mute_wake (f : Fleet) (t : Nat) : f.Mute (f.wake t) := by
  apply mute_of_same <;> simp

lemma mute_onNode {c : Node → Node} (same : (c (f.node n)).publisher = (f.node n).publisher) :
    f.Mute (f.onNode n c) where
  nodes := List.length_modify ..
  publisher m := by
    by_cases hn : n < f.nodes.length
    · rw [node_modify (f := f) rfl hn]
      split
      · rename_i e
        rw [same, e]
      · rfl
    · rw [node_congr (f := f.onNode n c) (List.modify_eq_self (Nat.not_lt.1 hn))]
  listeners := rfl
  calling _ y hy _ := ⟨y, hy, rfl, rfl⟩

lemma mute_moveTo (f : Fleet) (t : Nat) (hp : p.isCalling = false) : f.Mute (f.moveTo t p) := by
  refine ⟨rfl, fun _ => rfl, rfl, fun s y hy calling => ?_⟩
  rcases modify_cases hy with ⟨-, z, -, rfl⟩ | ⟨-, hy⟩
  · rw [hp] at calling
    cases calling
  · exact ⟨y, hy, rfl, rfl⟩

lemma mute_finish (f : Fleet) (t : Nat) (o : Outcome) : f.Mute (f.finish t o) :=
  (mute_wakeAll ..).after (mute_moveTo f t rfl)

lemma mute_spawn (f : Fleet) (n : Nat) (hp : p.isCalling = false) : f.Mute (f.spawn n p) := by
  refine ⟨rfl, fun _ => rfl, rfl, fun t y hy calling => ?_⟩
  rcases concat_cases hy with hy | ⟨-, rfl⟩
  · exact ⟨y, hy, rfl, rfl⟩
  · rw [hp] at calling
    cases calling

lemma mute_tell (f : Fleet) (s : Signal) (ts : List Nat) : f.Mute (f.tell s ts) := by
  refine ⟨by simp, fun n => ?_, by simp, fun t y hy _ => ?_⟩
  · rw [node_congr (g := f) (by simp)]
  · simp only [tell_fields] at hy
    obtain ⟨x, hx, rfl⟩ := told_cases hy
    obtain ⟨point, node⟩ := told_point s ts t x
    exact ⟨x, hx, node.symm, point.symm⟩

lemma mute_setClock (f : Fleet) (c : Clock) : f.Mute (f.setClock c) := by
  apply mute_of_same <;> simp

lemma mute_wakeDispatcher (f : Fleet) (n : Nat) : f.Mute (f.wakeDispatcher n) := by
  unfold wakeDispatcher
  split
  · split
    · exact mute_wake ..
    · exact .refl f
  · exact .refl f

lemma mute_closeDispatch (f : Fleet) (n : Nat) : f.Mute (f.closeDispatch n) :=
  (mute_wakeDispatcher ..).after (mute_onNode rfl)

lemma mute_failMark (f : Fleet) (n : Nat) (e : Error) : f.Mute (f.failMark n e) :=
  (mute_tell ..).after (mute_onNode rfl)

lemma mute_finishVersion (f : Fleet) (n : Nat) (v : Version) :
    f.Mute (f.finishVersion n v).1 := by
  unfold finishVersion
  split
  · exact (mute_tell ..).after (mute_onNode rfl)
  · exact mute_onNode rfl

lemma mute_handle {r : Receiver} {commit : Timestamp} {token : Token}
    (h : f.handle r u commit token = .ok g) : f.Mute g := by
  cases r with
  | node n =>
    dsimp only [handle] at h
    split at h
    · rename_i x hx
      cases h
      obtain ⟨history, notice, -, rfl⟩ := Node.handle_ok hx
      exact (mute_wakeDispatcher ..).after (mute_onNode (by simp))
    · cases h
  | recorder name failAt =>
    dsimp only [handle] at h
    split at h
    · split at h
      · cases h
      · cases h
        exact mute_of_same rfl rfl rfl
    · cases h
      exact mute_of_same rfl rfl rfl

lemma mute_halt (f : Fleet) (r : Receiver) (e : Error) : f.Mute (f.halt r e) := by
  cases r with
  | node n => exact (mute_failMark ..).after (mute_closeDispatch ..)
  | recorder name failAt => exact mute_of_same rfl rfl rfl

lemma mute_handleOrHalt (f : Fleet) (r : Receiver) (u : Update) (commit : Timestamp)
    (token : Token) : f.Mute (f.handleOrHalt r u commit token) := by
  unfold handleOrHalt
  split
  · rename_i h
    exact mute_handle h
  · exact mute_halt ..

lemma mute_register {log : Nat} {r : Receiver} (h : f.register log r = .ok g) : f.Mute g := by
  unfold register at h
  split at h
  · cases h
  · cases h
    exact mute_of_same rfl rfl rfl

lemma mute_startLog {log : Nat} (h : f.startLog log n = .ok g) : f.Mute g := by
  unfold startLog at h
  split at h
  · cases h
  · split at h
    · cases h
    · cases h
      exact (mute_spawn _ n rfl).after (mute_of_same rfl rfl rfl)

lemma mute_stopLog (f : Fleet) (log : Nat) : f.Mute (f.stopLog log).1 := by
  have detached : f.Mute f.detach := by
    unfold detach
    split
    · exact .refl f
    · dsimp only
      split
      · exact (mute_wake ..).after (mute_of_same rfl rfl rfl)
      · exact mute_of_same rfl rfl rfl
  exact Mute.after (g := f.detach) (mute_of_same rfl rfl rfl) detached

lemma mute_feed (f : Fleet) (e : Stored) : f.Mute (f.feed e) := by
  unfold feed
  split
  · exact .refl f
  · split
    · exact .refl f
    · split
      · exact .refl f
      · exact (mute_wake ..).after (mute_of_same rfl rfl rfl)

lemma mute_commit (f : Fleet) (u : Update) : f.Mute (f.commit u).1 := by
  unfold commit
  split
  · exact (mute_feed ..).after ((mute_setClock ..).after (mute_of_same rfl rfl rfl))
  · exact .refl f

lemma mute_registerLink (h : f.registerLink n = .ok g) : f.Mute g := by
  unfold registerLink at h
  obtain ⟨_, -, h⟩ := bind_ok h
  split at h
  · exact mute_register h
  · exact mute_register h
  · cases h
    exact mute_onNode rfl

lemma mute_startLink (h : f.startLink n = .ok g) : f.Mute g := by
  unfold startLink at h
  obtain ⟨_, -, h⟩ := bind_ok h
  split at h
  · exact mute_startLog h
  · exact mute_startLog h
  · cases h
    exact .refl f

lemma mute_stopLink {o : Option Nat} (h : f.stopLink n = .ok (g, o)) : f.Mute g := by
  unfold stopLink at h
  obtain ⟨_, -, h⟩ := bind_ok h
  split at h
  · cases h
    exact mute_stopLog ..
  · cases h
    exact mute_stopLog ..
  · cases h
    exact .refl f

lemma mute_appendScripted (f : Fleet) (n : Nat) (s : Script) (u : Update) :
    f.Mute (f.appendScripted n s u).1 := by
  unfold appendScripted
  dsimp only
  split
  · exact mute_onNode rfl
  · split
    · exact (mute_handleOrHalt ..).after
        ((mute_setClock ..).after (mute_onNode rfl))
    · exact (mute_setClock ..).after (mute_onNode rfl)
  · exact mute_onNode rfl

lemma mute_appendLink {a : Fleet × Bool} (h : f.appendLink n u = .ok a) : f.Mute a.1 := by
  unfold appendLink at h
  obtain ⟨_, -, h⟩ := bind_ok h
  split at h
  · cases h
    exact mute_commit ..
  · cases h
    exact (mute_commit ..).after (mute_onNode rfl)
  · cases h
    exact mute_onNode rfl
  · cases h
    exact mute_appendScripted ..

/-! ## Steps -/

lemma mute_stepDraft (f : Fleet) (t n : Nat) (st : Statement) (attempt : Nat) :
    f.Mute (f.stepDraft t n st attempt) := by
  unfold stepDraft
  split
  · exact mute_finish ..
  · split
    · exact mute_finish ..
    · split
      · exact mute_finish ..
      · exact mute_moveTo f t rfl
      · split
        · exact mute_finish ..
        · exact mute_moveTo f t rfl

lemma mute_stepSubmit (f : Fleet) (t n : Nat) (st : Statement) (attempt : Nat) (u : Update) :
    f.Mute (f.stepSubmit t n st attempt u) := by
  unfold stepSubmit
  split
  · exact mute_finish ..
  · rename_i h
    exact (mute_moveTo _ t rfl).after (mute_appendLink h)
  · rename_i h
    exact (mute_moveTo _ t rfl).after (mute_appendLink h)

lemma mute_stepReview (f : Fleet) (t n : Nat) (st : Statement) (attempt : Nat) :
    f.Mute (f.stepReview t n st attempt) := by
  unfold stepReview
  split
  · exact mute_finish ..
  · exact mute_moveTo f t rfl

lemma mute_stepConfirm (f : Fleet) (t n : Nat) (v : Version) :
    f.Mute (f.stepConfirm t n v) := by
  unfold stepConfirm
  split
  · exact mute_finish ..
  · exact mute_moveTo f t rfl

lemma mute_afterVersion (f : Fleet) (t : Nat) (v : Version) (q : Purpose) :
    f.Mute (f.afterVersion t v q) := by
  unfold afterVersion
  split
  · exact mute_moveTo f t rfl
  · split
    · exact mute_moveTo f t rfl
    · exact mute_finish ..
  · exact mute_finish ..
  · exact mute_finish ..

lemma mute_stepAwait (f : Fleet) (t n : Nat) (v : Version) (q : Purpose) :
    f.Mute (f.stepAwait t n v q) := by
  unfold stepAwait
  split
  · exact mute_afterVersion ..
  · exact mute_finish ..
  · exact (mute_moveTo _ t rfl).after (mute_onNode rfl)

lemma mute_stepAwaiting {v : Version} {q : Purpose} {s : Option Signal}
    (h : f.stepAwaiting t n v q s = some g) : f.Mute g := by
  unfold stepAwaiting at h
  split at h
  · cases h
  · cases h
    exact mute_afterVersion ..
  · cases h
    exact mute_finish ..

lemma mute_stepReadClock (f : Fleet) (t : Nat) (target : Timestamp) (o : Outcome) :
    f.Mute (f.stepReadClock t target o) := by
  unfold stepReadClock
  dsimp only
  split
  · exact (mute_finish ..).after (mute_setClock ..)
  · exact (mute_moveTo _ t rfl).after (mute_setClock ..)

lemma mute_stepSleep {target : Timestamp} {o : Outcome} (h : f.stepSleep t target o = some g) :
    f.Mute g := by
  unfold stepSleep at h
  split at h
  · cases h
    exact mute_finish ..
  · cases h

lemma mute_stepStart (f : Fleet) (t n : Nat) : f.Mute (f.stepStart t n) := by
  unfold stepStart
  split
  · exact mute_finish ..
  · dsimp only
    split
    · exact (mute_finish ..).after ((mute_spawn _ n rfl).after (mute_onNode rfl))
    · rename_i h
      exact (mute_moveTo _ t rfl).after
        ((mute_registerLink h).after ((mute_spawn _ n rfl).after (mute_onNode rfl)))

lemma mute_stepStartLink (f : Fleet) (t n : Nat) : f.Mute (f.stepStartLink t n) := by
  unfold stepStartLink
  split
  · exact mute_finish ..
  · rename_i h
    exact (mute_moveTo _ t rfl).after (mute_startLink h)

lemma mute_stepReplay (f : Fleet) (t n : Nat) : f.Mute (f.stepReplay t n) := by
  unfold stepReplay
  split
  · exact mute_finish ..
  · exact mute_moveTo f t rfl

lemma mute_stepStop (f : Fleet) (t n : Nat) : f.Mute (f.stepStop t n) := by
  unfold stepStop
  split
  · exact mute_finish ..
  · rename_i h
    exact (mute_moveTo _ t rfl).after (mute_stopLink h)
  · rename_i h
    exact (mute_moveTo _ t rfl).after (mute_stopLink h)

lemma mute_stepReleaseHandler (f : Fleet) (t n : Nat) : f.Mute (f.stepReleaseHandler t n) := by
  unfold stepReleaseHandler
  split
  · exact (mute_moveTo _ t rfl).after ((mute_closeDispatch ..).after (mute_onNode rfl))
  · exact mute_moveTo f t rfl

lemma mute_stepCloseMark (f : Fleet) (t n : Nat) : f.Mute (f.stepCloseMark t n) :=
  (mute_finish ..).after (mute_failMark ..)

lemma mute_stepJoin {u : Nat} {after : AfterJoin} (h : f.stepJoin t u after = some g) :
    f.Mute g := by
  unfold stepJoin at h
  split at h
  · cases h
  · cases h
    exact mute_finish ..
  · cases h
    exact mute_moveTo f t rfl
  · cases h
    exact mute_finish ..
  · cases h
    exact mute_moveTo f t rfl

lemma mute_stepDeliver {d : Nat} (h : f.stepDeliver t d = some g) : f.Mute g := by
  unfold stepDeliver at h
  split at h
  · cases h
    exact mute_finish ..
  · split at h
    · split at h
      · cases h
      · cases h
        exact mute_finish ..
    · dsimp only at h
      split at h
      · cases h
        exact (mute_finish ..).after ((mute_halt ..).after (mute_of_same rfl rfl rfl))
      · split at h
        · rename_i handled
          cases h
          exact (mute_handle handled).after (mute_of_same rfl rfl rfl)
        · cases h
          exact (mute_finish ..).after ((mute_halt ..).after (mute_of_same rfl rfl rfl))

lemma mute_stepDispatch (h : f.stepDispatch t n = some g) : f.Mute g := by
  unfold stepDispatch at h
  split at h
  · cases h
    exact mute_finish ..
  · split at h
    · split at h
      · cases h
      · cases h
        exact mute_finish ..
    · cases h
      exact (mute_moveTo _ t rfl).after (mute_onNode rfl)

/-- The last event of a version was published. -/
lemma mute_stepAnnounce_nil (f : Fleet) (t n : Nat) (v : Version) :
    f.Mute (f.stepAnnounce t n v []) := by
  have finish := mute_finishVersion f n v
  rw [stepAnnounce]
  split
  · rename_i e
    rw [e] at finish
    exact (mute_moveTo _ t rfl).after finish
  · rename_i e
    rw [e] at finish
    exact (mute_finish ..).after finish

lemma mute_stepStartLog (f : Fleet) (t n log : Nat) : f.Mute (f.stepStartLog t n log) := by
  unfold stepStartLog
  split
  · exact mute_finish ..
  · rename_i h
    exact (mute_finish ..).after (mute_startLog h)

lemma mute_stepStopLog (f : Fleet) (t log : Nat) : f.Mute (f.stepStopLog t log) := by
  have stop := mute_stopLog f log
  unfold stepStopLog
  split
  · rename_i e
    rw [e] at stop
    exact (mute_moveTo _ t rfl).after stop
  · rename_i e
    rw [e] at stop
    exact (mute_finish ..).after stop

lemma mute_stepCommit (f : Fleet) (t : Nat) (u : Update) : f.Mute (f.stepCommit t u) :=
  (mute_finish ..).after (mute_commit ..)

/-- A step at a point that has nothing to do with publishing. -/
theorem mute_step {x : Task} (hx : f.tasks[t]? = some x) (hp : x.point.publishes = false)
    (h : f.step t = some g) : f.Mute g := by
  rw [step, hx] at h
  dsimp only at h
  generalize x.point = p at h hp
  -- An announcement without events left and a redelivery without deliveries left are at the end of
  -- publishing, and count among the points that have nothing to do with it.
  cases p with
  | draft st attempt =>
    cases h
    exact mute_stepDraft ..
  | submit st attempt u =>
    cases h
    exact mute_stepSubmit ..
  | review st attempt =>
    cases h
    exact mute_stepReview ..
  | await v q =>
    cases h
    exact mute_stepAwait ..
  | awaiting v q => exact mute_stepAwaiting h
  | confirm v =>
    cases h
    exact mute_stepConfirm ..
  | readClock target o =>
    cases h
    exact mute_stepReadClock ..
  | sleep target o => exact mute_stepSleep h
  | start =>
    cases h
    exact mute_stepStart ..
  | startLink =>
    cases h
    exact mute_stepStartLink ..
  | replay =>
    cases h
    exact mute_stepReplay ..
  | stop =>
    cases h
    exact mute_stepStop ..
  | releaseHandler =>
    cases h
    exact mute_stepReleaseHandler ..
  | closeMark =>
    cases h
    exact mute_stepCloseMark ..
  | join u after => exact mute_stepJoin h
  | deliver d => exact mute_stepDeliver h
  | dispatch => exact mute_stepDispatch h
  | announce v events =>
    cases events with
    | nil =>
      cases h
      exact mute_stepAnnounce_nil ..
    | cons event rest => cases hp
  | redeliverRest pending delivered =>
    cases pending with
    | nil =>
      cases h
      exact mute_finish ..
    | cons current pending => cases hp
  | startLog log =>
    cases h
    exact mute_stepStartLog ..
  | stopLog log =>
    cases h
    exact mute_stepStopLog ..
  | commit u =>
    cases h
    exact mute_stepCommit ..
  | committed =>
    cases h
    exact mute_finish ..
  | ended o => cases h
  | publish event => cases hp
  | gather event calls after => cases hp
  | redeliver => cases hp
  | redelivering current pending delivered => cases hp

/-! ## Requests -/

lemma mute_onScript (f : Fleet) (n : Nat) (c : Script → Script) :
    f.Mute (Session.onScript f n c) := by
  refine mute_onNode ?_
  split
  · rfl
  · rfl

end

end Fleet

end SchemaCatalog
