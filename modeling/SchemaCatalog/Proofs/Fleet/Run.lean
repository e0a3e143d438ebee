import SchemaCatalog.Proofs.Fleet.Step
import SchemaCatalog.Proofs.Timestamp
import SchemaCatalog.Proofs.Wire.RoundTrip

/-!
# Runs of a fleet

Between any two steps of its tasks a fleet may be asked for something, get another node, or find
that the clock it reads is another one. A run is any sequence of such moves, from a fleet without
nodes on; a move that is not possible changes nothing. So a run interleaves steps, requests, writers
and nodes in every order there is. `change_of_move` says what a move does to what the fleet keeps.
-/

namespace SchemaCatalog

/-- What may happen to a fleet next: a task takes a step, something is asked of a node, a node joins
over a new log, which may refuse so many updates first, or the clock is another one from now on. -/
inductive Move where
  | step (task : Nat)
  | request (node : Nat) (skew : Duration) (request : Request)
  | join (config : Config) (rejections : Option Nat)
  | turnClock (clock : Clock)

/-- Whether a request is one that only the log of a node makes. -/
def Request.isDelivery : Request → Bool
  | .deliver .. => true
  | .halt _ => true
  | _ => false

/-- Whether a request is one to stop a node or a log. -/
def Request.isStop : Request → Bool
  | .stop => true
  | .stopLog _ => true
  | _ => false

/-- Where the task begins that a request to start or stop a node or a log is carried out by. -/
def Request.errand? : Request → Option Point
  | .start => some .start
  | .stop => some .stop
  | .startLog log => some (.startLog log)
  | .stopLog log => some (.stopLog log)
  | _ => none

lemma Request.isStop_of_errand {r : Request} {p : Point} (h : r.errand? = some p)
    (hp : p.stops = true) : r.isStop = true := by
  cases r with
  | stop => rfl
  | stopLog _ => rfl
  | start =>
    cases h
    cases hp
  | startLog _ =>
    cases h
    cases hp
  | _ => cases h

/-- What a request asks of the task that it starts: to carry a statement out, to offer an update, or
neither. -/
inductive Request.Asks : Request → Point → Prop where
  | execute (st : Statement) : Asks (.execute st) (.draft st 1)
  | commit (u : Update) : Asks (.commit u) (.commit u)
  | other {r : Request} {p : Point} : p.offer? = none → p.statement? = none → p.target? = none →
      (p.stops = true ∨ p.starts = true → r.errand? = some p) → Asks r p

/-- The log of a node that joins. -/
def Link.joining : Option Nat → Nat → Link
  | none, log => .shared log
  | some k, log => .contended log k 0

/-- Whether a move is a step of a task. -/
def Move.isStep : Move → Bool
  | .step _ => true
  | _ => false

/-- Whether a move leaves it to one node to drive its watermark. -/
def Move.sparesMarkOf (n : Nat) : Move → Bool
  | .request k _ (.markDone _) => k ≠ n
  | .request k _ (.failMark _) => k ≠ n
  | _ => true

/-- Whether the clock after a move is the same one, which is never behind. -/
def Move.keepsClock : Move → Bool
  | .turnClock _ => false
  | _ => true

namespace Fleet

/-- The fleet after a move. -/
def after (f : Fleet) : Move → Fleet
  | .step t => (f.step t).getD f
  | .request n skew r =>
    if n < f.nodes.length ∧ r.isDelivery = false then (Session.start f skew n r).1 else f
  | .join c rejections => Session.addNode f c (Link.joining rejections)
  | .turnClock c => f.setClock c

/-- The fleet after so many moves. -/
def trace (f : Fleet) (moves : Nat → Move) : Nat → Fleet
  | 0 => f
  | i + 1 => (f.trace moves i).after (moves i)

end Fleet

/-- A run of a fleet from its beginning, with the clock where that stands and the moves in order.
All updates that its tasks offer fit. -/
structure Run where
  clock : Clock
  moves : Nat → Move
  fits : ∀ (i t : Nat) (x : Task) (u : Update),
    ((Fleet.ofClock clock).trace moves i).tasks[t]? = some x → x.point.offer? = some u → u.Fits

/-- The fleet at a moment of a run. -/
def Run.fleet (r : Run) (i : Nat) : Fleet := (Fleet.ofClock r.clock).trace r.moves i

lemma Run.fleet_succ (r : Run) (i : Nat) : r.fleet (i + 1) = (r.fleet i).after (r.moves i) := rfl

namespace Fleet

/-- What a move can do to what a fleet keeps. -/
inductive Change (f : Fleet) : Move → Fleet → Prop where
  | step {t : Nat} {x : Task} {k : Fleet} :
      f.tasks[t]? = some x → x.outcome? = none → f.Effect t x k → Change f (.step t) k
  | stuck {t : Nat} : f.step t = none → Change f (.step t) f
  | still {n : Nat} {skew : Duration} {r : Request} {c : Clock} {nodes : List Node} :
      f.clock.current ≤ c.current → f.Alike nodes →
      Change f (.request n skew r) { f with clock := c, nodes := nodes }
  | turn {c : Clock} : Change f (.turnClock c) { f with clock := c }
  | spawn {n : Nat} {p : Point} {skew : Duration} {r : Request} :
      n < f.nodes.length → p.isFree = true → r.Asks p →
      Change f (.request n skew r) (f.spawn n p)
  | register {n l : Nat} {lg : Log} {name : String} {failAt : Option (Version × Error)}
      {skew : Duration} {r : Request} :
      f.logs[l]? = some lg → lg.receiver = none →
      Change f (.request n skew r)
        { f with
          logs := f.logs.modify l fun l => { l with receiver := some (.recorder name failAt) } }
  | join {m : Move} {c : Config} {link : Nat → Link} :
      m.isStep = false → (∀ log, (link log).log? = some log) →
      Change f m (Session.addNode f c link)
  | markDone {n : Nat} {v : Version} {mark : Watermark Nat} {released : List Nat}
      {skew : Duration} :
      n < f.nodes.length → (f.node n).mark.finish v = (mark, .ok released) →
      Change f (.request n skew (.markDone v))
        { f with
          nodes := f.nodes.modify n fun y => { y with mark := mark }
          tasks := f.tasks.mapIdx (told .released released) }
  | overflow {n : Nat} {v : Version} {mark : Watermark Nat} {a : Abort} {skew : Duration} :
      n < f.nodes.length → (f.node n).mark.finish v = (mark, .error a) →
      Change f (.request n skew (.markDone v)) (f.onNode n fun y => { y with mark := mark })
  | failMark {n : Nat} {e : Error} {skew : Duration} :
      n < f.nodes.length →
      Change f (.request n skew (.failMark e))
        { f with
          nodes := f.nodes.modify n fun y => { y with mark := ((f.node n).mark.fail e).1 }
          tasks := f.tasks.mapIdx (told .dropped ((f.node n).mark.fail e).2) }

/-- A move changes the core so. -/
def Changes (f : Fleet) (m : Move) (g : Fleet) : Prop := ∃ k, f.Change m k ∧ g.core = k.core

section

variable {f g : Fleet} {n : Nat} {skew : Duration} {r : Request}

lemma changes_same (e : g.core = f.core) : f.Changes (.request n skew r) g :=
  ⟨_, .still (Nat.le_refl _) f.alike_refl, e⟩

lemma changes_clock {c : Clock} (h : f.clock.current ≤ c.current) :
    f.Changes (.request n skew r) (f.setClock c) :=
  ⟨_, .still h f.alike_refl, core_setClock ..⟩

lemma changes_node (hn : n < f.nodes.length) {k : Node → Node}
    (h : (f.node n).Alike (k (f.node n))) : f.Changes (.request n skew r) (f.onNode n k) :=
  ⟨_, .still (Nat.le_refl _) (f.alike_modify hn h), rfl⟩

lemma changes_spawn (hn : n < f.nodes.length) {p : Point} (hp : p.isFree = true)
    (hs : r.Asks p) : f.Changes (.request n skew r) (f.spawn n p) :=
  ⟨_, .spawn hn hp hs, rfl⟩

lemma changes_onScript (hn : n < f.nodes.length) (k : Script → Script) :
    f.Changes (.request n skew r) (Session.onScript f n k) := by
  refine changes_node hn ?_
  cases e : (f.node n).link with
  | scripted s =>
    simp only
    exact ⟨rfl, rfl, by rw [e]; rfl, fun _ h => (by rw [e] at h; cases h), rfl, rfl, rfl, rfl,
      fun _ => List.prefix_refl _⟩
  | _ => exact .refl _

/-- Whoever listened goes on to listen, in front of those who begin to. -/
lemma listenersOf_listen (types : List EventType) (name : String) (q : Publisher)
    (type : EventType) :
    q.listenersOf type <+: (types.foldl (fun q type => q.listen type name) q).listenersOf type := by
  induction types generalizing q with
  | nil => exact List.prefix_refl _
  | cons first types ih =>
    refine List.IsPrefix.trans ?_ (ih (q.listen first name))
    rw [Publisher.listenersOf, Publisher.listenersOf, Publisher.listen, List.filter_append,
      List.map_append]
    exact List.prefix_append ..

lemma changes_listen (hn : n < f.nodes.length) (name : String) (types : List EventType)
    (mode : Mode) : f.Changes (.request n skew r) (Session.listen f n name types mode) := by
  have e : (Session.listen f n name types mode).core = (f.onNode n fun x =>
      { x with publisher := types.foldl (fun p type => p.listen type name) x.publisher }).core := by
    unfold Session.listen
    dsimp only
    apply core_onNode
    split
    · rfl
    · exact core_setListener ..
  obtain ⟨k, hk, hc⟩ := changes_node (r := r) hn (k := fun x =>
    { x with publisher := types.foldl (fun p type => p.listen type name) x.publisher })
    ⟨rfl, rfl, rfl, fun _ => id, rfl, rfl, rfl, rfl, listenersOf_listen types name _⟩
  exact ⟨k, hk, e.trans hc⟩

lemma changes_markDone (hn : n < f.nodes.length) (v : Version) :
    f.Changes (.request n skew (.markDone v)) (Session.start f skew n (.markDone v)).1 := by
  cases hm : (f.node n).mark.finish v with
  | mk mark o =>
    cases o with
    | ok released =>
      refine ⟨_, .markDone hn hm, ?_⟩
      rw [Session.start, finishVersion, hm]
      apply core_ext <;> simp [Session.carriedOut]
    | error a =>
      refine ⟨_, .overflow hn hm, ?_⟩
      rw [Session.start, finishVersion, hm]
      rfl

lemma changes_register (log : Nat) (name : String) (failAt : Option (Version × Error)) :
    f.Changes (.request n skew r) (Session.start f skew n (.register log name failAt)).1 := by
  rw [Session.start, register]
  split
  · rename_i k hk
    split at hk
    · cases hk
    · rename_i hr
      cases hk
      cases hg : f.logs[log]? with
      | none =>
        refine changes_same ?_
        apply core_ext
        case logs =>
          simp [Session.carriedOut, List.modify_eq_self (List.getElem?_eq_none_iff.1 hg)]
        all_goals simp [Session.carriedOut]
      | some lg => exact ⟨_, .register hg (by simpa [hg] using hr), rfl⟩
  · exact changes_same rfl

lemma le_advance (c : Clock) (d : Duration) : c.current ≤ (c.advance d).current := by
  rw [Timestamp.le_def, Clock.advance, Timestamp.add_val]
  omega

lemma le_set (c : Clock) (t : Timestamp) : c.current ≤ (c.set t).current := by
  unfold Clock.set
  split
  · rename_i h
    exact Nat.le_of_lt h
  · exact Nat.le_refl _

/-- What a request does. -/
lemma changes_request (hn : n < f.nodes.length) (hr : r.isDelivery = false) :
    f.Changes (.request n skew r) (Session.start f skew n r).1 := by
  -- Each request is one of a few changes: it turns the clock, starts a task, touches a node in what
  -- the fleet does not follow, marks versions, or changes nothing.
  cases r with
  | now => exact changes_clock (c := f.clock.tick) (le_tick f.clock)
  | waiterNow => exact changes_clock (c := f.clock.tick) (le_tick f.clock)
  | advance d => exact changes_clock (c := f.clock.advance d) (le_advance f.clock d)
  | setClock t => exact changes_clock (c := f.clock.set t) (le_set f.clock t)
  | peek => exact changes_same rfl
  | waitUntil t => exact changes_spawn hn rfl (.other rfl rfl rfl fun h => h.elim nofun nofun)
  | waitFor t => exact changes_spawn hn rfl (.other rfl rfl rfl fun h => h.elim nofun nofun)
  | waitForActivation t =>
    exact changes_spawn hn rfl (.other rfl rfl rfl fun h => h.elim nofun nofun)
  | markDone v => exact changes_markDone hn v
  | awaitVersion v => exact changes_spawn hn rfl (.other rfl rfl rfl fun h => h.elim nofun nofun)
  | failMark e => exact ⟨_, .failMark hn, core_failMark ..⟩
  | listen name types mode => exact changes_listen hn name types mode
  | setMode name mode =>
    refine changes_same ?_
    exact (core_wakeAll ..).trans (core_setListener ..)
  | listenerCount type => exact changes_same rfl
  | failedDeliveries => exact changes_same rfl
  | failureCount => exact changes_same rfl
  | publish entry token version =>
    rw [Session.start]
    split
    · exact changes_spawn hn rfl (.other rfl rfl rfl fun h => h.elim nofun nofun)
    · exact changes_same rfl
  | redeliver => exact changes_spawn hn rfl (.other rfl rfl rfl fun h => h.elim nofun nofun)
  | register log name failAt => exact changes_register log name failAt
  | startLog log => exact changes_spawn hn rfl (.other rfl rfl rfl fun _ => rfl)
  | stopLog log => exact changes_spawn hn rfl (.other rfl rfl rfl fun _ => rfl)
  | commit u => exact changes_spawn hn rfl (.commit u)
  | committed => exact changes_spawn hn rfl (.other rfl rfl rfl fun h => h.elim nofun nofun)
  | stored v =>
    rw [Session.start]
    split
    · exact changes_same rfl
    · exact changes_same rfl
  | start => exact changes_spawn hn rfl (.other rfl rfl rfl fun _ => rfl)
  | stop => exact changes_spawn hn rfl (.other rfl rfl rfl fun _ => rfl)
  | execute st => exact changes_spawn hn rfl (.execute st)
  | reopen c => exact ⟨_, .join rfl fun _ => rfl, rfl⟩
  | setDelay d =>
    exact changes_node hn ⟨rfl, rfl, rfl, fun _ => id, rfl, rfl, rfl, rfl,
      fun _ => List.prefix_refl _⟩
  | compare other v => exact changes_same rfl
  | rejectNext k =>
    refine changes_node hn ?_
    cases e : (f.node n).link with
    | contended log j a =>
      simp only
      exact ⟨rfl, rfl, by rw [e]; rfl, fun _ h => (by rw [e] at h; cases h), rfl, rfl, rfl, rfl,
        fun _ => List.prefix_refl _⟩
    | _ => exact .refl _
  | ask instant query =>
    rw [Session.start]
    split
    · exact changes_same rfl
    · exact changes_same rfl
  | script answers => exact changes_onScript hn _
  | scriptCommitted v => exact changes_onScript hn _
  | breakCall call words => exact changes_onScript hn _
  | healCall call => exact changes_onScript hn _
  | deliver u commit token => cases hr
  | halt e => cases hr

/-- A task that has ended takes no step. -/
lemma outcome_of_step {t : Nat} {x : Task} (ht : f.tasks[t]? = some x) (h : f.step t = some g) :
    x.outcome? = none := by
  cases ho : x.outcome? with
  | none => rfl
  | some o =>
    rw [Fleet.step, ht] at h
    simp only [Task.point_of_outcome ho] at h
    cases h

/-- What a move does. -/
theorem change_of_move (hp : f.Plain) (m : Move) : f.Changes m (f.after m) := by
  cases m with
  | step t =>
    rw [after]
    cases hg : f.step t with
    | none => exact ⟨f, .stuck hg, rfl⟩
    | some g =>
      cases ht : f.tasks[t]? with
      | none =>
        rw [Fleet.step, ht] at hg
        cases hg
      | some x =>
        obtain ⟨k, hk, hc⟩ := effects_of_step hp ht hg
        exact ⟨k, .step ht (outcome_of_step ht hg) hk, hc⟩
  | request n skew r =>
    rw [after]
    split
    · rename_i h
      exact changes_request h.1 h.2
    · exact changes_same rfl
  | join c rejections =>
    refine ⟨_, .join rfl fun log => ?_, rfl⟩
    cases rejections <;> rfl
  | turnClock c => exact ⟨_, .turn, core_setClock ..⟩

end

end Fleet

end SchemaCatalog
