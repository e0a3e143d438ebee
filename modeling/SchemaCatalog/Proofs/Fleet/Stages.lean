import SchemaCatalog.Proofs.Fleet.Feeding
import SchemaCatalog.Proofs.Fleet.Origin

/-!
# The stages of a stop

A task that stops a node stops its log and waits for the delivery to end, then gives the handler of
the node up and waits for the dispatcher to end, and then lets nobody wait any more (`Retreat`).
Where the log has no delivery of its own any more, or the node no handler, there is nothing to wait
for, and the task passes to the next stage at once. It never goes back to a stage
(`stage_of_step`). Only a stop takes a log its delivery (`owns_of_change`) and a node its handler
(`holds_of_change`).
-/

namespace SchemaCatalog

/-- The stage at which a task stands that stops a node. All other tasks are past the last one. -/
def Point.stage : Point → Nat
  | .stop => 0
  | .join _ .releaseHandler => 1
  | .releaseHandler => 2
  | .join _ .closeMark => 3
  | .closeMark => 4
  | _ => 5

lemma Point.stops_of_stage {p : Point} (h : p.stage < 5) : p.stops = true := by
  cases p with
  | join _ _ => rfl
  | stop => rfl
  | releaseHandler => rfl
  | closeMark => rfl
  | _ => exact absurd h (Nat.lt_irrefl 5)

lemma Point.stage_le (p : Point) : p.stage ≤ 5 := by
  unfold Point.stage
  split <;> decide

lemma Point.stage_of_not_stops {p : Point} (h : p.stops = false) : p.stage = 5 := by
  refine Nat.le_antisymm p.stage_le (Nat.not_lt.1 fun lt => ?_)
  rw [Point.stops_of_stage lt] at h
  cases h

/-- A node that is started has its handler. -/
def Node.Holds (y : Node) : Prop := y.started = true → y.holdsHandler = true

namespace Fleet

/-- A log has this delivery as its own. -/
def Owns (f : Fleet) (log d : Nat) : Prop :=
  ∃ lg, f.logs[log]? = some lg ∧ lg.delivery = some d

/-- Where a step takes a task that stops a node. -/
inductive Retreat (f g : Fleet) (x : Task) : Point → Prop where
  | detaches {log u : Nat} :
      x.point = .stop → (f.node x.node).link.log? = some log → (f.stopLog log).2 = some u →
      Retreat f g x (.join u .releaseHandler)
  | passes {log : Nat} :
      x.point = .stop → (f.node x.node).link.log? = some log → (f.stopLog log).2 = none →
      Retreat f g x .releaseHandler
  | joined {u : Nat} {o : Outcome} :
      x.point = .join u .releaseHandler → f.outcome? u = some o → Retreat f g x .releaseHandler
  | releases {d : Dispatch} :
      x.point = .releaseHandler → (f.node x.node).dispatch = some d →
      (g.node x.node).dispatch = some { d with accepting := false } →
      Retreat f g x (.join d.task .closeMark)
  | skips :
      x.point = .releaseHandler →
      ((f.node x.node).holdsHandler = true → (f.node x.node).dispatch = none) →
      Retreat f g x .closeMark
  | served {u : Nat} {o : Outcome} :
      x.point = .join u .closeMark → f.outcome? u = some o → (∀ a, o ≠ .aborted a) →
      Retreat f g x .closeMark
  | broken {u : Nat} {a : Abort} {e : Error} :
      x.point = .join u .closeMark → f.outcome? u = some (.aborted a) →
      Retreat f g x (.ended (.failed e))
  | closes {e : Error} :
      x.point = .closeMark → (g.node x.node).mark.failure = some e → Retreat f g x (.ended .done)

section

variable {f g : Fleet} {m : Move} {t n : Nat} {x : Task} {p : Point}

/-- Every step of a task that stops a node leads to a later stage. -/
lemma Retreat.stage_lt (h : f.Retreat g x p) : x.point.stage < p.stage := by
  cases h with
  | detaches hp _ _ => exact hp ▸ Nat.zero_lt_one
  | passes hp _ _ => exact hp ▸ Nat.two_pos
  | joined hp _ => exact hp ▸ Nat.lt_succ_self 1
  | releases hp _ _ => exact hp ▸ Nat.lt_succ_self 2
  | skips hp _ => exact hp ▸ (by decide : 2 < 4)
  | served hp _ _ => exact hp ▸ Nat.lt_succ_self 3
  | broken hp _ => exact hp ▸ (by decide : 3 < 5)
  | closes hp _ => exact hp ▸ Nat.lt_succ_self 4

/-- A task that stops a node goes on to, or fails, or lets nobody wait any more. -/
lemma Retreat.stage_lt_or_ended (h : f.Retreat g x p) : p.stage < 5 ∨
    (∃ e, p = .ended (.failed e)) ∨
      p = .ended .done ∧ ∃ e, (g.node x.node).mark.failure = some e := by
  cases h with
  | detaches => exact .inl (by decide : 1 < 5)
  | passes => exact .inl (by decide)
  | joined => exact .inl (by decide)
  | releases => exact .inl (by decide : 3 < 5)
  | skips => exact .inl (by decide)
  | served => exact .inl (by decide)
  | broken => exact .inr (.inl ⟨_, rfl⟩)
  | closes _ failure => exact .inr (.inr ⟨rfl, _, failure⟩)

/-- A step takes a task that stops a node to a point. -/
def Retreats (f : Fleet) (t : Nat) (x : Task) (g : Fleet) : Prop :=
  ∃ p, g.tasks[t]? = some { x with point := p, signal := none } ∧ f.Retreat g x p

lemma retreats_stop {log : Nat} (hl : (f.node x.node).link.log? = some log)
    (hx : f.tasks[t]? = some x) (hp : x.point = .stop) :
    f.Retreats t x (f.stepStop t x.node) := by
  obtain ⟨-, -, -, -, -, -, tasks⟩ := core_inj (core_stopLog f log)
  have task : (f.stopLog log).1.tasks[t]? = some x := tasks ▸ hx
  rw [stepStop, stopLink_of_log hl]
  cases own : (f.stopLog log).2 with
  | some u =>
    rw [show f.stopLog log = ((f.stopLog log).1, some u) from Prod.ext rfl own]
    exact ⟨_, getElem?_moveTo task _, .detaches hp hl own⟩
  | none =>
    rw [show f.stopLog log = ((f.stopLog log).1, none) from Prod.ext rfl own]
    exact ⟨_, getElem?_moveTo task _, .passes hp hl own⟩

lemma retreats_releaseHandler (hn : x.node < f.nodes.length) (hx : f.tasks[t]? = some x)
    (hp : x.point = .releaseHandler) : f.Retreats t x (f.stepReleaseHandler t x.node) := by
  unfold stepReleaseHandler
  split
  · rename_i d _ hd
    have core : ((f.onNode x.node fun y => { y with holdsHandler := false }).closeDispatch
        x.node).core = (f.onNode x.node fun y =>
          { y with holdsHandler := false }.closeDispatch).core := by
      unfold closeDispatch
      rw [core_wakeDispatcher]
      simp only [onNode, List.modify_modify_eq, Function.comp_def]
    obtain ⟨-, -, -, -, -, nodes, tasks⟩ := core_inj core
    refine ⟨_, getElem?_moveTo (tasks ▸ hx) _, .releases hp hd ?_⟩
    have node := (node_congr ((moveTo_fields _ t (.join d.task .closeMark)).2.2.2.2.2.1.trans
      nodes) x.node).trans (node_modify rfl hn x.node)
    rw [node, if_pos rfl, Node.closeDispatch, hd]
    rfl
  · rename_i none
    refine ⟨_, getElem?_moveTo hx _, .skips hp fun held => ?_⟩
    cases hd : (f.node x.node).dispatch with
    | none => rfl
    | some d => exact absurd hd (none d held)

lemma retreats_join {u : Nat} {after : AfterJoin} (hx : f.tasks[t]? = some x)
    (hp : x.point = .join u after) (ha : x.point.stage < 5)
    (hg : f.stepJoin t u after = some g) : f.Retreats t x g := by
  unfold stepJoin at hg
  split at hg
  · cases hg
  · rw [hp] at ha
    exact absurd ha (Nat.lt_irrefl 5)
  · rename_i o ho
    cases hg
    exact ⟨_, getElem?_moveTo hx _, .joined hp ho⟩
  · rename_i a ho
    cases hg
    exact ⟨_, getElem?_finish hx _, .broken hp ho⟩
  · rename_i o plain ho
    cases hg
    exact ⟨_, getElem?_moveTo hx _, .served hp ho plain⟩

lemma retreats_closeMark (hn : x.node < f.nodes.length) (hx : f.tasks[t]? = some x)
    (hp : x.point = .closeMark) : f.Retreats t x (f.stepCloseMark t x.node) := by
  obtain ⟨-, -, -, -, -, nodes, tasks⟩ := core_inj (core_stepCloseMark f t x.node)
  have node := (node_congr nodes x.node).trans (node_modify (f := f) rfl hn x.node)
  rw [if_pos rfl] at node
  have task := (congrArg (·[t]?) tasks).trans (getElem?_moveTo (getElem?_told hx) _)
  rw [(told_point ..).2] at task
  exact ⟨_, task, .closes hp (congrArg (fun y : Node => y.mark.failure) node)⟩

/-- Every step of a task that stops a node takes it to the next stage, or passes one over. -/
theorem retreat_of_step (hp : f.Plain) (hx : f.tasks[t]? = some x) (hs : x.point.stage < 5)
    (hg : f.step t = some g) : f.Retreats t x g := by
  have hn := hp.placed t x hx
  obtain ⟨log, hl⟩ := Option.isSome_iff_exists.1 (hp.linked x.node)
  rw [step, hx] at hg
  cases e : x.point with
  | stop =>
    simp only [e] at hg
    cases hg
    exact retreats_stop hl hx e
  | releaseHandler =>
    simp only [e] at hg
    cases hg
    exact retreats_releaseHandler hn hx e
  | closeMark =>
    simp only [e] at hg
    cases hg
    exact retreats_closeMark hn hx e
  | join u after =>
    simp only [e] at hg
    exact retreats_join hx e hs hg
  | _ =>
    rw [e] at hs
    exact absurd hs (Nat.lt_irrefl 5)

/-- What tasks do after a step, they did before it or were asked to. -/
lemma asked_of_step (hp : f.Plain) (hx : f.tasks[t]? = some x) (hg : f.step t = some g) :
    f.Asked (.step t) g.storage.committed g.tasks := by
  obtain ⟨k, he, e⟩ := effects_of_step hp hx hg
  obtain ⟨-, storage, -, -, -, -, tasks⟩ := core_inj e
  rw [storage, tasks]
  exact asked_of_effect hx he

/-- A task goes on to a later stage with each step, and stays past the last one. -/
theorem stage_of_step {y : Task} (hp : f.Plain) (hx : f.tasks[t]? = some x)
    (known : x.point.stops = true → x.point.stage < 5) (hg : f.step t = some g)
    (hy : g.tasks[t]? = some y) :
    x.point.stage < y.point.stage ∨ x.point.stops = false ∧ y.point.stops = false := by
  cases hs : x.point.stops with
  | true =>
    obtain ⟨p, hp', retreat⟩ := retreat_of_step hp hx (known hs) hg
    rw [hp'] at hy
    cases hy
    exact .inl retreat.stage_lt
  | false =>
    refine .inr ⟨rfl, Bool.eq_false_iff.2 fun hy' => ?_⟩
    rcases (asked_of_step hp hx hg).stops t y hy hy' with ⟨z, hz, hzs⟩ | ⟨_, _, hm, -⟩
    · rw [hx] at hz
      cases hz
      rw [hs] at hzs
      cases hzs
    · cases hm

lemma point_of_moveTo {k : Fleet} {y : Task} (hy : (k.moveTo t p).tasks[t]? = some y) :
    y.point = p := by
  rw [(moveTo_fields ..).2.2.2.2.2.2.2.2, List.getElem?_modify_eq] at hy
  obtain ⟨z, -, rfl⟩ := Option.map_eq_some_iff.1 hy
  rfl

lemma point_of_finish {k : Fleet} {y : Task} {o : Outcome}
    (hy : (k.finish t o).tasks[t]? = some y) : y.point = .ended o := by
  rw [(finish_fields ..).2.2.2.2.2.2.2.2] at hy
  exact point_of_moveTo (k := k) hy

/-- A task comes to the start of the log of a node only from that of the node, which was not started
before. -/
theorem start_of_step {y : Task} (hp : f.Plain) (hx : f.tasks[t]? = some x)
    (hg : f.step t = some g) (hy : g.tasks[t]? = some y) (hs : y.point.starts = true) :
    y.point = .startLink ∧ x.point = .start ∧ (f.node x.node).started = false := by
  have from_start : x.point.starts = true := by
    rcases (asked_of_step hp hx hg).starts t y hy hs with ⟨z, hz, hzs⟩ | ⟨_, _, hm, -⟩
    · rw [hx] at hz
      cases hz
      exact hzs
    · cases hm
  -- A task that ends starts nothing.
  have ended {k : Fleet} {o : Outcome} (hy : (k.finish t o).tasks[t]? = some y) : False := by
    rw [point_of_finish hy] at hs
    cases hs
  rw [step, hx] at hg
  cases e : x.point with
  | start =>
    simp only [e] at hg
    cases hg
    rw [stepStart] at hy
    split at hy
    · exact (ended hy).elim
    · rename_i unstarted
      dsimp only at hy
      split at hy
      · exact (ended hy).elim
      · exact ⟨point_of_moveTo hy, rfl, Bool.eq_false_iff.2 unstarted⟩
  | startLink =>
    simp only [e] at hg
    cases hg
    rw [stepStartLink] at hy
    split at hy
    · exact (ended hy).elim
    · rw [point_of_moveTo hy] at hs
      cases hs
  | startLog log =>
    simp only [e] at hg
    cases hg
    rw [stepStartLog] at hy
    split at hy
    · exact (ended hy).elim
    · exact (ended hy).elim
  | _ =>
    rw [e] at from_start
    cases from_start

/-! ## What a stop takes away -/

lemma owns_modify {log l d : Nat} {k : Log → Log} (h : f.Owns log d)
    (hg : g.logs = f.logs.modify l k) (hk : ∀ lg, (k lg).delivery = lg.delivery) :
    g.Owns log d := by
  obtain ⟨lg, hl, own⟩ := h
  rw [Owns, hg, List.getElem?_modify, hl]
  refine ⟨_, rfl, ?_⟩
  split
  · exact (hk lg).trans own
  · exact own

lemma owns_of_effect {log d : Nat} (he : f.Effect t x g) (h : f.Owns log d) :
    g.Owns log d ∨ f.sink = none ∨ g.sink = none := by
  cases he with
  | start _ _ _ _ hk =>
    rcases hk with rfl | ⟨l, lg, -, -, rfl⟩
    · exact .inl h
    · exact .inl (owns_modify h rfl fun _ => rfl)
  | beginDelivery _ _ _ free _ _ => exact .inr (.inl free)
  | detach => exact .inr (.inr rfl)
  | _ => exact .inl h

/-- As long as the storage feeds a delivery every log keeps its own. -/
lemma owns_of_change {log d : Nat} (hc : f.Change m g) (h : f.Owns log d) :
    g.Owns log d ∨ f.sink = none ∨ g.sink = none := by
  cases hc with
  | step _ _ he => exact owns_of_effect he h
  | register _ _ => exact .inl (owns_modify h rfl fun _ => rfl)
  | join _ _ =>
    obtain ⟨lg, hl, own⟩ := h
    exact .inl ⟨lg, getElem?_concat hl _, own⟩
  | _ => exact .inl h

/-- The task of its delivery is what a stop of a log waits for. -/
lemma Owns.stopLog {log d : Nat} {y : Delivery} (h : f.Owns log d)
    (hy : f.deliveries[d]? = some y) : (f.stopLog log).2 = some y.task := by
  obtain ⟨lg, hl, own⟩ := h
  simp only [Fleet.stopLog, hl, own, hy, Option.bind_some, Option.map_some]

lemma holds_modify {j : Nat} {k : Node → Node} (h : (f.node n).Holds)
    (hg : g.nodes = f.nodes.modify j k)
    (hk : n = j → g.node n = k (f.node n) → (k (f.node n)).Holds) : (g.node n).Holds :=
  node_of_modify (P := Node.Holds) h hg hk

lemma holds_alike {nodes : List Node} (h : (f.node n).Holds) (ha : f.Alike nodes) :
    ({ f with nodes }.node n).Holds := by
  rw [Node.Holds, (ha.2 n).started, (ha.2 n).holdsHandler]
  exact h

lemma holds_of_effect (he : f.Effect t x g) (h : (f.node n).Holds) :
    (g.node n).Holds ∨ x.point = .releaseHandler ∧ x.node = n := by
  cases he with
  | still _ _ _ _ ha => exact .inl (holds_alike h ha)
  | append _ _ _ ha => exact .inl (holds_alike h ha)
  | called _ ha => exact .inl (holds_alike h ha)
  | enqueue _ _ => exact .inl (holds_modify h rfl fun _ _ => h)
  | start _ _ _ _ _ => exact .inl (holds_modify h rfl fun _ _ _ => rfl)
  | release hr _ _ =>
    by_cases e : x.node = n
    · exact .inr ⟨hr, e⟩
    · exact .inl (holds_modify h rfl fun e' _ => absurd e'.symm e)
  | closeMark _ => exact .inl (holds_modify h rfl fun _ _ => h)
  | hand _ _ _ _ _ hz =>
    refine .inl (holds_modify h rfl fun e _ => ?_)
    subst e
    obtain ⟨history, notice, -, rfl⟩ := Node.handle_ok hz
    simp only [Node.Holds, Node.notify_fields]
    exact h
  | halt _ _ _ _ _ => exact .inl (holds_modify h rfl fun _ _ => h)
  | takeNotice _ _ _ => exact .inl (holds_modify h rfl fun _ _ => h)
  | done _ _ => exact .inl (holds_modify h rfl fun _ _ => h)
  | overflow _ _ => exact .inl (holds_modify h rfl fun _ _ => h)
  | _ => exact .inl h

/-- A node keeps its handler unless it gives it up. -/
lemma holds_of_change (hc : f.Change m g) (h : (f.node n).Holds) :
    (g.node n).Holds ∨ ∃ t x, m = .step t ∧ f.tasks[t]? = some x ∧ x.node = n ∧
      x.point = .releaseHandler := by
  cases hc with
  | step hx _ he =>
    exact (holds_of_effect he h).imp id fun ⟨point, node⟩ => ⟨_, _, rfl, hx, node, point⟩
  | still _ ha => exact .inl (holds_alike h ha)
  | join _ _ =>
    rw [node_addNode]
    split
    · exact .inl nofun
    · exact .inl h
  | markDone _ _ => exact .inl (holds_modify h rfl fun _ _ => h)
  | overflow _ _ => exact .inl (holds_modify h rfl fun _ _ => h)
  | failMark _ => exact .inl (holds_modify h rfl fun _ _ => h)
  | _ => exact .inl h

end

end Fleet

end SchemaCatalog
