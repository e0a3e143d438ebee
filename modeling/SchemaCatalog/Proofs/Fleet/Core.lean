import Mathlib.Tactic.Lemma
import SchemaCatalog.Proofs.Places
import SchemaCatalog.Session

/-!
# What is kept in a fleet

Most operations on a fleet end by waking tasks, and some call listeners or note something down. What
the fleet keeps, its clock, storage, logs, deliveries, nodes and tasks, does not depend on that. The
core of a fleet is the fleet without the rest, so that a property of what is kept is one of the core
(`core` unfolds), and the lemmas here say what each operation does to it.
-/

namespace SchemaCatalog

/-- A task that left something behind has ended with it. -/
lemma Task.point_of_outcome {x : Task} {o : Outcome} (h : x.outcome? = some o) :
    x.point = .ended o := by
  unfold Task.outcome? at h
  split at h
  · rename_i hp
    cases h
    exact hp
  · cases h

namespace Fleet

/-- The fleet without its listeners, their calls, the notes of recorders, and the order in which its
tasks are tried. -/
def core (f : Fleet) : Fleet := { f with listeners := [], ready := [], calls := [], receipts := [] }

/-! ## Waking -/

@[simp] lemma wake_fields (f : Fleet) (t : Nat) :
    (f.wake t).clock = f.clock ∧ (f.wake t).storage = f.storage ∧ (f.wake t).sink = f.sink ∧
      (f.wake t).logs = f.logs ∧ (f.wake t).deliveries = f.deliveries ∧
      (f.wake t).nodes = f.nodes ∧ (f.wake t).listeners = f.listeners ∧
      (f.wake t).tasks = f.tasks ∧ (f.wake t).calls = f.calls ∧
      (f.wake t).receipts = f.receipts := by
  unfold wake
  split <;> simp

@[simp] lemma wakeAll_fields (f : Fleet) (ts : List Nat) :
    (f.wakeAll ts).clock = f.clock ∧ (f.wakeAll ts).storage = f.storage ∧
      (f.wakeAll ts).sink = f.sink ∧ (f.wakeAll ts).logs = f.logs ∧
      (f.wakeAll ts).deliveries = f.deliveries ∧ (f.wakeAll ts).nodes = f.nodes ∧
      (f.wakeAll ts).listeners = f.listeners ∧ (f.wakeAll ts).tasks = f.tasks ∧
      (f.wakeAll ts).calls = f.calls ∧ (f.wakeAll ts).receipts = f.receipts := by
  induction ts generalizing f with
  | nil => simp [wakeAll]
  | cons t ts ih =>
    have e : f.wakeAll (t :: ts) = (f.wake t).wakeAll ts := rfl
    rw [e]
    have h := ih (f.wake t)
    simpa using h

lemma mem_ready_wake {f : Fleet} {t u : Nat} : t ∈ (f.wake u).ready ↔ t ∈ f.ready ∨ t = u := by
  unfold wake
  split
  · rename_i among
    constructor
    · exact .inl
    · rintro (ready | rfl)
      · exact ready
      · simpa using among
  · exact List.mem_append.trans (or_congr_right List.mem_singleton)

lemma mem_ready_wakeAll {f : Fleet} {ts : List Nat} {t : Nat} :
    t ∈ (f.wakeAll ts).ready ↔ t ∈ f.ready ∨ t ∈ ts := by
  induction ts generalizing f with
  | nil => simp [wakeAll]
  | cons u ts ih =>
    have first : f.wakeAll (u :: ts) = (f.wake u).wakeAll ts := rfl
    rw [first, ih, mem_ready_wake, List.mem_cons, or_assoc]

lemma mem_tasksWhere {f : Fleet} {test : Task → Bool} {t : Nat} :
    t ∈ f.tasksWhere test ↔ ∃ x, f.tasks[t]? = some x ∧ test x = true := by
  simp only [tasksWhere, List.mem_map, List.mem_filter, Prod.exists]
  constructor
  · rintro ⟨x, i, ⟨mem, ht⟩, rfl⟩
    exact ⟨x, List.mem_zipIdx_iff_getElem?.1 mem, ht⟩
  · rintro ⟨x, hx, ht⟩
    exact ⟨x, t, ⟨List.mem_zipIdx_iff_getElem?.2 hx, ht⟩, rfl⟩

/-- Two fleets that keep the same have the same core. -/
lemma core_ext {f g : Fleet} (clock : f.clock = g.clock) (storage : f.storage = g.storage)
    (sink : f.sink = g.sink) (logs : f.logs = g.logs) (deliveries : f.deliveries = g.deliveries)
    (nodes : f.nodes = g.nodes) (tasks : f.tasks = g.tasks) : f.core = g.core := by
  simp only [core, clock, storage, sink, logs, deliveries, nodes, tasks]

/-- What fleets of the same core keep is the same. -/
lemma core_inj {f g : Fleet} (e : f.core = g.core) :
    f.clock = g.clock ∧ f.storage = g.storage ∧ f.sink = g.sink ∧ f.logs = g.logs ∧
      f.deliveries = g.deliveries ∧ f.nodes = g.nodes ∧ f.tasks = g.tasks := by
  injection e with clock storage sink logs deliveries nodes _ tasks
  exact ⟨clock, storage, sink, logs, deliveries, nodes, tasks⟩

@[simp] lemma core_wake (f : Fleet) (t : Nat) : (f.wake t).core = f.core := by
  apply core_ext <;> simp

@[simp] lemma core_wakeAll (f : Fleet) (ts : List Nat) : (f.wakeAll ts).core = f.core := by
  apply core_ext <;> simp

/-! ## Fields of the operations -/

@[simp] lemma moveTo_fields (f : Fleet) (t : Nat) (p : Point) :
    (f.moveTo t p).clock = f.clock ∧ (f.moveTo t p).storage = f.storage ∧
      (f.moveTo t p).sink = f.sink ∧ (f.moveTo t p).logs = f.logs ∧
      (f.moveTo t p).deliveries = f.deliveries ∧ (f.moveTo t p).nodes = f.nodes ∧
      (f.moveTo t p).listeners = f.listeners ∧ (f.moveTo t p).calls = f.calls ∧
      (f.moveTo t p).tasks = f.tasks.modify t fun x => { x with point := p, signal := none } := by
  simp [moveTo]

@[simp] lemma finish_fields (f : Fleet) (t : Nat) (o : Outcome) :
    (f.finish t o).clock = f.clock ∧ (f.finish t o).storage = f.storage ∧
      (f.finish t o).sink = f.sink ∧ (f.finish t o).logs = f.logs ∧
      (f.finish t o).deliveries = f.deliveries ∧ (f.finish t o).nodes = f.nodes ∧
      (f.finish t o).listeners = f.listeners ∧ (f.finish t o).calls = f.calls ∧
      (f.finish t o).tasks =
        f.tasks.modify t fun x => { x with point := .ended o, signal := none } := by
  simp [finish]

@[simp] lemma setClock_fields (f : Fleet) (c : Clock) :
    (f.setClock c).clock = c ∧ (f.setClock c).storage = f.storage ∧ (f.setClock c).sink = f.sink ∧
      (f.setClock c).logs = f.logs ∧ (f.setClock c).deliveries = f.deliveries ∧
      (f.setClock c).nodes = f.nodes ∧ (f.setClock c).listeners = f.listeners ∧
      (f.setClock c).tasks = f.tasks ∧ (f.setClock c).calls = f.calls := by
  simp [setClock]

@[simp] lemma onNode_fields (f : Fleet) (n : Nat) (k : Node → Node) :
    (f.onNode n k).clock = f.clock ∧ (f.onNode n k).storage = f.storage ∧
      (f.onNode n k).sink = f.sink ∧ (f.onNode n k).logs = f.logs ∧
      (f.onNode n k).deliveries = f.deliveries ∧ (f.onNode n k).nodes = f.nodes.modify n k ∧
      (f.onNode n k).listeners = f.listeners ∧ (f.onNode n k).tasks = f.tasks ∧
      (f.onNode n k).calls = f.calls := by
  simp [onNode]

@[simp] lemma spawn_fields (f : Fleet) (n : Nat) (p : Point) :
    (f.spawn n p).clock = f.clock ∧ (f.spawn n p).storage = f.storage ∧
      (f.spawn n p).sink = f.sink ∧ (f.spawn n p).logs = f.logs ∧
      (f.spawn n p).deliveries = f.deliveries ∧ (f.spawn n p).nodes = f.nodes ∧
      (f.spawn n p).listeners = f.listeners ∧ (f.spawn n p).tasks = f.tasks ++ [⟨n, p, none⟩] ∧
      (f.spawn n p).calls = f.calls := by
  simp [spawn]

/-- A task that begins stands behind the others. -/
lemma getElem?_spawn (f : Fleet) (n : Nat) (p : Point) :
    (f.spawn n p).tasks[f.tasks.length]? = some ⟨n, p, none⟩ := by
  simp only [spawn_fields]
  exact List.getElem?_concat_length

/-- A task that is told something, if it is among those. -/
def told (s : Signal) (ts : List Nat) (i : Nat) (x : Task) : Task :=
  if ts.contains i then { x with signal := some s } else x

/-- What a task is told moves it nowhere. -/
lemma told_point (s : Signal) (ts : List Nat) (i : Nat) (x : Task) :
    (told s ts i x).point = x.point ∧ (told s ts i x).node = x.node := by
  unfold told
  split
  · exact ⟨rfl, rfl⟩
  · exact ⟨rfl, rfl⟩

lemma getElem?_told {s : Signal} {ts : List Nat} {l : List Task} {i : Nat} {x : Task}
    (hx : l[i]? = some x) : (l.mapIdx (told s ts))[i]? = some (told s ts i x) := by
  rw [List.getElem?_mapIdx, hx]
  rfl

lemma told_cases {s : Signal} {ts : List Nat} {l : List Task} {i : Nat} {y : Task}
    (hy : (l.mapIdx (told s ts))[i]? = some y) : ∃ x, l[i]? = some x ∧ y = told s ts i x := by
  rw [List.getElem?_mapIdx] at hy
  obtain ⟨x, hx, rfl⟩ := Option.map_eq_some_iff.1 hy
  exact ⟨x, hx, rfl⟩

lemma told_of_mem {s : Signal} {ts : List Nat} {i : Nat} {x : Task} (h : i ∈ ts) :
    told s ts i x = { x with signal := some s } :=
  if_pos (by simpa using h)

lemma told_of_not_mem {s : Signal} {ts : List Nat} {i : Nat} {x : Task} (h : i ∉ ts) :
    told s ts i x = x :=
  if_neg (by simpa using h)

@[simp] lemma tell_fields (f : Fleet) (s : Signal) (ts : List Nat) :
    (f.tell s ts).clock = f.clock ∧ (f.tell s ts).storage = f.storage ∧
      (f.tell s ts).sink = f.sink ∧ (f.tell s ts).logs = f.logs ∧
      (f.tell s ts).deliveries = f.deliveries ∧ (f.tell s ts).nodes = f.nodes ∧
      (f.tell s ts).listeners = f.listeners ∧ (f.tell s ts).tasks = f.tasks.mapIdx (told s ts) ∧
      (f.tell s ts).calls = f.calls := by
  have e : told s ts = fun i x => if ts.contains i then { x with signal := some s } else x := rfl
  simp [tell, e]

@[simp] lemma setListener_fields (f : Fleet) (name : String) (l : Listener) :
    (f.setListener name l).clock = f.clock ∧ (f.setListener name l).storage = f.storage ∧
      (f.setListener name l).sink = f.sink ∧ (f.setListener name l).logs = f.logs ∧
      (f.setListener name l).deliveries = f.deliveries ∧
      (f.setListener name l).nodes = f.nodes ∧ (f.setListener name l).tasks = f.tasks ∧
      (f.setListener name l).calls = f.calls := by
  unfold setListener
  split <;> simp

/-! ## The core of calls to listeners -/

@[simp] lemma core_setListener (f : Fleet) (name : String) (l : Listener) :
    (f.setListener name l).core = f.core := by
  apply core_ext <;> simp

lemma core_attemptCall (f : Fleet) (t : Nat) (name : String) :
    (f.attemptCall t name).1.core = f.core := by
  unfold attemptCall
  dsimp only
  split
  · exact core_setListener ..
  · split
    · rfl
    · exact core_setListener ..

lemma core_beginCall (f : Fleet) (t : Nat) (event : Event) (name : String) :
    (f.beginCall t event name).1.core = f.core :=
  core_attemptCall ..

lemma core_beginCalls (f : Fleet) (t : Nat) (event : Event) (names : List String) :
    (f.beginCalls t event names).1.core = f.core := by
  induction names generalizing f with
  | nil => rfl
  | cons name names ih => exact (ih _).trans (core_beginCall ..)

lemma core_resumeCalls (f : Fleet) (t : Nat) (calls : List Call) :
    (f.resumeCalls t calls).1.core = f.core := by
  induction calls generalizing f with
  | nil => rfl
  | cons c cs ih =>
    unfold resumeCalls
    split
    · exact ih f
    · exact (ih _).trans (core_attemptCall ..)

/-! ## Cores after further operations -/

/-- A task moves alike in fleets that keep the same. -/
lemma core_moveTo {f g : Fleet} (h : f.core = g.core) (t : Nat) (p : Point) :
    (f.moveTo t p).core = (g.moveTo t p).core := by
  have e := congrArg (fun k : Fleet => (k.moveTo t p).core) h
  exact e

/-- A node changes alike in fleets that keep the same. -/
lemma core_onNode {f g : Fleet} (h : f.core = g.core) (n : Nat) (k : Node → Node) :
    (f.onNode n k).core = (g.onNode n k).core := by
  have e := congrArg (fun x : Fleet => (x.onNode n k).core) h
  exact e

@[simp] lemma core_finish (f : Fleet) (t : Nat) (o : Outcome) :
    (f.finish t o).core = (f.moveTo t (.ended o)).core :=
  core_wakeAll ..

@[simp] lemma core_setClock (f : Fleet) (c : Clock) :
    (f.setClock c).core = { f with clock := c }.core :=
  core_wakeAll ..

/-- A node is read off what is kept. -/
lemma node_congr {f g : Fleet} (h : f.nodes = g.nodes) (n : Nat) : f.node n = g.node n := by
  rw [node, node, h]

/-- Where there is no node there is one as it is made. -/
lemma node_of_le {f : Fleet} {n : Nat} (h : f.nodes.length ≤ n) :
    f.node n = Node.ofConfig Config.unset (.shared 0) := by
  rw [node, List.getD_eq_getElem?_getD, List.getElem?_eq_none h]
  rfl

/-- What a change of one node leaves of the nodes. -/
lemma node_modify {f g : Fleet} {n : Nat} {k : Node → Node} (h : g.nodes = f.nodes.modify n k)
    (hn : n < f.nodes.length) (m : Nat) : g.node m = if m = n then k (f.node n) else f.node m := by
  rw [node, node, node, h, List.getD_eq_getElem?_getD, List.getElem?_modify]
  by_cases e : m = n
  · subst e
    simp [hn]
  · simp [e, Ne.symm e, List.getD_eq_getElem?_getD]

/-- What a change of a node keeps, all nodes keep. -/
lemma proj_modify {α : Type} {f g : Fleet} {n : Nat} {k : Node → Node}
    (h : g.nodes = f.nodes.modify n k) (proj : Node → α) (hk : ∀ y, proj (k y) = proj y) (m : Nat) :
    proj (g.node m) = proj (f.node m) := by
  by_cases hn : n < f.nodes.length
  · rw [node_modify h hn m]
    split
    · rename_i e
      rw [hk, e]
    · rfl
  · rw [List.modify_eq_self (Nat.not_lt.1 hn)] at h
    rw [node_congr h]

/-- A node that joins comes behind the others. -/
lemma node_addNode (f : Fleet) (c : Config) (link : Nat → Link) (n : Nat) :
    (Session.addNode f c link).node n =
      if n = f.nodes.length then Node.ofConfig c (link f.logs.length) else f.node n := by
  simp only [Session.addNode, node, List.getD_eq_getElem?_getD, List.getElem?_append]
  split
  · rename_i h
    rw [if_neg (Nat.ne_of_lt h)]
  · rename_i h
    split
    · rename_i e
      simp [e]
    · rename_i e
      have hn : 1 ≤ n - f.nodes.length := by omega
      rw [List.getElem?_eq_none (by simpa using hn), List.getElem?_eq_none (Nat.not_lt.1 h)]

end Fleet

end SchemaCatalog
