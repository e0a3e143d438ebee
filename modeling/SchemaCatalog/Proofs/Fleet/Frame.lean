import SchemaCatalog.Proofs.Fleet.Run
import SchemaCatalog.Proofs.History
import SchemaCatalog.Proofs.Storage
import SchemaCatalog.Proofs.Watermark

/-!
# What every move keeps

Whatever moves, the other tasks stand where they stood, nodes stay started, watermarks do not fall
and nothing leaves the storage. `Frame` collects this for one move, and every later module takes
what it does not look at from there.
-/

namespace SchemaCatalog

/-- What a node keeps. -/
structure Node.Kept (x y : Node) : Prop where
  history : x.history.Grows y.history
  log : y.link.log? = x.link.log?
  shared : ∀ log, x.link = .shared log → y.link = .shared log
  skew : y.skew = x.skew
  started : x.started = true → y.started = true
  doneUntil : x.mark.doneUntil ≤ y.mark.doneUntil
  failure : ∀ e, x.mark.failure = some e → y.mark.failure = some e
  listeners : ∀ type, x.publisher.listenersOf type <+: y.publisher.listenersOf type

lemma Node.Kept.refl (x : Node) : x.Kept x :=
  ⟨.refl _, rfl, fun _ => id, rfl, id, Nat.le_refl _, fun _ => id, fun _ => List.prefix_refl _⟩

lemma Node.Kept.trans {x y z : Node} (h : x.Kept y) (h' : y.Kept z) : x.Kept z where
  history := h.history.trans h'.history
  log := h'.log.trans h.log
  shared log hl := h'.shared log (h.shared log hl)
  skew := h'.skew.trans h.skew
  started e := h'.started (h.started e)
  doneUntil := Nat.le_trans h.doneUntil h'.doneUntil
  failure e he := h'.failure e (h.failure e he)
  listeners type := (h.listeners type).trans (h'.listeners type)

lemma Node.Alike.kept {x y : Node} (h : x.Alike y) : x.Kept y where
  history := h.history ▸ .refl _
  log := h.log
  shared := h.shared
  skew := h.skew
  started e := h.started.trans e
  doneUntil := by
    rw [h.mark]
    exact Nat.le_refl _
  failure e he := by rwa [h.mark]
  listeners := h.listeners

lemma Node.handle_ok {x y : Node} {u : Update} {commit : Timestamp} {token : Token}
    (h : x.handle u commit token = .ok y) :
    ∃ history notice, x.history.handle u commit token = .ok (history, notice) ∧
      y = { x with history := history }.notify notice := by
  unfold handle at h
  split at h
  · rename_i history notice he
    cases h
    exact ⟨history, notice, he, rfl⟩
  · cases h

@[simp] lemma Node.notify_fields (x : Node) (z : Notice) :
    (x.notify z).history = x.history ∧ (x.notify z).mark = x.mark ∧ (x.notify z).link = x.link ∧
      (x.notify z).skew = x.skew ∧ (x.notify z).delay = x.delay ∧
      (x.notify z).started = x.started ∧ (x.notify z).publisher = x.publisher ∧
      (x.notify z).holdsHandler = x.holdsHandler := by
  unfold notify
  split
  · split <;> simp
  · simp

lemma Node.kept_of_handle {x y : Node} {u : Update} {commit : Timestamp} {token : Token}
    (h : x.handle u commit token = .ok y) : x.Kept y := by
  obtain ⟨history, notice, handled, rfl⟩ := handle_ok h
  constructor
  · simp only [notify_fields]
    exact History.grows_of_handle handled
  · simp
  · simp
  · simp
  · simp
  · simp only [notify_fields]
    exact Nat.le_refl _
  · simp
  · simp

/-- A node whose watermark fails, whatever else of it changes that is not kept. -/
lemma Node.kept_of_fail {x y : Node} {e : Error} (history : y.history = x.history)
    (link : y.link = x.link) (skew : y.skew = x.skew) (started : y.started = x.started)
    (mark : y.mark = (x.mark.fail e).1) (publisher : y.publisher = x.publisher) : x.Kept y where
  history := history ▸ .refl _
  log := congrArg Link.log? link
  shared _ h := link.trans h
  skew := skew
  started h := started.trans h
  doneUntil := by
    rw [mark]
    exact Nat.le_refl _
  failure _ h := by
    rw [mark]
    exact Watermark.fail_failure h
  listeners _ := publisher ▸ List.prefix_refl _

/-- A node whose watermark is told that a version is done. -/
lemma Node.kept_of_finish {x : Node} {v : Version} {mark : Watermark Nat}
    {o : Except Abort (List Nat)} (h : x.mark.finish v = (mark, o)) :
    x.Kept { x with mark := mark } where
  history := .refl _
  log := rfl
  shared _ := id
  skew := rfl
  started := id
  doneUntil := Watermark.le_finish h
  failure _ hf := (Watermark.finish_failure h).trans hf
  listeners _ := List.prefix_refl _

/-- A node of which nothing changes that is kept. -/
lemma Node.kept_of_same {x y : Node} (history : x.history.Grows y.history)
    (link : y.link = x.link) (skew : y.skew = x.skew)
    (started : x.started = true → y.started = true)
    (doneUntil : y.mark.doneUntil = x.mark.doneUntil) (failure : y.mark.failure = x.mark.failure)
    (publisher : y.publisher = x.publisher) : x.Kept y where
  history := history
  log := congrArg Link.log? link
  shared _ h := link.trans h
  skew := skew
  started := started
  doneUntil := Nat.le_of_eq (congrArg (fun v : Version => v.number.val) doneUntil.symm)
  failure _ h := failure.trans h
  listeners _ := publisher ▸ List.prefix_refl _

namespace Fleet

/-- A task is listed as waiting for a version of a node. -/
def Listed (f : Fleet) (t : Nat) : Prop :=
  ∃ n v l, (f.node n).mark.waiters.get? v = some l ∧ t ∈ l

/-- What a move keeps of a fleet, and what is new in it. -/
structure Frame (f : Fleet) (m : Move) (g : Fleet) : Prop where
  task : ∀ (s : Nat) (z : Task), f.tasks[s]? = some z →
    ∃ y, g.tasks[s]? = some y ∧ y.node = z.node ∧
      (m ≠ .step s ∨ z.outcome?.isSome → y.point = z.point)
  untold : ∀ (s : Nat) (z : Task), f.tasks[s]? = some z → m ≠ .step s → ¬ f.Listed s →
    g.tasks[s]? = some z
  fresh : ∀ (s : Nat) (y : Task), f.tasks[s]? = none → g.tasks[s]? = some y →
    y.node < f.nodes.length ∧ y.signal = none
  nodes : f.nodes.length ≤ g.nodes.length
  node : ∀ n, n < f.nodes.length → (f.node n).Kept (g.node n)
  joined : ∀ n, f.nodes.length ≤ n → n < g.nodes.length →
    ∃ c link log, g.node n = Node.ofConfig c link ∧ link.log? = some log ∧ log < g.logs.length
  stored : f.storage.entries <+: g.storage.entries

/-! ## Tasks -/

/-- Tasks that keep their node, and their point unless they take a step. None is told anything that
is not listed. -/
def TasksKept (f : Fleet) (m : Move) (tasks : List Task) : Prop :=
  ∀ (s : Nat) (z : Task), f.tasks[s]? = some z →
    ∃ y, tasks[s]? = some y ∧ y.node = z.node ∧
      (m ≠ .step s ∨ z.outcome?.isSome → y.point = z.point) ∧
      (m ≠ .step s → ¬ f.Listed s → y = z)

/-- New tasks, which were not told anything. -/
def TasksFresh (f : Fleet) (tasks : List Task) : Prop :=
  ∀ (s : Nat) (y : Task), f.tasks[s]? = none → tasks[s]? = some y →
    y.node < f.nodes.length ∧ y.signal = none

section

variable {f g : Fleet} {m : Move} {l : List Task} {t : Nat}

lemma tasksKept_refl : f.TasksKept m f.tasks :=
  fun _ z hz => ⟨z, hz, rfl, fun _ => rfl, fun _ _ => rfl⟩

lemma tasksFresh_refl : f.TasksFresh f.tasks := by
  intro s y hs hy
  rw [hs] at hy
  cases hy

lemma tasksKept_modify {x : Task} (hx : f.tasks[t]? = some x) (ho : x.outcome? = none)
    (h : f.TasksKept (.step t) l) (p : Point) :
    f.TasksKept (.step t) (l.modify t fun x => { x with point := p, signal := none }) := by
  intro s z hz
  obtain ⟨y, hy, hn, hp, hl⟩ := h s z hz
  rw [List.getElem?_modify, hy]
  by_cases e : t = s
  · refine ⟨{ y with point := p, signal := none }, by simp [e], hn, ?_, ?_⟩
    · subst e
      rw [hx] at hz
      cases hz
      rintro (ne | some)
      · exact absurd rfl ne
      · rw [ho] at some
        cases some
    · exact fun ne _ => absurd (congrArg Move.step e) ne
  · exact ⟨y, by simp [e], hn, hp, hl⟩

lemma tasksFresh_modify (ht : t < f.tasks.length) (h : f.TasksFresh l) (p : Point) :
    f.TasksFresh (l.modify t fun x => { x with point := p, signal := none }) := by
  intro s y hs hy
  have ne : t ≠ s := by
    rintro rfl
    rw [List.getElem?_eq_none_iff] at hs
    omega
  rw [List.getElem?_modify_ne _ _ ne] at hy
  exact h s y hs hy

lemma tasksKept_told {s : Signal} {ts : List Nat} (h : ∀ t ∈ ts, f.Listed t) :
    f.TasksKept m (f.tasks.mapIdx (told s ts)) := by
  intro i z hz
  obtain ⟨point, node⟩ := told_point s ts i z
  refine ⟨_, getElem?_told hz, node, fun _ => point, fun _ hl => ?_⟩
  exact told_of_not_mem fun hi => hl (h i hi)

lemma tasksFresh_told (s : Signal) (ts : List Nat) : f.TasksFresh (f.tasks.mapIdx (told s ts)) := by
  intro i y hi hy
  rw [List.getElem?_mapIdx, hi] at hy
  cases hy

lemma tasksKept_append (n : Nat) (p : Point) : f.TasksKept m (f.tasks ++ [⟨n, p, none⟩]) := by
  intro s z hz
  exact ⟨z, getElem?_concat hz _, rfl, fun _ => rfl, fun _ _ => rfl⟩

lemma listed_of_fail {n : Nat} {e : Error} : ∀ t ∈ ((f.node n).mark.fail e).2, f.Listed t := by
  intro t ht
  obtain ⟨v, l, hl, htl⟩ := Watermark.fail_dropped ht
  exact ⟨n, v, l, hl, htl⟩

lemma listed_of_finish {n : Nat} {v : Version} {mark : Watermark Nat} {released : List Nat}
    (h : (f.node n).mark.finish v = (mark, .ok released)) : ∀ t ∈ released, f.Listed t := by
  intro t ht
  obtain ⟨v, l, hl, htl, -⟩ := Watermark.finish_released h ht
  exact ⟨n, v, l, hl, htl⟩

lemma tasksFresh_append {n : Nat} {p : Point} (hn : n < f.nodes.length) :
    f.TasksFresh (f.tasks ++ [⟨n, p, none⟩]) := by
  intro s y hs hy
  rcases concat_cases hy with hy | ⟨-, rfl⟩
  · rw [hs] at hy
    cases hy
  · exact ⟨hn, rfl⟩

/-! ## Nodes -/

/-- Nodes that keep what nodes keep, and no new ones. -/
def NodesKept (f : Fleet) (nodes : List Node) : Prop :=
  nodes.length = f.nodes.length ∧
    ∀ n, n < f.nodes.length → (f.node n).Kept ({ f with nodes := nodes }.node n)

lemma nodesKept_refl : f.NodesKept f.nodes := ⟨rfl, fun _ _ => .refl _⟩

lemma nodesKept_alike {nodes : List Node} (h : f.Alike nodes) : f.NodesKept nodes :=
  ⟨h.1, fun n _ => (h.2 n).kept⟩

lemma nodesKept_modify {n : Nat} {k : Node → Node}
    (h : n < f.nodes.length → (f.node n).Kept (k (f.node n))) :
    f.NodesKept (f.nodes.modify n k) := by
  refine ⟨by simp, fun j hj => ?_⟩
  by_cases hn : n < f.nodes.length
  · rw [node_modify (g := { f with nodes := f.nodes.modify n k }) rfl hn]
    by_cases e : j = n
    · rw [if_pos e, e]
      exact h hn
    · rw [if_neg e]
      exact .refl _
  · rw [node_congr (f := { f with nodes := f.nodes.modify n k }) (g := f)
      (List.modify_eq_self (Nat.not_lt.1 hn))]
    exact .refl _

/-! ## Moves -/

lemma frame_of (ht : f.TasksKept m g.tasks) (hf : f.TasksFresh g.tasks) (hn : f.NodesKept g.nodes)
    (hs : f.storage.entries <+: g.storage.entries) : f.Frame m g where
  task s z hz := by
    obtain ⟨y, hy, hyn, hp, -⟩ := ht s z hz
    exact ⟨y, hy, hyn, hp⟩
  untold s z hz hm hl := by
    obtain ⟨y, hy, -, -, e⟩ := ht s z hz
    rw [hy, e hm hl]
  fresh := hf
  nodes := Nat.le_of_eq hn.1.symm
  node n h := hn.2 n h
  joined _ hle hlt := absurd (hn.1 ▸ hlt) (Nat.not_lt.2 hle)
  stored := hs

/-- The frame of a node that joins. -/
lemma frame_join {c : Config} {link : Nat → Link} (hl : ∀ log, (link log).log? = some log) :
    f.Frame m (Session.addNode f c link) where
  task _ z hz := ⟨z, hz, rfl, fun _ => rfl⟩
  untold _ _ hz _ _ := hz
  fresh := tasksFresh_refl
  nodes := by simp [Session.addNode]
  node n hn := by
    rw [node_addNode, if_neg (Nat.ne_of_lt hn)]
    exact .refl _
  joined n hle hlt := by
    have e : n = f.nodes.length := by
      simp only [Session.addNode, List.length_append, List.length_singleton] at hlt
      omega
    exact ⟨c, link f.logs.length, f.logs.length, by rw [node_addNode, if_pos e], hl _,
      by simp [Session.addNode]⟩
  stored := List.prefix_refl _

/-- The frame of a step that moves its task, and may tell other tasks something before. -/
lemma frame_moveTo {k : Fleet} {p : Point} {x : Task} (hx : f.tasks[t]? = some x)
    (ho : x.outcome? = none)
    (hk : k.tasks = l.modify t fun x => { x with point := p, signal := none })
    (hl : f.TasksKept (.step t) l) (hf : f.TasksFresh l) (hn : f.NodesKept k.nodes)
    (hs : f.storage.entries <+: k.storage.entries) : f.Frame (.step t) k := by
  obtain ⟨ht, -⟩ := List.getElem?_eq_some_iff.1 hx
  apply frame_of
  · rw [hk]
    exact tasksKept_modify hx ho hl p
  · rw [hk]
    exact tasksFresh_modify ht hf p
  · exact hn
  · exact hs

lemma frame_of_effect {k : Fleet} {x : Task} (hn : x.node < f.nodes.length)
    (hx : f.tasks[t]? = some x) (ho : x.outcome? = none) (h : f.Effect t x k) :
    f.Frame (.step t) k := by
  have still := List.prefix_refl f.storage.entries
  -- Tasks stay where they are, except for the one that takes the step, and each node is kept. So
  -- each effect is checked by what it does to tasks, to nodes and to the storage.
  cases h with
  | idle _ => exact frame_of tasksKept_refl tasksFresh_refl nodesKept_refl still
  | still _ _ _ _ ha =>
    exact frame_moveTo hx ho rfl tasksKept_refl tasksFresh_refl (nodesKept_alike ha) still
  | draft _ _ _ _ _ =>
    exact frame_moveTo hx ho rfl tasksKept_refl tasksFresh_refl nodesKept_refl still
  | append h _ _ ha =>
    exact frame_moveTo hx ho rfl tasksKept_refl tasksFresh_refl (nodesKept_alike ha)
      (List.prefix_append ..)
  | enqueue _ _ =>
    exact frame_moveTo hx ho rfl tasksKept_refl tasksFresh_refl
      (nodesKept_modify fun _ => Node.kept_of_same (.refl _) rfl rfl id rfl rfl rfl) still
  | start _ _ _ _ _ =>
    exact frame_moveTo hx ho rfl (tasksKept_append _ _) (tasksFresh_append hn)
      (nodesKept_modify fun _ =>
        Node.kept_of_same (History.grows_register _ _) rfl rfl (fun _ => rfl) rfl rfl rfl) still
  | beginDelivery _ _ _ _ _ _ =>
    exact frame_moveTo hx ho rfl (tasksKept_append _ _) (tasksFresh_append hn) nodesKept_refl still
  | detach _ _ _ _ =>
    exact frame_moveTo hx ho rfl tasksKept_refl tasksFresh_refl nodesKept_refl still
  | release _ _ _ =>
    exact frame_moveTo hx ho rfl tasksKept_refl tasksFresh_refl
      (nodesKept_modify fun _ => Node.kept_of_same (.refl _) rfl rfl id rfl rfl rfl) still
  | closeMark _ =>
    exact frame_moveTo hx ho rfl (tasksKept_told listed_of_fail) (tasksFresh_told _ _)
      (nodesKept_modify fun _ => Node.kept_of_fail rfl rfl rfl rfl rfl rfl) still
  | hand _ _ _ _ _ hz =>
    exact frame_of tasksKept_refl tasksFresh_refl
      (nodesKept_modify fun _ => Node.kept_of_handle hz) still
  | note _ _ _ _ => exact frame_of tasksKept_refl tasksFresh_refl nodesKept_refl still
  | halt _ _ _ _ _ =>
    exact frame_moveTo hx ho rfl (tasksKept_told listed_of_fail) (tasksFresh_told _ _)
      (nodesKept_modify fun _ => Node.kept_of_fail rfl rfl rfl rfl rfl rfl) still
  | haltRecorder _ _ _ _ =>
    exact frame_moveTo hx ho rfl tasksKept_refl tasksFresh_refl nodesKept_refl still
  | endDelivery _ _ =>
    exact frame_moveTo hx ho rfl tasksKept_refl tasksFresh_refl nodesKept_refl still
  | takeNotice _ _ _ =>
    exact frame_moveTo hx ho rfl tasksKept_refl tasksFresh_refl
      (nodesKept_modify fun _ => Node.kept_of_same (.refl _) rfl rfl id rfl rfl rfl) still
  | endDispatch _ _ =>
    exact frame_moveTo hx ho rfl tasksKept_refl tasksFresh_refl nodesKept_refl still
  | call _ => exact frame_moveTo hx ho rfl tasksKept_refl tasksFresh_refl nodesKept_refl still
  | wait _ => exact frame_moveTo hx ho rfl tasksKept_refl tasksFresh_refl nodesKept_refl still
  | called _ ha =>
    exact frame_moveTo hx ho rfl tasksKept_refl tasksFresh_refl (nodesKept_alike ha) still
  | done _ hm =>
    exact frame_moveTo hx ho rfl (tasksKept_told (listed_of_finish hm)) (tasksFresh_told _ _)
      (nodesKept_modify fun _ => Node.kept_of_finish hm) still
  | overflow _ hm =>
    exact frame_moveTo hx ho rfl tasksKept_refl tasksFresh_refl
      (nodesKept_modify fun _ => Node.kept_of_finish hm) still

/-- What a move keeps. -/
theorem frame_of_change {k : Fleet} (placed : f.Placed) (h : f.Change m k) : f.Frame m k := by
  have still := List.prefix_refl f.storage.entries
  cases h with
  | step hx ho he => exact frame_of_effect (placed _ _ hx) hx ho he
  | stuck _ => exact frame_of tasksKept_refl tasksFresh_refl nodesKept_refl still
  | still _ ha => exact frame_of tasksKept_refl tasksFresh_refl (nodesKept_alike ha) still
  | turn => exact frame_of tasksKept_refl tasksFresh_refl nodesKept_refl still
  | spawn hn _ _ =>
    exact frame_of (tasksKept_append _ _) (tasksFresh_append hn) nodesKept_refl still
  | register _ _ => exact frame_of tasksKept_refl tasksFresh_refl nodesKept_refl still
  | join _ hl => exact frame_join hl
  | markDone hn hm =>
    exact frame_of (tasksKept_told (listed_of_finish hm)) (tasksFresh_told _ _)
      (nodesKept_modify fun _ => Node.kept_of_finish hm) still
  | overflow hn hm =>
    exact frame_of tasksKept_refl tasksFresh_refl
      (nodesKept_modify fun _ => Node.kept_of_finish hm) still
  | failMark hn =>
    exact frame_of (tasksKept_told listed_of_fail) (tasksFresh_told _ _)
      (nodesKept_modify fun _ => Node.kept_of_fail rfl rfl rfl rfl rfl rfl) still

lemma Frame.congr {k : Fleet} (h : f.Frame m k) (e : g.core = k.core) : f.Frame m g := by
  have hk : f.Frame m k.core :=
    ⟨h.task, h.untold, h.fresh, h.nodes, h.node, h.joined, h.stored⟩
  rw [← e] at hk
  exact ⟨hk.task, hk.untold, hk.fresh, hk.nodes, hk.node, hk.joined, hk.stored⟩

lemma frame_of_core (e : g.core = f.core) : f.Frame m g :=
  (frame_of tasksKept_refl tasksFresh_refl nodesKept_refl (List.prefix_refl _)).congr e

/-- What was committed stays in the log. -/
lemma Frame.log {k : Fleet} (h : f.Frame m k) : f.storage.log <+: k.storage.log :=
  h.stored.filterMap _

/-- A task that has ended leaves behind what it left behind. -/
lemma Frame.outcome {k : Fleet} (h : f.Frame m k) {s : Nat} {o : Outcome}
    (ho : f.outcome? s = some o) : k.outcome? s = some o := by
  obtain ⟨z, hz, hzo⟩ := Option.bind_eq_some_iff.1 ho
  obtain ⟨y, hy, -, hp⟩ := h.task s z hz
  refine Option.bind_eq_some_iff.2 ⟨y, hy, ?_⟩
  rw [Task.outcome?, hp (.inr (by rw [hzo]; rfl))]
  exact hzo

/-- A task that has not ended had not ended before. -/
lemma Frame.live {k : Fleet} (h : f.Frame m k) {s : Nat} (ho : k.outcome? s = none) :
    f.outcome? s = none := by
  cases ho' : f.outcome? s with
  | none => rfl
  | some o =>
    rw [h.outcome ho'] at ho
    cases ho

lemma Placed.frame (placed : f.Placed) (h : f.Frame m g) : g.Placed := by
  intro s y hy
  cases hz : f.tasks[s]? with
  | some z =>
    obtain ⟨y', hy', hn, -⟩ := h.task s z hz
    rw [hy] at hy'
    cases hy'
    rw [hn]
    exact Nat.lt_of_lt_of_le (placed s z hz) h.nodes
  | none => exact Nat.lt_of_lt_of_le (h.fresh s y hz hy).1 h.nodes

lemma Plain.frame (hp : f.Plain) (h : f.Frame m g) : g.Plain where
  linked n := by
    by_cases hf : n < f.nodes.length
    · rw [(h.node n hf).log]
      exact hp.linked n
    · by_cases hg : n < g.nodes.length
      · obtain ⟨c, link, log, e, hl, -⟩ := h.joined n (Nat.not_lt.1 hf) hg
        rw [e, Node.ofConfig, hl]
        rfl
      · rw [node_of_le (Nat.not_lt.1 hg)]
        rfl
  placed := Placed.frame hp.placed h

lemma plain_ofClock (c : Clock) : (ofClock c).Plain where
  linked _ := rfl
  placed _ _ h := nomatch h

end

end Fleet

end SchemaCatalog
