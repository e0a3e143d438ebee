import SchemaCatalog.Proofs.Fleet.Agenda
import SchemaCatalog.Proofs.Fleet.Replay

/-!
# What a move can do to a dispatcher

A move leaves the dispatcher of a node alone, tells it that the node was handed an update, starts
it, or is a step of it (`Serves`). Whatever is to be proved of dispatchers is proved once for each
of these, and `serves_of_change` makes it a property of every move.
-/

namespace SchemaCatalog

namespace Fleet

/-- Tasks among which the dispatchers of a node stand where they stood. -/
structure DutiesKept (f : Fleet) (n : Nat) (tasks : List Task) : Prop where
  from_old : ∀ (s : Nat) (y : Task), tasks[s]? = some y → y.node = n →
    y.point.dispatches = true → ∃ z, f.tasks[s]? = some z ∧ z.node = n ∧ z.point = y.point
  to_new : ∀ (s : Nat) (z : Task), f.tasks[s]? = some z → z.node = n →
    z.point.dispatches = true → ∃ y, tasks[s]? = some y ∧ y.node = n ∧ y.point = z.point

/-- A node whose dispatcher was told nothing, except that nothing comes any more, and which is done
with the same versions. -/
structure NothingTold (x y : Node) : Prop where
  history : y.history = x.history
  started : y.started = x.started
  doneUntil : y.mark.doneUntil = x.mark.doneUntil
  done : y.mark.done = x.mark.done
  dispatch : y.dispatch = x.dispatch ∨ y.dispatch = x.closeDispatch.dispatch

/-- What a move can do to the dispatcher of a node: it leaves it alone, tells it that the node was
handed an update, starts it, or is a step of it. -/
inductive Serves (f : Fleet) (n : Nat) (m : Move) (g : Fleet) : Prop where
  | rests : f.DutiesKept n g.tasks → NothingTold (f.node n) (g.node n) → Serves f n m g
  | told {k k' : Nat} {y : History} {z : Notice} :
      f.Reached n k → g.Reached n k' → Leads f.storage.log k [z] k' →
      g.node n = { f.node n with history := y }.notify z → g.tasks = f.tasks →
      (∃ t, m = .step t ∧ f.HandsTo t n) → Serves f n m g
  | begins :
      (f.node n).started = false → g.Reached n 0 →
      (∀ (s : Nat) (y : Task), g.tasks[s]? = some y → y.node = n → y.point.dispatches = true →
        s = f.tasks.length ∨ ∃ z, f.tasks[s]? = some z ∧ z.node = n ∧ z.point = y.point) →
      g.tasks[f.tasks.length]? = some ⟨n, .dispatch, none⟩ →
      (g.node n).dispatch = some ⟨[], true, f.tasks.length⟩ → (g.node n).mark = (f.node n).mark →
      Serves f n m g
  | serves {t : Nat} {x : Task} {p : Point} :
      m = .step t → f.tasks[t]? = some x → x.node = n → x.point.dispatches = true →
      g.tasks.length = f.tasks.length → (∃ y, g.tasks[t]? = some y ∧ y.point = p) →
      (g.node n).history = (f.node n).history → (g.node n).started = (f.node n).started →
      (∀ d, (f.node n).dispatch = some d → ∃ d', (g.node n).dispatch = some d' ∧
        d'.task = d.task ∧ Duty x.point d (f.node n).mark p d' (g.node n).mark) → Serves f n m g

/-- What a request can do to the watermark of a node: it marks a version as done, or has the
watermark fail. -/
inductive Drives (f : Fleet) (n : Nat) : Move → Fleet → Prop where
  | done {g : Fleet} {v : Version} {w : Watermark Nat} {o : Except Abort (List Nat)}
      {skew : Duration} :
      (f.node n).mark.finish v = (w, o) → f.DutiesKept n g.tasks →
      g.node n = { f.node n with mark := w } → Drives f n (.request n skew (.markDone v)) g
  | fail {g : Fleet} {e : Error} {skew : Duration} :
      f.DutiesKept n g.tasks →
      g.node n = { f.node n with mark := ((f.node n).mark.fail e).1 } →
      Drives f n (.request n skew (.failMark e)) g

section

variable {f g : Fleet} {m : Move} {t n k : Nat} {x : Task}

/-! ## Moves that leave dispatchers alone -/

lemma dutiesKept_refl : f.DutiesKept n f.tasks :=
  ⟨fun _ y hy hn _ => ⟨y, hy, hn, rfl⟩, fun _ z hz hn _ => ⟨z, hz, hn, rfl⟩⟩

/-- A task moves that is no dispatcher of the node and does not become one. -/
lemma dutiesKept_modify {l : List Task} {p : Point} (hl : f.DutiesKept n l)
    (hx : ∀ y, l[t]? = some y → y.node = n →
      y.point.dispatches = false ∧ p.dispatches = false) :
    f.DutiesKept n (l.modify t fun x => { x with point := p, signal := none }) := by
  constructor
  · intro s y hy hn hd
    rcases modify_cases hy with ⟨rfl, z, hz, rfl⟩ | ⟨-, hy⟩
    · rw [(hx z hz hn).2] at hd
      cases hd
    · exact hl.from_old s y hy hn hd
  · intro s z hz hn hd
    obtain ⟨y, hy, hyn, e⟩ := hl.to_new s z hz hn hd
    have ne : t ≠ s := by
      rintro rfl
      rw [← e, (hx y hy hyn).1] at hd
      cases hd
    exact ⟨y, (List.getElem?_modify_ne _ _ ne).trans hy, hyn, e⟩

lemma dutiesKept_told (s : Signal) (ts : List Nat) :
    f.DutiesKept n (f.tasks.mapIdx (told s ts)) := by
  constructor
  · intro i y hy hn _
    obtain ⟨z, hz, rfl⟩ := told_cases hy
    obtain ⟨point, node⟩ := told_point s ts i z
    exact ⟨z, hz, node.symm.trans hn, point.symm⟩
  · intro i z hz hn _
    obtain ⟨point, node⟩ := told_point s ts i z
    exact ⟨_, getElem?_told hz, node.trans hn, point⟩

lemma dutiesKept_append {j : Nat} {p : Point} (h : j ≠ n ∨ p.dispatches = false) :
    f.DutiesKept n (f.tasks ++ [⟨j, p, none⟩]) := by
  constructor
  · intro s y hy hn hd
    rcases concat_cases hy with hy | ⟨-, rfl⟩
    · exact ⟨y, hy, hn, rfl⟩
    · rcases h with h | h
      · exact absurd hn h
      · rw [h] at hd
        cases hd
  · intro s z hz hn _
    exact ⟨z, getElem?_concat hz _, hn, rfl⟩

lemma nothingTold_refl (y : Node) : NothingTold y y := ⟨rfl, rfl, rfl, rfl, .inl rfl⟩

lemma nothingTold_alike {y z : Node} (h : y.Alike z) : NothingTold y z where
  history := h.history
  started := h.started
  doneUntil := by rw [h.mark]
  done := by rw [h.mark]
  dispatch := .inl h.dispatch

lemma nothingTold_modify {j : Nat} {y : Node → Node} (hg : g.nodes = f.nodes.modify j y)
    (hy : n = j → NothingTold (f.node n) (y (f.node n))) : NothingTold (f.node n) (g.node n) := by
  by_cases hj : j < f.nodes.length
  · rw [node_modify hg hj]
    split
    · rename_i e
      subst e
      exact hy rfl
    · exact nothingTold_refl _
  · rw [List.modify_eq_self (Nat.not_lt.1 hj)] at hg
    rw [node_congr hg]
    exact nothingTold_refl _

/-- Where a node changes, the dispatchers of the others are told nothing. -/
lemma nothingTold_elsewhere {j : Nat} {y : Node → Node} (hg : g.nodes = f.nodes.modify j y)
    (ne : n ≠ j) : NothingTold (f.node n) (g.node n) :=
  nothingTold_modify hg fun e => absurd e ne

/-- What is told to a dispatcher is read off its record. -/
lemma NothingTold.from_old {x y : Node} (h : NothingTold x y) {d' : Dispatch}
    (hd : y.dispatch = some d') : ∃ d, x.dispatch = some d ∧ d'.task = d.task ∧
      d'.queue = d.queue ∧ (d'.accepting = true → d.accepting = true) := by
  rcases h.dispatch with e | e
  · exact ⟨d', e ▸ hd, rfl, rfl, id⟩
  · rw [e, Node.closeDispatch] at hd
    obtain ⟨d, hx, rfl⟩ := Option.map_eq_some_iff.1 hd
    exact ⟨d, hx, rfl, rfl, fun acc => (nomatch acc)⟩

lemma NothingTold.to_new {x y : Node} (h : NothingTold x y) {d : Dispatch}
    (hd : x.dispatch = some d) : ∃ d', y.dispatch = some d' ∧ d'.task = d.task := by
  rcases h.dispatch with e | e
  · exact ⟨d, e.trans hd, rfl⟩
  · rw [Node.closeDispatch, hd] at e
    exact ⟨_, e, rfl⟩

lemma NothingTold.none {x y : Node} (h : NothingTold x y) (hd : x.dispatch = none) :
    y.dispatch = none := by
  rcases h.dispatch with e | e
  · exact e.trans hd
  · rw [Node.closeDispatch, hd] at e
    exact e

/-! ## Steps -/

/-- What is handed to a node it is told of, without the events if it has them behind it. -/
lemma serves_hand {d : Nat} {y : Delivery} {e : Stored} {rest : List Stored} {z : Node}
    (ht : f.Tracks) (hx : f.tasks[t]? = some x) (ho : x.outcome? = none)
    (hxd : x.point = .deliver d) (hy : f.deliveries[d]? = some y) (hq : y.queue = e :: rest)
    (hr : y.receiver = .node n) (hz : handed (f.node n) e = .ok z) (node : g.node n = z)
    (tasks : g.tasks = f.tasks) (storage : g.storage = f.storage)
    (nodes : g.nodes.length = f.nodes.length) : f.Serves n (.step t) g := by
  obtain ⟨j, k, c, w⟩ := ht.front hx ho hxd hy hq hr
  have reached : g.Reached n (max k (j + 1)) := w.reached_hand ht hz storage nodes node
  have hands : ∃ i, Move.step t = .step i ∧ f.HandsTo i n :=
    ⟨t, rfl, x, d, y, hx, hxd, hy, hr, by rw [hq]; exact List.cons_ne_nil _ _⟩
  rcases Nat.lt_or_eq_of_le w.le with hjk | rfl
  · rw [w.handed_old ht hjk] at hz
    cases hz
    rw [Nat.max_eq_left hjk] at reached
    have version := ht.sound.numbered j c w.log
    exact .told w.reached reached (.old (by omega) .nil) node tasks hands
  · cases hc : snapshot f.storage.log (j + 1) with
    | error err =>
      rw [w.handed_error ht hc] at hz
      cases hz
    | ok b =>
      rw [w.handed_next ht hc, ← Committed.events_eq] at hz
      cases hz
      rw [Nat.max_eq_right (Nat.le_succ j)] at reached
      exact .told w.reached reached (.next w.log .nil) node tasks hands

/-- A node that is started gets a dispatcher, which has nothing to do yet. -/
lemma serves_start {p : Point} {y : Node → Node} (ht : f.Tracks) (hn : x.node < f.nodes.length)
    (hs : (f.node x.node).started = false) (hx : f.tasks[t]? = some x)
    (hxd : x.point.dispatches = false) (hp : p.dispatches = false)
    (tasks : g.tasks = (f.tasks ++ [(⟨x.node, .dispatch, none⟩ : Task)]).modify t
      fun x => { x with point := p, signal := none })
    (nodes : g.nodes = f.nodes.modify x.node y)
    (hy : ∀ z, (y z).started = true ∧ (y z).history = z.history.register Catalog.initial ∧
      (y z).dispatch = some ⟨[], true, f.tasks.length⟩ ∧ (y z).mark = z.mark) :
    f.Serves n (.step t) g := by
  obtain ⟨hlt, -⟩ := List.getElem?_eq_some_iff.1 hx
  have node := node_modify nodes hn
  obtain ⟨started, history, dispatch, mark⟩ := hy (f.node x.node)
  by_cases e : n = x.node
  · subst e
    have same : g.node x.node = y (f.node x.node) := by rw [node, if_pos rfl]
    refine .begins hs ⟨?_, ?_, ?_⟩ ?_ ?_ ?_ ?_
    · rw [nodes, List.length_modify]
      exact hn
    · rw [same, started]
    · rw [same, history, ht.unstarted _ hn hs]
      exact History.follows_initial _
    · intro s z hz hzn hzd
      rw [tasks] at hz
      rcases modify_cases hz with ⟨-, z, -, rfl⟩ | ⟨-, hz⟩
      · rw [hp] at hzd
        cases hzd
      · rcases concat_cases hz with hz | ⟨e, -⟩
        · exact .inr ⟨z, hz, hzn, rfl⟩
        · exact .inl e
    · rw [tasks, List.getElem?_modify_ne _ _ (Nat.ne_of_lt hlt), List.getElem?_concat_length]
    · rw [same, dispatch]
    · rw [same, mark]
  · refine .rests ?_ (nothingTold_elsewhere nodes e)
    rw [tasks]
    refine dutiesKept_modify (dutiesKept_append (.inl (Ne.symm e))) fun z hz _ => ⟨?_, hp⟩
    rw [getElem?_concat hx] at hz
    cases hz
    exact hxd

/-- A dispatcher does its duty, and those of other nodes rest. -/
lemma serves_duty {l : List Task} {p : Point} {y : Task} (hx : f.tasks[t]? = some x)
    (hxd : x.point.dispatches = true) (hl : f.DutiesKept n l) (hy : l[t]? = some y)
    (hyn : y.node = x.node) (hlen : l.length = f.tasks.length)
    (tasks : g.tasks = l.modify t fun x => { x with point := p, signal := none })
    (elsewhere : n ≠ x.node → NothingTold (f.node n) (g.node n))
    (history : (g.node x.node).history = (f.node x.node).history)
    (started : (g.node x.node).started = (f.node x.node).started)
    (duty : ∀ d, (f.node x.node).dispatch = some d → ∃ d', (g.node x.node).dispatch = some d' ∧
      d'.task = d.task ∧ Duty x.point d (f.node x.node).mark p d' (g.node x.node).mark) :
    f.Serves n (.step t) g := by
  by_cases e : n = x.node
  · subst e
    refine .serves rfl hx rfl hxd ?_ ⟨{ y with point := p, signal := none }, ?_, rfl⟩ history
      started duty
    · rw [tasks, List.length_modify, hlen]
    · rw [tasks, List.getElem?_modify_eq, hy]
      rfl
  · refine .rests ?_ (elsewhere e)
    rw [tasks]
    refine dutiesKept_modify hl fun z hz hzn => ?_
    rw [hy] at hz
    cases hz
    exact absurd (hzn.symm.trans hyn) e

/-- What a step can do to the dispatcher of a node. -/
lemma serves_of_effect (hp : f.Plain) (ht : f.Tracks) (hx : f.tasks[t]? = some x)
    (ho : x.outcome? = none) (he : f.Effect t x g) : f.Serves n (.step t) g := by
  have hn := hp.placed t x hx
  have moved : ∀ {l : List Task} {p : Point} {y : Task}, f.DutiesKept n l → l[t]? = some y →
      y.point = x.point → x.point.dispatches = false → p.dispatches = false →
      g.tasks = l.modify t (fun x => { x with point := p, signal := none }) →
      NothingTold (f.node n) (g.node n) → f.Serves n (.step t) g := by
    intro l p y hl hy e hxd hpd tasks hnode
    refine .rests (tasks ▸ dutiesKept_modify hl fun z hz _ => ?_) hnode
    rw [hy] at hz
    cases hz
    exact ⟨e ▸ hxd, hpd⟩
  have told : ∀ s ts, ∃ y, (f.tasks.mapIdx (told s ts))[t]? = some y ∧ y.point = x.point ∧
      y.node = x.node :=
    fun s ts => ⟨_, getElem?_told hx, told_point ..⟩
  have behind : ∀ j q, (f.tasks ++ [(⟨j, q, none⟩ : Task)])[t]? = some x :=
    fun j q => getElem?_concat hx _
  -- A step of another task leaves the dispatcher be (`moved`), except that a node tells it what it
  -- is handed, and closes it when it is halted.
  cases he with
  | idle _ => exact .rests dutiesKept_refl (nothingTold_refl _)
  | still hfree hpf _ _ ha =>
    exact moved dutiesKept_refl hx rfl (Task.dispatches_of_isFree hfree)
      (Point.dispatches_of_isFree hpf) rfl (nothingTold_alike (ha.2 n))
  | draft hd _ _ _ _ =>
    exact moved dutiesKept_refl hx rfl (by rw [hd]; rfl) rfl rfl (nothingTold_refl _)
  | @append u p nodes _ hu hpt ha =>
    have offers : x.point.dispatches = false := by
      cases hpx : x.point with
      | submit st a v => rfl
      | commit v => rfl
      | _ =>
        rw [hpx] at hu
        cases hu
    have ends : p.dispatches = false := by
      rcases hpt with rfl | rfl
      · rfl
      · rfl
    exact moved dutiesKept_refl hx rfl offers ends rfl (nothingTold_alike (ha.2 n))
  | enqueue hq _ =>
    exact moved dutiesKept_refl hx rfl (by rw [hq]; rfl) rfl rfl
      (nothingTold_modify rfl fun _ => ⟨rfl, rfl, rfl, rfl, .inl rfl⟩)
  | start hs hst hpf _ _ =>
    exact serves_start ht hn hst hx (by rw [hs]; rfl) (Point.dispatches_of_isFree hpf)
      rfl rfl fun _ => ⟨rfl, rfl, rfl, rfl⟩
  | beginDelivery hfree _ _ _ hpf _ =>
    exact moved (dutiesKept_append (.inr rfl)) (behind _ _) rfl (Point.dispatches_of_isFree hfree)
      (Point.dispatches_of_isFree hpf) rfl (nothingTold_refl _)
  | detach hfree _ hpf _ =>
    exact moved dutiesKept_refl hx rfl (Point.dispatches_of_isFree hfree)
      (Point.dispatches_of_isFree hpf) rfl (nothingTold_refl _)
  | release hr hpf _ =>
    exact moved dutiesKept_refl hx rfl (by rw [hr]; rfl) (Point.dispatches_of_isFree hpf) rfl
      (nothingTold_modify rfl fun _ => ⟨rfl, rfl, rfl, rfl, .inr rfl⟩)
  | closeMark hc =>
    obtain ⟨y, hy, e, -⟩ := told .dropped ((f.node x.node).mark.fail .stopped).2
    exact moved (dutiesKept_told _ _) hy e (by rw [hc]; rfl) rfl rfl
      (nothingTold_modify rfl fun e => by subst e; exact ⟨rfl, rfl, rfl, rfl, .inl rfl⟩)
  | @hand d j y e _ u z hd hy hq hu hr hz =>
    by_cases e' : n = j
    · subst e'
      obtain ⟨i, k, c, w⟩ := ht.front hx ho hd hy hq hr
      refine serves_hand (z := z) ht hx ho hd hy hq hr ?_ ?_ rfl rfl (List.length_modify ..)
      · rw [handed, hu]
        exact hz
      · rw [node_modify (f := f) rfl w.reached.lt, if_pos rfl]
    · exact .rests dutiesKept_refl (nothingTold_elsewhere rfl e')
  | note _ _ _ _ => exact .rests dutiesKept_refl (nothingTold_refl _)
  | @halt d j _ _ _ err hd hy hq hr _ =>
    obtain ⟨y, hy, e, -⟩ := told .dropped ((f.node j).mark.fail err).2
    exact moved (dutiesKept_told _ _) hy e (by rw [hd]; rfl) rfl rfl
      (nothingTold_modify rfl fun e => by subst e; exact ⟨rfl, rfl, rfl, rfl, .inr rfl⟩)
  | haltRecorder hd _ _ _ =>
    exact moved dutiesKept_refl hx rfl (by rw [hd]; rfl) rfl rfl (nothingTold_refl _)
  | endDelivery hd _ =>
    exact moved dutiesKept_refl hx rfl (by rw [hd]; rfl) rfl rfl (nothingTold_refl _)
  | @takeNotice d notice l hd hdd hq =>
    refine serves_duty hx (by rw [hd]; rfl) dutiesKept_refl hx rfl rfl rfl
      (nothingTold_elsewhere rfl) ?_ ?_ fun d' hd' => ?_
    all_goals rw [node_modify (f := f) rfl hn, if_pos rfl]
    rw [hdd] at hd'
    cases hd'
    rw [hd]
    exact ⟨_, rfl, rfl, .take hq⟩
  | endDispatch hd closed =>
    refine serves_duty hx (by rw [hd]; rfl) dutiesKept_refl hx rfl rfl rfl
      (fun _ => nothingTold_refl _) rfl rfl fun d' hd' => ⟨d', hd', rfl, ?_⟩
    rw [hd]
    exact .quit (closed d' hd').1 (closed d' hd').2
  | call hd =>
    refine serves_duty hx (by rw [hd]; rfl) dutiesKept_refl hx rfl rfl rfl
      (fun _ => nothingTold_refl _) rfl rfl fun d' hd' => ⟨d', hd', rfl, ?_⟩
    rw [hd]
    exact .call
  | wait hd =>
    refine serves_duty hx (by rw [hd]; rfl) dutiesKept_refl hx rfl rfl rfl
      (fun _ => nothingTold_refl _) rfl rfl fun d' hd' => ⟨d', hd', rfl, ?_⟩
    rw [hd]
    exact .wait
  | @called event calls v rest _ hd ha =>
    have alike := ha.2 x.node
    refine serves_duty hx (by rw [hd]; rfl) dutiesKept_refl hx rfl rfl rfl
      (fun _ => nothingTold_alike (ha.2 n)) alike.history alike.started
      fun d' hd' => ⟨d', alike.dispatch.trans hd', rfl, ?_⟩
    have duty : ∀ {w}, w = (f.node x.node).mark →
        Duty x.point d' (f.node x.node).mark (.announce v rest) d' w := by
      rintro _ rfl
      rw [hd]
      exact .called
    exact duty alike.mark
  | @done v mark released hd hm =>
    obtain ⟨y, hy, -, hyn⟩ := told .released released
    refine serves_duty hx (by rw [hd]; rfl) (dutiesKept_told _ _) hy hyn (List.length_mapIdx ..)
      rfl (nothingTold_elsewhere rfl) ?_ ?_ fun d' hd' => ?_
    all_goals rw [node_modify (f := f) rfl hn, if_pos rfl]
    rw [hd]
    exact ⟨d', hd', rfl, .done hm⟩
  | overflow hd hm =>
    refine serves_duty hx (by rw [hd]; rfl) dutiesKept_refl hx rfl rfl rfl
      (nothingTold_elsewhere rfl) ?_ ?_ fun d' hd' => ?_
    all_goals rw [node_modify (f := f) rfl hn, if_pos rfl]
    rw [hd]
    exact ⟨d', hd', rfl, .overflow hm⟩

/-- What a move can do to the dispatcher of a node, unless it is a request that drives the watermark
of the node. -/
lemma serves_or_drives (hp : f.Plain) (ht : f.Tracks) (hc : f.Change m g) :
    f.Serves n m g ∨ f.Drives n m g := by
  -- Only requests mark versions or make the watermark fail from outside.
  cases hc with
  | step hx ho he => exact .inl (serves_of_effect hp ht hx ho he)
  | stuck _ => exact .inl (.rests dutiesKept_refl (nothingTold_refl _))
  | still _ ha => exact .inl (.rests dutiesKept_refl (nothingTold_alike (ha.2 n)))
  | turn => exact .inl (.rests dutiesKept_refl (nothingTold_refl _))
  | spawn _ hpf _ =>
    exact .inl (.rests (dutiesKept_append (.inr (Point.dispatches_of_isFree hpf)))
      (nothingTold_refl _))
  | register _ _ => exact .inl (.rests dutiesKept_refl (nothingTold_refl _))
  | join _ _ =>
    refine .inl (.rests dutiesKept_refl ?_)
    rw [node_addNode]
    split
    · rename_i e
      rw [e, node_of_le (Nat.le_refl _)]
      exact ⟨rfl, rfl, rfl, rfl, .inl rfl⟩
    · exact nothingTold_refl _
  | @markDone j _ _ _ _ hj hm =>
    by_cases e : n = j
    · subst e
      exact .inr (.done hm (dutiesKept_told _ _) (by rw [node_modify rfl hj, if_pos rfl]))
    · exact .inl (.rests (dutiesKept_told _ _) (nothingTold_elsewhere rfl e))
  | @overflow j _ _ _ _ hj hm =>
    by_cases e : n = j
    · subst e
      exact .inr (.done hm dutiesKept_refl (by rw [node_modify rfl hj, if_pos rfl]))
    · exact .inl (.rests dutiesKept_refl (nothingTold_elsewhere rfl e))
  | @failMark j _ _ hj =>
    by_cases e : n = j
    · subst e
      exact .inr (.fail (dutiesKept_told _ _) (by rw [node_modify rfl hj, if_pos rfl]))
    · exact .inl (.rests (dutiesKept_told _ _) (nothingTold_elsewhere rfl e))

/-- What a move can do to the dispatcher of a node whose versions nobody else marks. -/
theorem serves_of_change (hp : f.Plain) (ht : f.Tracks) (hm : m.sparesMarkOf n = true)
    (hc : f.Change m g) : f.Serves n m g := by
  rcases serves_or_drives hp ht hc with hs | hd
  · exact hs
  · cases hd with
    | done _ _ _ => simp [Move.sparesMarkOf] at hm
    | fail _ _ => simp [Move.sparesMarkOf] at hm

lemma Serves.congr {k : Fleet} (h : f.Serves n m k) (e : g.core = k.core) :
    f.Serves n m g := by
  obtain ⟨-, storage, -, -, -, nodes, tasks⟩ := core_inj e
  have node : g.node n = k.node n := node_congr nodes n
  have reached : ∀ {i}, k.Reached n i → g.Reached n i := fun hi =>
    hi.congr storage (Nat.le_of_eq (congrArg List.length nodes.symm)) (by rw [node]) (by rw [node])
  cases h with
  | rests hd hn => exact .rests (tasks ▸ hd) (node ▸ hn)
  | told hk hk' hz hy ht hands =>
    exact .told hk (reached hk') hz (node.trans hy) (tasks.trans ht) hands
  | begins hs hk old new hd mark =>
    exact .begins hs (reached hk) (tasks ▸ old) (tasks ▸ new) (node ▸ hd) (node ▸ mark)
  | serves hm hx hxn hxd hlen hy history started duty =>
    exact .serves hm hx hxn hxd (tasks ▸ hlen) (tasks ▸ hy) (node ▸ history) (node ▸ started)
      (node ▸ duty)

end

end Fleet

end SchemaCatalog
