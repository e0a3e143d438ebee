import SchemaCatalog.Proofs.Contest.Service

/-!
# Offers

A statement in front drafts an update on the latest catalog of its node and offers it. The first one
gets it stored, which puts the task in line that hands updates over, and the others are refused
until the node was handed it. All of them then wait for the next version, in the order in which they
made their offers.
-/

namespace SchemaCatalog

/-- The statement asks for something, and what it yields on a catalog can be applied to it. -/
def Statement.Fruitful (st : Statement) (c : Catalog) : Prop :=
  st.isVacuous = false ∧ ∃ es d, st.entries c = .ok es ∧ es ≠ [] ∧ c.applyEntries es = .ok d

namespace Fleet

/-- The task in front. -/
def front? (f : Fleet) : Option Task := f.ready.head?.bind fun t => f.tasks[t]?

/-- A statement in front that is to be drafted is fruitful, and an update in front that is to be
offered fits. -/
structure Ripe (f : Fleet) : Prop where
  fruitful : ∀ (x : Task) (st : Statement) (a : Nat) (c : Catalog), f.front? = some x →
    x.point = .draft st a → (f.node x.node).history.latest = .ok c → st.Fruitful c
  fits : ∀ (x : Task) (u : Update), f.front? = some x → x.point.offer? = some u → u.Fits

/-- Whoever comes to the front is ripe. -/
def Ripens (f : Fleet) : Prop := ∀ m, (f.run m).Ripe

variable {f g : Fleet} {as : List (Nat × Bool)}

lemma Ripens.ripe (h : f.Ripens) : f.Ripe := h 0

lemma Ripens.later (h : f.Ripens) (leads : f.RunsTo g as) : g.Ripens := by
  obtain ⟨m, rfl, -⟩ := leads
  intro k
  rw [← run_add]
  exact h (m + k)

lemma Ahead.front {aside q : List Nat} {t : Nat} {x : Task} (h : f.Ahead aside t q)
    (hx : f.tasks[t]? = some x) : f.front? = some x := by
  obtain ⟨rest, e, -⟩ := h
  rw [front?, e]
  exact hx

end Fleet

namespace Service

section

variable {c : Service} {aside ts us q : List Nat} {f g h : Fleet} {s s' : View}
  {as bs : List (Nat × Bool)} {t a : Nat} {p : Point} {x : Task} {v : Version} {purpose : Purpose}
  {st : Statement} {u : Update} {cat : Catalog} {sig : Option Signal}

/-! ## Changes of the node -/

lemma Shows.onNode {k : Node → Node} (hs : c.Shows f s) (agrees : c.Agrees s' (k (f.node c.node)))
    (log : s'.log = s.log) (handing : s'.handing = s.handing) (point : s'.point = s.point) :
    c.Shows (f.onNode c.node k) s' where
  placed := by simpa using hs.placed
  node := by
    rw [Fleet.node_modify (f := f) (k := k) (by simp) hs.placed, if_pos rfl]
    exact agrees
  sound := hs.sound
  log := hs.log.trans log.symm
  sink := hs.sink
  delivery := handing ▸ hs.delivery
  hander := hs.hander
  dispatcher := point ▸ hs.dispatcher
  ungated := hs.ungated

lemma Steady.onNode {k : Node → Node} (hs : c.Steady aside f s)
    (agrees : c.Agrees s' (k (f.node c.node))) (log : s'.log = s.log)
    (handing : s'.handing = s.handing) (point : s'.point = s.point) :
    c.Steady aside (f.onNode c.node k) s' :=
  ⟨hs.shows.onNode agrees log handing point, hs.calm.congr rfl, hs.hander, hs.dispatcher,
    hs.distinct⟩

/-- The latest catalog of the node is the snapshot of what it was handed. -/
lemma Shows.latest (hs : c.Shows f s) :
    (f.node c.node).history.latest = snapshot s.log s.known :=
  hs.node.follows.latest (hs.log ▸ hs.sound.numbered)

/-! ## Waiting -/

/-- Who has to wait for the next version does so behind the others. -/
lemma Steady.waits (hs : c.Steady aside f s) (ahead : f.Ahead aside t q) (ht : c.Outside aside t)
    (hx : f.tasks[t]? = some ⟨c.node, .await v purpose, sig⟩) (hv : v.number.val = s.done + 1) :
    ∃ g, c.Comes aside [t] f [] g { s with waiting := s.waiting ++ [t] } ∧ g.line aside = q ∧
      g.tasks[t]? = some ⟨c.node, .awaiting v purpose, none⟩ := by
  have reply : (f.node c.node).mark.reply v = .wait := by
    rw [Watermark.reply, if_neg, hs.shows.node.unhalted]
    rw [Version.le_def, hv, hs.shows.node.done]
    omega
  have step : f.step t = some ((f.onNode c.node fun y =>
      { y with mark := y.mark.enqueue v t }).moveTo t (.awaiting v purpose)) := by
    simp only [Fleet.step, hx, Fleet.stepAwait, reply]
  have agrees : c.Agrees { s with waiting := s.waiting ++ [t] }
      { f.node c.node with mark := (f.node c.node).mark.enqueue v t } := by
    have node := hs.shows.node
    exact { node with lists := hv ▸ Watermark.Lists.enqueue (hv ▸ node.lists) t }
  have steady := (hs.onNode (k := fun y => { y with mark := y.mark.enqueue v t }) agrees rfl rfl
    rfl).moveTo ht (p := .awaiting v purpose) rfl
  have task := Fleet.getElem?_moveTo (k := f.onNode c.node fun y =>
    { y with mark := y.mark.enqueue v t }) hx (.awaiting v purpose)
  have stuck : ((f.onNode c.node fun y =>
      { y with mark := y.mark.enqueue v t }).moveTo t (.awaiting v purpose)).step t = none := by
    simp only [Fleet.step, task, Fleet.stepAwaiting]
  obtain ⟨g, comes, line, same⟩ := steady.leaves (ahead.congr rfl) stuck
  refine ⟨g, ?_, line, same ▸ task⟩
  have first : c.Comes aside [t] f [] _ _ :=
    ⟨ahead.silent step hx rfl, steady, (Fleet.apart_moveTo ht.aside _).congr rfl⟩
  exact first.before (comes.mono (List.forall_mem_nil _))

/-! ## Drafting -/

/-- A statement in front is drafted on the latest catalog. -/
lemma Steady.drafts (hs : c.Steady aside f s) (ahead : f.Ahead aside t q) (ht : c.Outside aside t)
    (ripe : f.Ripe) (hx : f.tasks[t]? = some ⟨c.node, .draft st a, sig⟩)
    (latest : snapshot s.log s.known = .ok cat)
    (room : s.known + 1 < 18_446_744_073_709_551_616) :
    ∃ g u, c.Comes aside [t] f [] g s ∧ g.Ahead aside t q ∧
      g.tasks[t]? = some ⟨c.node, .submit st a u, none⟩ ∧ u.version.number.val = s.known + 1 ∧
      st.entries cat = .ok u.entries ∧ ∃ d, cat.applyEntries u.entries = .ok d := by
  have found : (f.node c.node).history.latest = .ok cat := hs.shows.latest.trans latest
  obtain ⟨substantial, es, d, entries, some, applied⟩ :=
    ripe.fruitful _ st a cat (ahead.front hx) rfl found
  have version : cat.version.number.val = s.known :=
    snapshot_version (hs.shows.log ▸ hs.shows.sound.numbered) hs.shows.node.follows.le latest
  obtain ⟨v, next, hv⟩ : ∃ v, cat.version.next? = Option.some v ∧ v.number.val = s.known + 1 := by
    have lt : cat.version.number.val + 1 < 18_446_744_073_709_551_616 := by omega
    refine ⟨⟨⟨_, lt⟩⟩, ?_, by simp [version]⟩
    simp only [Version.next?, Word64.ofNat?, dif_pos lt, Option.map_some]
  have step : f.step t = Option.some (f.moveTo t (.submit st a
      ⟨v, Duration.ofMillis (f.node c.node).delay, es⟩)) := by
    simp only [Fleet.step, hx, Fleet.stepDraft, found, substantial, Bool.false_eq_true, if_false,
      entries, next]
  obtain ⟨comes, ahead, task⟩ := hs.moves ahead ht hx rfl step rfl
  exact ⟨_, _, comes, ahead, task, hv, entries, d, applied⟩

/-! ## Offering -/

lemma Shows.append (hs : c.Shows f s) (u : Update) : f.appendLink c.node u = .ok (f.commit u) := by
  rw [Fleet.appendLink, Fleet.linkFault, hs.node.link]
  rfl

/-- The storage takes the next update, and the task that hands updates over is woken. -/
lemma Steady.stores (hs : c.Steady aside f s) (ahead : f.Ahead aside t q)
    (acc : f.storage.accepts u) (fits : u.Fits) (front : c.hander ≠ t) (absent : c.hander ∉ q) :
    ∃ g e, f.commit u = (g, true) ∧ e.update = u ∧
      c.Steady aside g { s with log := s.log ++ [e], handing := s.handing ++ [e.stored] } ∧
      g.Ahead aside t (q ++ [c.hander]) ∧ g.tasks = f.tasks := by
  have live : f.outcome? c.hander = none := by
    obtain ⟨x, hx, -, hp⟩ := hs.shows.hander
    simp only [Fleet.outcome?, hx, Option.bind_some, Task.outcome?, hp]
  let e : Committed := ⟨u, f.clock.tick.current⟩
  let j : Fleet := { f with storage := f.storage.append u f.clock.tick.current acc }
  let k : Fleet := j.setClock f.clock.tick
  let g : Fleet := { k with
    deliveries := k.deliveries.modify c.delivery fun y =>
      { y with queue := y.queue ++ [e.stored] } }
  -- The delivery of the node is attached and its task is alive, so it is fed and woken.
  have fed : k.feed e.stored = g.wake c.hander := by
    have sink : k.sink = some c.delivery := by simpa [k, j] using hs.shows.sink
    have delivery : k.deliveries[c.delivery]? = some ⟨.node c.node, s.handing, true, c.hander⟩ := by
      simpa [k, j] using hs.shows.delivery
    have live : (k.outcome? c.hander).isSome = false := by
      have same : k.outcome? c.hander = f.outcome? c.hander := by simp [k, j, Fleet.outcome?]
      rw [same, live]
      rfl
    simp only [Fleet.feed, sink, delivery, live, Bool.false_eq_true, if_false, g]
  have commit : f.commit u = (g.wake c.hander, true) := by
    rw [← fed]
    exact dif_pos acc
  have calm : j.Calm aside := hs.calm.congr rfl
  have ahead : g.Ahead aside t q := (calm.setClock (ahead.congr rfl) f.clock.tick).congr rfl
  refine ⟨_, e, commit, rfl,
    ⟨?_, hs.calm.congr (by simp [g, k, j]), hs.hander, hs.dispatcher, hs.distinct⟩,
    ahead.wake hs.hander front absent, by simp [g, k, j]⟩
  -- What the node shows is as it was, but for the update stored and left to be handed over.
  have log := Storage.log_append f.storage f.clock.tick.current acc fits
  have node := hs.shows.node
  have storage : (g.wake c.hander).storage = f.storage.append u f.clock.tick.current acc := by
    simp [g, k, j]
  have nodes : (g.wake c.hander).node c.node = f.node c.node :=
    Fleet.node_congr (by simp [g, k, j]) _
  constructor
  case placed => simpa [g, k, j] using hs.shows.placed
  case node =>
    rw [nodes]
    exact { node with follows := node.follows.grow (List.prefix_append ..) }
  case sound =>
    rw [storage]
    exact hs.shows.sound.append _ acc fits
  case log => rw [storage, log, hs.shows.log]
  case sink => simpa [g, k, j] using hs.shows.sink
  case delivery => simp [g, k, j, hs.shows.delivery]
  case hander => simpa [g, k, j] using hs.shows.hander
  case dispatcher => simpa [g, k, j] using hs.shows.dispatcher
  case ungated =>
    intro r hr
    have listener : (g.wake c.hander).listener r.2 = f.listener r.2 := by
      simp [Fleet.listener, g, k, j]
    rw [listener]
    exact hs.shows.ungated r hr

/-- Where the node was handed all that is stored, the statement in front gets its update stored. -/
lemma Steady.wins (hs : c.Steady aside f s) (ahead : f.Ahead aside t q) (ht : c.Outside aside t)
    (ripens : f.Ripens) (hx : f.tasks[t]? = some ⟨c.node, .draft st a, sig⟩)
    (latest : snapshot s.log s.known = .ok cat) (all : s.known = s.log.length)
    (done : s.done = s.known) (room : s.known + 1 < 18_446_744_073_709_551_616)
    (absent : c.hander ∉ q) :
    ∃ g e, c.Comes aside [t] f [(t, true)] g { s with
        log := s.log ++ [e], handing := s.handing ++ [e.stored], waiting := s.waiting ++ [t] } ∧
      g.line aside = q ++ [c.hander] ∧
      g.tasks[t]? = some ⟨c.node, .awaiting e.update.version .saved, none⟩ ∧
      e.update.version.number.val = s.known + 1 ∧ st.entries cat = .ok e.update.entries ∧
      ∃ d, cat.applyEntries e.update.entries = .ok d := by
  obtain ⟨g₁, u, drafts, ahead, task, version, entries, applied⟩ :=
    hs.drafts ahead ht ripens.ripe hx latest room
  have steady := drafts.steady
  have acc : g₁.storage.accepts u := by
    rw [Storage.accepts, version, ← steady.shows.sound.length, steady.shows.log, all]
  have fits : u.Fits := (ripens.later drafts.leads).ripe.fits _ u (ahead.front task) rfl
  obtain ⟨g₂, e, commit, rfl, steady', ahead', same⟩ :=
    steady.stores ahead acc fits ht.hander.symm absent
  have task' := same ▸ task
  have step : g₁.step t = some (g₂.moveTo t (.await e.update.version .saved)) := by
    simp only [Fleet.step, task, Fleet.stepSubmit, steady.shows.append, commit]
  have moved := Fleet.getElem?_moveTo task' (.await e.update.version .saved)
  have offers : c.Comes aside [t] g₁ [(t, true)] (g₂.moveTo t (.await e.update.version .saved)) _ :=
    ⟨ahead.answered step task moved rfl, steady'.moveTo ht rfl,
      ((Fleet.Apart.refl g₁ aside [t]).congr same).trans (Fleet.apart_moveTo ht.aside _)⟩
  obtain ⟨g₃, waits, line, task₃⟩ := offers.steady.waits (ahead'.congr rfl) ht moved
    (version.trans (by rw [done]))
  exact ⟨g₃, e, drafts.trans (offers.before waits), line, task₃, version, entries, applied⟩

/-- Where one update is stored that the node was not handed yet, the statement in front is
refused. -/
lemma Steady.loses (hs : c.Steady aside f s) (ahead : f.Ahead aside t q) (ht : c.Outside aside t)
    (ripens : f.Ripens) (hx : f.tasks[t]? = some ⟨c.node, .draft st a, sig⟩)
    (latest : snapshot s.log s.known = .ok cat) (all : s.known + 1 = s.log.length)
    (done : s.done = s.known) (room : s.known + 1 < 18_446_744_073_709_551_616) :
    ∃ g v, c.Comes aside [t] f [(t, false)] g { s with waiting := s.waiting ++ [t] } ∧
      g.line aside = q ∧ g.tasks[t]? = some ⟨c.node, .awaiting v (.retry st a), none⟩ := by
  obtain ⟨g₁, u, drafts, ahead, task, version, -, -⟩ :=
    hs.drafts ahead ht ripens.ripe hx latest room
  have steady := drafts.steady
  have acc : ¬ g₁.storage.accepts u := by
    rw [Storage.accepts, version, ← steady.shows.sound.length, steady.shows.log, ← all]
    omega
  have step : g₁.step t = some (g₁.moveTo t (.review st a)) := by
    simp only [Fleet.step, task, Fleet.stepSubmit, steady.shows.append,
      Fleet.commit_of_not_accepts acc]
  have reviewed := Fleet.getElem?_moveTo task (.review st a)
  have offers : c.Comes aside [t] g₁ [(t, false)] (g₁.moveTo t (.review st a)) s :=
    ⟨ahead.answered step task reviewed rfl, steady.moveTo ht rfl, Fleet.apart_moveTo ht.aside _⟩
  have link : ((g₁.moveTo t (.review st a)).node c.node).link.log? = some c.log :=
    congrArg Link.log? offers.steady.shows.node.link
  have committed : (g₁.moveTo t (.review st a)).committedOf c.node =
      .ok (g₁.moveTo t (.review st a)).storage.committed :=
    Fleet.committedOf_of_log link
  have step' : (g₁.moveTo t (.review st a)).step t = some ((g₁.moveTo t (.review st a)).moveTo t
      (.await (g₁.moveTo t (.review st a)).storage.committed (.retry st a))) := by
    simp only [Fleet.step, reviewed, Fleet.stepReview, committed]
  obtain ⟨reviews, ahead₂, task₂⟩ := offers.steady.moves (ahead.congr rfl) ht reviewed rfl step' rfl
  obtain ⟨g₃, waits, line, task₃⟩ := reviews.steady.waits ahead₂ ht task₂ (by
    rw [offers.steady.shows.sound.committed, offers.steady.shows.log, done, all])
  exact ⟨g₃, _, drafts.trans (offers.before (reviews.trans waits)), line, task₃⟩

end

end Service

end SchemaCatalog
