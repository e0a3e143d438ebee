import SchemaCatalog.Proofs.Contest.Line
import SchemaCatalog.Proofs.Watermark.Listing

/-!
# A node on which statements contend

While statements contend on a node, only few things about it and the storage change, and they change
in step: what is stored, what the node was handed of it, which versions are done, and who waits for
the next one (`View`). The node, the delivery that feeds it and the tasks that serve it are the
same all the time (`Service`). Whatever other tasks do, the view stays as it is.
-/

namespace SchemaCatalog

/-- A node and its log, the delivery that the storage feeds to it, the task that hands this over,
the dispatcher of the node, and who listens to what. -/
structure Service where
  node : Nat
  log : Nat
  delivery : Nat
  hander : Nat
  dispatcher : Nat
  listeners : List (EventType × String)

/-- What is stored, how many updates of it the node was handed, how many versions are done, which
updates have still to be handed over and which notices to be taken up, where the dispatcher stands,
and who waits for the next version. -/
structure View where
  log : List Committed
  known : Nat
  done : Nat
  handing : List Stored
  notices : List Notice
  point : Point
  waiting : List Nat

namespace Service

/-- The node is as this view has it. -/
structure Agrees (c : Service) (s : View) (y : Node) : Prop where
  link : y.link = .shared c.log
  unhalted : y.mark.failure = none
  gapless : y.mark.done = []
  done : y.mark.doneUntil.number.val = s.done
  lists : y.mark.Lists (s.done + 1) s.waiting
  follows : y.history.Follows s.log s.known
  dispatch : y.dispatch = some ⟨s.notices, true, c.dispatcher⟩
  listeners : y.publisher.registrations = c.listeners

/-- The fleet is as this view has it. No listener to the node is at a gate. -/
structure Shows (c : Service) (f : Fleet) (s : View) : Prop where
  placed : c.node < f.nodes.length
  node : c.Agrees s (f.node c.node)
  sound : f.storage.Sound
  log : f.storage.log = s.log
  sink : f.sink = some c.delivery
  delivery : f.deliveries[c.delivery]? = some ⟨.node c.node, s.handing, true, c.hander⟩
  hander : ∃ x, f.tasks[c.hander]? = some x ∧ x.node = c.node ∧ x.point = .deliver c.delivery
  dispatcher : ∃ x, f.tasks[c.dispatcher]? = some x ∧ x.node = c.node ∧ x.point = s.point
  ungated : ∀ r ∈ c.listeners, (f.listener r.2).mode ≠ .gate

/-- The fleet is as this view has it, with some tasks set aside that do not serve the node. -/
structure Steady (c : Service) (aside : List Nat) (f : Fleet) (s : View) : Prop where
  shows : c.Shows f s
  calm : f.Calm aside
  hander : c.hander ∉ aside
  dispatcher : c.dispatcher ∉ aside
  distinct : c.hander ≠ c.dispatcher

/-- A task that is not set aside and does not serve the node. -/
structure Outside (c : Service) (aside : List Nat) (t : Nat) : Prop where
  aside : t ∉ aside
  hander : t ≠ c.hander
  dispatcher : t ≠ c.dispatcher

/-- In some turns, in which these answers are given, the fleet comes to be as this view has it, and
only these tasks have moved, apart from those who are set aside. -/
structure Comes (c : Service) (aside ts : List Nat) (f : Fleet) (as : List (Nat × Bool)) (g : Fleet)
    (s : View) : Prop where
  leads : f.RunsTo g as
  steady : c.Steady aside g s
  apart : f.Apart g aside ts

section

variable {c : Service} {aside ts us q : List Nat} {f g h : Fleet} {s s' : View}
  {as bs : List (Nat × Bool)} {t : Nat} {p : Point} {x : Task}

/-! ## What leaves the view as it is -/

lemma Shows.congr (hs : c.Shows f s) (nodes : g.nodes = f.nodes) (storage : g.storage = f.storage)
    (sink : g.sink = f.sink) (deliveries : g.deliveries = f.deliveries)
    (listeners : g.listeners = f.listeners)
    (hander : g.tasks[c.hander]? = f.tasks[c.hander]?)
    (dispatcher : g.tasks[c.dispatcher]? = f.tasks[c.dispatcher]?) : c.Shows g s where
  placed := nodes ▸ hs.placed
  node := by
    rw [Fleet.node_congr nodes]
    exact hs.node
  sound := storage ▸ hs.sound
  log := storage ▸ hs.log
  sink := sink ▸ hs.sink
  delivery := deliveries ▸ hs.delivery
  hander := by
    rw [hander]
    exact hs.hander
  dispatcher := by
    rw [dispatcher]
    exact hs.dispatcher
  ungated r hr := by
    rw [Fleet.listener, listeners]
    exact hs.ungated r hr

/-- Nobody who serves the node moves. -/
lemma Steady.apart (hs : c.Steady aside f s) (apart : f.Apart g aside ts) (calm : g.Calm aside)
    (nodes : g.nodes = f.nodes) (storage : g.storage = f.storage) (sink : g.sink = f.sink)
    (deliveries : g.deliveries = f.deliveries) (listeners : g.listeners = f.listeners)
    (hander : c.hander ∉ ts) (dispatcher : c.dispatcher ∉ ts) : c.Steady aside g s where
  shows := hs.shows.congr nodes storage sink deliveries listeners
    (apart.tasks _ hs.hander hander) (apart.tasks _ hs.dispatcher dispatcher)
  calm := calm
  hander := hs.hander
  dispatcher := hs.dispatcher
  distinct := hs.distinct

/-- Whoever is in line, the view is the same. -/
lemma Steady.ready (hs : c.Steady aside f s) (ready : List Nat) :
    c.Steady aside { f with ready } s :=
  hs.apart ((Fleet.Apart.refl f aside []).congr rfl) (hs.calm.congr rfl) rfl rfl rfl rfl rfl
    List.not_mem_nil List.not_mem_nil

lemma Steady.moveTo (hs : c.Steady aside f s) (ht : c.Outside aside t)
    (hp : Fleet.isTimed p = false) : c.Steady aside (f.moveTo t p) s :=
  hs.apart (Fleet.apart_moveTo ht.aside p) (hs.calm.moveTo ht.aside hp) (by simp) (by simp)
    (by simp) (by simp) (by simp) (fun mem => ht.hander (List.mem_singleton.1 mem).symm)
    fun mem => ht.dispatcher (List.mem_singleton.1 mem).symm

/-! ## Turns -/

lemma Comes.trans (hf : c.Comes aside ts f as g s) (hg : c.Comes aside ts g bs h s') :
    c.Comes aside ts f (as ++ bs) h s' :=
  ⟨hf.leads.trans hg.leads, hg.steady, hf.apart.trans hg.apart⟩

lemma Comes.mono (hf : c.Comes aside ts f as g s) (sub : ∀ t ∈ ts, t ∈ us) :
    c.Comes aside us f as g s :=
  ⟨hf.leads, hf.steady, hf.apart.mono sub⟩

/-- Nothing is offered at last. -/
lemma Comes.before (hf : c.Comes aside ts f as g s) (hg : c.Comes aside ts g [] h s') :
    c.Comes aside ts f as h s' :=
  ⟨hf.leads.before hg.leads, hg.steady, hf.apart.trans hg.apart⟩

/-- The first in line comes to the front. -/
lemma Steady.comes (hs : c.Steady aside f s) (hl : f.line aside = t :: q) :
    ∃ g, c.Comes aside [] f [] g s ∧ g.Ahead aside t q := by
  obtain ⟨g, leads, ahead, apart, same⟩ := hs.calm.comes hl
  refine ⟨g, ⟨leads, ?_, apart⟩, ahead⟩
  exact hs.apart apart (hs.calm.apart apart) (by rw [same]) (by rw [same]) (by rw [same])
    (by rw [same]) (by rw [same]) List.not_mem_nil List.not_mem_nil

/-- The task in front leaves the line when it can do nothing. -/
lemma Steady.leaves (hs : c.Steady aside f s) (ahead : f.Ahead aside t q)
    (stuck : f.step t = none) :
    ∃ g, c.Comes aside [] f [] g s ∧ g.line aside = q ∧ g.tasks = f.tasks := by
  obtain ⟨rest, leads, hq⟩ := ahead.leaves stuck
  exact ⟨_, ⟨leads, hs.ready rest, (Fleet.Apart.refl f aside []).congr rfl⟩, hq, rfl⟩

/-- The task in front moves, without making an offer. -/
lemma Steady.moves (hs : c.Steady aside f s) (ahead : f.Ahead aside t q) (ht : c.Outside aside t)
    (hx : f.tasks[t]? = some x) (silent : x.point.offer? = none)
    (step : f.step t = some (f.moveTo t p)) (hp : Fleet.isTimed p = false) :
    c.Comes aside [t] f [] (f.moveTo t p) s ∧ (f.moveTo t p).Ahead aside t q ∧
      (f.moveTo t p).tasks[t]? = some ⟨x.node, p, none⟩ :=
  ⟨⟨ahead.silent step hx silent, hs.moveTo ht hp, Fleet.apart_moveTo ht.aside p⟩,
    ahead.congr rfl, Fleet.getElem?_moveTo hx p⟩

end

end Service

end SchemaCatalog
