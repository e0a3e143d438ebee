import SchemaCatalog.Proofs.Contest.Offers
import SchemaCatalog.Proofs.Publishing.Answers

/-!
# What is stored is done

Once an update is stored the node is handed it, its dispatcher calls the listeners, none of whom is
at a gate, and the version is done. So whoever waited for it is in line again, in the order in which
they began to wait (`Service.Steady.settles`).
-/

namespace SchemaCatalog

namespace Fleet

section

variable {f g : Fleet} {t n : Nat} {event : Event} {name : String} {names : List String}

/-! ## Calls to listeners that are not at a gate -/

/-- Two fleets that differ in calls to listeners at most, of whom none has come to a gate. -/
structure Called (f g : Fleet) : Prop where
  core : g.core = f.core
  ready : g.ready = f.ready
  ungated : ∀ name, (f.listener name).mode ≠ .gate → (g.listener name).mode ≠ .gate

lemma Called.refl (f : Fleet) : f.Called f := ⟨rfl, rfl, fun _ => id⟩

lemma Called.trans {h : Fleet} (hf : f.Called g) (hg : g.Called h) : f.Called h :=
  ⟨hg.core.trans hf.core, hg.ready.trans hf.ready,
    fun name hn => hg.ungated name (hf.ungated name hn)⟩

lemma beginCall_ungated (h : (f.listener name).mode ≠ .gate) (t : Nat) (event : Event) :
    ∃ g r, f.beginCall t event name = (g, some r) ∧ f.Called g := by
  obtain ⟨r, m, act, ungated⟩ := Mode.act_ungated h
  let k : Fleet := { f with calls := f.calls ++ [⟨t, name, event⟩] }
  have same : k.listener = f.listener := rfl
  refine ⟨k.setListener name { f.listener name with mode := m }, r, ?_, ?_, ?_, fun name' hn => ?_⟩
  · rw [beginCall, attemptCall, same]
    simp only [act]
    rfl
  · exact core_setListener ..
  · unfold setListener
    split <;> rfl
  · rw [listener_setListener, same]
    split
    · exact ungated
    · exact hn

lemma beginCalls_ungated (h : ∀ name ∈ names, (f.listener name).mode ≠ .gate) (t : Nat)
    (event : Event) :
    ∃ g calls, f.beginCalls t event names = (g, calls) ∧ f.Called g ∧
      ∀ c ∈ calls, c.result.isSome := by
  induction names generalizing f with
  | nil => exact ⟨f, [], rfl, .refl f, List.forall_mem_nil _⟩
  | cons name names ih =>
    obtain ⟨g, r, begun, called⟩ := beginCall_ungated (h name List.mem_cons_self) t event
    obtain ⟨k, calls, begun', called', all⟩ := ih (f := g) fun name' hn =>
      called.ungated name' (h name' (List.mem_cons_of_mem _ hn))
    refine ⟨k, ⟨name, some r⟩ :: calls, ?_, called.trans called', ?_⟩
    · simp only [beginCalls, begun, begun']
    · rintro c (_ | ⟨_, hc⟩)
      · rfl
      · exact all c hc

end

end Fleet

namespace Service

section

variable {c : Service} {aside q : List Nat} {f g k : Fleet} {s s' : View} {p : Point}
  {e : Committed} {d : Catalog} {z : Notice} {zs : List Notice} {v : Version} {event : Event}
  {events rest : List Event}

/-! ## The next update is handed over -/

/-- A dispatcher that waits for a notice is woken. -/
lemma Shows.wakeDispatcher (hs : c.Shows f s) (point : s.point = .dispatch) :
    f.wakeDispatcher c.node = f.wake c.dispatcher := by
  obtain ⟨y, hy, -, hyp⟩ := hs.dispatcher
  have awaits : f.awaitsNotice c.dispatcher = true := by
    simp [Fleet.awaitsNotice, hy, hyp, point]
  simp only [Fleet.wakeDispatcher, hs.node.dispatch, awaits, if_true]

/-- The node takes the next update, and its dispatcher the notice of it. -/
lemma Agrees.handle {y : Node} (hy : c.Agrees s y) (numbered : Numbered s.log)
    (log : s.log[s.known]? = some e) (next : snapshot s.log (s.known + 1) = .ok d) :
    ∃ w, y.handle e.update e.commit ⟨e.update.version.number⟩ = .ok w ∧ c.Agrees { s with
      known := s.known + 1,
      notices := s.notices ++ [⟨e.update.version, e.update.events ⟨e.update.version.number⟩⟩] }
      w := by
  obtain ⟨lt, -⟩ := List.getElem?_eq_some_iff.1 log
  let z : Notice := ⟨e.update.version, e.update.events ⟨e.update.version.number⟩⟩
  refine ⟨{ y with
    history := y.history.register d
    dispatch := some ⟨s.notices ++ [z], true, c.dispatcher⟩ }, ?_,
    { hy with follows := hy.follows.register lt next, dispatch := rfl }⟩
  rw [Node.handle, hy.follows.handle_next numbered log, next]
  simp only [Except.map, Node.notify, hy.dispatch, if_true]
  rfl

/-- The node is handed the update that is left, and its dispatcher comes in line. -/
lemma Steady.hands (hs : c.Steady aside f s) (hl : f.line aside = [c.hander])
    (handing : s.handing = [e.stored]) (point : s.point = .dispatch)
    (log : s.log[s.known]? = some e) (next : snapshot s.log (s.known + 1) = .ok d) :
    ∃ g, c.Comes aside [] f [] g { s with
        known := s.known + 1, handing := [],
        notices := s.notices ++ [⟨e.update.version, e.update.events ⟨e.update.version.number⟩⟩] } ∧
      g.line aside = [c.dispatcher] := by
  obtain ⟨g₁, comes, ahead⟩ := hs.comes hl
  have shows := comes.steady.shows
  obtain ⟨x, hx, -, hp⟩ := shows.hander
  have numbered : Numbered s.log := shows.log ▸ shows.sound.numbered
  have fits : e.update.Fits := shows.sound.fits e (shows.log ▸ List.mem_of_getElem? log)
  obtain ⟨w, handled, agrees⟩ := shows.node.handle numbered log next
  -- The update is taken from the delivery, and then handled by the node.
  let k : Fleet := { g₁ with
    deliveries := g₁.deliveries.modify c.delivery fun y => { y with queue := [] } }
  let j : Fleet := k.onNode c.node fun _ => w
  have taken : c.Shows k { s with handing := [] } :=
    ⟨shows.placed, { shows.node with }, shows.sound, shows.log, shows.sink,
      by simp [k, shows.delivery], shows.hander, shows.dispatcher, shows.ungated⟩
  have agrees' : c.Agrees { s with
      known := s.known + 1, handing := [],
      notices := s.notices ++ [⟨e.update.version, e.update.events ⟨e.update.version.number⟩⟩] }
      w := { agrees with }
  have handed : c.Shows j _ := taken.onNode (k := fun _ => w) agrees' rfl rfl rfl
  have steady : c.Steady aside (j.wake c.dispatcher) _ :=
    Steady.apart (f := j)
      ⟨handed, comes.steady.calm.congr rfl, hs.hander, hs.dispatcher, hs.distinct⟩
      ((Fleet.Apart.refl j aside []).congr (by simp)) (comes.steady.calm.congr (by simp [j, k]))
      (by simp) (by simp) (by simp) (by simp) (by simp) List.not_mem_nil List.not_mem_nil
  have step : g₁.step c.hander = some (j.wake c.dispatcher) := by
    rw [← handed.wakeDispatcher point]
    have given : k.handle (.node c.node) e.update e.stored.commit e.stored.token =
        .ok (j.wakeDispatcher c.node) := by
      have same : k.node c.node = g₁.node c.node := rfl
      rw [Fleet.handle, same]
      simp only [show (g₁.node c.node).handle e.update e.stored.commit e.stored.token = .ok w from
        handled]
      rfl
    simp only [Fleet.step, hx, hp, Fleet.stepDeliver, shows.delivery, handing,
      Committed.decode_stored fits]
    rw [show Fleet.handle _ (.node c.node) e.update e.stored.commit e.stored.token = _ from given]
  have ahead' : (j.wake c.dispatcher).Ahead aside c.hander [c.dispatcher] :=
    (ahead.congr (g := j) rfl).wake hs.dispatcher hs.distinct.symm List.not_mem_nil
  -- Nothing else is left of the delivery, so its task leaves the line.
  have stuck : (j.wake c.dispatcher).step c.hander = none := by
    have task : (j.wake c.dispatcher).tasks[c.hander]? = some x := by simpa [j, k] using hx
    exact (Fleet.stuck_deliver_iff task hp).2 ⟨_, steady.shows.delivery, rfl, rfl⟩
  obtain ⟨g₂, leaves, line, -⟩ := steady.leaves ahead' stuck
  have hands : c.Comes aside [] g₁ [] (j.wake c.dispatcher) _ :=
    ⟨ahead.silent step hx (by rw [hp]; rfl), steady,
      (Fleet.Apart.refl g₁ aside []).congr (by simp [j, k])⟩
  exact ⟨g₂, comes.trans (hands.trans leaves), line⟩

/-! ## The dispatcher serves -/

/-- No listener comes to a gate by being called. -/
lemma Shows.called (hs : c.Shows f s) (called : f.Called g) : c.Shows g s := by
  obtain ⟨-, storage, sink, -, deliveries, nodes, tasks⟩ := Fleet.core_inj called.core
  constructor
  case placed => exact nodes ▸ hs.placed
  case node =>
    rw [Fleet.node_congr nodes]
    exact hs.node
  case sound => exact storage ▸ hs.sound
  case log => exact storage ▸ hs.log
  case sink => exact sink ▸ hs.sink
  case delivery => exact deliveries ▸ hs.delivery
  case hander => exact tasks ▸ hs.hander
  case dispatcher => exact tasks ▸ hs.dispatcher
  case ungated => exact fun r hr => called.ungated r.2 (hs.ungated r hr)

/-- The dispatcher moves. -/
lemma Steady.serves (hs : c.Steady aside f s) (hp : Fleet.isTimed p = false) :
    c.Steady aside (f.moveTo c.dispatcher p) { s with point := p } := by
  refine ⟨?_, hs.calm.moveTo hs.dispatcher hp, hs.hander, hs.dispatcher, hs.distinct⟩
  obtain ⟨x, hx, node, -⟩ := hs.shows.dispatcher
  have same : (f.moveTo c.dispatcher p).tasks[c.hander]? = f.tasks[c.hander]? := by
    simp only [Fleet.moveTo_fields, List.getElem?_modify_ne _ _ hs.distinct.symm]
  exact { hs.shows with
    node := { hs.shows.node with }
    hander := by
      rw [same]
      exact hs.shows.hander
    dispatcher := ⟨_, Fleet.getElem?_moveTo hx p, node, rfl⟩ }

/-- The dispatcher in front does something and moves. -/
lemma Steady.acts (hs : c.Steady aside f s) (ahead : f.Ahead aside c.dispatcher q)
    (silent : s.point.offer? = none) (hk : c.Steady aside k s') (tasks : k.tasks = f.tasks)
    (ready : k.ready = f.ready) (hp : Fleet.isTimed p = false)
    (step : ∀ x, f.tasks[c.dispatcher]? = some x → x.node = c.node → x.point = s.point →
      f.step c.dispatcher = some (k.moveTo c.dispatcher p)) :
    ∃ g, c.Comes aside [c.dispatcher] f [] g { s' with point := p } ∧
      g.Ahead aside c.dispatcher q := by
  obtain ⟨x, hx, node, point⟩ := hs.shows.dispatcher
  exact ⟨_, ⟨ahead.silent (step x hx node point) hx (point ▸ silent), hk.serves hp,
    ((Fleet.Apart.refl f aside _).congr tasks).trans (Fleet.apart_moveTo hs.dispatcher p)⟩,
    ahead.congr ready⟩

/-- The dispatcher takes up the next notice. -/
lemma Steady.takes (hs : c.Steady aside f s) (ahead : f.Ahead aside c.dispatcher q)
    (point : s.point = .dispatch) (notices : s.notices = z :: zs) :
    ∃ g, c.Comes aside [c.dispatcher] f [] g
        { s with notices := zs, point := .announce z.version z.events } ∧
      g.Ahead aside c.dispatcher q := by
  let t : Node → Node := fun y => { y with dispatch := some ⟨zs, true, c.dispatcher⟩ }
  have node := hs.shows.node
  have agrees : c.Agrees { s with notices := zs } (t (f.node c.node)) :=
    { node with dispatch := rfl }
  refine hs.acts (k := f.onNode c.node t) ahead (by rw [point]; rfl) (hs.onNode agrees rfl rfl rfl)
    rfl rfl rfl fun x hx hn hp => ?_
  simp only [Fleet.step, hx, hn, hp, point, Fleet.stepDispatch, node.dispatch, notices]
  rfl

/-- The dispatcher publishes the next event to listeners none of whom is at a gate. -/
lemma Steady.publishes (hs : c.Steady aside f s) (ahead : f.Ahead aside c.dispatcher q)
    (point : s.point = .announce v (event :: rest)) :
    ∃ g, c.Comes aside [c.dispatcher] f [] g { s with point := .announce v rest } ∧
      g.Ahead aside c.dispatcher q := by
  -- No listener to the event is at a gate, so that all calls are answered at once.
  have ungated : ∀ name ∈ (f.node c.node).publisher.listenersOf event.eventType,
      (f.listener name).mode ≠ .gate := by
    intro name mem
    obtain ⟨r, hr, rfl⟩ := List.mem_map.1 mem
    refine hs.shows.ungated r ?_
    rw [← hs.shows.node.listeners]
    exact (List.mem_filter.1 hr).1
  obtain ⟨k, calls, begun, called, ended⟩ :=
    Fleet.beginCalls_ungated ungated c.dispatcher event
  have tasks := (Fleet.core_inj called.core).2.2.2.2.2.2
  have steady : c.Steady aside k s :=
    ⟨hs.shows.called called, hs.calm.congr tasks, hs.hander, hs.dispatcher, hs.distinct⟩
  obtain ⟨g, begins, ahead⟩ := hs.acts (p := .gather event calls (.dispatch v rest)) ahead
    (by rw [point]; rfl) steady tasks called.ready rfl fun x hx hn hp => by
      simp only [Fleet.step, hx, hn, hp, point, Fleet.stepAnnounce, Fleet.publish, begun]
  -- In its next turn the dispatcher gathers the answers, and goes on.
  have node := begins.steady.shows.node
  let t : Node → Node := fun y =>
    { y with publisher := (Fleet.failedCalls event calls).foldl Publisher.record y.publisher }
  have agrees : c.Agrees { s with point := .gather event calls (.dispatch v rest) }
      (t (g.node c.node)) :=
    { node with listeners := (Fleet.registrations_record ..).trans node.listeners }
  obtain ⟨h, ends, ahead⟩ := begins.steady.acts (k := g.onNode c.node t) (p := .announce v rest)
    ahead rfl (begins.steady.onNode agrees rfl rfl rfl) rfl rfl rfl fun x hx hn hp => by
      have free : g.heldUp c.dispatcher calls = false := by
        rw [Fleet.heldUp, Bool.and_eq_false_iff]
        left
        rw [List.any_eq_false]
        intro call mem
        simp [Option.isSome_iff_ne_none.1 (ended call mem)]
      have all : (calls.all fun call => call.result.isSome) = true := List.all_eq_true.2 ended
      simp only [Fleet.step, hx, hn, hp, Fleet.stepGather, free, Bool.false_eq_true, if_false,
        Fleet.resumeCalls_ended ended, all, if_true]
      rfl
  exact ⟨h, begins.before ends, ahead⟩

/-- The dispatcher publishes all events of a version. -/
lemma Steady.announces (hs : c.Steady aside f s) (ahead : f.Ahead aside c.dispatcher q)
    (point : s.point = .announce v events) :
    ∃ g, c.Comes aside [c.dispatcher] f [] g { s with point := .announce v [] } ∧
      g.Ahead aside c.dispatcher q := by
  induction events generalizing f s with
  | nil =>
    have same : { s with point := .announce v [] } = s := by rw [← point]
    rw [same]
    exact ⟨f, ⟨.refl f, hs, .refl ..⟩, ahead⟩
  | cons event rest ih =>
    obtain ⟨g, publishes, ahead⟩ := hs.publishes ahead point
    obtain ⟨h, announces, ahead⟩ := ih publishes.steady ahead rfl
    exact ⟨h, publishes.before announces, ahead⟩

/-- The version is done, and whoever waited for it comes in line. -/
lemma Steady.releases (hs : c.Steady aside f s) (front : f.Ahead aside c.dispatcher [])
    (point : s.point = .announce v []) (hv : v.number.val = s.done + 1)
    (room : s.done + 2 < 18_446_744_073_709_551_616) (outside : ∀ u ∈ s.waiting, c.Outside aside u)
    (nodup : s.waiting.Nodup) :
    ∃ g, c.Comes aside (c.dispatcher :: s.waiting) f [] g
        { s with done := s.done + 1, point := .dispatch, waiting := [] } ∧
      g.Ahead aside c.dispatcher s.waiting ∧ ∀ u ∈ s.waiting, ∀ x, f.tasks[u]? = some x →
        g.tasks[u]? = some { x with signal := some .released } := by
  have node := hs.shows.node
  have next : v.number.val = (f.node c.node).mark.doneUntil.number.val + 1 := by rw [node.done, hv]
  obtain ⟨w, finished, done, gapless, failure, lists⟩ :=
    (hv ▸ node.lists : (f.node c.node).mark.Lists v.number.val s.waiting).finish node.gapless next
      (node.done ▸ room)
  let t : Node → Node := fun y => { y with mark := w }
  let j : Fleet := f.onNode c.node t
  let k : Fleet := j.tell .released s.waiting
  have agrees : c.Agrees { s with done := s.done + 1, waiting := [] } (t (f.node c.node)) :=
    { node with
      unhalted := failure.trans node.unhalted
      gapless := gapless
      done := (congrArg (fun v : Version => v.number.val) done).trans hv
      lists := hv ▸ lists }
  have marked : c.Steady aside j { s with done := s.done + 1, waiting := [] } :=
    hs.onNode agrees rfl rfl rfl
  -- Nobody differs but those who waited, all of whom are in line behind the dispatcher now.
  have apart : j.Apart k aside s.waiting := Fleet.apart_tell fun u mem => (outside u mem).aside
  have steady : c.Steady aside k { s with done := s.done + 1, waiting := [] } :=
    marked.apart apart (marked.calm.tell fun u mem => (outside u mem).aside) (by simp [k])
      (by simp [k]) (by simp [k]) (by simp [k]) (by simp [k])
      (fun mem => (outside _ mem).hander rfl) fun mem => (outside _ mem).dispatcher rfl
  have ahead : k.Ahead aside c.dispatcher ([] ++ s.waiting) :=
    Fleet.Ahead.tell (front.congr rfl) (fun u mem => ⟨(outside u mem).aside,
      (outside u mem).dispatcher, List.not_mem_nil⟩) nodup
  obtain ⟨x, hx, hn, hp⟩ := hs.shows.dispatcher
  have step : f.step c.dispatcher = some (k.moveTo c.dispatcher .dispatch) := by
    simp only [Fleet.step, hx, hn, hp, point, Fleet.stepAnnounce, Fleet.finishVersion, finished]
    rfl
  have moves : j.Apart (k.moveTo c.dispatcher .dispatch) aside (c.dispatcher :: s.waiting) :=
    (apart.mono fun u => List.mem_cons_of_mem _).trans
      ((Fleet.apart_moveTo hs.dispatcher .dispatch).mono (by simp))
  refine ⟨_, ⟨front.silent step hx (by rw [hp, point]; rfl), steady.serves rfl,
    ((Fleet.Apart.refl f aside _).congr (k := j) rfl).trans moves⟩, ahead.congr rfl,
    fun u mem x hx => ?_⟩
  have told : k.tasks[u]? = some { x with signal := some .released } := by
    simp only [k, Fleet.tell_fields]
    rw [Fleet.getElem?_told (show j.tasks[u]? = some x from hx), Fleet.told_of_mem mem]
  simp only [Fleet.moveTo_fields, List.getElem?_modify_ne _ _ (outside u mem).dispatcher.symm]
  exact told

/-! ## All that happens until the version is done -/

/-- Once the next update is stored and its delivery is in line, the version is done, and those who
waited for it are in line and know it. -/
lemma Steady.settles (hs : c.Steady aside f s) (hl : f.line aside = [c.hander])
    (handing : s.handing = [e.stored]) (notices : s.notices = []) (point : s.point = .dispatch)
    (log : s.log[s.known]? = some e) (next : snapshot s.log (s.known + 1) = .ok d)
    (done : s.done = s.known) (room : s.known + 2 < 18_446_744_073_709_551_616)
    (outside : ∀ u ∈ s.waiting, c.Outside aside u) (nodup : s.waiting.Nodup) :
    ∃ g, c.Comes aside (c.dispatcher :: s.waiting) f [] g
        ⟨s.log, s.known + 1, s.known + 1, [], [], .dispatch, []⟩ ∧
      g.line aside = s.waiting ∧ ∀ u ∈ s.waiting, ∀ x, f.tasks[u]? = some x →
        g.tasks[u]? = some { x with signal := some .released } := by
  obtain ⟨g₁, hands, line⟩ := hs.hands hl handing point log next
  obtain ⟨g₂, comes, ahead⟩ := hands.steady.comes line
  obtain ⟨g₃, takes, ahead⟩ := comes.steady.takes ahead point (by rw [notices]; rfl)
  obtain ⟨g₄, announces, ahead⟩ := takes.steady.announces ahead rfl
  have version : e.update.version.number.val = s.known + 1 :=
    (hs.shows.log ▸ hs.shows.sound.numbered : Numbered s.log) s.known e log
  obtain ⟨g₅, releases, ahead, told⟩ := announces.steady.releases ahead rfl (by rw [version, done])
    (by rwa [done]) outside nodup
  obtain ⟨x, hx, hn, hp⟩ := releases.steady.shows.dispatcher
  have stuck : g₅.step c.dispatcher = none :=
    (Fleet.stuck_dispatch_iff hx hp).2
      ⟨_, hn ▸ releases.steady.shows.node.dispatch, rfl, rfl⟩
  obtain ⟨g₆, leaves, line, tasks⟩ := releases.steady.leaves ahead stuck
  have serves : c.Comes aside [c.dispatcher] f [] g₄ _ :=
    (hands.mono (List.forall_mem_nil _)).trans
      ((comes.mono (List.forall_mem_nil _)).trans (takes.trans announces))
  have ends : c.Comes aside (c.dispatcher :: s.waiting) g₄ [] g₆
      ⟨s.log, s.known + 1, s.done + 1, [], [], .dispatch, []⟩ :=
    releases.trans (leaves.mono (List.forall_mem_nil _))
  rw [done] at ends
  refine ⟨g₆, (serves.mono (by simp)).trans ends, line, fun u mem x hx => ?_⟩
  have still : g₄.tasks[u]? = f.tasks[u]? :=
    serves.apart.tasks u (outside u mem).aside fun e =>
      (outside u mem).dispatcher (List.mem_singleton.1 e)
  exact tasks ▸ told u mem x (still.trans hx)

end

end Service

end SchemaCatalog
