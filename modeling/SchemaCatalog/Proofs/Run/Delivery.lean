import SchemaCatalog.Proofs.Fleet.Calling
import SchemaCatalog.Proofs.Run.Halt

/-!
# The delivery of events

The dispatcher of a node hands events over in rounds: in each it begins a call for one event to
every one who listens to it, and it begins no other calls. The rounds go through the events of the
log in order, each event has one, and those of the versions that are done have ended
(`Run.delivered_in_order`). It does not matter how the calls end, and whether others are made.
-/

namespace SchemaCatalog

/-! ## The calls of a dispatcher -/

namespace Point

/-- A dispatcher begins the calls for the event that it hands over. -/
lemma begins_of_dispatches {p : Point} (h : p.dispatches = true)
    (listeners : EventType → List String) : p.begins listeners =
      p.nextEvent?.toList.flatMap fun e => (listeners e.eventType).map fun l => (l, e) := by
  cases p with
  | announce v events =>
    cases events with
    | nil => rfl
    | cons event rest => exact (List.flatMap_singleton ..).symm
  | gather event calls after => rfl
  | dispatch => rfl
  | _ => cases h

end Point

namespace Fleet

/-- The calls that the dispatcher of a node has begun, in order: to which listener, with which
event. -/
def dispatched (f : Fleet) (n : Nat) : List (String × Event) :=
  match (f.node n).dispatch with
  | some d => (f.calls.filter fun c => c.task = d.task).map fun c => (c.listener, c.event)
  | none => []

/-- The events of a type that the dispatcher of a node has begun to call a listener for, in
order. -/
def received (f : Fleet) (n : Nat) (type : EventType) (l : String) : List Event :=
  ((f.dispatched n).filter fun c => c.1 = l ∧ c.2.eventType = type).map Prod.snd

section

variable {f : Fleet} {m : Move} {t n : Nat} {x y : Task} {d d' : Dispatch}

/-- A step of the dispatcher begins its calls. -/
lemma dispatched_step (hd : (f.node n).dispatch = some d) (hx : f.tasks[d.task]? = some x)
    (hxn : x.node = n) (hd' : ((f.after (.step d.task)).node n).dispatch = some d')
    (same : d'.task = d.task) : (f.after (.step d.task)).dispatched n =
      f.dispatched n ++ x.point.begins (f.node n).publisher.listenersOf := by
  rcases calls_after f (.step d.task) with ⟨t, e, calls⟩ | ⟨none, -⟩
  · cases e
    subst hxn
    simp [dispatched, hd, hd', same, calls, begins, hx, List.filter_map, Function.comp_def]
  · cases none

/-- Whatever else moves adds nothing to the calls of the dispatcher. -/
lemma dispatched_other (hd : (f.node n).dispatch = some d)
    (hd' : ((f.after m).node n).dispatch = some d') (same : d'.task = d.task)
    (hm : m ≠ .step d.task) : (f.after m).dispatched n = f.dispatched n := by
  simp only [dispatched, hd, hd', same]
  rcases calls_after f m with ⟨t, rfl, calls⟩ | ⟨-, calls⟩
  · have others : (f.begins t).filter (fun c => c.task = d.task) = [] := by
      rw [List.filter_eq_nil_iff]
      intro c hc e
      obtain ⟨rfl, -⟩ := task_of_begins hc
      exact hm (congrArg Move.step (of_decide_eq_true e))
    rw [calls, List.filter_append, others, List.append_nil]
  · rw [calls]

/-- A dispatcher publishes the next event of the version that it announces. -/
lemma step_announce {v : Version} {event : Event} {rest : List Event}
    (hx : f.tasks[t]? = some x) (hp : x.point = .announce v (event :: rest)) :
    f.step t = some (f.publish t x.node event (.dispatch v rest)) := by
  rw [step, hx]
  simp only [hp]
  rfl

/-- A dispatcher that hands an event over does not stand where it stood. -/
lemma nextEvent_of_stays (hx : f.tasks[t]? = some x)
    (hy : (f.after (.step t)).tasks[t]? = some y) (e : y.point = x.point) :
    x.point.nextEvent? = none := by
  cases hp : x.point with
  | announce v events =>
    cases events with
    | nil => rfl
    | cons event rest =>
      obtain ⟨calls, hc⟩ := core_publish f t x.node event (.dispatch v rest)
      obtain ⟨-, -, -, -, -, -, tasks⟩ := core_inj hc
      rw [after, step_announce hx hp, Option.getD_some, tasks, getElem?_moveTo hx] at hy
      cases hy
      rw [hp] at e
      cases e
  | _ => rfl

end

end Fleet

/-! ## Rounds of calls -/

/-- An event as a dispatcher hands it over: when, and to whom. -/
structure Round where
  moment : Nat
  event : Event
  listeners : List String

namespace Round

/-- The calls that are begun in some rounds. -/
def calls (rounds : List Round) : List (String × Event) :=
  rounds.flatMap fun x => x.listeners.map fun l => (l, x.event)

/-- At its moment the dispatcher of a node hands the event of a round over to all who listen to it.
The dispatcher is this task, and these events of the version remain. -/
structure Made (x : Round) (r : Run) (n t : Nat) (rest : List Event) : Prop where
  move : r.moves x.moment = .step t
  task : ∃ y, (r.fleet x.moment).tasks[t]? = some y ∧ y.node = n ∧
    y.point = .announce x.event.version (x.event :: rest)
  listeners : x.listeners =
    ((r.fleet x.moment).node n).publisher.listenersOf x.event.eventType

/-- All calls of a round have been seen to end before this moment. -/
def Ended (x : Round) (r : Run) (i t : Nat) (rest : List Event) : Prop :=
  ∃ m, x.moment < m ∧ m < i ∧ r.moves m = .step t ∧
    (r.fleet m).CallsEnd t x.event (.dispatch x.event.version rest) x.listeners

end Round

namespace Fleet

variable {f : Fleet} {m : Move} {n : Nat} {d d' : Dispatch}

/-- A dispatcher that stands where it stood has begun no calls. -/
lemma dispatched_stays (h : f.DispatchesOn n) (hd : (f.node n).dispatch = some d)
    (hd' : ((f.after m).node n).dispatch = some d') (same : d'.task = d.task)
    (stays : ∀ x, f.tasks[d.task]? = some x →
      ∃ y, (f.after m).tasks[d.task]? = some y ∧ y.point = x.point) :
    (f.after m).dispatched n = f.dispatched n := by
  by_cases hm : m = .step d.task
  · subst hm
    obtain ⟨x, hx, hxn, working | ended⟩ := h.placed d hd
    all_goals
      obtain ⟨y, hy, e⟩ := stays x hx
      rw [dispatched_step hd hx hxn hd' same]
    · rw [Point.begins_of_dispatches working, nextEvent_of_stays hx hy e]
      exact List.append_nil _
    · obtain ⟨o, ho⟩ := Option.isSome_iff_exists.1 ended
      rw [Task.point_of_outcome ho]
      exact List.append_nil _
  · exact dispatched_other hd hd' same hm

/-- A move notes calls down for tasks that there were before it. -/
lemma callers_after (h : ∀ c ∈ f.calls, c.task < f.tasks.length) :
    ∀ c ∈ (f.after m).calls, c.task < f.tasks.length := by
  intro c hc
  rcases calls_after f m with ⟨t, -, calls⟩ | ⟨-, calls⟩
  · rw [calls] at hc
    rcases List.mem_append.1 hc with hc | hc
    · exact h c hc
    · obtain ⟨rfl, lt⟩ := task_of_begins hc
      exact lt
  · exact h c (calls ▸ hc)

lemma dispatched_none (hd : (f.node n).dispatch = none) : f.dispatched n = [] := by
  rw [dispatched, hd]

end Fleet

namespace Run

variable {r : Run} {i s n : Nat} {rounds : List Round}

/-- Calls are noted down for tasks that there are. -/
lemma callers (r : Run) (i : Nat) :
    ∀ c ∈ (r.fleet i).calls, c.task < (r.fleet i).tasks.length := by
  induction i with
  | zero => exact fun c hc => nomatch hc
  | succ i ih =>
    intro c hc
    have there := Fleet.callers_after ih c hc
    obtain ⟨y, hy, -⟩ := (r.frame i).task c.task _ (List.getElem?_eq_getElem there)
    exact (List.getElem?_eq_some_iff.1 hy).1

/-- The rounds in which the dispatcher of a node has begun its calls by a moment, in order. -/
structure Rounds (r : Run) (i n : Nat) (rounds : List Round) : Prop where
  calls : (r.fleet i).dispatched n = Round.calls rounds
  announced : (r.fleet i).Announced n (rounds.map Round.event)
  made : ∀ x ∈ rounds, x.moment < i ∧ ∃ t rest, x.Made r n t rest
  ordered : rounds.Pairwise fun x y => x.moment < y.moment

namespace Rounds

/-- Where no calls begin the rounds are the same. -/
lemma same (h : r.Rounds i n rounds)
    (calls : (r.fleet (i + 1)).dispatched n = (r.fleet i).dispatched n)
    (announced : (r.fleet (i + 1)).Announced n (rounds.map Round.event)) :
    r.Rounds (i + 1) n rounds where
  calls := calls.trans h.calls
  announced := announced
  made x hx := by
    obtain ⟨before, made⟩ := h.made x hx
    exact ⟨Nat.lt_succ_of_lt before, made⟩
  ordered := h.ordered

/-- A node without a dispatcher has no rounds. -/
lemma eq_nil (h : r.Rounds i n rounds) (hd : ((r.fleet i).node n).dispatch = none) :
    rounds = [] :=
  List.map_eq_nil_iff.1 (h.announced.idle hd)

/-- There is one more round where the dispatcher takes a step to hand an event over, and there are
as many as there were where it takes another one. -/
lemma served {x : Task} {d d' : Dispatch} {k : Nat} (h : r.Rounds i n rounds)
    (hd : ((r.fleet i).node n).dispatch = some d) (hm : r.moves i = .step d.task)
    (hx : (r.fleet i).tasks[d.task]? = some x) (hxn : x.node = n)
    (hxd : x.point.dispatches = true)
    (agenda : Agenda (r.fleet i).storage.log ((r.fleet i).node n).mark x.point d k)
    (hd' : ((r.fleet (i + 1)).node n).dispatch = some d') (same : d'.task = d.task)
    (announced : (r.fleet (i + 1)).Announced n
      (rounds.map Round.event ++ x.point.nextEvent?.toList)) :
    ∃ rounds', r.Rounds (i + 1) n rounds' := by
  have calls : (r.fleet (i + 1)).dispatched n = (r.fleet i).dispatched n ++
      x.point.begins ((r.fleet i).node n).publisher.listenersOf := by
    rw [fleet_succ, hm] at hd' ⊢
    exact Fleet.dispatched_step hd hx hxn hd' same
  rw [Point.begins_of_dispatches hxd] at calls
  cases he : x.point.nextEvent? with
  | none =>
    rw [he] at calls announced
    exact ⟨rounds, h.same (calls.trans (List.append_nil _)) (by simpa using announced)⟩
  | some event =>
    obtain ⟨rest, hp⟩ := agenda.announce_of_next (r.tracks i).sound.numbered he
    rw [he] at calls announced
    let next : Round :=
      ⟨i, event, ((r.fleet i).node n).publisher.listenersOf event.eventType⟩
    have made : next.Made r n d.task rest := ⟨hm, ⟨x, hx, hxn, hp⟩, rfl⟩
    refine ⟨rounds ++ [next], ?_, ?_, ?_, ?_⟩
    · rw [calls, h.calls]
      simp [Round.calls, next]
    · simpa [next] using announced
    · intro y hy
      rcases List.mem_append.1 hy with hy | hy
      · obtain ⟨before, made⟩ := h.made y hy
        exact ⟨Nat.lt_succ_of_lt before, made⟩
      · obtain rfl := List.mem_singleton.1 hy
        exact ⟨Nat.lt_succ_self i, d.task, rest, made⟩
    · rw [List.pairwise_append]
      refine ⟨h.ordered, List.pairwise_singleton .., fun y hy z hz => ?_⟩
      obtain rfl := List.mem_singleton.1 hz
      exact (h.made y hy).1

/-- A move adds a round or leaves the rounds as they are. -/
lemma succ (h : r.Rounds i n rounds) (hm : ∀ i, (r.moves i).sparesMarkOf n = true) :
    ∃ rounds', r.Rounds (i + 1) n rounds' := by
  have dispatches := r.dispatches hm i
  cases r.serves hm i with
  | rests hd hn =>
    refine ⟨rounds, h.same ?_ (h.announced.rests dispatches (r.tracks i) (r.frame i) hd hn)⟩
    cases hdd : ((r.fleet i).node n).dispatch with
    | none => rw [Fleet.dispatched_none hdd, Fleet.dispatched_none (hn.none hdd)]
    | some d =>
      obtain ⟨d', hd', same⟩ := hn.to_new hdd
      refine Fleet.dispatched_stays (f := r.fleet i) (m := r.moves i) dispatches hdd hd' same
        fun x hx => ?_
      obtain ⟨x', y, hx', hy, -, e, -⟩ := dispatches.stays (r.frame i) hd hdd
      rw [hx] at hx'
      cases hx'
      exact ⟨y, hy, e⟩
  | @told _ _ y z _ _ _ node tasks =>
    refine ⟨rounds, h.same ?_ (h.announced.told dispatches (r.tracks i) (r.frame i) node tasks)⟩
    cases hdd : ((r.fleet i).node n).dispatch with
    | none =>
      refine (Fleet.dispatched_none ?_).trans (Fleet.dispatched_none hdd).symm
      rw [node, Node.notify]
      simp only [hdd]
    | some d =>
      obtain ⟨d', hd', same⟩ := Fleet.DispatchesOn.dispatch_notify
        (y := { (r.fleet i).node n with history := y }) (z := z) hdd
      rw [← node] at hd'
      exact Fleet.dispatched_stays dispatches hdd hd' same fun x hx => ⟨x, tasks ▸ hx, rfl⟩
  | begins hs reached old new hd mark =>
    obtain ⟨none, -⟩ := dispatches.unstarted hs
    obtain rfl := h.eq_nil none
    refine ⟨[], ?_, Fleet.Announced.begun dispatches hs new hd mark, List.forall_mem_nil _, .nil⟩
    -- Nobody has made calls in the name of the new task.
    have own : (r.fleet (i + 1)).calls.filter
        (fun c => c.task = (r.fleet i).tasks.length) = [] := by
      rw [List.filter_eq_nil_iff]
      intro c hc e
      exact Nat.ne_of_lt (Fleet.callers_after (r.callers i) c hc) (of_decide_eq_true e)
    rw [Fleet.dispatched, hd]
    dsimp only
    rw [own]
    rfl
  | serves hmove hx hxn hxd _ hy _ _ duty =>
    obtain ⟨d, hd, rfl⟩ := dispatches.named _ _ hx hxn hxd
    obtain ⟨d', hd', same, duty⟩ := duty d hd
    obtain ⟨x', k, hx', -, -, agenda⟩ := dispatches.busy (r.tracks i) hd
    rw [hx] at hx'
    cases hx'
    exact h.served hd hmove hx hxn hxd agenda hd' same
      (h.announced.served dispatches (r.tracks i) (r.frame i) hd hx hy hd' same duty)

/-- The rounds go through the events up to the last version that is done, and no further than to the
version behind it. -/
lemma bounds (h : r.Rounds i n rounds) (hm : ∀ i, (r.moves i).sparesMarkOf n = true) :
    eventsUpTo (r.fleet i).storage.log ((r.fleet i).node n).mark.doneUntil.number.val <+:
        rounds.map Round.event ∧
      rounds.map Round.event <+: eventsUpTo (r.fleet i).storage.log
        (((r.fleet i).node n).mark.doneUntil.number.val + 1) := by
  have dispatches := r.dispatches hm i
  cases hd : ((r.fleet i).node n).dispatch with
  | none =>
    obtain rfl := h.eq_nil hd
    cases hs : ((r.fleet i).node n).started with
    | true =>
      obtain ⟨d, hd'⟩ := dispatches.started hs
      rw [hd] at hd'
      cases hd'
    | false =>
      obtain ⟨-, -, zero⟩ := dispatches.unstarted hs
      rw [zero]
      exact ⟨List.prefix_refl [], List.nil_prefix⟩
  | some d =>
    obtain ⟨x, k, hx, -, -, agenda⟩ := dispatches.busy (r.tracks i) hd
    exact agenda.handed_bounds (h.announced.handed d x hd hx)

end Rounds

/-- At every moment the calls of the dispatcher are those of rounds. -/
lemma exists_rounds (r : Run) (hm : ∀ i, (r.moves i).sparesMarkOf n = true) (i : Nat) :
    ∃ rounds, r.Rounds i n rounds := by
  induction i with
  | zero =>
    refine ⟨[], rfl, ⟨fun _ _ hd => (nomatch hd), fun _ => rfl⟩, fun _ hx => (nomatch hx), .nil⟩
  | succ i ih =>
    obtain ⟨rounds, h⟩ := ih
    exact h.succ hm

end Run

/-! ## What a round comes to -/

namespace Round

variable {r : Run} {s i n t : Nat} {x : Round} {rest : List Event} {rounds : List Round}

/-- When a round was begun the dispatcher is among its calls. -/
lemma Made.gathers (h : x.Made r n t rest) : (r.fleet (x.moment + 1)).Gathers n t x.event
    (.dispatch x.event.version rest) x.listeners := by
  obtain ⟨y, hy, rfl, hp⟩ := h.task
  rw [Run.fleet_succ, h.move, Fleet.after, Fleet.step_announce hy hp, h.listeners]
  exact Fleet.gathers_publish hy

/-- The calls of a round have ended when its version is done. -/
lemma Made.ended (h : x.Made r n t rest) (hm : ∀ i, (r.moves i).sparesMarkOf n = true)
    (hi : x.moment < i) (done : x.event.version ≤ ((r.fleet i).node n).mark.doneUntil) :
    x.Ended r i t rest := by
  rcases Run.gathers_or_end h.gathers hi with ⟨y, calls, hy, hyn, hp, -⟩ | ⟨m, hxm, rest⟩
  · have notice : y.point.notice? = some ⟨x.event.version, x.event :: rest⟩ := by
      rw [hp]
      rfl
    exact absurd ⟨_, rfl, List.cons_ne_nil _ _, .inl ⟨t, y, hy, hyn, notice⟩⟩
      ((r.dispatches hm i).not_owes (r.tracks i) done)
  · exact ⟨m, hxm, rest⟩

/-- A round is begun after the start of its node, so whoever was registered before the start is
called in it. -/
lemma Made.between (h : x.Made r n t rest) (hm : ∀ i, (r.moves i).sparesMarkOf n = true)
    (unstarted : ((r.fleet s).node n).started = false) (hn : n < (r.fleet s).nodes.length)
    (hi : x.moment < i) :
    ((r.fleet s).node n).publisher.listenersOf x.event.eventType <+: x.listeners ∧
      x.listeners <+: ((r.fleet i).node n).publisher.listenersOf x.event.eventType := by
  obtain ⟨y, hy, rfl, hp⟩ := h.task
  have node := (r.plain x.moment).placed t y hy
  obtain ⟨d, hd, -⟩ := (r.dispatches hm x.moment).named t y hy rfl (by rw [hp]; rfl)
  have started := (r.dispatches hm x.moment).started_of_dispatch hd
  rw [h.listeners]
  refine ⟨?_, (r.kept (Nat.le_of_lt hi) node).listeners _⟩
  rcases Nat.le_total s x.moment with hs | hs
  · exact (r.kept hs hn).listeners _
  · rw [(r.kept hs node).started started] at unstarted
    cases unstarted

/-- Who is called once in every round of a type gets one call for each of its events. -/
lemma received_calls {type : EventType} {l : String}
    (once : ∀ x ∈ rounds, x.event.eventType = type → x.listeners.count l = 1) :
    ((calls rounds).filter fun c => c.1 = l ∧ c.2.eventType = type).map Prod.snd =
      (rounds.map Round.event).filter fun e => e.eventType = type := by
  induction rounds with
  | nil => rfl
  | cons x rounds ih =>
    have ih := ih fun y hy => once y (List.mem_cons_of_mem _ hy)
    have first : ((x.listeners.map fun l => (l, x.event)).filter
        fun c => c.1 = l ∧ c.2.eventType = type).map Prod.snd =
          [x.event].filter fun e => e.eventType = type := by
      by_cases e : x.event.eventType = type
      · have one := once x List.mem_cons_self e
        simp [List.filter_map, Function.comp_def, e, List.filter_eq, one]
      · simp [List.filter_map, Function.comp_def, e]
    rw [calls, List.flatMap_cons, List.filter_append, List.map_append, first, ← calls, ih,
      List.map_cons, ← List.singleton_append (l := rounds.map Round.event), List.filter_append]

end Round

/-! ## Delivery in order -/

namespace Run

/-- What the dispatcher of a node has done at a moment, where only the node marks its versions. All
calls that it began are those of rounds, one after the other. The rounds go through the events of
the log in order: there is one for every event of the versions that are done, and none for an event
of a version behind the next one. The event of a round carries its version and a token of the same
number. A round calls all who listen to its event when it is begun, among them all who did before
the node was started, and when its version is done its calls have ended. So who was registered once
for a type, before the node was started, is called for the events of that type in the order of the
log, each once. -/
theorem delivered_in_order (r : Run) {n : Nat}
    (hm : ∀ i, (r.moves i).sparesMarkOf n = true) {s i : Nat}
    (unstarted : ((r.fleet s).node n).started = false) (hn : n < (r.fleet s).nodes.length)
    {done : Nat} (hd : ((r.fleet i).node n).mark.doneUntil.number.val = done) :
    (∃ rounds : List Round,
      (r.fleet i).dispatched n = Round.calls rounds ∧
      (rounds.Pairwise fun x y => x.moment < y.moment) ∧
      eventsUpTo (r.fleet i).storage.log done <+: rounds.map Round.event ∧
      rounds.map Round.event <+: eventsUpTo (r.fleet i).storage.log (done + 1) ∧
      ∀ x ∈ rounds, x.event.version.number.val ≤ done + 1 ∧
        x.event.token.number = x.event.version.number ∧
        ((r.fleet s).node n).publisher.listenersOf x.event.eventType <+: x.listeners ∧
        ∃ t rest, x.Made r n t rest ∧
          (x.event.version.number.val ≤ done → x.Ended r i t rest)) ∧
    ∀ (type : EventType) (l : String), l ∈ ((r.fleet s).node n).publisher.listenersOf type →
      (((r.fleet i).node n).publisher.listenersOf type).count l = 1 →
      (eventsUpTo (r.fleet i).storage.log done).filter (fun e => e.eventType = type) <+:
        (r.fleet i).received n type l ∧
      (r.fleet i).received n type l <+:
        (eventsUpTo (r.fleet i).storage.log (done + 1)).filter fun e => e.eventType = type := by
  subst hd
  obtain ⟨rounds, h⟩ := r.exists_rounds hm i
  -- Whoever listened before the start listens in each round, and whoever listens in one does now.
  have between : ∀ x ∈ rounds,
      ((r.fleet s).node n).publisher.listenersOf x.event.eventType <+: x.listeners ∧
        x.listeners <+: ((r.fleet i).node n).publisher.listenersOf x.event.eventType := by
    intro x hx
    obtain ⟨before, t, rest, made⟩ := h.made x hx
    exact made.between hm unstarted hn before
  have bounds := h.bounds hm
  refine ⟨⟨rounds, h.calls, h.ordered, bounds.1, bounds.2, fun x hx => ?_⟩, fun type l hl one => ?_⟩
  · obtain ⟨version, token⟩ := event_of_mem (r.tracks i).sound.numbered
      (bounds.2.subset (List.mem_map_of_mem hx))
    obtain ⟨before, t, rest, made⟩ := h.made x hx
    exact ⟨version, token, (between x hx).1, t, rest, made, made.ended hm before⟩
  · -- One who is registered once for the type is called once in each round of it.
    have once : ∀ x ∈ rounds, x.event.eventType = type → x.listeners.count l = 1 := by
      rintro x hx rfl
      obtain ⟨first, last⟩ := between x hx
      have most := last.sublist.count_le l
      have least := List.count_pos_iff.2 (first.subset hl)
      omega
    rw [Fleet.received, h.calls, Round.received_calls once]
    exact ⟨bounds.1.filter _, bounds.2.filter _⟩

theorem delivered_in_order_overtaken :
    (∃ rounds : List Round, (overtaken.fleet 22).dispatched 0 = Round.calls rounds ∧
      ∀ x ∈ rounds, ∃ t rest, x.Made overtaken 0 t rest ∧
        (x.event.version.number.val ≤ 1 → x.Ended overtaken 22 t rest)) ∧
    ((overtaken.fleet 22).received 0 .zoneAlter "listener").map Event.version = [⟨1⟩] := by
  have spares : ∀ i, (overtaken.moves i).sparesMarkOf 0 = true :=
    moves_ofMoves (P := fun m => m.sparesMarkOf 0 = true) (by decide) rfl
  obtain ⟨⟨rounds, calls, -, -, -, each⟩, received⟩ := delivered_in_order overtaken spares
    (s := 2) (i := 22) (by decide +kernel) (by decide +kernel)
    (show ((overtaken.fleet 22).node 0).mark.doneUntil.number.val = 1 by decide +kernel)
  obtain ⟨all, only⟩ := received .zoneAlter "listener" (by decide +kernel) (by decide +kernel)
  refine ⟨⟨rounds, calls, fun x hx => ?_⟩, ?_⟩
  · obtain ⟨-, -, -, made⟩ := each x hx
    exact made
  · -- The other update of the log has no event of this type.
    have same : (eventsUpTo (overtaken.fleet 22).storage.log 2).filter
        (fun e => e.eventType = .zoneAlter) =
          (eventsUpTo (overtaken.fleet 22).storage.log 1).filter
            fun e => e.eventType = .zoneAlter := by decide +kernel
    rw [same] at only
    rw [only.eq_of_length_le all.length_le]
    decide +kernel

end Run

end SchemaCatalog
