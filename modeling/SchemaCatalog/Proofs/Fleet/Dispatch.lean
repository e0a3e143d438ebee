import SchemaCatalog.Proofs.Fleet.Serving

/-!
# What the dispatcher has still to announce

A started node names one dispatcher, which sees to the notices of the node. In every fleet in which
nobody else marks versions of the node it keeps to its agenda, so that it owes no calls for the
versions that are done, and hands the events of the log over in order.
-/

namespace SchemaCatalog

namespace Fleet

/-- The dispatcher of a node is the one that the node names, and it keeps to its agenda. -/
structure DispatchesOn (f : Fleet) (n : Nat) : Prop where
  named : ∀ (t : Nat) (x : Task), f.tasks[t]? = some x → x.node = n → x.point.dispatches = true →
    ∃ d, (f.node n).dispatch = some d ∧ d.task = t
  placed : ∀ d, (f.node n).dispatch = some d → ∃ x, f.tasks[d.task]? = some x ∧ x.node = n ∧
    (x.point.dispatches = true ∨ x.outcome?.isSome)
  unstarted : (f.node n).started = false → (f.node n).dispatch = none ∧
    (f.node n).mark.done = [] ∧ (f.node n).mark.doneUntil.number.val = 0
  started : (f.node n).started = true → ∃ d, (f.node n).dispatch = some d
  agenda : ∀ (d : Dispatch) (x : Task) (k : Nat), (f.node n).dispatch = some d →
    f.tasks[d.task]? = some x → f.Reached n k →
    Agenda f.storage.log (f.node n).mark x.point d k

/-- The events that the dispatcher of a node has handed over, if there is one. -/
structure Announced (f : Fleet) (n : Nat) (events : List Event) : Prop where
  handed : ∀ (d : Dispatch) (x : Task), (f.node n).dispatch = some d →
    f.tasks[d.task]? = some x → Agenda.Handed f.storage.log (f.node n).mark x.point events
  idle : (f.node n).dispatch = none → events = []

section

variable {f g : Fleet} {m : Move} {t n k : Nat} {x : Task} {events : List Event}

lemma lt_of_started (h : (f.node n).started = true) : n < f.nodes.length := by
  rcases Nat.lt_or_ge n f.nodes.length with hlt | hge
  · exact hlt
  · rw [node_of_le hge] at h
    cases h

/-- A node whose history stays has reached what it had reached. -/
lemma Reached.of_same (ht : f.Tracks) (hg : g.Tracks) (hf : f.Frame m g)
    (history : (g.node n).history = (f.node n).history)
    (started : (g.node n).started = (f.node n).started) (h : g.Reached n k) : f.Reached n k := by
  have was := started.symm.trans h.started
  obtain ⟨k', hk'⟩ := ht.started n (lt_of_started was) was
  rw [h.unique hg (hk'.grow hf.log hf.nodes history started)]
  exact hk'

namespace DispatchesOn

lemma started_of_dispatch {d : Dispatch} (h : f.DispatchesOn n)
    (hd : (f.node n).dispatch = some d) : (f.node n).started = true := by
  cases hs : (f.node n).started with
  | true => rfl
  | false =>
    rw [(h.unstarted hs).1] at hd
    cases hd

/-- The dispatcher of a node has an agenda. -/
lemma busy {d : Dispatch} (h : f.DispatchesOn n) (ht : f.Tracks)
    (hd : (f.node n).dispatch = some d) : ∃ x k, f.tasks[d.task]? = some x ∧ f.Reached n k ∧
      (x.point.dispatches = true ∨ x.outcome?.isSome) ∧
      Agenda f.storage.log (f.node n).mark x.point d k := by
  have started := h.started_of_dispatch hd
  obtain ⟨x, hx, -, hp⟩ := h.placed d hd
  obtain ⟨k, hk⟩ := ht.started n (lt_of_started started) started
  exact ⟨x, k, hx, hk, hp, h.agenda d x k hd hx hk⟩

/-- No version is done that a node has not reached. -/
lemma doneUntil_le (h : f.DispatchesOn n) (hk : f.Reached n k) :
    (f.node n).mark.doneUntil.number.val ≤ k := by
  obtain ⟨d, hd⟩ := h.started hk.started
  obtain ⟨x, hx, -⟩ := h.placed d hd
  exact (h.agenda d x k hd hx hk).doneUntil_le

/-! ## Moves that leave the dispatcher alone -/

/-- Where the dispatcher is left alone its task stands where it stood. -/
lemma stays {d : Dispatch} (h : f.DispatchesOn n) (hf : f.Frame m g)
    (hd : f.DutiesKept n g.tasks) (hdd : (f.node n).dispatch = some d) :
    ∃ x y, f.tasks[d.task]? = some x ∧ g.tasks[d.task]? = some y ∧ y.node = n ∧
      y.point = x.point ∧ (x.point.dispatches = true ∨ x.outcome?.isSome) := by
  obtain ⟨x, hx, hxn, hx'⟩ := h.placed d hdd
  rcases hx' with hx' | hx'
  · obtain ⟨y, hy, hyn, e⟩ := hd.to_new d.task x hx hxn hx'
    exact ⟨x, y, hx, hy, hyn, e, .inl hx'⟩
  · obtain ⟨y, hy, hyn, e⟩ := hf.task d.task x hx
    exact ⟨x, y, hx, hy, hyn.trans hxn, e (.inr hx'), .inr hx'⟩

lemma undisturbed (h : f.DispatchesOn n) (ht : f.Tracks) (hg : g.Tracks) (hf : f.Frame m g)
    (hd : f.DutiesKept n g.tasks) (hn : NothingTold (f.node n) (g.node n)) :
    g.DispatchesOn n where
  named t y hy hyn hyd := by
    obtain ⟨z, hz, hzn, e⟩ := hd.from_old t y hy hyn hyd
    obtain ⟨d, hdd, rfl⟩ := h.named t z hz hzn (e ▸ hyd)
    exact hn.to_new hdd
  placed d' hd' := by
    obtain ⟨d, hdd, e, -⟩ := hn.from_old hd'
    obtain ⟨x, y, -, hy, hyn, hp, hx⟩ := h.stays hf hd hdd
    refine ⟨y, e ▸ hy, hyn, ?_⟩
    rw [Task.outcome?, hp]
    exact hx
  unstarted hs := by
    obtain ⟨none, done, zero⟩ := h.unstarted (hn.started.symm.trans hs)
    exact ⟨hn.none none, hn.done.trans done, by rw [hn.doneUntil, zero]⟩
  started hs := by
    obtain ⟨d, hdd⟩ := h.started (hn.started.symm.trans hs)
    obtain ⟨d', hd', -⟩ := hn.to_new hdd
    exact ⟨d', hd'⟩
  agenda d' y k hd' hy hk := by
    obtain ⟨d, hdd, e, hq, ha⟩ := hn.from_old hd'
    obtain ⟨x, z, hx, hz, -, hp, -⟩ := h.stays hf hd hdd
    rw [← e, hy] at hz
    cases hz
    rw [hp]
    exact (h.agenda d x k hdd hx (hk.of_same ht hg hf hn.history hn.started)).mono hf.log
      hn.doneUntil hn.done hq ha

/-! ## Notices -/

/-- A dispatcher that takes notices gets one more, and one that takes none is left alone. -/
lemma notified_cases {y : Node} {z : Notice} {d' : Dispatch}
    (hd' : (y.notify z).dispatch = some d') : ∃ d, y.dispatch = some d ∧
      d' = if d.accepting then { d with queue := d.queue ++ [z] } else d := by
  rw [Node.notify] at hd'
  split at hd'
  · rename_i d hd
    split at hd'
    · rename_i acc
      cases hd'
      exact ⟨d, hd, by rw [if_pos acc]⟩
    · rename_i acc
      rw [hd] at hd'
      cases hd'
      exact ⟨d', hd, by rw [if_neg acc]⟩
  · rename_i hd
    rw [hd] at hd'
    cases hd'

lemma task_notified {z : Notice} (d : Dispatch) :
    (if d.accepting then { d with queue := d.queue ++ [z] } else d).task = d.task := by
  split
  · rfl
  · rfl

lemma dispatch_notify {y : Node} {z : Notice} {d : Dispatch} (hd : y.dispatch = some d) :
    ∃ d', (y.notify z).dispatch = some d' ∧ d'.task = d.task := by
  rw [Node.notify]
  simp only [hd]
  split
  · exact ⟨_, rfl, rfl⟩
  · exact ⟨d, hd, rfl⟩

/-- A node is told of an update that it was handed. -/
lemma told {k k' : Nat} {y : History} {z : Notice} (h : f.DispatchesOn n) (hg : g.Tracks)
    (hf : f.Frame m g) (hk : f.Reached n k) (hk' : g.Reached n k')
    (hz : Leads f.storage.log k [z] k') (node : g.node n = { f.node n with history := y }.notify z)
    (tasks : g.tasks = f.tasks) : g.DispatchesOn n := by
  -- The dispatcher stays, and has one notice more if it takes any.
  have dispatch : ∀ d', (g.node n).dispatch = some d' → ∃ d, (f.node n).dispatch = some d ∧
      d'.task = d.task ∧ d' = if d.accepting then { d with queue := d.queue ++ [z] } else d := by
    intro d' hd'
    rw [node] at hd'
    obtain ⟨d, hd, e⟩ := notified_cases hd'
    exact ⟨d, hd, e ▸ task_notified d, e⟩
  have dispatch' : ∀ d, (f.node n).dispatch = some d →
      ∃ d', (g.node n).dispatch = some d' ∧ d'.task = d.task := by
    intro d hd
    rw [node]
    exact dispatch_notify hd
  have mark : (g.node n).mark = (f.node n).mark := by
    rw [node]
    simp only [Node.notify_fields]
  constructor
  case named =>
    intro t x hx hxn hxd
    obtain ⟨d, hd, rfl⟩ := h.named t x (tasks ▸ hx) hxn hxd
    exact dispatch' d hd
  case placed =>
    intro d' hd'
    obtain ⟨d, hd, e, -⟩ := dispatch d' hd'
    rw [tasks, e]
    exact h.placed d hd
  case unstarted =>
    intro hs
    rw [hk'.started] at hs
    cases hs
  case started =>
    intro _
    obtain ⟨d, hd⟩ := h.started hk.started
    obtain ⟨d', hd', -⟩ := dispatch' d hd
    exact ⟨d', hd'⟩
  case agenda =>
    intro d' x i hd' hx hi
    obtain ⟨d, hd, e, hq⟩ := dispatch d' hd'
    rw [tasks, e] at hx
    rw [mark, hi.unique hg hk']
    exact ((h.agenda d x k hd hx hk).told hz hq).mono hf.log rfl rfl rfl id

/-! ## Moves of the dispatcher -/

/-- A node that is started gets a dispatcher, which has nothing to do yet. -/
lemma begun (h : f.DispatchesOn n) (hg : g.Tracks) (hs : (f.node n).started = false)
    (reached : g.Reached n 0)
    (old : ∀ (s : Nat) (y : Task), g.tasks[s]? = some y → y.node = n →
      y.point.dispatches = true → s = f.tasks.length ∨
        ∃ z, f.tasks[s]? = some z ∧ z.node = n ∧ z.point = y.point)
    (new : g.tasks[f.tasks.length]? = some ⟨n, .dispatch, none⟩)
    (hd : (g.node n).dispatch = some ⟨[], true, f.tasks.length⟩)
    (mark : (g.node n).mark = (f.node n).mark) : g.DispatchesOn n := by
  obtain ⟨none, done, zero⟩ := h.unstarted hs
  -- No task was a dispatcher of the node before, as the node named none.
  constructor
  case named =>
    intro s y hy hyn hyd
    rcases old s y hy hyn hyd with rfl | ⟨z, hz, hzn, e⟩
    · exact ⟨_, hd, rfl⟩
    · obtain ⟨d, hd', -⟩ := h.named s z hz hzn (e ▸ hyd)
      rw [none] at hd'
      cases hd'
  case placed =>
    intro d hd'
    rw [hd] at hd'
    cases hd'
    exact ⟨_, new, rfl, .inl rfl⟩
  case unstarted =>
    intro hs'
    rw [reached.started] at hs'
    cases hs'
  case started => exact fun _ => ⟨_, hd⟩
  case agenda =>
    intro d x k hd' hx hk
    rw [hd] at hd'
    cases hd'
    rw [new] at hx
    cases hx
    rw [hk.unique hg reached, mark]
    exact .begin done zero _

/-- A dispatcher goes on, or ends. -/
lemma served {p : Point} (h : f.DispatchesOn n) (ht : f.Tracks) (hg : g.Tracks)
    (hf : f.Frame (.step t) g) (hx : f.tasks[t]? = some x) (hxn : x.node = n)
    (hxd : x.point.dispatches = true) (hlen : g.tasks.length = f.tasks.length)
    (hy : ∃ y, g.tasks[t]? = some y ∧ y.point = p)
    (history : (g.node n).history = (f.node n).history)
    (started : (g.node n).started = (f.node n).started)
    (duty : ∀ d, (f.node n).dispatch = some d → ∃ d', (g.node n).dispatch = some d' ∧
      d'.task = d.task ∧ Duty x.point d (f.node n).mark p d' (g.node n).mark) :
    g.DispatchesOn n := by
  obtain ⟨y, hy, rfl⟩ := hy
  obtain ⟨y', hy', hyn, -⟩ := hf.task t x hx
  rw [hy] at hy'
  cases hy'
  obtain ⟨d, hd, rfl⟩ := h.named t x hx hxn hxd
  obtain ⟨d', hd', same, duty⟩ := duty d hd
  have was := h.started_of_dispatch hd
  constructor
  case named =>
    intro s z hz hzn hzd
    refine ⟨d', hd', ?_⟩
    by_cases e : d.task = s
    · exact same.trans e
    · -- Another task that is a dispatcher was one before, and the node names only one.
      cases hz' : f.tasks[s]? with
      | none =>
        rw [List.getElem?_eq_none_iff, ← hlen, ← List.getElem?_eq_none_iff, hz] at hz'
        cases hz'
      | some z' =>
        obtain ⟨z'', hz'', hn, hpt⟩ := hf.task s z' hz'
        rw [hz] at hz''
        cases hz''
        have point := hpt (.inl fun e' => e (Move.step.inj e'))
        obtain ⟨d'', hd'', rfl⟩ := h.named s z' hz' (hn.symm.trans hzn) (point ▸ hzd)
        rw [hd] at hd''
        cases hd''
        exact same
  case placed =>
    intro d'' hd''
    rw [hd'] at hd''
    cases hd''
    exact ⟨y, same ▸ hy, hyn.trans hxn, duty.works_or_ended rfl⟩
  case unstarted =>
    intro hs
    rw [started, was] at hs
    cases hs
  case started => exact fun _ => ⟨d', hd'⟩
  case agenda =>
    intro d'' z k hd'' hz hk
    rw [hd'] at hd''
    cases hd''
    rw [same, hy] at hz
    cases hz
    have agenda := h.agenda d x k hd hx (hk.of_same ht hg hf history started)
    exact (agenda.duty ht.sound.numbered duty).mono hf.log rfl rfl rfl id

/-- A dispatcher keeps to its agenda whatever move comes next. -/
theorem serves (h : f.DispatchesOn n) (ht : f.Tracks) (hg : g.Tracks) (hf : f.Frame m g)
    (hs : f.Serves n m g) : g.DispatchesOn n := by
  cases hs with
  | rests hd hn => exact h.undisturbed ht hg hf hd hn
  | told hk hk' hz node tasks _ => exact h.told hg hf hk hk' hz node tasks
  | begins hs reached old new hd mark => exact h.begun hg hs reached old new hd mark
  | serves hm hx hxn hxd hlen hy history started duty =>
    subst hm
    exact h.served ht hg hf hx hxn hxd hlen hy history started duty

end DispatchesOn

lemma dispatchesOn_ofClock (c : Clock) (n : Nat) : (ofClock c).DispatchesOn n where
  named _ _ h := nomatch h
  placed _ h := nomatch h
  unstarted _ := ⟨rfl, rfl, rfl⟩
  started h := nomatch h
  agenda _ _ _ h := nomatch h

/-! ## The events that were handed over -/

namespace Announced

/-- Where the dispatcher is left alone it has handed over what it had. -/
lemma rests (ha : f.Announced n events) (h : f.DispatchesOn n) (ht : f.Tracks)
    (hf : f.Frame m g) (hd : f.DutiesKept n g.tasks) (hn : NothingTold (f.node n) (g.node n)) :
    g.Announced n events where
  handed d' y hd' hy := by
    obtain ⟨d, hdd, e, -⟩ := hn.from_old hd'
    obtain ⟨x, k, hx, hk, -, agenda⟩ := h.busy ht hdd
    obtain ⟨x', z, hx', hz, -, hp, -⟩ := h.stays hf hd hdd
    rw [hx] at hx'
    cases hx'
    rw [← e, hy] at hz
    cases hz
    rw [hp]
    exact (ha.handed d x hdd hx).grow hf.log
      (Nat.le_trans agenda.takenUp_le hk.follows.le) hn.doneUntil
  idle hd' := by
    cases hdd : (f.node n).dispatch with
    | none => exact ha.idle hdd
    | some d =>
      obtain ⟨d', hd'', -⟩ := hn.to_new hdd
      rw [hd'] at hd''
      cases hd''

/-- A notice hands nothing over. -/
lemma told {y : History} {z : Notice} (ha : f.Announced n events) (h : f.DispatchesOn n)
    (ht : f.Tracks) (hf : f.Frame m g)
    (node : g.node n = { f.node n with history := y }.notify z) (tasks : g.tasks = f.tasks) :
    g.Announced n events where
  handed d' x hd' hx := by
    rw [node] at hd' ⊢
    obtain ⟨d, hd, e⟩ := DispatchesOn.notified_cases hd'
    rw [tasks, e, DispatchesOn.task_notified] at hx
    obtain ⟨x', k, hx', hk, -, agenda⟩ := h.busy ht hd
    rw [hx] at hx'
    cases hx'
    simp only [Node.notify_fields]
    exact (ha.handed d x hd hx).grow hf.log (Nat.le_trans agenda.takenUp_le hk.follows.le) rfl
  idle hd' := by
    cases hd : (f.node n).dispatch with
    | none => exact ha.idle hd
    | some d =>
      rw [node] at hd'
      obtain ⟨d', hd'', -⟩ := DispatchesOn.dispatch_notify (y := { f.node n with history := y })
        (z := z) hd
      rw [hd'] at hd''
      cases hd''

/-- A dispatcher that begins has handed nothing over. -/
lemma begun (h : f.DispatchesOn n) (hs : (f.node n).started = false)
    (new : g.tasks[f.tasks.length]? = some ⟨n, .dispatch, none⟩)
    (hd : (g.node n).dispatch = some ⟨[], true, f.tasks.length⟩)
    (mark : (g.node n).mark = (f.node n).mark) : g.Announced n [] where
  handed d' y hd' hy := by
    obtain ⟨-, -, zero⟩ := h.unstarted hs
    rw [hd] at hd'
    cases hd'
    rw [new] at hy
    cases hy
    rw [mark, Agenda.Handed, Point.takenUp_dispatch, zero]
    rfl
  idle _ := rfl

/-- A step of the dispatcher hands the next event over, if there is one. -/
lemma served {d d' : Dispatch} {p : Point} (ha : f.Announced n events) (h : f.DispatchesOn n)
    (ht : f.Tracks) (hf : f.Frame m g) (hd : (f.node n).dispatch = some d)
    (hx : f.tasks[d.task]? = some x) (hy : ∃ y, g.tasks[d.task]? = some y ∧ y.point = p)
    (hd' : (g.node n).dispatch = some d') (same : d'.task = d.task)
    (duty : Duty x.point d (f.node n).mark p d' (g.node n).mark) :
    g.Announced n (events ++ x.point.nextEvent?.toList) where
  handed d'' y hd'' hy' := by
    obtain ⟨z, hz, rfl⟩ := hy
    rw [hd'] at hd''
    cases hd''
    rw [same, hz] at hy'
    cases hy'
    obtain ⟨x', k, hx', hk, -, agenda⟩ := h.busy ht hd
    rw [hx] at hx'
    cases hx'
    refine (agenda.handed_duty ht.sound.numbered (ha.handed d x hd hx) duty).grow hf.log ?_ rfl
    exact Nat.le_trans (agenda.duty ht.sound.numbered duty).takenUp_le hk.follows.le
  idle hd'' := by
    rw [hd'] at hd''
    cases hd''

end Announced

/-! ## Calls to listeners -/

/-- Whether the dispatcher of a node still has to call listeners for a version, or has called some
that have not ended. -/
def Owes (f : Fleet) (n : Nat) (v : Version) : Prop :=
  ∃ z : Notice, z.version = v ∧ z.events ≠ [] ∧
    ((∃ (t : Nat) (x : Task), f.tasks[t]? = some x ∧ x.node = n ∧ x.point.notice? = some z) ∨
      ∃ d, (f.node n).dispatch = some d ∧ z ∈ d.queue)

/-- A node owes no calls for the versions that are done. -/
theorem DispatchesOn.not_owes (h : f.DispatchesOn n) (ht : f.Tracks) {v : Version}
    (hv : v ≤ (f.node n).mark.doneUntil) : ¬ f.Owes n v := by
  have done : v.number.val ≤ (f.node n).mark.doneUntil.number.val := hv
  rintro ⟨z, rfl, hz, ⟨t, x, hx, hxn, hxz⟩ | ⟨d, hd, hq⟩⟩
  · obtain ⟨d, hd, rfl⟩ := h.named t x hx hxn (Point.dispatches_of_notice hxz)
    obtain ⟨x', k, hx', -, -, agenda⟩ := h.busy ht hd
    rw [hx] at hx'
    cases hx'
    rcases agenda.current z hxz with ⟨-, none⟩ | ⟨next, -⟩
    · exact hz none
    · omega
  · obtain ⟨x, k, hx, -, -, agenda⟩ := h.busy ht hd
    obtain ⟨m, leads, -⟩ := agenda.queued
    rcases leads.later ht.sound.numbered hq with none | later
    · exact hz none
    · have := x.point.le_takenUp (f.node n).mark.doneUntil.number.val
      omega

end

end Fleet

end SchemaCatalog
