import SchemaCatalog.Proofs.Publishing.Account

/-!
# What comes of a publication

An event that is published is told to all who listen to it at that moment, once to each registration
and to nobody else, and nothing is recorded before the last of them has answered. Then the calls
that failed are recorded, in the order of registration, and reported by their number
(`Chronicle.Publication`). Nothing else is ever recorded but deliveries that are repeated and fail
again, so that a publisher counts all failures and keeps the latest of them, as many as it has room
for (`Chronicle.failures_kept`).
-/

namespace SchemaCatalog

namespace Point

variable {p : Point} {event : Event} {after : AfterCalls}

lemma begins_of_publication (h : p.publication? = some (event, after))
    (listeners : EventType → List String) :
    p.begins listeners = (listeners event.eventType).map fun l => (l, event) := by
  cases p with
  | announce v events =>
    cases events with
    | nil => cases h
    | cons first rest =>
      cases h
      rfl
  | publish first =>
    cases h
    rfl
  | _ => cases h

/-- A task that is to publish an event neither waits for calls nor repeats a delivery. -/
lemma free_of_publication (h : p.publication? = some (event, after)) :
    p.redelivery? = none ∧ ∀ event calls after, p ≠ .gather event calls after := by
  cases p with
  | announce v events => exact ⟨rfl, fun _ _ _ => Point.noConfusion⟩
  | publish first => exact ⟨rfl, fun _ _ _ => Point.noConfusion⟩
  | _ => cases h

end Point

/-- Of the steps that have to do with publishing only the beginning of a publication and those
during it lead to calls that are under way. -/
lemma Fleet.gather_of_publishes {f : Fleet} {t : Nat} {x y : Task} {event : Event}
    {calls : List Call} {after : AfterCalls} (gated : f.Gated) (hx : f.tasks[t]? = some x)
    (publishes : x.point.publishes = true) (hy : (f.befall (.step t)).tasks[t]? = some y)
    (hp : y.point = .gather event calls after) :
    x.node = y.node ∧ (x.point.publication? = some (event, after) ∨
      ∃ calls', x.point = .gather event calls' after) := by
  -- The step states to which point the task goes, which is where it stands then.
  have own : ∀ {change : Publisher → Publisher} {p : Point},
      f.Says t x change p (f.befall (.step t)) →
        x.node = y.node ∧ p = .gather event calls after := by
    intro change p moved
    obtain ⟨node, point⟩ := moved.stands hy
    exact ⟨node.symm, point.symm.trans hp⟩
  cases e : x.point with
  | announce v events =>
    rw [e] at publishes
    cases events with
    | nil => cases publishes
    | cons first rest =>
      obtain ⟨node, point⟩ := own (says_publish gated hx (by rw [e]; rfl))
      cases point
      exact ⟨node, .inl rfl⟩
  | publish first =>
    obtain ⟨node, point⟩ := own (says_publish gated hx (by rw [e]; rfl))
    cases point
    exact ⟨node, .inl rfl⟩
  | gather first calls' after' =>
    obtain ⟨node, point⟩ := own (says_gather gated hx e)
    obtain ⟨rfl, rfl⟩ := eq_of_gathered point
    exact ⟨node, .inr ⟨calls', rfl⟩⟩
  | redeliver =>
    obtain ⟨-, point⟩ := own (says_redeliver gated hx e)
    cases point
  | redeliverRest pending delivered =>
    rw [e] at publishes
    cases pending with
    | nil => cases publishes
    | cons current pending =>
      obtain ⟨-, point⟩ := own (says_redelivery gated hx (by rw [e]; rfl))
      split at point
      · cases point
      · cases point
  | redelivering current pending delivered =>
    obtain ⟨-, point⟩ := own (says_redelivery gated hx (by rw [e]; rfl))
    split at point
    · cases point
    · cases point
  | _ =>
    rw [e] at publishes
    cases publishes

/-- After its calls a task is not among its calls any more. -/
lemma next_ne_gather {after after' : AfterCalls} {failures : Nat} {event : Event}
    {calls : List Call} : after.next failures ≠ .gather event calls after' := by
  cases after with
  | report => exact Point.noConfusion
  | dispatch v rest => exact Point.noConfusion

namespace Chronicle

/-- At this moment a task publishes an event on a node, with something to come after the calls. -/
structure Publishes (k : Chronicle) (n t i : Nat) (event : Event) (after : AfterCalls) : Prop where
  happening : k.happenings i = .step t
  task : ∃ x, (k.fleet i).tasks[t]? = some x ∧ x.node = n ∧
    x.point.publication? = some (event, after)

/-- Who listens on a node to an event at this moment, in the order of registration. -/
def audience (k : Chronicle) (n i : Nat) (event : Event) : List String :=
  ((k.fleet i).node n).publisher.listenersOf event.eventType

/-- The modes in which listeners have answered before a moment `j` the calls that a task began at
the moment `i`: each in that in which it is at the first step of the task from then on at which it
is not at the gate. -/
def replies (k : Chronicle) (t i : Nat) : Nat → String → Mode
  | 0 => fun _ => .gate
  | j + 1 =>
    if i ≤ j ∧ (k.happenings j).steps t then (k.fleet j).heard (k.replies t i j)
    else k.replies t i j

/-- Since a task began calls to these listeners at the moment `i` it has taken no step up to the
moment `j` at which all of them had answered. -/
def Open (k : Chronicle) (t i : Nat) (names : List String) (j : Nat) : Prop :=
  i < j ∧ ∀ m, i < m → m < j → k.happenings m = .step t →
    ∃ name ∈ names, k.replies t i (m + 1) name = .gate

/-- The calls by which an event is told to its listeners, as far as these have answered. -/
def answered (k : Chronicle) (t i : Nat) (names : List String) (j : Nat) : List Call :=
  Call.inModes (k.replies t i j) names

/-- What holds at the moment `j` of a task that has not finished the calls that it began at the
moment `i`: it stands among them, has recorded nothing, and has called each listener once and nobody
else. -/
structure Awaits (k : Chronicle) (n t i : Nat) (event : Event) (after : AfterCalls)
    (names : List String) (j : Nat) : Prop where
  task : ∃ x, (k.fleet j).tasks[t]? = some x ∧ x.node = n ∧
    x.point = .gather event (k.answered t i names j) after
  records : ∀ m, i ≤ m → m < j → k.happenings m = .step t → k.recordedAt n m = []
  calls : k.callsBy t i j = names.map fun name => ⟨t, name, event⟩

/-- What comes of an event that a task publishes at the moment `i`: it waits for the listeners, and
in the first step that finds them all to have answered it records the calls that failed, and goes on
with their number. -/
structure Publication (k : Chronicle) (n t i : Nat) (event : Event) (after : AfterCalls)
    (names : List String) : Prop where
  waits : ∀ j, k.Open t i names j → k.Awaits n t i event after names j
  ends : ∀ j, k.Open t i names j → k.happenings j = .step t →
    (∀ name ∈ names, k.replies t i (j + 1) name ≠ .gate) →
    k.recordedAt n j = Fleet.failedCalls event (k.answered t i names (j + 1)) ∧
    (∃ y, (k.fleet (j + 1)).tasks[t]? = some y ∧ y.node = n ∧
      y.point = after.next (k.recordedAt n j).length) ∧
    k.callsBy t i (j + 1) = names.map fun name => ⟨t, name, event⟩

variable {k : Chronicle} {n t i j : Nat} {event : Event} {after : AfterCalls} {names : List String}
  {x : Task} {calls : List Call}

/-! ## Replies -/

lemma replies_step (h : i ≤ j) (move : k.happenings j = .step t) :
    k.replies t i (j + 1) = (k.fleet j).heard (k.replies t i j) :=
  if_pos ⟨h, Happening.steps_iff.2 move⟩

lemma replies_still (move : k.happenings j ≠ .step t) :
    k.replies t i (j + 1) = k.replies t i j :=
  if_neg fun both => move (Happening.steps_iff.1 both.2)

lemma replies_blank (h : j ≤ i) : k.replies t i j = fun _ => .gate := by
  induction j with
  | zero => rfl
  | succ j ih =>
    rw [replies, if_neg fun both => Nat.not_le.2 h both.1]
    exact ih (Nat.le_of_succ_le h)

/-- The first answers are those of the listeners that are not at the gate. -/
lemma replies_first (move : k.happenings i = .step t) :
    k.replies t i (i + 1) = (k.fleet i).modes := by
  rw [replies_step (Nat.le_refl i) move, replies_blank (Nat.le_refl i)]
  funext name
  exact Mode.or_of_gate rfl _

lemma Open.pred (h : k.Open t i names (j + 1)) (hj : i < j) : k.Open t i names j :=
  ⟨hj, fun m him hmj => h.2 m him (Nat.lt_succ_of_lt hmj)⟩

lemma Open.succ (h : k.Open t i names j)
    (waits : k.happenings j = .step t → ∃ name ∈ names, k.replies t i (j + 1) name = .gate) :
    k.Open t i names (j + 1) := by
  refine ⟨Nat.lt_succ_of_lt h.1, fun m him hmj move => ?_⟩
  rcases Nat.lt_succ_iff_lt_or_eq.1 hmj with hlt | rfl
  · exact h.2 m him hlt move
  · exact waits move

/-! ## Calls -/

/-- What a task of a node records in its step is what it reports. -/
lemma recordedAt_of_step (move : k.happenings j = .step t) (hx : (k.fleet j).tasks[t]? = some x) :
    k.recordedAt x.node j = (k.fleet j).reports t := by
  rw [recordedAt, move, Fleet.records, hx]
  exact if_pos rfl

lemma callsBy_still (h : i ≤ j) (move : k.happenings j ≠ .step t) :
    k.callsBy t i (j + 1) = k.callsBy t i j := by
  rw [callsBy_succ h, if_neg (mt Happening.steps_iff.1 move), List.append_nil]

lemma callsBy_step (h : i ≤ j) (move : k.happenings j = .step t)
    (hx : (k.fleet j).tasks[t]? = some x) : k.callsBy t i (j + 1) = k.callsBy t i j ++
      (x.point.begins ((k.fleet j).node x.node).publisher.listenersOf).map
        fun c => ⟨t, c.1, c.2⟩ := by
  rw [callsBy_succ h, if_pos (Happening.steps_iff.2 move), Fleet.begins, hx]

lemma befall_step (move : k.happenings j = .step t) :
    k.fleet (j + 1) = (k.fleet j).befall (.step t) := by
  rw [fleet, move]

/-- A task that publishes an event has then called all who listen to it. -/
lemma Publishes.begins (h : k.Publishes n t i event after) :
    (∃ x, (k.fleet (i + 1)).tasks[t]? = some x ∧ x.node = n ∧
      x.point = .gather event (k.answered t i (k.audience n i event) (i + 1)) after) ∧
    k.recordedAt n i = [] ∧
    k.callsBy t i (i + 1) = (k.audience n i event).map fun name => ⟨t, name, event⟩ := by
  obtain ⟨x, hx, rfl, hp⟩ := h.task
  have moved := Fleet.says_publish (k.gated i) hx hp
  rw [← befall_step h.happening] at moved
  obtain ⟨idle, free⟩ := Point.free_of_publication hp
  refine ⟨?_, ?_, ?_⟩
  · rw [answered, replies_first h.happening]
    exact moved.own
  · rw [recordedAt_of_step h.happening hx, Fleet.reports_eq_nil hx idle free]
  · rw [callsBy_step (Nat.le_refl i) h.happening hx, callsBy_self, List.nil_append,
      Point.begins_of_publication hp, List.map_map]
    rfl

/-- A task among its calls begins no others. -/
lemma Awaits.calls_succ (h : k.Awaits n t i event after names j) (hij : i ≤ j) :
    k.callsBy t i (j + 1) = names.map fun name => ⟨t, name, event⟩ := by
  by_cases move : k.happenings j = .step t
  · obtain ⟨x, hx, -, hp⟩ := h.task
    rw [callsBy_step hij move hx, hp, h.calls]
    exact List.append_nil _
  · rw [callsBy_still hij move, h.calls]

/-- While a listener has not answered the task waits. -/
lemma Awaits.succ (h : k.Awaits n t i event after names j) (hij : i ≤ j)
    (waits : k.happenings j = .step t → ∃ name ∈ names, k.replies t i (j + 1) name = .gate) :
    k.Awaits n t i event after names (j + 1) := by
  obtain ⟨x, hx, rfl, hp⟩ := h.task
  by_cases move : k.happenings j = .step t
  · have gate := waits move
    rw [replies_step hij move] at gate
    obtain ⟨reports, gathered⟩ := Fleet.gather_waits (k.gated j) hx hp gate
    have moved := Fleet.says_gather (k.gated j) hx hp
    rw [answered, gathered, ← befall_step move] at moved
    refine ⟨?_, fun m him hmj step => ?_, h.calls_succ hij⟩
    · rw [answered, replies_step hij move]
      exact moved.own
    · rcases Nat.lt_succ_iff_lt_or_eq.1 hmj with hlt | rfl
      · exact h.records m him hlt step
      · rw [recordedAt_of_step move hx, reports]
  · obtain ⟨y, hy, hyn, hyp⟩ := (k.keeps j).task t x hx
    refine ⟨⟨y, hy, hyn, ?_⟩, fun m him hmj step => ?_, h.calls_succ hij⟩
    · rw [hyp (.inl move), hp, answered, answered, replies_still move]
    · rcases Nat.lt_succ_iff_lt_or_eq.1 hmj with hlt | rfl
      · exact h.records m him hlt step
      · exact absurd step move

/-- When all listeners have answered the task records the calls that failed. -/
lemma Awaits.ends (h : k.Awaits n t i event after names j) (hij : i ≤ j)
    (move : k.happenings j = .step t) (all : ∀ name ∈ names, k.replies t i (j + 1) name ≠ .gate) :
    k.recordedAt n j = Fleet.failedCalls event (k.answered t i names (j + 1)) ∧
      ∃ y, (k.fleet (j + 1)).tasks[t]? = some y ∧ y.node = n ∧
        y.point = after.next (k.recordedAt n j).length := by
  obtain ⟨x, hx, rfl, hp⟩ := h.task
  rw [replies_step hij move] at all
  obtain ⟨reports, gathered⟩ := Fleet.gather_ends (k.gated j) hx hp all
  have moved := Fleet.says_gather (k.gated j) hx hp
  rw [answered, gathered, ← befall_step move] at moved
  rw [recordedAt_of_step move hx, answered, replies_step hij move]
  exact ⟨reports, moved.own⟩

lemma Publishes.awaits (h : k.Publishes n t i event after)
    (still : k.Open t i (k.audience n i event) j) :
    k.Awaits n t i event after (k.audience n i event) j := by
  obtain ⟨hij, -⟩ := id still
  induction hij with
  | refl =>
    obtain ⟨task, records, calls⟩ := h.begins
    refine ⟨task, fun m him hmj _ => ?_, calls⟩
    rw [Nat.le_antisymm (Nat.le_of_lt_succ hmj) him, records]
  | @step j hij ih =>
    exact (ih (still.pred hij)).succ (Nat.le_of_lt hij) (still.2 j hij (Nat.lt_succ_self j))

/-- What comes of each publication. -/
lemma Publishes.publication (h : k.Publishes n t i event after) :
    k.Publication n t i event after (k.audience n i event) where
  waits _ still := h.awaits still
  ends j still move all := by
    have awaits := h.awaits still
    obtain ⟨records, task⟩ := awaits.ends (Nat.le_of_lt still.1) move all
    exact ⟨records, task, awaits.calls_succ (Nat.le_of_lt still.1)⟩

/-! ## Where failures come from -/

/-- A step to calls that are under way is the beginning of a publication, or one during it. -/
lemma gather_of_step (move : k.happenings j = .step t) (hx : (k.fleet j).tasks[t]? = some x)
    {y : Task} (hy : (k.fleet (j + 1)).tasks[t]? = some y)
    (hp : y.point = .gather event calls after) :
    x.node = y.node ∧ (x.point.publication? = some (event, after) ∨
      ∃ calls', x.point = .gather event calls' after) := by
  rw [befall_step move] at hy
  by_cases publishes : x.point.publishes = true
  · exact Fleet.gather_of_publishes (k.gated j) hx publishes hy hp
  · -- Any other step puts the task among no calls.
    rw [Bool.not_eq_true] at publishes
    obtain ⟨z, hz, -, hzp⟩ := (Fleet.mute_befall hx publishes).calling t y hy (by rw [hp]; rfl)
    rw [hx] at hz
    cases hz
    rw [hzp, hp] at publishes
    cases publishes

/-- A task among its calls has begun them by publishing the event, and is not done with them. -/
lemma publication_of_gather (hx : (k.fleet j).tasks[t]? = some x)
    (hp : x.point = .gather event calls after) :
    ∃ i, k.Publishes x.node t i event after ∧ k.Open t i (k.audience x.node i event) j := by
  induction j generalizing x calls with
  | zero => cases hx
  | succ j ih =>
    by_cases move : k.happenings j = .step t
    · cases hz : (k.fleet j).tasks[t]? with
      | none =>
        have stuck : (k.fleet j).step t = none := by rw [Fleet.step, hz]
        rw [befall_step move, Fleet.befall, stuck, Option.getD_none, hz] at hx
        cases hx
      | some z =>
        obtain ⟨node, begins | ⟨calls', waits⟩⟩ := gather_of_step move hz hx hp
        · refine ⟨j, ⟨move, z, hz, node, begins⟩, Nat.lt_succ_self j, fun m hjm hmj => ?_⟩
          exact absurd hmj (Nat.not_lt.2 hjm)
        · obtain ⟨i, publishes, still⟩ := ih hz waits
          refine ⟨i, node ▸ publishes, ?_⟩
          rw [← node]
          refine still.succ fun _ => ?_
          by_contra none
          have all : ∀ name ∈ k.audience z.node i event, k.replies t i (j + 1) name ≠ .gate :=
            fun name mem gate => none ⟨name, mem, gate⟩
          obtain ⟨-, y, hy, -, hyp⟩ :=
            (publishes.awaits still).ends (Nat.le_of_lt still.1) move all
          rw [hx] at hy
          cases hy
          exact next_ne_gather (hyp.symm.trans hp)
    · obtain ⟨z, hz, hzn, hzp⟩ | step := (k.airs j).calling t x hx (by rw [hp]; rfl)
      · obtain ⟨i, publishes, still⟩ := ih hz (hzp.trans hp)
        exact ⟨i, hzn ▸ publishes, hzn ▸ still.succ fun step => absurd step move⟩
      · exact absurd step move

/-- Where what is recorded on a node at a moment comes from: from a publication all of whose
listeners have answered, or from a delivery that is repeated. -/
inductive Cause (k : Chronicle) (n j : Nat) : Prop where
  | publication {t i : Nat} {event : Event} {after : AfterCalls} : k.happenings j = .step t →
      k.Publishes n t i event after → k.Open t i (k.audience n i event) j →
      (∀ name ∈ k.audience n i event, k.replies t i (j + 1) name ≠ .gate) → Cause k n j
  | redelivery {t : Nat} {d : FailedDelivery} {r : CallResult} : k.happenings j = .step t →
      (k.fleet j).redelivers? t = some (d, r) → k.recordedAt n j = (d.again r).toList → Cause k n j

/-- Nothing is recorded without a cause. -/
lemma cause_of_recorded (h : k.recordedAt n j ≠ []) : k.Cause n j := by
  cases move : k.happenings j with
  | step t =>
    cases hx : (k.fleet j).tasks[t]? with
    | none =>
      rw [recordedAt, move, Fleet.records, hx] at h
      exact absurd rfl h
    | some x =>
      by_cases node : x.node = n
      · subst node
        have reports := recordedAt_of_step move hx
        rw [Fleet.reports, hx, Option.map_some] at reports
        split at reports
        · rename_i event calls after gathers
          -- Calls that are gathered were begun by a publication, and are held up while anybody
          -- is at a gate. So nobody is when they are recorded.
          obtain ⟨i, publishes, still⟩ := publication_of_gather hx (Option.some.inj gathers)
          refine .publication move publishes still fun name mem gate => h ?_
          have awaits := (publishes.awaits still).succ (Nat.le_of_lt still.1)
            fun _ => ⟨name, mem, gate⟩
          exact awaits.records j (Nat.le_of_lt still.1) (Nat.lt_succ_self j) move
        · cases redelivers : (k.fleet j).redelivers? t with
          | none =>
            rw [redelivers] at reports
            exact absurd reports h
          | some a =>
            rw [redelivers] at reports
            exact .redelivery move redelivers reports
      · rw [recordedAt, move, Fleet.records, hx] at h
        exact absurd (if_neg fun e => node (Option.some.inj e)) h
  | request m skew r =>
    rw [recordedAt, move] at h
    exact absurd rfl h
  | join c link =>
    rw [recordedAt, move] at h
    exact absurd rfl h
  | turnClock c =>
    rw [recordedAt, move] at h
    exact absurd rfl h

/-- Whatever happens, a publisher knows who was registered with it, counts all failures that were
recorded, and keeps the latest of those since its buffer was last taken out, as many as there is
room for. Each publication calls all who listen once, and records its failures in the order of
registration when all have answered. Each repeated delivery that fails again is recorded, too, and
nothing else is. -/
theorem failures_kept (k : Chronicle) {s n : Nat} {c : Config} (h : k.Joins s n c) :
    (∀ i, s < i → ((k.fleet i).node n).publisher = {
      registrations := k.registered n i
      failures := (k.recorded n i).length
      failed := (k.undrained n i).drop ((k.undrained n i).length - c.failureBuffer.val)
      capacity := c.failureBuffer }) ∧
    (∀ t i event after, k.Publishes n t i event after →
      k.Publication n t i event after (k.audience n i event)) ∧
    (∀ t j x d r, k.happenings j = .step t → (k.fleet j).tasks[t]? = some x →
      (k.fleet j).redelivers? t = some (d, r) → k.recordedAt x.node j = (d.again r).toList) ∧
    ∀ j, k.recordedAt n j ≠ [] → k.Cause n j :=
  ⟨fun _ hi => publisher_eq h hi, fun _ _ _ _ publishes => publishes.publication,
    fun _ _ _ _ _ move hx redelivers =>
      (recordedAt_of_step move hx).trans (Fleet.reports_of_redelivers redelivers),
    fun _ some => cause_of_recorded some⟩

/-! ## A publication of which all calls fail -/

/-- Room for one failed delivery. -/
def narrow : Config := { Config.unset with failureBuffer := 1 }

/-- A node with room for one failed delivery publishes an event to two listeners, of whom one fails
at once and the other one crashes when it leaves the gate. -/
def crowded : Chronicle where
  clock := Clock.unset
  happenings := fun
    | 0 => .join narrow .shared
    | 1 => .request 0 .zero (.listen "first" [.zoneDrop] (.fail "closed"))
    | 2 => .request 0 .zero (.listen "second" [.zoneDrop] .gate)
    | 3 => .request 0 .zero (.publish (.dropZone 7) ⟨1⟩ ⟨1⟩)
    | 4 => .step 0
    | 5 => .step 0
    | 6 => .request 0 .zero (.setMode "second" .crash)
    | _ => .step 0

/-- The event that is published. -/
def zoneDropped : Event := ⟨⟨1⟩, ⟨1⟩, .zoneDropped 7⟩

lemma crowded_joins : crowded.Joins 0 0 narrow := ⟨rfl, .inl ⟨_, rfl⟩⟩

lemma crowded_publishes : crowded.Publishes 0 0 4 zoneDropped .report :=
  ⟨rfl, ⟨0, .publish zoneDropped, none⟩, rfl, rfl, rfl⟩

/-- Until the second listener leaves the gate the publication is open. -/
lemma crowded_open : crowded.Open 0 4 ["first", "second"] 7 := by
  refine ⟨by decide, fun m hm hm' move => ⟨"second", by decide, ?_⟩⟩
  obtain rfl | rfl : m = 5 ∨ m = 6 := by omega
  · decide +kernel
  · cases move

theorem failures_kept_crowded :
    (crowded.fleet 8).outcome? 0 = some (.failures 2) ∧
    crowded.callsBy 0 4 8 = [⟨0, "first", zoneDropped⟩, ⟨0, "second", zoneDropped⟩] ∧
    crowded.recordedAt 0 7 =
      [⟨zoneDropped, "first", "closed"⟩, ⟨zoneDropped, "second", crashReason⟩] ∧
    ((crowded.fleet 8).node 0).publisher.failures = 2 ∧
    ((crowded.fleet 8).node 0).publisher.failed = [⟨zoneDropped, "second", crashReason⟩] := by
  obtain ⟨account, publication, -, -⟩ := failures_kept crowded crowded_joins
  have audience : crowded.audience 0 4 zoneDropped = ["first", "second"] := by decide +kernel
  have publication := publication 0 4 zoneDropped .report crowded_publishes
  rw [audience] at publication
  obtain ⟨records, ⟨y, hy, -, point⟩, calls⟩ :=
    publication.ends 7 crowded_open rfl (by decide +kernel)
  have recorded : crowded.recordedAt 0 7 =
      [⟨zoneDropped, "first", "closed"⟩, ⟨zoneDropped, "second", crashReason⟩] :=
    records.trans (by decide +kernel)
  rw [recorded] at point
  refine ⟨?_, calls, recorded, ?_, ?_⟩
  · rw [Fleet.outcome?, hy, Option.bind_some, Task.outcome?, point]
    rfl
  · rw [account 8 (by decide)]
    decide +kernel
  · rw [account 8 (by decide)]
    decide +kernel

end Chronicle

end SchemaCatalog
