import SchemaCatalog.Proofs.Fleet.Happening
import SchemaCatalog.Proofs.Publishing.Buffer
import SchemaCatalog.Proofs.Publishing.Mute

/-!
# Publications and redeliveries, step by step

A task that publishes an event calls all who listen to it, waits until they have answered, and then
records the calls that failed. One that repeats failed deliveries takes them out, and makes one call
after another, each of which is recorded if it fails again. What such a step does to publishers and
where it takes its task is said once for each point (`Fleet.Says`).
-/

namespace SchemaCatalog

/-- Where a task goes on after its calls, of which so many failed. -/
def AfterCalls.next (failures : Nat) : AfterCalls → Point
  | .report => .ended (.failures failures)
  | .dispatch v rest => .announce v rest

namespace Point

/-- The event that a task at this point publishes in its next step, and what is to come after the
calls. -/
def publication? : Point → Option (Event × AfterCalls)
  | .announce v (event :: rest) => some (event, .dispatch v rest)
  | .publish event => some (event, .report)
  | _ => none

/-- The failed delivery that a task at this point is about to repeat or repeats, those that come
after it, and how many were repeated with success before it. -/
def redelivery? : Point → Option (FailedDelivery × List FailedDelivery × Nat)
  | .redeliverRest (current :: pending) delivered => some (current, pending, delivered)
  | .redelivering current pending delivered => some (current, pending, delivered)
  | _ => none

end Point

/-- A delivery that was repeated, if it failed again, with the reason of that. -/
def FailedDelivery.again (d : FailedDelivery) : CallResult → Option FailedDelivery
  | .delivered => none
  | .failed reason => some { d with reason }

namespace Point

lemma redelivery?_eq_none {p : Point} (h : p.publishes = false) : p.redelivery? = none := by
  cases p with
  | redeliverRest pending delivered =>
    cases pending with
    | nil => rfl
    | cons current pending => cases h
  | redelivering current pending delivered => cases h
  | _ => rfl

end Point

namespace Fleet

/-- The failed delivery that a task repeats to its end in its next step, and how it ends. -/
def redelivers? (f : Fleet) (t : Nat) : Option (FailedDelivery × CallResult) :=
  match f.tasks[t]?.bind fun x => x.point.redelivery? with
  | some (current, _, _) => (f.modes current.listener).reply?.map fun r => (current, r)
  | none => none

/-- What a task records in its next step: the failed calls of a publication that all have ended
then, or a repeated delivery that fails again. -/
def reports (f : Fleet) (t : Nat) : List FailedDelivery :=
  match f.tasks[t]?.map Task.point with
  | some (.gather event calls _) =>
    let ended := (f.resumeCalls t calls).2
    if !f.heldUp t calls && ended.all fun c => c.result.isSome then failedCalls event ended else []
  | _ => ((f.redelivers? t).bind fun a => a.1.again a.2).toList

/-- A step of a task, after which the publisher of its node has changed so and the task stands at
this point. -/
structure Says (f : Fleet) (t : Nat) (x : Task) (change : Publisher → Publisher) (p : Point)
    (g : Fleet) : Prop where
  nodes : g.nodes.length = f.nodes.length
  publisher : ∀ n, n < f.nodes.length → (g.node n).publisher =
    if n = x.node then change (f.node n).publisher else (f.node n).publisher
  own : ∃ y, g.tasks[t]? = some y ∧ y.node = x.node ∧ y.point = p
  others : ∀ s, s ≠ t → g.tasks[s]? = f.tasks[s]?
  gated : g.Gated

section

variable {f g k : Fleet} {t : Nat} {x : Task} {p : Point} {change : Publisher → Publisher}
  {event : Event} {after : AfterCalls} {seen : String → Mode} {names : List String}
  {calls : List Call}

/-! ## How a step ends -/

/-- Of the nodes there are one has changed. -/
lemma node_onNode {n : Nat} (hn : n < f.nodes.length) (m : Nat) (c : Node → Node) :
    (f.onNode m c).node n = if n = m then c (f.node n) else f.node n := by
  rw [node, node, onNode, List.getD_eq_getElem?_getD, List.getD_eq_getElem?_getD,
    List.getElem?_modify, List.getElem?_eq_getElem hn]
  by_cases e : m = n
  · simp [e]
  · simp [e, Ne.symm e]

lemma Says.congr (h : f.Says t x change p g) (nodes : k.nodes = g.nodes)
    (tasks : k.tasks = g.tasks) (listeners : k.listeners = g.listeners) :
    f.Says t x change p k where
  nodes := (congrArg List.length nodes).trans h.nodes
  publisher n hn := by
    rw [node_congr nodes]
    exact h.publisher n hn
  own := tasks ▸ h.own
  others := tasks ▸ h.others
  gated := h.gated.congr listeners

/-- Where the task stands after its step. -/
lemma Says.stands (h : f.Says t x change p g) {y : Task} (hy : g.tasks[t]? = some y) :
    y.node = x.node ∧ y.point = p := by
  obtain ⟨z, hz, node, point⟩ := h.own
  rw [hy] at hz
  cases hz
  exact ⟨node, point⟩

/-- A step that changes listeners at most, also one that the task cannot take. -/
lemma says_stays (hx : f.tasks[t]? = some x) (hk : k.core = f.core) (gated : k.Gated) :
    f.Says t x id x.point k := by
  obtain ⟨-, -, -, -, -, nodes, tasks⟩ := core_inj hk
  refine ⟨by rw [nodes], fun n _ => ?_, ⟨x, tasks ▸ hx, rfl, rfl⟩, fun s _ => by rw [tasks], gated⟩
  rw [node_congr nodes]
  exact (ite_self _).symm

/-- A step that changes listeners and the place of its task. -/
lemma says_moveTo (hx : f.tasks[t]? = some x) (hk : k.core = f.core) (gated : k.Gated) (p : Point) :
    f.Says t x id p (k.moveTo t p) := by
  obtain ⟨-, -, -, -, -, nodes, tasks⟩ := core_inj hk
  refine ⟨congrArg List.length nodes, fun n _ => ?_,
    ⟨_, getElem?_moveTo (tasks ▸ hx) p, rfl, rfl⟩, fun s hs => ?_, gated⟩
  · rw [node_congr (f := k.moveTo t p) nodes]
    exact (ite_self _).symm
  · rw [moveTo, List.getElem?_modify_ne _ _ hs.symm, tasks]

/-- A step that changes the publisher of its node besides. -/
lemma says_onNode (hx : f.tasks[t]? = some x) (hk : k.core = f.core) (gated : k.Gated)
    {c : Node → Node} (hc : (c (f.node x.node)).publisher = change (f.node x.node).publisher)
    (p : Point) : f.Says t x change p ((k.onNode x.node c).moveTo t p) := by
  obtain ⟨-, -, -, -, -, nodes, tasks⟩ := core_inj hk
  refine ⟨(List.length_modify ..).trans (congrArg List.length nodes), fun n hn => ?_,
    ⟨_, getElem?_moveTo (tasks ▸ hx) p, rfl, rfl⟩, fun s hs => ?_, gated⟩
  · rw [show ((k.onNode x.node c).moveTo t p).node n = (k.onNode x.node c).node n from rfl,
      node_onNode (nodes ▸ hn), node_congr nodes]
    split
    · rename_i e
      rw [e, hc]
    · rfl
  · rw [moveTo, List.getElem?_modify_ne _ _ hs.symm, ← tasks]
    rfl

lemma says_finish {o : Outcome} (h : f.Says t x change (.ended o) (g.moveTo t (.ended o))) :
    f.Says t x change (.ended o) (g.finish t o) :=
  h.congr (by simp) (by simp) (by simp)

/-! ## Publications -/

/-- A task that publishes an event is then among its calls, as far as the listeners have answered
at once. -/
lemma says_publish (gated : f.Gated) (hx : f.tasks[t]? = some x)
    (hp : x.point.publication? = some (event, after)) :
    f.Says t x id (.gather event (Call.inModes f.modes
      ((f.node x.node).publisher.listenersOf event.eventType)) after) (f.befall (.step t)) := by
  have begun := f.beginCalls_inModes t event
    ((f.node x.node).publisher.listenersOf event.eventType)
  have moved : f.Says t x id _ (f.publish t x.node event after) :=
    says_moveTo hx (core_beginCalls ..) gated.beginCalls _
  rw [begun] at moved
  cases e : x.point with
  | announce v events =>
    rw [e] at hp
    cases events with
    | nil => cases hp
    | cons event rest =>
      cases hp
      simp only [befall, step, hx, e]
      exact moved
  | publish event =>
    rw [e] at hp
    cases hp
    simp only [befall, step, hx, e]
    exact moved
  | _ =>
    rw [e] at hp
    cases hp

/-- Where a task goes from its calls. -/
def gathered (f : Fleet) (t : Nat) (event : Event) (calls : List Call) (after : AfterCalls) :
    Point :=
  if f.heldUp t calls then .gather event calls after
  else if (f.resumeCalls t calls).2.all fun c => c.result.isSome then
    after.next (failedCalls event (f.resumeCalls t calls).2).length
  else .gather event (f.resumeCalls t calls).2 after

/-- A task that stays among its calls goes on to wait for the same ones. -/
lemma eq_of_gathered {event' : Event} {after' : AfterCalls} {calls' : List Call}
    (h : f.gathered t event calls after = .gather event' calls' after') :
    event = event' ∧ after = after' := by
  rw [gathered] at h
  split at h
  · cases h
    exact ⟨rfl, rfl⟩
  · split at h
    · cases after with
      | report => cases h
      | dispatch v rest => cases h
    · cases h
      exact ⟨rfl, rfl⟩

/-- A task among its calls goes on when all have ended, and records those that failed. -/
lemma says_gather (gated : f.Gated) (hx : f.tasks[t]? = some x)
    (hp : x.point = .gather event calls after) :
    f.Says t x (fun q => (f.reports t).foldl Publisher.record q) (f.gathered t event calls after)
      (f.befall (.step t)) := by
  have core := core_resumeCalls f t calls
  have next := gated.resumeCalls (t := t) calls
  rw [befall, step, hx, reports, hx, gathered]
  simp only [hp, Option.map_some, stepGather]
  by_cases held : f.heldUp t calls = true
  · simp only [held, if_true, Bool.not_true, Bool.false_and, Bool.false_eq_true, if_false,
      Option.getD_none]
    exact hp ▸ says_stays hx rfl gated
  · rw [Bool.not_eq_true] at held
    simp only [held, Bool.false_eq_true, if_false, Bool.not_false, Bool.true_and]
    by_cases ended : ((f.resumeCalls t calls).2.all fun c => c.result.isSome) = true
    · simp only [ended, if_true]
      cases after with
      | report => exact says_finish (says_onNode hx core next rfl _)
      | dispatch v rest => exact says_onNode hx core next rfl _
    · simp only [ended, if_false, Bool.false_eq_true]
      exact says_moveTo hx core next _

/-- A task that is held up among its calls waits for a listener. -/
lemma Gated.gate_of_heldUp (gated : f.Gated) (held : f.heldUp t (Call.inModes seen names) = true) :
    ∃ name ∈ names, f.heard seen name = .gate := by
  by_contra none
  have left : ∀ name ∈ names, seen name ≠ .gate := by
    intro name mem gate
    exact none ⟨name, mem, (gated.heard_of_heldUp held mem).trans gate⟩
  obtain ⟨some, -⟩ := Bool.and_eq_true_iff.1 held
  obtain ⟨c, hc, waits⟩ := List.any_eq_true.1 some
  rw [Option.isNone_iff_eq_none] at waits
  have ended := Call.inModes_ended.2 left c hc
  rw [waits] at ended
  cases ended

/-- A task stays among its calls while one of its listeners has not answered, and records
nothing. -/
lemma gather_waits (gated : f.Gated) (hx : f.tasks[t]? = some x)
    (hp : x.point = .gather event (Call.inModes seen names) after)
    (waits : ∃ name ∈ names, f.heard seen name = .gate) : f.reports t = [] ∧
      f.gathered t event (Call.inModes seen names) after =
        .gather event (Call.inModes (f.heard seen) names) after := by
  have some : ((Call.inModes (f.heard seen) names).all fun c => c.result.isSome) = false := by
    rw [List.all_eq_false]
    obtain ⟨name, mem, gate⟩ := waits
    exact ⟨_, Call.inModes_waits mem gate, Bool.false_ne_true⟩
  rw [reports, hx, gathered]
  simp only [Option.map_some, hp, resumeCalls_inModes, some, Bool.and_false, Bool.false_eq_true,
    if_false, true_and]
  split
  · rename_i held
    rw [Call.inModes_congr fun name mem => gated.heard_of_heldUp held mem]
  · rfl

/-- A task whose listeners have all answered records the calls that failed, and goes on. -/
lemma gather_ends (gated : f.Gated) (hx : f.tasks[t]? = some x)
    (hp : x.point = .gather event (Call.inModes seen names) after)
    (ends : ∀ name ∈ names, f.heard seen name ≠ .gate) :
    f.reports t = failedCalls event (Call.inModes (f.heard seen) names) ∧
      f.gathered t event (Call.inModes seen names) after = after.next (f.reports t).length := by
  have all : ((Call.inModes (f.heard seen) names).all fun c => c.result.isSome) = true :=
    List.all_eq_true.2 (Call.inModes_ended.2 ends)
  have free : f.heldUp t (Call.inModes seen names) = false := by
    by_contra held
    obtain ⟨name, mem, gate⟩ := gated.gate_of_heldUp (by simpa using held)
    exact ends name mem gate
  have reports : f.reports t = failedCalls event (Call.inModes (f.heard seen) names) := by
    rw [reports, hx]
    simp only [Option.map_some, hp, resumeCalls_inModes, all, free, Bool.not_false, Bool.and_self,
      if_true]
  refine ⟨reports, ?_⟩
  rw [reports, gathered, resumeCalls_inModes, free, all]
  rfl

/-! ## Redeliveries -/

/-- A task that repeats failed deliveries takes out all that there are. -/
lemma says_redeliver (gated : f.Gated) (hx : f.tasks[t]? = some x) (hp : x.point = .redeliver) :
    f.Says t x (fun q => q.drain.1) (.redeliverRest (f.node x.node).publisher.failed 0)
      (f.befall (.step t)) := by
  simp only [befall, step, hx, hp]
  exact says_onNode hx rfl gated rfl _

/-- After a repeated delivery the next one comes, and it is recorded if it has failed again. -/
lemma says_afterRedelivery (hx : f.tasks[t]? = some x) (hk : k.core = f.core) (gated : k.Gated)
    (current : FailedDelivery) (pending : List FailedDelivery) (delivered : Nat) (r : CallResult) :
    f.Says t x (fun q => (current.again r).toList.foldl Publisher.record q)
      (.redeliverRest pending (if r = .delivered then delivered + 1 else delivered))
      (k.afterRedelivery t x.node current pending delivered r) := by
  cases r with
  | delivered => exact says_moveTo hx hk gated _
  | failed reason => exact says_onNode hx hk gated rfl _

/-- A delivery is repeated to its end if the listener answers. -/
lemma redelivers_of_point {current : FailedDelivery} {pending : List FailedDelivery}
    {delivered : Nat} (hx : f.tasks[t]? = some x)
    (hp : x.point.redelivery? = some (current, pending, delivered)) :
    f.redelivers? t = (f.modes current.listener).reply?.map fun r => (current, r) := by
  rw [redelivers?, hx, Option.bind_some, hp]

/-- A task that neither waits for calls nor repeats a delivery records nothing. -/
lemma reports_eq_nil (hx : f.tasks[t]? = some x) (idle : x.point.redelivery? = none)
    (free : ∀ event calls after, x.point ≠ .gather event calls after) : f.reports t = [] := by
  rw [reports, hx, Option.map_some]
  split
  · rename_i gathers
    exact absurd (Option.some.inj gathers) (free _ _ _)
  · rw [redelivers?, hx, Option.bind_some, idle]
    rfl

/-- What is recorded of a repeated delivery is that it failed again. -/
lemma reports_of_redelivery {current : FailedDelivery} {pending : List FailedDelivery}
    {delivered : Nat} (hx : f.tasks[t]? = some x)
    (hp : x.point.redelivery? = some (current, pending, delivered)) :
    f.reports t = ((f.modes current.listener).reply?.bind current.again).toList := by
  rw [reports, hx, Option.map_some, redelivers_of_point hx hp]
  split
  · rename_i gathers
    rw [Option.some.inj gathers] at hp
    cases hp
  · cases (f.modes current.listener).reply? with
    | none => rfl
    | some r => rfl

/-- A delivery that is repeated to its end is recorded if it has failed again. -/
lemma reports_of_redelivers {d : FailedDelivery} {r : CallResult}
    (h : f.redelivers? t = some (d, r)) : f.reports t = (d.again r).toList := by
  rw [reports]
  split
  · rename_i gathers
    obtain ⟨x, hx, hp⟩ := Option.map_eq_some_iff.1 gathers
    rw [redelivers?, hx, Option.bind_some, hp] at h
    cases h
  · rw [h]
    rfl

/-- A task that repeats a delivery waits at the gate of the listener, or goes on as the listener
answers. -/
lemma says_redelivery {current : FailedDelivery} {pending : List FailedDelivery} {delivered : Nat}
    (gated : f.Gated) (hx : f.tasks[t]? = some x)
    (hp : x.point.redelivery? = some (current, pending, delivered)) :
    f.Says t x (fun q => (f.reports t).foldl Publisher.record q)
      (match (f.modes current.listener).reply? with
        | some r => .redeliverRest pending (if r = .delivered then delivered + 1 else delivered)
        | none => .redelivering current pending delivered)
      (f.befall (.step t)) := by
  rw [reports_of_redelivery hx hp]
  -- The delivery is called for the first time, or waits at the gate of its listener.
  cases e : x.point with
  | redeliverRest rest done =>
    rw [e] at hp
    cases rest with
    | nil => cases hp
    | cons first rest =>
      cases hp
      have core := core_beginCall f t current.event current.listener
      have next : (f.beginCall t current.event current.listener).1.Gated := gated.beginCall
      have reply : (f.beginCall t current.event current.listener).2 = _ :=
        attemptCall_reply _ t current.listener
      simp only [befall, step, hx, e, stepRedeliverRest]
      cases begun : f.beginCall t current.event current.listener with
      | mk g o =>
        rw [begun] at core next reply
        rw [← show o = (f.modes current.listener).reply? from reply]
        cases o with
        | some r => exact says_afterRedelivery hx core next current pending delivered r
        | none => exact says_moveTo hx core next _
  | redelivering first rest done =>
    rw [e] at hp
    cases hp
    have core := core_attemptCall f t current.listener
    have next : (f.attemptCall t current.listener).1.Gated := gated.attemptCall
    have reply := attemptCall_reply f t current.listener
    simp only [befall, step, hx, e, stepRedelivering]
    by_cases waits : f.waitsAt t current.listener = true
    · rw [gated.gate_of_waits waits, if_pos waits]
      exact e ▸ says_stays hx rfl gated
    · rw [if_neg waits]
      cases begun : f.attemptCall t current.listener with
      | mk g o =>
        rw [begun] at core next reply
        rw [← show o = (f.modes current.listener).reply? from reply]
        cases o with
        | some r => exact says_afterRedelivery hx core next current pending delivered r
        | none =>
          have stays := says_stays hx core next
          rw [e] at stays
          exact stays
  | _ =>
    rw [e] at hp
    cases hp

/-- A task that has nothing left to repeat ends. -/
lemma says_redelivered {delivered : Nat} (gated : f.Gated) (hx : f.tasks[t]? = some x)
    (hp : x.point = .redeliverRest [] delivered) :
    f.Says t x id (.ended (.delivered delivered)) (f.befall (.step t)) := by
  simp only [befall, step, hx, hp, stepRedeliverRest]
  exact says_finish (says_moveTo hx rfl gated _)

/-! ## All steps -/

/-- What a task does to the publisher of its node in its next step. -/
def restates (f : Fleet) (t : Nat) (q : Publisher) : Publisher :=
  match f.tasks[t]?.map Task.point with
  | some .redeliver => q.drain.1
  | _ => (f.reports t).foldl Publisher.record q

lemma restates_of_ne (hx : f.tasks[t]? = some x) (other : x.point ≠ .redeliver) :
    f.restates t = fun q => (f.reports t).foldl Publisher.record q := by
  funext q
  rw [restates, hx, Option.map_some]
  split
  · rename_i redelivers
    exact absurd (Option.some.inj redelivers) other
  · rfl

lemma restates_of_redeliver (hx : f.tasks[t]? = some x) (hp : x.point = .redeliver) :
    f.restates t = fun q => q.drain.1 := by
  funext q
  rw [restates, hx, Option.map_some, hp]

/-- A task that neither waits for calls nor repeats deliveries leaves the publisher alone. -/
lemma restates_eq_id (hx : f.tasks[t]? = some x) (other : x.point ≠ .redeliver)
    (idle : x.point.redelivery? = none)
    (free : ∀ event calls after, x.point ≠ .gather event calls after) : f.restates t = id := by
  rw [restates_of_ne hx other, reports_eq_nil hx idle free]
  rfl

/-- A step that has to do with publishing. -/
lemma says_of_publishes (gated : f.Gated) (hx : f.tasks[t]? = some x)
    (hp : x.point.publishes = true) :
    ∃ p, f.Says t x (f.restates t) p (f.befall (.step t)) := by
  -- Only taking the buffer out and gathering answers restate the publisher.
  cases e : x.point with
  | gather event calls after =>
    rw [restates_of_ne hx (e ▸ Point.noConfusion)]
    exact ⟨_, says_gather gated hx e⟩
  | redeliver =>
    rw [restates_of_redeliver hx e]
    exact ⟨_, says_redeliver gated hx e⟩
  | announce v events =>
    cases events with
    | nil =>
      rw [e] at hp
      cases hp
    | cons event rest =>
      rw [restates_eq_id hx (e ▸ Point.noConfusion) (e ▸ rfl) fun _ _ _ => e ▸ Point.noConfusion]
      exact ⟨_, says_publish gated hx (by rw [e]; rfl)⟩
  | publish event =>
    rw [restates_eq_id hx (e ▸ Point.noConfusion) (e ▸ rfl) fun _ _ _ => e ▸ Point.noConfusion]
    exact ⟨_, says_publish gated hx (by rw [e]; rfl)⟩
  | redeliverRest pending delivered =>
    rw [restates_of_ne hx (e ▸ Point.noConfusion)]
    cases pending with
    | nil =>
      rw [e] at hp
      cases hp
    | cons current pending => exact ⟨_, says_redelivery gated hx (by rw [e]; rfl)⟩
  | redelivering current pending delivered =>
    rw [restates_of_ne hx (e ▸ Point.noConfusion)]
    exact ⟨_, says_redelivery gated hx (by rw [e]; rfl)⟩
  | _ =>
    rw [e] at hp
    cases hp

/-- A step that has nothing to do with publishing leaves the publisher alone. -/
lemma restates_of_mute (hx : f.tasks[t]? = some x) (hp : x.point.publishes = false) :
    f.restates t = id := by
  refine restates_eq_id hx ?_ ?_ ?_
  · rintro e
    rw [e] at hp
    cases hp
  · exact Point.redelivery?_eq_none hp
  · intro event calls after e
    rw [e] at hp
    cases hp

end

end Fleet

end SchemaCatalog
