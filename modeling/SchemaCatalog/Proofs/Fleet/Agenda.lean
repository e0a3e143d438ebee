import SchemaCatalog.Proofs.Fleet.Effect
import SchemaCatalog.Proofs.Notices
import SchemaCatalog.Proofs.Watermark

/-!
# The agenda of a dispatcher

A dispatcher sees to one notice after the other, hands its events over one by one and then marks its
version as done. What it has still to do goes on where it stands: nothing is done out of order, the
version that it sees to is the next one or one that is done already, and the notices behind it lead
to the last version of the node (`Agenda`). `Duty` lists what a dispatcher can do in one step.
-/

namespace SchemaCatalog

namespace Point

/-- Whether a task at this point is a dispatcher at work. -/
def dispatches : Point → Bool
  | .dispatch => true
  | .announce .. => true
  | .gather _ _ (.dispatch ..) => true
  | _ => false

/-- The event that a dispatcher at this point hands over next. -/
def nextEvent? : Point → Option Event
  | .announce _ (event :: _) => some event
  | _ => none

/-- The events of its version that a dispatcher at this point has still to hand over. -/
def remaining : Point → List Event
  | .announce _ events => events
  | .gather _ _ (.dispatch _ rest) => rest
  | _ => []

/-- The version up to which a dispatcher at this point has taken notices up, where the versions up
to `done` are done. One that could not mark its version had handed all its events over. -/
def takenUp (done : Nat) : Point → Nat
  | .announce v _ => max done v.number.val
  | .gather _ _ (.dispatch v _) => max done v.number.val
  | .ended (.aborted _) => done + 1
  | _ => done

@[simp] lemma takenUp_dispatch (done : Nat) : takenUp done .dispatch = done := rfl

@[simp] lemma takenUp_announce (done : Nat) (v : Version) (events : List Event) :
    takenUp done (.announce v events) = max done v.number.val := rfl

@[simp] lemma takenUp_gather (done : Nat) (event : Event) (calls : List Call) (v : Version)
    (rest : List Event) : takenUp done (.gather event calls (.dispatch v rest)) =
      max done v.number.val := rfl

@[simp] lemma takenUp_done (done : Nat) : takenUp done (.ended .done) = done := rfl

@[simp] lemma takenUp_aborted (done : Nat) (a : Abort) :
    takenUp done (.ended (.aborted a)) = done + 1 := rfl

lemma le_takenUp (done : Nat) (p : Point) : done ≤ p.takenUp done := by
  unfold takenUp
  split
  · exact Nat.le_max_left ..
  · exact Nat.le_max_left ..
  · exact Nat.le_succ _
  · exact Nat.le_refl _

lemma dispatches_of_isFree {p : Point} (h : p.isFree = true) : p.dispatches = false := by
  cases p with
  | dispatch => cases h
  | announce v events => cases h
  | gather event calls after =>
    cases after with
    | report => rfl
    | dispatch v rest => cases h
  | _ => rfl

lemma dispatches_of_notice {p : Point} {z : Notice} (h : p.notice? = some z) :
    p.dispatches = true := by
  cases p with
  | announce v events => rfl
  | gather event calls after =>
    cases after with
    | report => cases h
    | dispatch v rest => rfl
  | _ => cases h

end Point

lemma Task.dispatches_of_isFree {x : Task} (h : x.isFree) : x.point.dispatches = false := by
  rcases h with h | ⟨v, q, s, hp, -⟩
  · exact Point.dispatches_of_isFree h
  · rw [hp]
    rfl

/-- What a dispatcher does in a step: where it stands, its notices and the watermark of its node
before and after it. -/
inductive Duty : Point → Dispatch → Watermark Nat → Point → Dispatch → Watermark Nat → Prop where
  | take {d : Dispatch} {w : Watermark Nat} {z : Notice} {rest : List Notice} :
      d.queue = z :: rest →
      Duty .dispatch d w (.announce z.version z.events) { d with queue := rest } w
  | quit {d : Dispatch} {w : Watermark Nat} :
      d.queue = [] → d.accepting = false → Duty .dispatch d w (.ended .done) d w
  | call {d : Dispatch} {w : Watermark Nat} {v : Version} {event : Event} {rest : List Event}
      {calls : List Call} :
      Duty (.announce v (event :: rest)) d w (.gather event calls (.dispatch v rest)) d w
  | wait {d : Dispatch} {w : Watermark Nat} {v : Version} {event : Event} {rest : List Event}
      {calls calls' : List Call} :
      Duty (.gather event calls (.dispatch v rest)) d w (.gather event calls' (.dispatch v rest))
        d w
  | called {d : Dispatch} {w : Watermark Nat} {v : Version} {event : Event} {rest : List Event}
      {calls : List Call} :
      Duty (.gather event calls (.dispatch v rest)) d w (.announce v rest) d w
  | done {d : Dispatch} {w w' : Watermark Nat} {v : Version} {released : List Nat} :
      w.finish v = (w', .ok released) → Duty (.announce v []) d w .dispatch d w'
  | overflow {d : Dispatch} {w w' : Watermark Nat} {v : Version} {a : Abort} :
      w.finish v = (w', .error a) → Duty (.announce v []) d w (.ended (.aborted a)) d w'

lemma Duty.works_or_ended {p p' : Point} {d d' : Dispatch} {w w' : Watermark Nat} {y : Task}
    (h : Duty p d w p' d' w') (hy : y.point = p') :
    y.point.dispatches = true ∨ y.outcome?.isSome := by
  rw [Task.outcome?, hy]
  cases h with
  | quit _ _ => exact .inr rfl
  | overflow _ => exact .inr rfl
  | _ => exact .inl rfl

namespace Duty

variable {p p' : Point} {d d' : Dispatch} {w w' : Watermark Nat} {z : Notice}

/-- What a dispatcher sees to it saw to before, or takes up. -/
lemma notice (h : Duty p d w p' d' w') (hz : p'.notice? = some z) :
    ∃ y, y.version = z.version ∧ (p.notice? = some y ∨ y ∈ d.queue) := by
  cases h with
  | take hq =>
    cases hz
    exact ⟨_, rfl, .inr (by rw [hq]; exact List.mem_cons_self)⟩
  | quit _ _ => cases hz
  | call => exact ⟨z, rfl, .inl hz⟩
  | wait => exact ⟨z, rfl, .inl hz⟩
  | @called _ _ v event rest _ =>
    cases hz
    exact ⟨⟨v, event :: rest⟩, rfl, .inl rfl⟩
  | done _ => cases hz
  | overflow _ => cases hz

lemma accepting (h : Duty p d w p' d' w') : d'.accepting = d.accepting := by
  cases h <;> rfl

lemma queue (h : Duty p d w p' d' w') (hz : z ∈ d'.queue) : z ∈ d.queue := by
  cases h with
  | take hq =>
    rw [hq]
    exact List.mem_cons_of_mem _ hz
  | _ => exact hz

/-- A dispatcher marks the version that it sees to and no other. -/
lemma marked {k : Nat} (h : Duty p d w p' d' w') (hk : w'.Marked k) :
    w.Marked k ∨ ∃ y, p.notice? = some y ∧ y.version.number.val = k := by
  have finished : ∀ {v : Version} {o}, w.finish v = (w', o) → p.notice? = some ⟨v, []⟩ →
      w.Marked k ∨ ∃ y, p.notice? = some y ∧ y.version.number.val = k := by
    intro v o hf hv
    rcases Watermark.marked_of_finish hf hk with old | rfl
    · exact .inl old
    · exact .inr ⟨_, hv, rfl⟩
  cases h with
  | done hf => exact finished hf rfl
  | overflow hf => exact finished hf rfl
  | _ => exact .inl hk

end Duty

/-- What a dispatcher at a point is about, where its node has come to the version `k` of a log. One
that takes notices is at work unless the numbers of versions are used up. -/
structure Agenda (log : List Committed) (w : Watermark Nat) (p : Point) (d : Dispatch) (k : Nat) :
    Prop where
  marked : w.done = []
  current : ∀ z, p.notice? = some z → z.version ≤ w.doneUntil ∧ z.events = [] ∨
    z.version.number.val = w.doneUntil.number.val + 1 ∧
      ∃ x, log[w.doneUntil.number.val]? = some x ∧ z.events <:+ x.events
  queued : ∃ m, Leads log (p.takenUp w.doneUntil.number.val) d.queue m ∧ m ≤ k ∧
    (d.accepting = true → m = k)
  alive : d.accepting = true → p.dispatches = true ∨
    w.doneUntil.number.val + 1 ≤ k ∧ 18_446_744_073_709_551_616 ≤ w.doneUntil.number.val + 2

namespace Agenda

variable {log : List Committed} {w w' : Watermark Nat} {p p' : Point} {d d' : Dispatch}
  {k k' : Nat}

/-- A dispatcher that begins has nothing to do. -/
lemma begin (hw : w.done = []) (hd : w.doneUntil.number.val = 0) (t : Nat) :
    Agenda log w .dispatch ⟨[], true, t⟩ 0 where
  marked := hw
  current _ h := nomatch h
  queued := ⟨0, by rw [Point.takenUp_dispatch, hd]; exact .nil, Nat.le_refl _, fun _ => rfl⟩
  alive _ := .inl rfl

lemma takenUp_le (h : Agenda log w p d k) : p.takenUp w.doneUntil.number.val ≤ k := by
  obtain ⟨m, leads, hm, -⟩ := h.queued
  exact Nat.le_trans leads.le hm

lemma doneUntil_le (h : Agenda log w p d k) : w.doneUntil.number.val ≤ k :=
  Nat.le_trans (p.le_takenUp _) h.takenUp_le

/-- The agenda is the same where the log grows and where nothing is taken any more. -/
lemma mono {log' : List Committed} (h : Agenda log w p d k) (hl : log <+: log')
    (hd : w'.doneUntil = w.doneUntil) (hm : w'.done = w.done) (hq : d'.queue = d.queue)
    (ha : d'.accepting = true → d.accepting = true) : Agenda log' w' p d' k where
  marked := hm.trans h.marked
  current z hz := by
    rw [hd]
    refine (h.current z hz).imp id fun ⟨hv, x, hx, events⟩ => ?_
    exact ⟨hv, x, getElem?_grow hl hx, events⟩
  queued := by
    obtain ⟨m, leads, hmk, all⟩ := h.queued
    rw [hd, hq]
    exact ⟨m, leads.grow hl, hmk, fun acc => all (ha acc)⟩
  alive acc := by
    rw [hd]
    exact h.alive (ha acc)

/-- A notice of what the node is handed comes behind the others, unless nothing is taken any
more. -/
lemma told {z : Notice} (h : Agenda log w p d k) (hz : Leads log k [z] k')
    (hq : d' = if d.accepting then { d with queue := d.queue ++ [z] } else d) :
    Agenda log w p d' k' := by
  obtain ⟨m, leads, hm, all⟩ := h.queued
  have alive : d.accepting = true → p.dispatches = true ∨
      w.doneUntil.number.val + 1 ≤ k' ∧ 18_446_744_073_709_551_616 ≤ w.doneUntil.number.val + 2 :=
    fun acc => (h.alive acc).imp id fun ⟨hk, full⟩ => ⟨Nat.le_trans hk hz.le, full⟩
  by_cases acc : d.accepting = true
  · rw [if_pos acc] at hq
    subst hq
    have same := all acc
    subst same
    exact ⟨h.marked, h.current, ⟨k', leads.append hz, Nat.le_refl _, fun _ => rfl⟩, alive⟩
  · rw [if_neg acc] at hq
    subst hq
    exact ⟨h.marked, h.current, ⟨m, leads, Nat.le_trans hm hz.le, fun a => absurd a acc⟩, alive⟩

/-- What finishing the current version does to the watermark. -/
lemma finish {v : Version} {o : Except Abort (List Nat)}
    (h : Agenda log w (.announce v []) d k) (hf : w.finish v = (w', o)) :
    w'.done = [] ∧
      ((∃ released, o = .ok released) ∧
          w'.doneUntil.number.val = max w.doneUntil.number.val v.number.val ∨
        (∃ a, o = .error a) ∧ w'.doneUntil = w.doneUntil ∧
          v.number.val = w.doneUntil.number.val + 1 ∧
          18_446_744_073_709_551_616 ≤ w.doneUntil.number.val + 2) := by
  rcases h.current _ rfl with ⟨hv, -⟩ | ⟨hv, -⟩
  · have old : v.number.val ≤ w.doneUntil.number.val := hv
    rw [Watermark.finish_old hv] at hf
    cases hf
    exact ⟨h.marked, .inl ⟨⟨_, rfl⟩, (Nat.max_eq_left old).symm⟩⟩
  · obtain ⟨done, ⟨risen, ok⟩ | ⟨same, error, full⟩⟩ := Watermark.finish_next h.marked hv hf
    · refine ⟨done, .inl ⟨ok, ?_⟩⟩
      rw [risen]
      exact (Nat.max_eq_right (by rw [hv]; exact Nat.le_succ _)).symm
    · exact ⟨done, .inr ⟨error, same, hv, full⟩⟩

/-- The notices of a dispatcher that does its duty lead where they led. -/
lemma leads {m : Nat} (h : Agenda log w p d k) (hn : Numbered log) (hd : Duty p d w p' d' w')
    (leads : Leads log (p.takenUp w.doneUntil.number.val) d.queue m) :
    Leads log (p'.takenUp w'.doneUntil.number.val) d'.queue m := by
  cases hd with
  | take hq =>
    rw [hq] at leads
    cases leads with
    | @old v _ _ _ hv leads =>
      have old : v.number.val ≤ w.doneUntil.number.val := hv
      rw [Point.takenUp_announce, Nat.max_eq_left old]
      exact leads
    | @next x _ _ _ hx leads =>
      rw [Point.takenUp_dispatch] at hx leads
      rw [Point.takenUp_announce, hn _ _ hx, Nat.max_eq_right (Nat.le_succ _)]
      exact leads
  | done hf =>
    obtain ⟨-, ⟨-, risen⟩ | ⟨⟨a, error⟩, -⟩⟩ := h.finish hf
    · rw [Point.takenUp_dispatch, risen]
      exact leads
    · cases error
  | overflow hf =>
    obtain ⟨-, ⟨⟨_, ok⟩, -⟩ | ⟨-, same, hv, -⟩⟩ := h.finish hf
    · cases ok
    · rw [Point.takenUp_announce, hv, Nat.max_eq_right (Nat.le_succ _)] at leads
      rw [Point.takenUp_aborted, same]
      exact leads
  | _ => exact leads

/-- A dispatcher that does its duty keeps to its agenda. -/
lemma duty (h : Agenda log w p d k) (hn : Numbered log) (hd : Duty p d w p' d' w') :
    Agenda log w' p' d' k := by
  obtain ⟨m, leads, hm, all⟩ := h.queued
  have leads' := h.leads hn hd leads
  -- What is queued leads to the same version whatever the dispatcher does. It remains to see to
  -- what it has in hand and whether it takes more.
  cases hd with
  | take hq =>
    refine ⟨h.marked, fun z hz => ?_, ⟨m, leads', hm, all⟩, fun _ => .inl rfl⟩
    rw [hq] at leads
    cases leads with
    | old hv _ =>
      cases hz
      exact .inl ⟨hv, rfl⟩
    | next hx _ =>
      cases hz
      exact .inr ⟨hn _ _ hx, _, hx, List.suffix_refl _⟩
  | quit _ acc =>
    refine ⟨h.marked, fun z hz => (nomatch hz), ⟨m, leads', hm, all⟩, fun acc' => ?_⟩
    rw [acc] at acc'
    cases acc'
  | call => exact ⟨h.marked, h.current, ⟨m, leads', hm, all⟩, fun _ => .inl rfl⟩
  | wait => exact ⟨h.marked, h.current, ⟨m, leads', hm, all⟩, fun _ => .inl rfl⟩
  | called =>
    refine ⟨h.marked, fun z hz => ?_, ⟨m, leads', hm, all⟩, fun _ => .inl rfl⟩
    cases hz
    rcases h.current _ rfl with ⟨-, none⟩ | ⟨hv, x, hx, events⟩
    · cases none
    · exact .inr ⟨hv, x, hx, (List.suffix_cons ..).trans events⟩
  | done hf =>
    exact ⟨(h.finish hf).1, fun z hz => (nomatch hz), ⟨m, leads', hm, all⟩, fun _ => .inl rfl⟩
  | overflow hf =>
    obtain ⟨marked, ⟨⟨_, ok⟩, -⟩ | ⟨-, same, hv, full⟩⟩ := h.finish hf
    · cases ok
    · have taken := leads'.le
      rw [Point.takenUp_aborted, same] at taken
      refine ⟨marked, fun z hz => (nomatch hz), ⟨m, leads', hm, all⟩, fun acc => .inr ?_⟩
      rw [same]
      exact ⟨Nat.le_trans taken hm, full⟩

/-- The events that were handed over, with those that remain, are those of the versions taken up. -/
def Handed (log : List Committed) (w : Watermark Nat) (p : Point) (events : List Event) : Prop :=
  events ++ p.remaining = eventsUpTo log (p.takenUp w.doneUntil.number.val)

lemma Handed.grow {log' : List Committed} {events : List Event} (h : Handed log w p events)
    (hl : log <+: log') (hle : p.takenUp w.doneUntil.number.val ≤ log.length)
    (hd : w'.doneUntil = w.doneUntil) : Handed log' w' p events := by
  rw [Handed, hd, eventsUpTo_grow hl hle]
  exact h

/-- A dispatcher that does its duty hands the events over in order. -/
lemma handed_duty {events : List Event} (h : Agenda log w p d k) (hn : Numbered log)
    (he : Handed log w p events) (hd : Duty p d w p' d' w') :
    Handed log w' p' (events ++ p.nextEvent?.toList) := by
  unfold Handed at he ⊢
  obtain ⟨m, leads, -⟩ := h.queued
  -- Events come due where a notice of a new version is taken. They go over one by one after
  -- that, and none comes due or goes over otherwise.
  cases hd with
  | take hq =>
    have he : events ++ [] = eventsUpTo log w.doneUntil.number.val := he
    have none : events ++ (Point.nextEvent? .dispatch).toList = events := List.append_nil _
    rw [List.append_nil] at he
    rw [none]
    rw [hq] at leads
    cases leads with
    | @old v _ _ _ hv _ =>
      have old : v.number.val ≤ w.doneUntil.number.val := hv
      rw [Point.remaining, List.append_nil, Point.takenUp_announce, Nat.max_eq_left old]
      exact he
    | @next x _ _ _ hx _ =>
      rw [Point.takenUp_dispatch] at hx
      have number := hn _ _ hx
      rw [Point.remaining, Point.takenUp_announce, number, Nat.max_eq_right (Nat.le_succ _),
        eventsUpTo_succ hx, he]
  | quit _ _ => simpa [Point.nextEvent?, Point.remaining] using he
  | call => simpa [Point.nextEvent?, Point.remaining] using he
  | wait => simpa [Point.nextEvent?, Point.remaining] using he
  | called => simpa [Point.nextEvent?, Point.remaining] using he
  | done hf =>
    obtain ⟨-, ⟨-, risen⟩ | ⟨⟨a, error⟩, -⟩⟩ := h.finish hf
    · simpa [Point.nextEvent?, Point.remaining, Point.takenUp, risen] using he
    · cases error
  | overflow hf =>
    obtain ⟨-, ⟨⟨_, ok⟩, -⟩ | ⟨-, same, hv, -⟩⟩ := h.finish hf
    · cases ok
    · simpa [Point.nextEvent?, Point.remaining, Point.takenUp, same, hv] using he

/-- What remains of the version that is taken up, if it is not done. -/
lemma remaining_cases (h : Agenda log w p d k) :
    p.takenUp w.doneUntil.number.val = w.doneUntil.number.val ∧ p.remaining = [] ∨
      p.takenUp w.doneUntil.number.val = w.doneUntil.number.val + 1 ∧
        (p.remaining = [] ∨
          ∃ x, log[w.doneUntil.number.val]? = some x ∧ p.remaining <:+ x.events) := by
  cases p with
  | announce v events =>
    rcases h.current _ rfl with ⟨hv, none⟩ | ⟨hv, x, hx, suffix⟩
    · exact .inl ⟨Nat.max_eq_left hv, none⟩
    · have number : v.number.val = w.doneUntil.number.val + 1 := hv
      refine .inr ⟨?_, .inr ⟨x, hx, suffix⟩⟩
      rw [Point.takenUp_announce, number, Nat.max_eq_right (Nat.le_succ _)]
  | gather event calls after =>
    cases after with
    | report => exact .inl ⟨rfl, rfl⟩
    | dispatch v rest =>
      rcases h.current _ rfl with ⟨-, none⟩ | ⟨hv, x, hx, suffix⟩
      · cases none
      · have number : v.number.val = w.doneUntil.number.val + 1 := hv
        refine .inr ⟨?_, .inr ⟨x, hx, (List.suffix_cons ..).trans suffix⟩⟩
        rw [Point.takenUp_gather, number, Nat.max_eq_right (Nat.le_succ _)]
  | ended o =>
    cases o with
    | aborted a => exact .inr ⟨rfl, .inl rfl⟩
    | _ => exact .inl ⟨rfl, rfl⟩
  | _ => exact .inl ⟨rfl, rfl⟩

/-- The event that is handed over next is one of the version that is announced. -/
lemma announce_of_next {event : Event} (h : Agenda log w p d k) (hn : Numbered log)
    (he : p.nextEvent? = some event) : ∃ rest, p = .announce event.version (event :: rest) := by
  cases p with
  | announce v events =>
    cases events with
    | nil => cases he
    | cons e rest =>
      cases he
      refine ⟨rest, ?_⟩
      rcases h.current _ rfl with ⟨-, none⟩ | ⟨hv, x, hx, suffix⟩
      · cases none
      · obtain ⟨version, -⟩ := Committed.event_of_mem (suffix.subset List.mem_cons_self)
        have same : v = x.update.version := Version.ext_val (hv.trans (hn _ x hx).symm)
        rw [version, same]
  | _ => cases he

/-- All events of the versions that are done were handed over, and none of a version behind the
next one. -/
lemma handed_bounds {events : List Event} (h : Agenda log w p d k)
    (he : Handed log w p events) :
    eventsUpTo log w.doneUntil.number.val <+: events ∧
      events <+: eventsUpTo log (w.doneUntil.number.val + 1) := by
  unfold Handed at he
  rcases h.remaining_cases with ⟨taken, none⟩ | ⟨taken, none | ⟨x, hx, before, suffix⟩⟩
  · rw [taken, none, List.append_nil] at he
    exact ⟨he ▸ List.prefix_refl _, he ▸ eventsUpTo_mono (Nat.le_succ _)⟩
  · rw [taken, none, List.append_nil] at he
    exact ⟨he ▸ eventsUpTo_mono (Nat.le_succ _), he ▸ List.prefix_refl _⟩
  · rw [taken, eventsUpTo_succ hx, ← suffix, ← List.append_assoc] at he
    rw [List.append_cancel_right he, eventsUpTo_succ hx, ← suffix, ← List.append_assoc]
    exact ⟨List.prefix_append .., List.prefix_append ..⟩

end Agenda

end SchemaCatalog
