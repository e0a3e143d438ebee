import SchemaCatalog.Proofs.Fleet.Turn
import SchemaCatalog.Proofs.Run.Basic

/-!
# Calls to listeners

A task that has called those who listen to an event stays with its calls, whatever others do, until
all of them have ended. So where it is no longer among the calls of an event (`Run.gathers_or_end`),
a step of its own has ended them all.
-/

namespace SchemaCatalog

namespace Fleet

/-- A task of a node has called these listeners to an event, and not all calls have been seen to
end. -/
def Gathers (f : Fleet) (n t : Nat) (event : Event) (after : AfterCalls) (names : List String) :
    Prop :=
  ∃ x calls, f.tasks[t]? = some x ∧ x.node = n ∧ x.point = .gather event calls after ∧
    calls.map Call.listener = names

/-- A step of the task sees all of its calls for an event end. -/
def CallsEnd (f : Fleet) (t : Nat) (event : Event) (after : AfterCalls) (names : List String) :
    Prop :=
  ∃ x calls, f.tasks[t]? = some x ∧ x.point = .gather event calls after ∧
    calls.map Call.listener = names ∧ ∀ c ∈ (f.resumeCalls t calls).2, c.result.isSome

variable {f g : Fleet} {n t : Nat} {event : Event} {after : AfterCalls} {names : List String}

/-- The calls that go on are to the same listeners. -/
lemma resumeCalls_listeners (f : Fleet) (t : Nat) (calls : List Call) :
    (f.resumeCalls t calls).2.map Call.listener = calls.map Call.listener := by
  induction calls generalizing f with
  | nil => rfl
  | cons c cs ih =>
    rw [resumeCalls, List.map_cons]
    split
    · rw [List.map_cons, ih]
    · rw [List.map_cons, ih]

/-- The calls that begin are to the listeners that are to be called. -/
lemma beginCalls_listeners (f : Fleet) (t : Nat) (event : Event) (names : List String) :
    (f.beginCalls t event names).2.map Call.listener = names := by
  induction names generalizing f with
  | nil => rfl
  | cons name names ih => rw [beginCalls, List.map_cons, ih]

/-- A task that publishes an event is then among the calls to all who listen to it. -/
lemma gathers_publish {x : Task} (hx : f.tasks[t]? = some x) :
    (f.publish t x.node event after).Gathers x.node t event after
      ((f.node x.node).publisher.listenersOf event.eventType) := by
  obtain ⟨-, -, -, -, -, -, tasks⟩ := core_inj
    (core_beginCalls f t event ((f.node x.node).publisher.listenersOf event.eventType))
  rw [← tasks] at hx
  exact ⟨_, _, getElem?_moveTo hx _, rfl, rfl, beginCalls_listeners ..⟩

/-- A task takes no step away from calls that have not all ended. -/
lemma Gathers.step (h : f.Gathers n t event after names) (hg : f.step t = some g) :
    g.Gathers n t event after names ∨ f.CallsEnd t event after names := by
  obtain ⟨x, calls, hx, hn, hp, rfl⟩ := h
  rw [Fleet.step, hx] at hg
  simp only [hp, stepGather] at hg
  split at hg
  · cases hg
  · split at hg
    · rename_i ended
      exact .inr ⟨x, calls, hx, hp, rfl, List.all_eq_true.1 ended⟩
    · cases hg
      obtain ⟨-, -, -, -, -, -, tasks⟩ := core_inj (core_resumeCalls f t calls)
      rw [← tasks] at hx
      exact .inl ⟨_, _, getElem?_moveTo hx _, hn, rfl, f.resumeCalls_listeners t calls⟩

end Fleet

namespace Run

variable {r : Run} {i j n t : Nat} {event : Event} {after : AfterCalls} {names : List String}

/-- A task is still among its calls for an event, or a step of it has seen them all end. -/
theorem gathers_or_end (h : (r.fleet j).Gathers n t event after names) (hi : j ≤ i) :
    (r.fleet i).Gathers n t event after names ∨ ∃ m, j ≤ m ∧ m < i ∧ r.moves m = .step t ∧
      (r.fleet m).CallsEnd t event after names := by
  induction hi with
  | refl => exact .inl h
  | @step i hi ih =>
    rcases ih with among | ⟨m, hjm, hmi, hm, ended⟩
    · by_cases hm : r.moves i = .step t
      · rcases r.step_cases hm with ⟨-, same⟩ | some
        · rw [same]
          exact .inl among
        · rcases among.step some with among | ended
          · exact .inl among
          · exact .inr ⟨i, hi, Nat.lt_succ_self i, hm, ended⟩
      · obtain ⟨x, calls, hx, hn, hp, hc⟩ := among
        obtain ⟨y, hy, hyn, hyp⟩ := (r.frame i).task t x hx
        have same := hyp (.inl hm)
        exact .inl ⟨y, calls, hy, hyn.trans hn, same.trans hp, hc⟩
    · exact .inr ⟨m, hjm, Nat.lt_succ_of_lt hmi, hm, ended⟩

end Run

end SchemaCatalog
