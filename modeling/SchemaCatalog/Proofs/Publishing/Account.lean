import SchemaCatalog.Proofs.Chronicle.Basic
import SchemaCatalog.Proofs.Publishing.Airing

/-!
# The account of a publisher

Whatever happens, a publisher knows who was registered with it, counts the failures that were
recorded, and keeps the latest of those since its buffer was last taken out
(`Chronicle.account`).
-/

namespace SchemaCatalog

namespace Fleet

variable {f : Fleet} {h : Happening} {n t : Nat} {q : Publisher} {fs : List FailedDelivery}

/-- Who begins to listen on a node by what happens, and to what. -/
def registers (f : Fleet) (h : Happening) (n : Nat) : List (EventType × String) :=
  match h with
  | .request m _ r => if m = n ∧ n < f.nodes.length then r.registrations else []
  | _ => []

/-- What is recorded on a node by what happens. -/
def records (f : Fleet) (h : Happening) (n : Nat) : List FailedDelivery :=
  match h with
  | .step t => if f.tasks[t]?.map Task.node = some n then f.reports t else []
  | _ => []

/-- Whether what happens takes the failed deliveries of a node out. -/
def drains (f : Fleet) (h : Happening) (n : Nat) : Bool :=
  match h with
  | .step t => f.tasks[t]?.any fun x => x.node = n && x.point = .redeliver
  | _ => false

/-- On a node that there is not nothing happens to a publisher. -/
lemma blank_of_absent (placed : f.Placed) (hn : f.nodes.length ≤ n) (h : Happening) :
    f.registers h n = [] ∧ f.records h n = [] ∧ f.drains h n = false := by
  have other : ∀ (t : Nat) (x : Task), f.tasks[t]? = some x → x.node ≠ n :=
    fun t x hx => Nat.ne_of_lt (Nat.lt_of_lt_of_le (placed t x hx) hn)
  cases h with
  | step t =>
    cases hx : f.tasks[t]? with
    | none => simp [registers, records, drains, hx]
    | some x => simp [registers, records, drains, hx, other t x hx]
  | request m skew r => exact ⟨if_neg fun here => Nat.not_lt.2 hn here.2, rfl, rfl⟩
  | join c link => exact ⟨rfl, rfl, rfl⟩
  | turnClock c => exact ⟨rfl, rfl, rfl⟩

/-- A publisher that nothing happens to. -/
lemma keeps_append_nil (hq : q.Keeps fs) : q.Keeps (fs ++ []) := by rwa [List.append_nil]

/-- What happens to a publisher is that some begin to listen, that failures are recorded, or that
all that are kept are taken out. -/
lemma revised_fields (hn : n < f.nodes.length) (h : Happening) (q : Publisher) :
    (f.revised h n q).registrations = q.registrations ++ f.registers h n ∧
      (f.revised h n q).failures = q.failures + (f.records h n).length ∧
      (f.revised h n q).capacity = q.capacity ∧
      ∀ fs, q.Keeps fs → (f.revised h n q).Keeps
        (if f.drains h n then [] else fs ++ f.records h n) := by
  have same : q.registrations = q.registrations ++ [] ∧ q.failures = q.failures + 0 ∧
      q.capacity = q.capacity ∧ ∀ fs, q.Keeps fs → q.Keeps (fs ++ []) :=
    ⟨(List.append_nil _).symm, rfl, rfl, fun _ => keeps_append_nil⟩
  cases h with
  | step t =>
    cases hx : f.tasks[t]? with
    | none =>
      simp only [revised, registers, records, drains, hx]
      exact same
    | some x =>
      simp only [revised, registers, records, drains, hx, List.append_nil]
      by_cases here : x.node = n
      · by_cases hp : x.point = .redeliver
        · -- The buffer is taken out in this step, which records nothing itself.
          have none := reports_eq_nil hx (hp ▸ rfl) fun _ _ _ => hp ▸ Point.noConfusion
          simp only [Option.map_some, here, if_true, restates_of_redeliver hx hp, none,
            Option.any_some, hp, decide_true, Bool.and_self]
          exact ⟨rfl, rfl, rfl, fun _ _ => q.keeps_drain⟩
        · obtain ⟨registrations, failures, capacity⟩ := q.recordAll_fields (f.reports t)
          simp only [Option.map_some, here, if_true, restates_of_ne hx hp, Option.any_some, hp,
            decide_true, decide_false, Bool.and_false, Bool.false_eq_true, if_false]
          exact ⟨registrations, failures, capacity, fun _ hq => hq.recordAll _⟩
      · simp only [Option.map_some, Option.some.injEq, here, if_false, Option.any_some,
          decide_false, Bool.false_and, Bool.false_eq_true]
        exact ⟨trivial, rfl, trivial, fun _ => keeps_append_nil⟩
  | request m skew r =>
    rw [revised, registers]
    by_cases here : m = n
    · rw [if_pos here, if_pos ⟨here, hn⟩]
      exact ⟨rfl, rfl, rfl, fun _ => keeps_append_nil⟩
    · rw [if_neg here, if_neg fun both => here both.1]
      exact same
  | join c link => exact same
  | turnClock c => exact same

end Fleet

namespace Chronicle

/-- Who was registered with the publisher of a node before this moment, in order. -/
def registered (k : Chronicle) (n i : Nat) : List (EventType × String) :=
  (List.range i).flatMap fun j => (k.fleet j).registers (k.happenings j) n

/-- What is recorded as failed on a node at this moment. -/
def recordedAt (k : Chronicle) (n i : Nat) : List FailedDelivery :=
  (k.fleet i).records (k.happenings i) n

/-- Whether the failed deliveries of a node are taken out at this moment. -/
def drainsAt (k : Chronicle) (n i : Nat) : Bool := (k.fleet i).drains (k.happenings i) n

/-- What was recorded as failed on a node before this moment, in order. -/
def recorded (k : Chronicle) (n i : Nat) : List FailedDelivery :=
  (List.range i).flatMap (k.recordedAt n)

/-- What was recorded as failed on a node before this moment and since the failed deliveries were
last taken out, in order. -/
def undrained (k : Chronicle) (n : Nat) : Nat → List FailedDelivery
  | 0 => []
  | i + 1 => if k.drainsAt n i then [] else k.undrained n i ++ k.recordedAt n i

/-- The calls that a task has begun from one moment to another, in order. -/
def callsBy (k : Chronicle) (t i j : Nat) : List CallRecord :=
  ((k.fleet j).calls.drop (k.fleet i).calls.length).filter fun c => c.task = t

variable {k : Chronicle} {n t i j : Nat}

lemma gated (k : Chronicle) (i : Nat) : (k.fleet i).Gated := by
  induction i with
  | zero => exact fun name none => absurd rfl none
  | succ i ih => exact (Fleet.airs_befall ih (k.happenings i)).gated

lemma airs (k : Chronicle) (i : Nat) : (k.fleet i).Airs (k.happenings i) (k.fleet (i + 1)) :=
  Fleet.airs_befall (k.gated i) _

/-! ## Publishers -/

/-- At this moment a node joins, set up in this way. -/
structure Joins (k : Chronicle) (s n : Nat) (c : Config) : Prop where
  node : (k.fleet s).nodes.length = n
  happening : (∃ link, k.happenings s = .join c link) ∨
    ∃ m skew, m < n ∧ k.happenings s = .request m skew (.reopen c)

/-- The publisher of a node that joins has as much room as the node is set up with. -/
lemma Joins.publisher {s : Nat} {c : Config} (h : k.Joins s n c) :
    n < (k.fleet (s + 1)).nodes.length ∧
      ((k.fleet (s + 1)).node n).publisher = Publisher.ofCapacity c.failureBuffer := by
  obtain ⟨link, e⟩ : ∃ link, k.fleet (s + 1) = Session.addNode (k.fleet s) c link := by
    rcases h.happening with ⟨link, move⟩ | ⟨m, skew, hm, move⟩
    · exact ⟨link, by rw [fleet, move, Fleet.befall]⟩
    · refine ⟨.shared, ?_⟩
      rw [fleet, move, Fleet.befall, if_pos (h.node ▸ hm)]
      rfl
  rw [e, Fleet.node_addNode, if_pos h.node.symm]
  refine ⟨?_, rfl⟩
  rw [Session.addNode, List.length_append, List.length_singleton, h.node]
  exact Nat.lt_succ_self n

/-- What a publisher knows, counts and keeps at this moment. -/
structure Account (k : Chronicle) (n i : Nat) : Prop where
  registrations : ((k.fleet i).node n).publisher.registrations = k.registered n i
  failures : ((k.fleet i).node n).publisher.failures = (k.recorded n i).length
  keeps : ((k.fleet i).node n).publisher.Keeps (k.undrained n i)

lemma registered_succ (k : Chronicle) (n i : Nat) :
    k.registered n (i + 1) = k.registered n i ++ (k.fleet i).registers (k.happenings i) n := by
  rw [registered, List.range_succ, List.flatMap_append, List.flatMap_singleton]
  rfl

lemma recorded_succ (k : Chronicle) (n i : Nat) :
    k.recorded n (i + 1) = k.recorded n i ++ k.recordedAt n i := by
  rw [recorded, List.range_succ, List.flatMap_append, List.flatMap_singleton]
  rfl

/-- Before a node joins nothing is registered with it or recorded on it. -/
lemma blank_of_absent (hn : (k.fleet i).nodes.length ≤ n) :
    k.registered n (i + 1) = [] ∧ k.recorded n (i + 1) = [] ∧ k.undrained n (i + 1) = [] := by
  induction i with
  | zero =>
    obtain ⟨registers, records, drains⟩ := Fleet.blank_of_absent (k.placed 0) hn (k.happenings 0)
    simp [undrained, recordedAt, drainsAt, registers, records, drains, registered, recorded]
  | succ i ih =>
    obtain ⟨registered, recorded, undrained⟩ := ih (Nat.le_trans (nodes_le (Nat.le_succ i)) hn)
    obtain ⟨registers, records, drains⟩ :=
      Fleet.blank_of_absent (k.placed (i + 1)) hn (k.happenings (i + 1))
    rw [registered_succ, recorded_succ, Chronicle.undrained, registered, recorded, undrained,
      recordedAt, drainsAt, registers, records, drains]
    exact ⟨rfl, rfl, rfl⟩

/-- What is recorded at a moment is counted, and what is kept after it depends on what was kept
before it. -/
lemma publisher_succ (hn : n < (k.fleet i).nodes.length) :
    ((k.fleet (i + 1)).node n).publisher.failures =
        ((k.fleet i).node n).publisher.failures + (k.recordedAt n i).length ∧
      ((k.fleet (i + 1)).node n).publisher.capacity = ((k.fleet i).node n).publisher.capacity ∧
      ∀ fs, ((k.fleet i).node n).publisher.Keeps fs → ((k.fleet (i + 1)).node n).publisher.Keeps
        (if k.drainsAt n i then [] else fs ++ k.recordedAt n i) := by
  rw [(k.airs i).publisher n hn]
  exact (Fleet.revised_fields hn (k.happenings i) _).2

/-- At every moment the publisher of a node knows, counts and keeps what it is to. -/
theorem account (hn : n < (k.fleet i).nodes.length) : k.Account n i := by
  induction i with
  | zero => cases hn
  | succ i ih =>
    rcases Nat.lt_or_ge n (k.fleet i).nodes.length with hlt | hge
    · have before := ih hlt
      obtain ⟨failures, -, keeps⟩ := k.publisher_succ hlt
      constructor
      case registrations =>
        rw [(k.airs i).publisher n hlt, (Fleet.revised_fields hlt _ _).1,
          before.registrations, registered_succ]
      case failures => rw [failures, before.failures, recorded_succ, List.length_append]
      case keeps => exact keeps _ before.keeps
    · obtain ⟨registered, recorded, undrained⟩ := k.blank_of_absent hge
      obtain ⟨capacity, new⟩ := (k.airs i).joined n hge hn
      constructor
      case registrations =>
        rw [new, registered]
        rfl
      case failures =>
        rw [new, recorded]
        rfl
      case keeps =>
        rw [new, undrained]
        exact Publisher.keeps_ofCapacity capacity

/-- A publisher has the room for good that it has at first. -/
lemma capacity_le (h : i ≤ j) (hn : n < (k.fleet i).nodes.length) :
    ((k.fleet j).node n).publisher.capacity = ((k.fleet i).node n).publisher.capacity := by
  induction h with
  | refl => rfl
  | @step j hij ih =>
    have hlt := Nat.lt_of_lt_of_le hn (nodes_le hij)
    rw [(k.publisher_succ hlt).2.1, ih]

/-- All that there is to a publisher of known room. -/
lemma publisher_eq {s : Nat} {c : Config} (h : k.Joins s n c) (hi : s < i) :
    ((k.fleet i).node n).publisher = {
      registrations := k.registered n i
      failures := (k.recorded n i).length
      failed := (k.undrained n i).drop ((k.undrained n i).length - c.failureBuffer.val)
      capacity := c.failureBuffer } := by
  obtain ⟨there, new⟩ := h.publisher
  have hn := Nat.lt_of_lt_of_le there (nodes_le hi)
  have capacity := capacity_le hi there
  rw [new] at capacity
  obtain ⟨registrations, failures, keeps⟩ := k.account hn
  rw [Publisher.Keeps, capacity] at keeps
  cases e : ((k.fleet i).node n).publisher
  rw [e] at registrations failures keeps capacity
  cases registrations
  cases failures
  cases capacity
  cases keeps
  rfl

/-! ## Calls -/

lemma calls_succ (k : Chronicle) (i : Nat) :
    (k.fleet (i + 1)).calls = (k.fleet i).calls ++ (k.fleet i).begun (k.happenings i) :=
  Fleet.calls_befall ..

lemma calls_le (h : i ≤ j) : (k.fleet i).calls <+: (k.fleet j).calls := by
  induction h with
  | refl => exact List.prefix_refl _
  | @step j _ ih =>
    rw [calls_succ]
    exact ih.trans (List.prefix_append ..)

lemma callsBy_self (k : Chronicle) (t i : Nat) : k.callsBy t i i = [] := by
  rw [callsBy, List.drop_length]
  rfl

/-- A task begins calls in its own steps. -/
lemma callsBy_succ (h : i ≤ j) : k.callsBy t i (j + 1) = k.callsBy t i j ++
    if (k.happenings j).steps t then (k.fleet j).begins t else [] := by
  have begun : ((k.fleet j).begun (k.happenings j)).filter (fun c => c.task = t) =
      if (k.happenings j).steps t then (k.fleet j).begins t else [] := by
    cases hm : k.happenings j with
    | step s =>
      have own : ∀ c ∈ (k.fleet j).begins s, c.task = s := fun c hc => (Fleet.task_of_begins hc).1
      rw [Fleet.begun, Happening.steps]
      by_cases same : s = t
      · subst same
        rw [if_pos (decide_eq_true rfl), List.filter_eq_self]
        exact fun c hc => decide_eq_true (own c hc)
      · rw [if_neg (by simpa using same), List.filter_eq_nil_iff]
        exact fun c hc e => same ((own c hc).symm.trans (of_decide_eq_true e))
    | _ => rfl
  rw [callsBy, calls_succ, List.drop_append_of_le_length (calls_le h).length_le,
    List.filter_append, begun]
  rfl

end Chronicle

end SchemaCatalog
