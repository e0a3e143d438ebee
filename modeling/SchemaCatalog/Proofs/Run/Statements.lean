import SchemaCatalog.Proofs.Fleet.Turn
import SchemaCatalog.Proofs.Fleet.Origin
import SchemaCatalog.Proofs.Run.Snapshots

/-!
# Statements in a run

A statement that is started on a node is carried out by a task of its own, which from then on stands
at points of that statement only. What the turns of the statement preserve holds of its task at
every later moment (`Starts.induction`), whatever other tasks, requests and nodes do in between.
-/

namespace SchemaCatalog

/-- The points at which the task of a statement can stand. -/
inductive Point.Of (st : Statement) : Point → Prop where
  | draft (a : Nat) : Of st (.draft st a)
  | submit (a : Nat) (u : Update) : Of st (.submit st a u)
  | review (a : Nat) : Of st (.review st a)
  | awaitSaved (v : Version) : Of st (.await v .saved)
  | awaitRetry (v : Version) (a : Nat) : Of st (.await v (.retry st a))
  | awaitingSaved (v : Version) : Of st (.awaiting v .saved)
  | awaitingRetry (v : Version) (a : Nat) : Of st (.awaiting v (.retry st a))
  | confirm (v : Version) : Of st (.confirm v)
  | readClock (target : Timestamp) (v : Version) : Of st (.readClock target (.version v))
  | sleep (target : Timestamp) (v : Version) : Of st (.sleep target (.version v))
  | ended (o : Outcome) : Of st (.ended o)

lemma Point.Of.cases {st : Statement} {p : Point} (h : p.Of st) :
    p.isStatement = true ∨ ∃ o, p = .ended o := by
  cases h with
  | ended o => exact .inr ⟨o, rfl⟩
  | _ => exact .inl rfl

lemma Point.of_next_saved (st : Statement) (v : Version) : (Purpose.saved.next v).Of st :=
  .confirm v

lemma Point.of_next_retry (st : Statement) (a : Nat) (v : Version) :
    ((Purpose.retry st a).next v).Of st := by
  rw [Purpose.next]
  split
  · exact .draft _
  · exact .ended _

/-- A turn of a statement leads to a point of the same statement. -/
lemma Fleet.Turn.of {f g : Fleet} {x : Task} {p : Point} {st : Statement} (h : f.Turn g x p)
    (hx : x.point.Of st) : p.Of st := by
  -- Only waits name their purpose, and they go on with the statement of that.
  cases h with
  | unready e _ => exact .ended _
  | vacuous e _ _ => exact .ended _
  | refused e _ _ => exact .ended _
  | unchanged e _ _ => exact .confirm _
  | exhausted e => exact .ended _
  | drafted e _ _ _ _ =>
    rw [e] at hx
    cases hx
    exact .submit _ _
  | accepted _ e _ => exact .awaitSaved _
  | rejected e _ =>
    rw [e] at hx
    cases hx
    exact .review _
  | reviewed e =>
    rw [e] at hx
    cases hx
    exact .awaitRetry _ _
  | ready e _ =>
    rw [e] at hx
    cases hx with
    | awaitSaved => exact Point.of_next_saved st _
    | awaitRetry => exact Point.of_next_retry st _ _
  | denied e _ _ => exact .ended _
  | waiting e _ _ =>
    rw [e] at hx
    cases hx with
    | awaitSaved => exact .awaitingSaved _
    | awaitRetry => exact .awaitingRetry _ _
  | released e _ =>
    rw [e] at hx
    cases hx with
    | awaitingSaved => exact Point.of_next_saved st _
    | awaitingRetry => exact Point.of_next_retry st _ _
  | dropped e _ => exact .ended _
  | found e _ => exact .readClock _ _
  | missing e _ => exact .ended _
  | due e _ => exact .ended _
  | early e =>
    rw [e] at hx
    cases hx
    exact .sleep _ _
  | woken e _ => exact .ended _

namespace Run

/-- At this moment a statement is started on a node, as this task. -/
structure Starts (r : Run) (s n : Nat) (st : Statement) (t : Nat) : Prop where
  move : ∃ skew, r.moves s = .request n skew (.execute st)
  node : n < (r.fleet s).nodes.length
  task : t = (r.fleet s).tasks.length

/-- What tasks have after a move, they had before or were just asked for. -/
lemma asked (r : Run) (i : Nat) : (r.fleet i).Asked (r.moves i)
    (r.fleet (i + 1)).storage.committed (r.fleet (i + 1)).tasks := by
  obtain ⟨k, hk, e⟩ := r.change i
  obtain ⟨-, storage, -, -, -, -, tasks⟩ := Fleet.core_inj e
  rw [storage, tasks]
  exact Fleet.asked_of_change hk

variable {r : Run} {s n t i j : Nat} {st : Statement}

lemma Starts.begins (h : r.Starts s n st t) :
    (r.fleet (s + 1)).tasks[t]? = some ⟨n, .draft st 1, none⟩ := by
  obtain ⟨skew, hm⟩ := h.move
  have e : r.fleet (s + 1) = (r.fleet s).spawn n (.draft st 1) := by
    rw [fleet_succ, hm, Fleet.after, if_pos ⟨h.node, rfl⟩]
    rfl
  rw [e, h.task]
  exact Fleet.getElem?_spawn ..

/-- A step of a task that is able to take one. -/
lemma turn_or_same {x : Task} (hm : r.moves i = .step t) (hx : (r.fleet i).tasks[t]? = some x)
    (hs : x.point.isStatement = true) :
    r.fleet (i + 1) = r.fleet i ∨ (r.fleet i).Turns t x (r.fleet (i + 1)) := by
  rcases r.step_cases hm with ⟨-, same⟩ | some
  · exact .inl same
  · exact .inr (Fleet.turn_of_step (r.plain i) hx hs some)

lemma repartitioned_starts : repartitioned.Starts 6 0 repartition 3 where
  move := ⟨.zero, rfl⟩
  node := by decide
  task := by decide

/-- What holds of the task of a statement at some moment, and is preserved while it stays where it
is and by each of its turns, holds at every later moment. -/
lemma carried {x : Task} (hx : (r.fleet j).tasks[t]? = some x) (hof : x.point.Of st)
    {P : Nat → Point → Prop} (base : P j x.point)
    (stay : ∀ i p, j ≤ i → p.Of st → P i p → P (i + 1) p)
    (turn : ∀ i y p, j ≤ i → (r.fleet i).tasks[t]? = some y → y.node = x.node → y.point.Of st →
      P i y.point → (r.fleet i).Turn (r.fleet (i + 1)) y p → P (i + 1) p) (hi : j ≤ i) :
    ∃ y, (r.fleet i).tasks[t]? = some y ∧ y.node = x.node ∧ y.point.Of st ∧ P i y.point := by
  induction hi with
  | refl => exact ⟨x, hx, rfl, hof, base⟩
  | @step i hi ih =>
    obtain ⟨y, hy, hn, hof, hp⟩ := ih
    obtain ⟨z, hz, hzn, hzp⟩ := (r.frame i).task t y hy
    -- A step of the task is a turn unless it has ended, and other moves leave it alone.
    by_cases hm : r.moves i = .step t
    · rcases hof.cases with hs | ⟨o, ho⟩
      · rcases turn_or_same hm hy hs with e | ⟨p, hyp, hturn⟩
        · rw [e]
          exact ⟨y, hy, hn, hof, stay i _ hi hof hp⟩
        · exact ⟨_, hyp, hn, hturn.of hof, turn i y p hi hy hn hof hp hturn⟩
      · have same := hzp (.inr (by rw [Task.outcome?, ho]; rfl))
        exact ⟨z, hz, hzn.trans hn, same ▸ hof, same ▸ stay i _ hi hof hp⟩
    · have same := hzp (.inl hm)
      exact ⟨z, hz, hzn.trans hn, same ▸ hof, same ▸ stay i _ hi hof hp⟩

/-- What holds of the task of a statement at its start, and is preserved while it stays where it is
and by each of its turns, holds at every later moment. -/
lemma Starts.induction (h : r.Starts s n st t) {P : Nat → Point → Prop}
    (base : P (s + 1) (.draft st 1))
    (stay : ∀ i p, s < i → p.Of st → P i p → P (i + 1) p)
    (turn : ∀ i x p, s < i → (r.fleet i).tasks[t]? = some x → x.node = n → x.point.Of st →
      P i x.point → (r.fleet i).Turn (r.fleet (i + 1)) x p → P (i + 1) p) (hi : s < i) :
    ∃ x, (r.fleet i).tasks[t]? = some x ∧ x.node = n ∧ x.point.Of st ∧ P i x.point :=
  carried h.begins (.draft 1) base stay turn hi

/-- The task of a statement is none before the statement is started. -/
lemma Starts.lt_of_task (h : r.Starts s n st t) {x : Task}
    (hx : (r.fleet j).tasks[t]? = some x) : s < j :=
  r.lt_of_task (Nat.le_of_eq h.task.symm) hx

/-- The task of a statement is on its node, at a point of the statement. -/
lemma Starts.of_task (h : r.Starts s n st t) {x : Task} (hx : (r.fleet i).tasks[t]? = some x) :
    x.node = n ∧ x.point.Of st := by
  obtain ⟨y, hy, hn, hof, -⟩ := h.induction (P := fun _ _ => True) trivial
    (fun _ _ _ _ _ => trivial) (fun _ _ _ _ _ _ _ _ _ => trivial) (h.lt_of_task hx)
  rw [hx] at hy
  cases hy
  exact ⟨hn, hof⟩

/-- The task of a statement stood before where it stands, without a step of its own, or has taken a
turn. -/
lemma Starts.back (h : r.Starts s n st t) (hi : s < i) {y : Task}
    (hy : (r.fleet (i + 1)).tasks[t]? = some y) : ∃ x, (r.fleet i).tasks[t]? = some x ∧
      (y.point = x.point ∧ (r.moves i = .step t → (r.fleet i).step t = none) ∨
        r.moves i = .step t ∧ (r.fleet i).Turn (r.fleet (i + 1)) x y.point) := by
  obtain ⟨x, hx, -, hof, -⟩ := h.induction (P := fun _ _ => True) trivial
    (fun _ _ _ _ _ => trivial) (fun _ _ _ _ _ _ _ _ _ => trivial) hi
  obtain ⟨y', hy', -, same⟩ := (r.frame i).task t x hx
  rw [hy] at hy'
  cases hy'
  refine ⟨x, hx, ?_⟩
  by_cases hm : r.moves i = .step t
  · rcases r.step_cases hm with ⟨none, e⟩ | some
    · rw [e, hx] at hy
      cases hy
      exact .inl ⟨rfl, fun _ => none⟩
    · rcases hof.cases with hs | ⟨o, ho⟩
      · obtain ⟨p, hp, hturn⟩ := Fleet.turn_of_step (r.plain i) hx hs some
        rw [hy] at hp
        cases hp
        exact .inr ⟨hm, hturn⟩
      · simp only [Fleet.step, hx, ho] at some
        cases some
  · exact .inl ⟨same (.inl hm), fun e => absurd e hm⟩

/-- A statement that has ended took a turn to its end. -/
lemma Starts.ended (h : r.Starts s n st t) {o : Outcome} (ho : (r.fleet i).outcome? t = some o) :
    ∃ j x, s < j ∧ j < i ∧ r.moves j = .step t ∧ (r.fleet j).tasks[t]? = some x ∧
      (r.fleet j).Turn (r.fleet (j + 1)) x (.ended o) := by
  induction i with
  | zero => cases ho
  | succ i ih =>
    obtain ⟨y, hy, ho⟩ := Option.bind_eq_some_iff.1 ho
    have hp := Task.point_of_outcome ho
    rcases Nat.lt_or_eq_of_le (Nat.le_of_lt_succ (h.lt_of_task hy)) with hi | rfl
    · obtain ⟨x, hx, ⟨same, -⟩ | ⟨hm, hturn⟩⟩ := h.back hi hy
      · obtain ⟨j, x, hsj, hji, found⟩ := ih (Option.bind_eq_some_iff.2 ⟨x, hx, by
          rw [Task.outcome?, ← same, hp]⟩)
        exact ⟨j, x, hsj, Nat.lt_succ_of_lt hji, found⟩
      · rw [hp] at hturn
        exact ⟨i, x, hi, Nat.lt_succ_self i, hm, hx, hturn⟩
    · rw [h.begins] at hy
      cases hy
      cases hp

/-- A task with a statement to get accepted was started for it. -/
lemma starts_of_statement {x : Task} (hx : (r.fleet i).tasks[t]? = some x)
    (hs : x.point.statement? = some st) : ∃ s n, s < i ∧ r.Starts s n st t := by
  induction i generalizing x with
  | zero => cases hx
  | succ i ih =>
    rcases (r.asked i).statement t x st hx hs with ⟨z, hz, hzs⟩ | ⟨n, skew, hm, hn, ht⟩
    · obtain ⟨s, n, hsi, hstart⟩ := ih hz hzs
      exact ⟨s, n, Nat.lt_succ_of_lt hsi, hstart⟩
    · exact ⟨i, n, Nat.lt_succ_self i, ⟨skew, hm⟩, hn, ht⟩

/-- A task that offers an update on its own account was asked to. -/
lemma asked_of_commit {x : Task} {u : Update} (hx : (r.fleet i).tasks[t]? = some x)
    (hu : x.point.commit? = some u) : ∃ j n skew, r.moves j = .request n skew (.commit u) := by
  induction i generalizing x with
  | zero => cases hx
  | succ i ih =>
    rcases (r.asked i).commit t x u hx hu with ⟨z, hz, hzu⟩ | ⟨n, skew, hm⟩
    · exact ih hz hzu
    · exact ⟨i, n, skew, hm⟩

end Run

end SchemaCatalog
