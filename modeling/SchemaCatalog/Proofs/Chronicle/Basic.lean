import SchemaCatalog.Proofs.Fleet.Stride
import SchemaCatalog.Proofs.Run.Statements

/-!
# Statements, whatever happens

A chronicle is any sequence of things that happen to a fleet, from its beginning on. Unlike in a
run, nodes may work with scripted logs, and anything may be handed to them. The task of a statement
is carried through a chronicle by its strides alone (`Starts.induction`).
-/

namespace SchemaCatalog

/-- A stride of a statement leads to a point of the same statement. -/
lemma Fleet.Stride.of {f g : Fleet} {x : Task} {p : Point} {st : Statement} (h : f.Stride g x p)
    (hx : x.point.Of st) : p.Of st := by
  cases h with
  | turn _ turn _ => exact turn.of hx
  | taken _ _ => exact .awaitSaved _
  | refused e _ =>
    rw [e] at hx
    cases hx
    exact .review _
  | asked e _ =>
    rw [e] at hx
    cases hx
    exact .awaitRetry _ _
  | broken _ _ => exact .ended _

/-- All that happens to a fleet from its beginning, with the clock where that stands. -/
structure Chronicle where
  clock : Clock
  happenings : Nat → Happening

namespace Chronicle

/-- The fleet at a moment of a chronicle. -/
def fleet (k : Chronicle) : Nat → Fleet
  | 0 => Fleet.ofClock k.clock
  | i + 1 => (k.fleet i).befall (k.happenings i)

/-- The step that a task takes at this moment: the task before it, and after it. -/
def stride? (k : Chronicle) (t i : Nat) : Option (Task × Task) :=
  if (k.happenings i).steps t && ((k.fleet i).step t).isSome then
    (k.fleet i).tasks[t]?.bind fun x => (k.fleet (i + 1)).tasks[t]?.map fun y => (x, y)
  else none

/-- At this moment a statement is started on a node, as this task. -/
structure Starts (k : Chronicle) (s n : Nat) (st : Statement) (t : Nat) : Prop where
  happening : ∃ skew, k.happenings s = .request n skew (.execute st)
  node : n < (k.fleet s).nodes.length
  task : t = (k.fleet s).tasks.length

variable {k : Chronicle} {s n t i j : Nat} {st : Statement} {x y : Task}

/-! ## Every moment -/

lemma placed (k : Chronicle) (i : Nat) : (k.fleet i).Placed := by
  induction i with
  | zero => exact fun t x hx => by cases hx
  | succ i ih => exact ih.keeps (Fleet.keeps_of_befall ih _)

lemma keeps (k : Chronicle) (i : Nat) :
    (k.fleet i).Keeps (k.happenings i) (k.fleet (i + 1)) :=
  Fleet.keeps_of_befall (k.placed i) _

lemma nodes_le (h : i ≤ j) : (k.fleet i).nodes.length ≤ (k.fleet j).nodes.length := by
  induction h with
  | refl => exact Nat.le_refl _
  | @step j _ ih => exact Nat.le_trans ih (k.keeps j).nodes

/-- What a node keeps whatever happens it keeps for good. -/
lemma kept (h : i ≤ j) (hn : n < (k.fleet i).nodes.length) :
    ((k.fleet i).node n).Kept ((k.fleet j).node n) := by
  induction h with
  | refl => exact .refl _
  | @step j hij ih => exact ih.trans ((k.keeps j).node n (Nat.lt_of_lt_of_le hn (nodes_le hij)))

lemma task_stays (h : i ≤ j) (hx : (k.fleet i).tasks[t]? = some x) :
    ∃ y, (k.fleet j).tasks[t]? = some y := by
  induction h with
  | refl => exact ⟨x, hx⟩
  | @step j _ ih =>
    obtain ⟨y, hy⟩ := ih
    obtain ⟨z, hz, -⟩ := (k.keeps j).task t y hy
    exact ⟨z, hz⟩

/-- A task that has ended stays as it has ended. -/
lemma outcome_le {o : Outcome} (h : i ≤ j) (ho : (k.fleet i).outcome? t = some o) :
    (k.fleet j).outcome? t = some o := by
  induction h with
  | refl => exact ho
  | @step j _ ih =>
    obtain ⟨x, hx, hp⟩ := Option.bind_eq_some_iff.1 ih
    obtain ⟨y, hy, -, same⟩ := (k.keeps j).task t x hx
    rw [Fleet.outcome?, hy, Option.bind_some, Task.outcome?, same (.inr (hp ▸ rfl))]
    exact hp

/-- The nodes register each catalog under its version. -/
lemma keyed (hn : n < (k.fleet i).nodes.length) : ((k.fleet i).node n).history.Keyed := by
  induction i with
  | zero => cases hn
  | succ i ih =>
    rcases Nat.lt_or_ge n (k.fleet i).nodes.length with hlt | hge
    · exact ((k.keeps i).node n hlt).history.keyed (ih hlt)
    · obtain ⟨c, link, kept⟩ := (k.keeps i).joined n hge hn
      exact kept.history.keyed History.keyed_empty

/-! ## Strides -/

lemma of_stride (h : k.stride? t i = some (x, y)) :
    k.happenings i = .step t ∧ (k.fleet i).tasks[t]? = some x ∧
      (k.fleet (i + 1)).tasks[t]? = some y ∧ (k.fleet i).step t = some (k.fleet (i + 1)) := by
  unfold stride? at h
  split at h
  · rename_i hs
    obtain ⟨steps, some⟩ := Bool.and_eq_true_iff.1 hs
    obtain ⟨g, hg⟩ := Option.isSome_iff_exists.1 some
    obtain ⟨x', hx, h⟩ := Option.bind_eq_some_iff.1 h
    obtain ⟨y', hy, e⟩ := Option.map_eq_some_iff.1 h
    cases e
    have move := Happening.steps_iff.1 steps
    refine ⟨move, hx, hy, ?_⟩
    rw [fleet, move, Fleet.befall, hg]
    rfl
  · cases h

/-- A task that takes a step moves. -/
lemma stride_of_step {g : Fleet} (move : k.happenings i = .step t)
    (hx : (k.fleet i).tasks[t]? = some x) (hg : (k.fleet i).step t = some g) :
    g = k.fleet (i + 1) ∧ ∃ y, k.stride? t i = some (x, y) := by
  have next : k.fleet (i + 1) = g := by
    rw [fleet, move, Fleet.befall, hg]
    rfl
  obtain ⟨y, hy, -⟩ := (k.keeps i).task t x hx
  refine ⟨next.symm, y, ?_⟩
  rw [stride?, if_pos (by rw [Happening.steps_iff.2 move, hg]; rfl), hx, hy]
  rfl

/-- A task that takes no step stands where it stood. -/
lemma still_of_stride (h : k.stride? t i = none) (hx : (k.fleet i).tasks[t]? = some x) :
    (∃ y, (k.fleet (i + 1)).tasks[t]? = some y ∧ y.node = x.node ∧ y.point = x.point) ∧
      (k.happenings i = .step t → (k.fleet i).step t = none) := by
  have stuck : k.happenings i = .step t → (k.fleet i).step t = none := by
    intro move
    cases hg : (k.fleet i).step t with
    | none => rfl
    | some g =>
      obtain ⟨-, y, hy⟩ := stride_of_step move hx hg
      rw [h] at hy
      cases hy
  refine ⟨?_, stuck⟩
  by_cases move : k.happenings i = .step t
  · have same : k.fleet (i + 1) = k.fleet i := by
      rw [fleet, move, Fleet.befall, stuck move]
      rfl
    exact ⟨x, by rw [same, hx], rfl, rfl⟩
  · obtain ⟨y, hy, hyn, hyp⟩ := (k.keeps i).task t x hx
    exact ⟨y, hy, hyn, hyp (.inl move)⟩

/-- The step of a task of a statement is one of its strides. -/
lemma stride_of_task (h : k.stride? t i = some (x, y)) (hof : x.point.Of st) :
    y.node = x.node ∧ (k.fleet i).Stride (k.fleet (i + 1)) x y.point := by
  obtain ⟨-, hx, hy, step⟩ := of_stride h
  rcases hof.cases with isStatement | ⟨o, ho⟩
  · obtain ⟨p, hp, hstride⟩ := Fleet.stride_of_step (k.placed i t x hx) hx isStatement step
    rw [hy] at hp
    cases hp
    exact ⟨rfl, hstride⟩
  · -- A task that has ended takes no step.
    simp only [Fleet.step, hx, ho] at step
    cases step

/-! ## The task of a statement -/

lemma Starts.begins (h : k.Starts s n st t) :
    (k.fleet (s + 1)).tasks[t]? = some ⟨n, .draft st 1, none⟩ := by
  obtain ⟨skew, hm⟩ := h.happening
  have e : k.fleet (s + 1) = (k.fleet s).spawn n (.draft st 1) := by
    rw [fleet, hm, Fleet.befall, if_pos h.node]
    rfl
  rw [e, h.task]
  exact Fleet.getElem?_spawn ..

/-- The task of a statement is none before the statement is started. -/
lemma Starts.lt_of_task (h : k.Starts s n st t) (hx : (k.fleet i).tasks[t]? = some x) : s < i := by
  rcases Nat.lt_or_ge s i with hlt | hge
  · exact hlt
  · obtain ⟨y, hy⟩ := task_stays hge hx
    obtain ⟨hlt, -⟩ := List.getElem?_eq_some_iff.1 hy
    rw [h.task] at hlt
    exact absurd hlt (Nat.lt_irrefl _)

/-- What holds of the task of a statement at its start, and is preserved while it stays where it is
and by each of its strides, holds at every later moment. -/
lemma Starts.induction (h : k.Starts s n st t) {P : Nat → Point → Prop}
    (base : P (s + 1) (.draft st 1))
    (stay : ∀ i x, s < i → (k.fleet i).tasks[t]? = some x → k.stride? t i = none →
      P i x.point → P (i + 1) x.point)
    (stride : ∀ i x y, s < i → k.stride? t i = some (x, y) → x.node = n → x.point.Of st →
      P i x.point → (k.fleet i).Stride (k.fleet (i + 1)) x y.point → P (i + 1) y.point)
    (hx : (k.fleet i).tasks[t]? = some x) : s < i ∧ x.node = n ∧ x.point.Of st ∧ P i x.point := by
  have hi := h.lt_of_task hx
  suffices found : ∃ x, (k.fleet i).tasks[t]? = some x ∧ x.node = n ∧ x.point.Of st ∧ P i x.point by
    obtain ⟨y, hy, holds⟩ := found
    rw [hx] at hy
    cases hy
    exact ⟨hi, holds⟩
  clear hx
  induction hi with
  | refl => exact ⟨_, h.begins, rfl, .draft 1, base⟩
  | @step i hi ih =>
    obtain ⟨x, hx, hn, hof, hp⟩ := ih
    cases hs : k.stride? t i with
    | none =>
      obtain ⟨⟨y, hy, hyn, hyp⟩, -⟩ := still_of_stride hs hx
      exact ⟨y, hy, hyn.trans hn, hyp ▸ hof, hyp ▸ stay i x hi hx hs hp⟩
    | some xy =>
      obtain ⟨x', y⟩ := xy
      obtain ⟨-, hx', hy, -⟩ := of_stride hs
      rw [hx] at hx'
      cases hx'
      obtain ⟨hyn, hstride⟩ := stride_of_task hs hof
      exact ⟨_, hy, hyn.trans hn, hstride.of hof, stride i x _ hi hs hn hof hp hstride⟩

/-- The task of a statement is on its node, at a point of the statement. -/
lemma Starts.of_task (h : k.Starts s n st t) (hx : (k.fleet i).tasks[t]? = some x) :
    s < i ∧ x.node = n ∧ x.point.Of st := by
  obtain ⟨hi, hn, hof, -⟩ := h.induction (P := fun _ _ => True) trivial
    (fun _ _ _ _ _ _ => trivial) (fun _ _ _ _ _ _ _ _ _ => trivial) hx
  exact ⟨hi, hn, hof⟩

/-- Each step of the task of a statement is one of its strides. -/
lemma Starts.stride (h : k.Starts s n st t) (hs : k.stride? t i = some (x, y)) :
    s < i ∧ x.node = n ∧ x.point.Of st ∧ (k.fleet i).Stride (k.fleet (i + 1)) x y.point := by
  obtain ⟨-, hx, -, -⟩ := of_stride hs
  obtain ⟨hi, hn, hof⟩ := h.of_task hx
  exact ⟨hi, hn, hof, (stride_of_task hs hof).2⟩

end Chronicle

end SchemaCatalog
