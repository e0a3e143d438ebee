import SchemaCatalog.Proofs.Chronicle.Attempts

/-!
# First come, first served

Run first come, first served, the task in front takes steps until it has to wait, and whoever is
woken comes to the end of the line. Some tasks may be woken that can do no more than end. Set aside,
they do not change the order in which the others take their turns, and whoever is the first of the
others comes to the front (`Calm.comes`).
-/

namespace SchemaCatalog

namespace Fleet

/-- The answer that the task in front gets in its next step, if it makes an offer there. -/
def answer? (f : Fleet) : Option (Nat × Bool) := do
  let t ← f.ready.head?
  let x ← f.tasks[t]?
  let g ← f.step t
  let y ← g.tasks[t]?
  (answered x y.point).map fun yes => (t, yes)

/-- The answers to what is offered in so many turns, in order, with the tasks that get them. -/
def answers : Nat → Fleet → List (Nat × Bool)
  | 0, _ => []
  | k + 1, f =>
    match f.turn with
    | some g => f.answer?.toList ++ answers k g
    | none => []

/-- In some turns one fleet comes to be the other, with these answers to what is offered
meanwhile. -/
def RunsTo (f g : Fleet) (as : List (Nat × Bool)) : Prop := ∃ m, f.run m = g ∧ f.answers m = as

/-- Who is in line, but for some that are set aside. -/
def line (f : Fleet) (aside : List Nat) : List Nat := f.ready.filter fun t => t ∉ aside

/-- The task is in front, and these are behind it, but for some that are set aside. -/
def Ahead (f : Fleet) (aside : List Nat) (t : Nat) (q : List Nat) : Prop :=
  ∃ rest, f.ready = t :: rest ∧ rest.filter (fun t => t ∉ aside) = q

/-- The task has come to a version: it has ended with it, or sleeps until it is active. -/
def Commits (f : Fleet) (t : Nat) (v : Version) : Prop :=
  ∃ x, f.tasks[t]? = some x ∧
    (x.point = .ended (.version v) ∨ ∃ target, x.point = .sleep target (.version v))

/-- Whether a task at this point waits for another task to end or for a time. -/
def isTimed : Point → Bool
  | .join .. => true
  | .sleep .. => true
  | _ => false

/-- Those who are set aside have come to a version, and nobody else sleeps or waits for another task
to end. -/
structure Calm (f : Fleet) (aside : List Nat) : Prop where
  timed : ∀ (t : Nat) (x : Task), f.tasks[t]? = some x → t ∉ aside → isTimed x.point = false
  commits : ∀ t ∈ aside, ∃ v, f.Commits t v

/-- Only these tasks and those who are set aside differ, and the latter have come to the versions
that they had come to. -/
structure Apart (f g : Fleet) (aside ts : List Nat) : Prop where
  tasks : ∀ t, t ∉ aside → t ∉ ts → g.tasks[t]? = f.tasks[t]?
  commits : ∀ t ∈ aside, ∀ v, f.Commits t v → g.Commits t v

section

variable {f g h : Fleet} {as bs : List (Nat × Bool)} {aside ts us q rest : List Nat} {t u m k : Nat}
  {v : Version} {p : Point} {x : Task}

/-! ## Turns -/

lemma run_of_none (none : f.turn = none) (m : Nat) : f.run m = f := by
  cases m with
  | zero => rfl
  | succ m => simp only [run, none]

lemma run_add (f : Fleet) (m k : Nat) : f.run (m + k) = (f.run m).run k := by
  induction m generalizing f with
  | zero => rw [Nat.zero_add, run]
  | succ m ih =>
    rw [Nat.succ_add, run, run]
    cases e : f.turn with
    | none => exact (run_of_none e k).symm
    | some g => exact ih g

/-- Where nobody is left in line all turns are over. -/
lemma run_unique (hm : (f.run m).turn = none) (hk : (f.run k).turn = none) :
    f.run m = f.run k := by
  rcases Nat.le_total m k with le | le
  · obtain ⟨d, rfl⟩ := Nat.exists_eq_add_of_le le
    rw [run_add, run_of_none hm]
  · obtain ⟨d, rfl⟩ := Nat.exists_eq_add_of_le le
    rw [run_add, run_of_none hk]

lemma answers_add (f : Fleet) (m k : Nat) :
    f.answers (m + k) = f.answers m ++ (f.run m).answers k := by
  induction m generalizing f with
  | zero => rw [Nat.zero_add, run, answers, List.nil_append]
  | succ m ih =>
    rw [Nat.succ_add, answers, answers, run]
    cases e : f.turn with
    | none =>
      cases k with
      | zero => rfl
      | succ k => simp only [answers, e, List.nil_append]
    | some g => simp only [ih g, List.append_assoc]

lemma RunsTo.refl (f : Fleet) : f.RunsTo f [] := ⟨0, rfl, rfl⟩

lemma RunsTo.trans (hf : f.RunsTo g as) (hg : g.RunsTo h bs) : f.RunsTo h (as ++ bs) := by
  obtain ⟨m, rfl, rfl⟩ := hf
  obtain ⟨k, rfl, rfl⟩ := hg
  exact ⟨m + k, run_add f m k, answers_add f m k⟩

/-- Nothing is offered at last. -/
lemma RunsTo.before (hf : f.RunsTo g as) (hg : g.RunsTo h []) : f.RunsTo h as := by
  have leads := hf.trans hg
  rwa [List.append_nil] at leads

lemma runsTo_of_turn (e : f.turn = some g) : f.RunsTo g f.answer?.toList := by
  refine ⟨1, ?_, ?_⟩
  · simp only [run, e]
  · simp only [answers, e, List.append_nil]

/-! ## The task in front -/

lemma Ahead.congr (hf : f.Ahead aside t q) (e : g.ready = f.ready) : g.Ahead aside t q := by
  obtain ⟨rest, h, hq⟩ := hf
  exact ⟨rest, e.trans h, hq⟩

/-- The task in front takes a step, in which it may be given an answer. -/
lemma Ahead.answered {y : Task} {a : List Bool} (hf : f.Ahead aside t q) (step : f.step t = some g)
    (hx : f.tasks[t]? = some x) (hy : g.tasks[t]? = some y)
    (ha : (Fleet.answered x y.point).toList = a) : f.RunsTo g (a.map fun yes => (t, yes)) := by
  obtain ⟨rest, e, -⟩ := hf
  have leads := runsTo_of_turn (show f.turn = some g by simp only [turn, e, step])
  have answer : f.answer? = (Fleet.answered x y.point).map fun yes => (t, yes) := by
    simp [answer?, e, hx, step, hy]
  rw [answer] at leads
  rw [← ha]
  cases answered : Fleet.answered x y.point with
  | none => rwa [answered] at leads
  | some yes => rwa [answered] at leads

/-- The task in front takes a step in which it makes no offer. -/
lemma Ahead.silent (hf : f.Ahead aside t q) (step : f.step t = some g) (hx : f.tasks[t]? = some x)
    (hp : x.point.offer? = none) : f.RunsTo g [] := by
  obtain ⟨rest, e, -⟩ := hf
  have leads := runsTo_of_turn (show f.turn = some g by simp only [turn, e, step])
  have answer : f.answer? = none := by
    simp [answer?, e, hx, Fleet.answered, hp, step]
  rwa [answer] at leads

lemma runsTo_of_stuck (e : f.ready = t :: rest) (stuck : f.step t = none) :
    f.RunsTo { f with ready := rest } [] := by
  have leads := runsTo_of_turn (show f.turn = some { f with ready := rest } by
    simp only [turn, e, stuck])
  have answer : f.answer? = none := by
    simp [answer?, e, stuck]
  rwa [answer] at leads

/-- The task in front leaves the line when it can do nothing. -/
lemma Ahead.leaves (hf : f.Ahead aside t q) (stuck : f.step t = none) :
    ∃ rest, f.RunsTo { f with ready := rest } [] ∧ rest.filter (fun t => t ∉ aside) = q := by
  obtain ⟨rest, e, hq⟩ := hf
  exact ⟨rest, runsTo_of_stuck e stuck, hq⟩

/-- If the task in front is set aside too, those behind it are left. -/
lemma Ahead.line_cons (hf : f.Ahead aside t q) (absent : t ∉ q) : f.line (t :: aside) = q := by
  obtain ⟨rest, e, rfl⟩ := hf
  rw [line, e, List.filter_cons_of_neg (by simp)]
  refine List.filter_congr fun u hu => ?_
  by_cases ha : u ∈ aside
  · simp [ha]
  · have ne : u ≠ t := by
      rintro rfl
      exact absent (List.mem_filter.2 ⟨hu, decide_eq_true ha⟩)
    simp [ha, ne]

/-! ## Waking -/

/-- Whoever is woken anew comes to the end. -/
lemma Ahead.wake (hf : f.Ahead aside t q) (aside' : u ∉ aside) (new : u ≠ t) (new' : u ∉ q) :
    (f.wake u).Ahead aside t (q ++ [u]) := by
  obtain ⟨rest, e, rfl⟩ := hf
  have absent : u ∉ f.ready := by
    rw [e]
    rintro (_ | ⟨_, mem⟩)
    · exact new rfl
    · exact new' (List.mem_filter.2 ⟨mem, decide_eq_true aside'⟩)
  refine ⟨rest ++ [u], ?_, ?_⟩
  · rw [Fleet.wake, if_neg (by simpa using absent), e]
    rfl
  · simp [aside']

/-- It does not matter to the others whether one is woken who is set aside. -/
lemma Ahead.wake_aside (hf : f.Ahead aside t q) (hu : u ∈ aside) : (f.wake u).Ahead aside t q := by
  obtain ⟨rest, e, rfl⟩ := hf
  by_cases mem : u ∈ f.ready
  · refine ⟨rest, ?_, rfl⟩
    rw [Fleet.wake, if_pos (by simpa using mem), e]
  · refine ⟨rest ++ [u], ?_, ?_⟩
    · rw [Fleet.wake, if_neg (by simpa using mem), e]
      rfl
    · simp [hu]

lemma Ahead.wakeAll_aside (hf : f.Ahead aside t q) (hu : ∀ u ∈ us, u ∈ aside) :
    (f.wakeAll us).Ahead aside t q := by
  induction us generalizing f with
  | nil => exact hf
  | cons u us ih =>
    exact ih (hf.wake_aside (hu u List.mem_cons_self)) fun w hw => hu w (List.mem_cons_of_mem _ hw)

/-- Those who are woken anew come to the end in their order. -/
lemma Ahead.wakeAll (hf : f.Ahead aside t q) (hu : ∀ u ∈ us, u ∉ aside ∧ u ≠ t ∧ u ∉ q)
    (nodup : us.Nodup) : (f.wakeAll us).Ahead aside t (q ++ us) := by
  induction us generalizing f q with
  | nil =>
    rw [List.append_nil]
    exact hf
  | cons u us ih =>
    obtain ⟨absent, nodup⟩ := List.nodup_cons.1 nodup
    obtain ⟨aside', new, new'⟩ := hu u List.mem_cons_self
    rw [List.append_cons]
    refine ih (hf.wake aside' new new') (fun w hw => ?_) nodup
    obtain ⟨waside, wnew, wnew'⟩ := hu w (List.mem_cons_of_mem _ hw)
    refine ⟨waside, wnew, fun mem => ?_⟩
    rcases List.mem_append.1 mem with mem | mem
    · exact wnew' mem
    · rw [List.mem_singleton.1 mem] at hw
      exact absent hw

lemma Ahead.tell {sig : Signal} (hf : f.Ahead aside t q) (hu : ∀ u ∈ us, u ∉ aside ∧ u ≠ t ∧ u ∉ q)
    (nodup : us.Nodup) : (f.tell sig us).Ahead aside t (q ++ us) :=
  Ahead.wakeAll (hf.congr rfl) hu nodup

/-! ## Tasks apart -/

lemma Commits.congr (hc : f.Commits t v) (e : g.tasks[t]? = f.tasks[t]?) : g.Commits t v := by
  obtain ⟨x, hx, point⟩ := hc
  exact ⟨x, e.trans hx, point⟩

lemma Apart.refl (f : Fleet) (aside ts : List Nat) : f.Apart f aside ts :=
  ⟨fun _ _ _ => rfl, fun _ _ _ => id⟩

lemma Apart.trans (hf : f.Apart g aside ts) (hg : g.Apart h aside ts) : f.Apart h aside ts where
  tasks t ha ht := (hg.tasks t ha ht).trans (hf.tasks t ha ht)
  commits t ha v hv := hg.commits t ha v (hf.commits t ha v hv)

lemma Apart.mono (hf : f.Apart g aside ts) (sub : ∀ t ∈ ts, t ∈ us) : f.Apart g aside us where
  tasks t ha ht := hf.tasks t ha fun mem => ht (sub t mem)
  commits := hf.commits

/-- Nobody but the one who moves differs. -/
lemma apart_moveTo (ha : t ∉ aside) (p : Point) : f.Apart (f.moveTo t p) aside [t] where
  tasks u _ hu := by
    have ne : t ≠ u := fun e => hu (List.mem_singleton.2 e.symm)
    simp only [moveTo_fields, List.getElem?_modify_ne _ _ ne]
  commits u hu v hv := by
    have ne : t ≠ u := by
      rintro rfl
      exact ha hu
    exact hv.congr (by simp only [moveTo_fields, List.getElem?_modify_ne _ _ ne])

lemma Apart.congr {k : Fleet} (hf : f.Apart g aside ts) (e : k.tasks = g.tasks) :
    f.Apart k aside ts where
  tasks t ha ht := by
    rw [e]
    exact hf.tasks t ha ht
  commits t ha v hv := (hf.commits t ha v hv).congr (by rw [e])

lemma getElem?_tell {sig : Signal} (hu : u ∉ us) : (f.tell sig us).tasks[u]? = f.tasks[u]? := by
  simp only [tell_fields, List.getElem?_mapIdx]
  cases f.tasks[u]? with
  | none => rfl
  | some x => rw [Option.map_some, told_of_not_mem hu]

/-- Nobody but those who are told something differs. -/
lemma apart_tell {sig : Signal} (h : ∀ u ∈ us, u ∉ aside) : f.Apart (f.tell sig us) aside us where
  tasks _ _ hu := getElem?_tell hu
  commits u hu _ hv := hv.congr (getElem?_tell fun mem => h u mem hu)

/-! ## Calm fleets -/

lemma Calm.congr (hf : f.Calm aside) (e : g.tasks = f.tasks) : g.Calm aside where
  timed t x hx := hf.timed t x (e ▸ hx)
  commits t ht := by
    obtain ⟨v, hv⟩ := hf.commits t ht
    exact ⟨v, hv.congr (by rw [e])⟩

/-- Somebody moves who is not set aside, to a point where nobody sleeps or waits for another
task. -/
lemma Calm.moveTo (hf : f.Calm aside) (ha : t ∉ aside) (hp : isTimed p = false) :
    (f.moveTo t p).Calm aside where
  timed u x hx hu := by
    simp only [moveTo_fields] at hx
    rcases modify_cases hx with ⟨-, z, -, rfl⟩ | ⟨-, hx⟩
    · exact hp
    · exact hf.timed u x hx hu
  commits u hu := by
    obtain ⟨v, hv⟩ := hf.commits u hu
    exact ⟨v, (apart_moveTo ha p).commits u hu v hv⟩

/-- Whoever comes to a version can be set aside. -/
lemma Calm.cons (hf : f.Calm aside) (ha : t ∉ aside) (hv : (f.moveTo t p).Commits t v) :
    (f.moveTo t p).Calm (t :: aside) where
  timed u x hx hu := by
    obtain ⟨ne, hu⟩ := not_or.1 (List.mem_cons.not.1 hu)
    simp only [moveTo_fields, List.getElem?_modify_ne _ _ (Ne.symm ne)] at hx
    exact hf.timed u x hx hu
  commits u hu := by
    rcases List.mem_cons.1 hu with rfl | hu
    · exact ⟨v, hv⟩
    · obtain ⟨w, hw⟩ := hf.commits u hu
      exact ⟨w, (apart_moveTo ha p).commits u hu w hw⟩

/-- Somebody is told something who is not set aside. -/
lemma Calm.tell {sig : Signal} (hf : f.Calm aside) (h : ∀ u ∈ us, u ∉ aside) :
    (f.tell sig us).Calm aside where
  timed u x hx hu := by
    simp only [tell_fields] at hx
    obtain ⟨z, hz, rfl⟩ := told_cases hx
    rw [(told_point sig us u z).1]
    exact hf.timed u z hz hu
  commits u hu := by
    obtain ⟨v, hv⟩ := hf.commits u hu
    exact ⟨v, (apart_tell h).commits u hu v hv⟩

lemma Calm.not_joins (hf : f.Calm aside) (t : Nat) : f.tasksWhere (joins t) = [] := by
  rw [List.eq_nil_iff_forall_not_mem]
  intro u mem
  obtain ⟨x, hx, test⟩ := mem_tasksWhere.1 mem
  obtain ⟨w, after, hp⟩ : ∃ w after, x.point = .join w after := by
    unfold joins at test
    split at test
    · rename_i w after hp
      exact ⟨w, after, hp⟩
    · cases test
  by_cases hu : u ∈ aside
  · obtain ⟨v, y, hy, point⟩ := hf.commits u hu
    rw [hx] at hy
    cases hy
    rw [hp] at point
    rcases point with point | ⟨target, point⟩
    · cases point
    · cases point
  · have timed := hf.timed u x hx hu
    rw [hp] at timed
    cases timed

/-- The end of a task wakes nobody. -/
lemma Calm.finish (hf : f.Calm aside) (t : Nat) (o : Outcome) :
    f.finish t o = f.moveTo t (.ended o) := by
  rw [Fleet.finish, hf.not_joins]
  rfl

/-- Time wakes only those who are set aside. -/
lemma Calm.setClock (hf : f.Calm aside) (ahead : f.Ahead aside t q) (c : Clock) :
    (f.setClock c).Ahead aside t q := by
  refine Ahead.wakeAll_aside (ahead.congr rfl) fun u mem => ?_
  obtain ⟨x, hx, test⟩ := mem_tasksWhere.1 mem
  by_contra hu
  have timed := hf.timed u x hx hu
  unfold sleepsUntil at test
  split at test
  · rename_i hp
    rw [hp] at timed
    cases timed
  · cases test

/-- Who is set aside has ended, or sleeps and ends when it is time. -/
lemma Calm.step (hf : f.Calm aside) (ht : t ∈ aside) : f.step t = none ∨
    ∃ v, f.Commits t v ∧ f.step t = some (f.moveTo t (.ended (.version v))) := by
  obtain ⟨v, x, hx, hp | ⟨target, hp⟩⟩ := hf.commits t ht
  · left
    simp only [Fleet.step, hx, hp]
  · by_cases time : target ≤ f.clock.current
    · right
      refine ⟨v, ⟨x, hx, .inr ⟨target, hp⟩⟩, ?_⟩
      simp only [Fleet.step, hx, hp, stepSleep, if_pos time, hf.finish]
    · left
      simp only [Fleet.step, hx, hp, stepSleep, if_neg time]

/-- A task comes to one version at most. -/
lemma Commits.unique {w : Version} (hv : f.Commits t v) (hw : f.Commits t w) : v = w := by
  obtain ⟨x, hx, hp⟩ := hv
  obtain ⟨y, hy, hq⟩ := hw
  cases hx.symm.trans hy
  rcases hp with hp | ⟨_, hp⟩
  · rcases hq with hq | ⟨_, hq⟩
    · cases hp.symm.trans hq
      rfl
    · cases hp.symm.trans hq
  · rcases hq with hq | ⟨_, hq⟩
    · cases hp.symm.trans hq
    · cases hp.symm.trans hq
      rfl

/-- A task that has come to a version has not failed. -/
lemma Commits.not_failed {e : Error} (hv : f.Commits t v) :
    f.outcome? t ≠ some (.failed e) := by
  obtain ⟨x, hx, hp⟩ := hv
  intro failed
  rw [outcome?, hx, Option.bind_some, Task.outcome?] at failed
  rcases hp with hp | ⟨_, hp⟩
  · rw [hp] at failed
    cases failed
  · rw [hp] at failed
    cases failed

/-- A task that has come to a version ends with it. -/
lemma Commits.ends (hv : f.Commits t v) : (f.moveTo t (.ended (.version v))).Commits t v := by
  obtain ⟨x, hx, -⟩ := hv
  exact ⟨_, getElem?_moveTo hx _, .inl rfl⟩

lemma apart_ends (ht : t ∈ aside) (hv : f.Commits t v) :
    f.Apart (f.moveTo t (.ended (.version v))) aside [] where
  tasks u hu _ := by
    have ne : t ≠ u := by
      rintro rfl
      exact hu ht
    simp only [moveTo_fields, List.getElem?_modify_ne _ _ ne]
  commits u hu w hw := by
    by_cases e : t = u
    · subst e
      rw [← hv.unique hw]
      exact hv.ends
    · exact hw.congr (by simp only [moveTo_fields, List.getElem?_modify_ne _ _ e])

/-- Those who are set aside stay calm whatever they come to. -/
lemma Calm.apart (hf : f.Calm aside) (apart : f.Apart g aside []) : g.Calm aside where
  timed t x hx ht := hf.timed t x ((apart.tasks t ht List.not_mem_nil).symm.trans hx) ht
  commits t ht := by
    obtain ⟨v, hv⟩ := hf.commits t ht
    exact ⟨v, apart.commits t ht v hv⟩

/-- Who is set aside leaves the line when its turn comes, and may have ended by then. -/
lemma Calm.passes (hf : f.Calm aside) (ht : t ∈ aside) (hr : f.ready = t :: rest) :
    ∃ g, f.RunsTo g [] ∧ g.ready = rest ∧ f.Apart g aside [] ∧
      g = { f with tasks := g.tasks, ready := g.ready } := by
  rcases hf.step ht with stuck | ⟨v, hv, step⟩
  · exact ⟨_, runsTo_of_stuck hr stuck, rfl, (Apart.refl f aside []).congr rfl, rfl⟩
  · obtain ⟨x, hx, hp⟩ := id hv
    have silent : x.point.offer? = none := by
      rcases hp with hp | ⟨_, hp⟩
      · rw [hp]
        rfl
      · rw [hp]
        rfl
    have hy := getElem?_moveTo hx (.ended (.version v))
    have stuck : (f.moveTo t (.ended (.version v))).step t = none := by
      simp only [Fleet.step, hy]
    have ahead : f.Ahead aside t (rest.filter fun t => t ∉ aside) := ⟨rest, hr, rfl⟩
    exact ⟨_, (ahead.silent step hx silent).trans (runsTo_of_stuck hr stuck), rfl,
      (apart_ends ht hv).congr rfl, rfl⟩

/-- Those who are set aside leave the line until somebody else is in front. -/
lemma Calm.skips (hf : f.Calm aside) :
    ∃ g, f.RunsTo g [] ∧ g.line aside = f.line aside ∧
      (∀ t rest, g.ready = t :: rest → t ∉ aside) ∧ f.Apart g aside [] ∧
      g = { f with tasks := g.tasks, ready := g.ready } := by
  generalize hr : f.ready = r
  induction r generalizing f with
  | nil =>
    refine ⟨f, .refl f, rfl, fun t rest e => ?_, .refl .., rfl⟩
    rw [hr] at e
    cases e
  | cons u rest ih =>
    by_cases hu : u ∈ aside
    · obtain ⟨g, leads, ready, apart, same⟩ := hf.passes hu hr
      obtain ⟨k, leads', line, front, apart', same'⟩ := ih (hf.apart apart) ready
      refine ⟨k, leads.trans leads', ?_, front, apart.trans apart', ?_⟩
      · rw [line, Fleet.line, Fleet.line, ready, hr, List.filter_cons_of_neg (by simpa using hu)]
      · rw [same', same]
    · refine ⟨f, .refl f, rfl, fun t rest' e => ?_, .refl .., rfl⟩
      rw [hr] at e
      cases e
      exact hu

/-- The first of those who are not set aside comes to the front. -/
lemma Calm.comes (hf : f.Calm aside) (hl : f.line aside = t :: q) :
    ∃ g, f.RunsTo g [] ∧ g.Ahead aside t q ∧ f.Apart g aside [] ∧
      g = { f with tasks := g.tasks, ready := g.ready } := by
  obtain ⟨g, leads, line, front, apart, same⟩ := hf.skips
  rw [hl, Fleet.line] at line
  cases hr : g.ready with
  | nil =>
    rw [hr] at line
    cases line
  | cons u rest =>
    rw [hr, List.filter_cons_of_pos (by simpa using front u rest hr)] at line
    cases line
    exact ⟨g, leads, ⟨rest, hr, rfl⟩, apart, same⟩

/-- Where only those who are set aside are in line, all turns come to an end. -/
lemma Calm.drains (hf : f.Calm aside) (hl : f.line aside = []) :
    ∃ g, f.RunsTo g [] ∧ g.turn = none ∧ f.Apart g aside [] ∧
      g = { f with tasks := g.tasks, ready := g.ready } := by
  obtain ⟨g, leads, line, front, apart, same⟩ := hf.skips
  rw [hl, Fleet.line] at line
  cases hr : g.ready with
  | nil =>
    exact ⟨g, leads, by simp only [turn, hr], apart, same⟩
  | cons u rest =>
    rw [hr, List.filter_cons_of_pos (by simpa using front u rest hr)] at line
    cases line

end

end Fleet

end SchemaCatalog
