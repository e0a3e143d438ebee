import Mathlib.Data.List.Basic
import SchemaCatalog.Proofs.Run.Handing
import SchemaCatalog.Proofs.Run.Success

/-!
# What a halt does to statements that were applied

A halt drops everyone who waits for a version of the node, also for a version that is registered
and whose events are still delivered. So a statement that was accepted and applied before the halt
returns if its version was done by then, or is done by the time the statement asks for it, and
otherwise it ends with the error of the halt (`Run.ends_of_halt`).
-/

namespace SchemaCatalog

namespace Fleet

variable {f g : Fleet} {t n : Nat} {v : Version} {q : Purpose} {x : Task} {p : Point} {e : Error}

/-! ## Statements that are sure to return -/

/-- Where a task stands that is bound to return a version, which is registered. -/
inductive Bound (f : Fleet) (n : Nat) (v : Version) : Point → Prop where
  | confirm {c : Catalog} : (f.node n).history.catalog? v = some c → Bound f n v (.confirm v)
  | readClock {c : Catalog} : (f.node n).history.catalog? v = some c →
      Bound f n v (.readClock (c.activation.everywhere (f.node n).skew) (.version v))
  | sleep {c : Catalog} : (f.node n).history.catalog? v = some c →
      Bound f n v (.sleep (c.activation.everywhere (f.node n).skew) (.version v))
  | returned : Bound f n v (.ended (.version v))

/-- What is kept of a node while its tasks return. -/
structure Preserves (f g : Fleet) (n : Nat) : Prop where
  kept : (f.node n).Kept (g.node n)
  registered : ∀ (v : Version) (c : Catalog), (f.node n).history.catalog? v = some c →
    (g.node n).history.catalog? v = some c

lemma Bound.stays (h : f.Bound n v p) (hl : f.Preserves g n) : g.Bound n v p := by
  cases h with
  | confirm hc => exact .confirm (hl.registered _ _ hc)
  | readClock hc =>
    rw [← hl.kept.skew]
    exact .readClock (hl.registered _ _ hc)
  | sleep hc =>
    rw [← hl.kept.skew]
    exact .sleep (hl.registered _ _ hc)
  | returned => exact .returned

lemma Bound.turn (h : f.Bound x.node v x.point) (hl : f.Preserves g x.node)
    (hturn : f.Turn g x p) : g.Bound x.node v p := by
  generalize hp : x.point = q at h
  have skew := hl.kept.skew
  cases h with
  | confirm hc =>
    rcases hturn.of_confirm hp with ⟨c, hc, rfl⟩ | missing
    · rw [← skew]
      exact .readClock (hl.registered _ _ hc)
    · rw [hc] at missing
      cases missing
  | readClock hc =>
    rcases hturn.of_readClock hp with rfl | rfl
    · exact .returned
    · rw [← skew]
      exact .sleep (hl.registered _ _ hc)
  | sleep hc =>
    rw [hturn.of_sleep hp]
    exact .returned
  | returned => exact (hturn.not_ended hp).elim

/-! ## Statements whose update was accepted -/

/-- Where the task of a statement stands whose update was accepted as a version. It fails with the
error of the watermark only. -/
inductive Course (f : Fleet) (n : Nat) (v : Version) : Point → Prop where
  | asks : Course f n v (.await v .saved)
  | waits : Course f n v (.awaiting v .saved)
  | bound {p : Point} : v ≤ (f.node n).mark.doneUntil → f.Bound n v p → Course f n v p
  | failed {e : Error} : (f.node n).mark.failure = some e → Course f n v (.ended (.failed e))

lemma Course.stays (h : f.Course n v p) (hl : f.Preserves g n) : g.Course n v p := by
  cases h with
  | asks => exact .asks
  | waits => exact .waits
  | bound hv hb => exact .bound (Nat.le_trans hv hl.kept.doneUntil) (hb.stays hl)
  | failed he => exact .failed (hl.kept.failure _ he)

lemma Course.turn (h : f.Course x.node v x.point) (hw : f.Waiting) (hx : f.tasks[t]? = some x)
    (hc : v ≤ (f.node x.node).mark.doneUntil →
      ∃ c, (f.node x.node).history.catalog? v = some c)
    (hl : f.Preserves g x.node) (hturn : f.Turn g x p) : g.Course x.node v p := by
  generalize hp : x.point = q at h
  -- Whoever is let through finds the version registered.
  have through : v ≤ (f.node x.node).mark.doneUntil → g.Course x.node v (.confirm v) := by
    intro hv
    obtain ⟨c, hc⟩ := hc hv
    exact .bound (Nat.le_trans hv hl.kept.doneUntil) (.confirm (hl.registered _ _ hc))
  cases h with
  | asks =>
    rcases hturn.of_await hp with ⟨hv, rfl⟩ | ⟨-, ⟨e, he, rfl⟩ | ⟨-, rfl⟩⟩
    · exact through hv
    · exact .failed (hl.kept.failure _ he)
    · exact .waits
  | waits =>
    rcases hturn.of_awaiting hp with ⟨hs, rfl⟩ | ⟨hs, rfl⟩
    · exact through (hw.released t x v _ hx hp hs)
    · obtain ⟨e, he⟩ := hw.dropped t x v _ hx hp hs
      have error : (f.node x.node).mark.failureError = e := by
        rw [Watermark.failureError]
        exact congrArg (Option.getD · _) he
      rw [error]
      exact .failed (hl.kept.failure _ he)
  | bound hv hb =>
    subst hp
    exact .bound (Nat.le_trans hv hl.kept.doneUntil) (hb.turn hl hturn)
  | failed _ => exact (hturn.not_ended hp).elim

/-! ## After the watermark has failed -/

/-- Nobody is listed on a watermark that has failed. -/
lemma not_listed (hw : f.Waiting) (hx : f.tasks[t]? = some x)
    (he : (f.node x.node).mark.failure = some e) : ¬ f.Listed t := by
  rintro ⟨n, v, l, hl, hmem⟩
  obtain ⟨y, _, _, hy, hn, -⟩ := hw.listed n v t l hl hmem
  rw [hx] at hy
  cases hy
  obtain ⟨-, none⟩ := hw.beyond n v l hl
  rw [hn] at he
  rw [Fleet.marks, he] at none
  cases none

/-- A task that returns the version although the watermark has failed. -/
inductive Rescued (f : Fleet) (v : Version) (x : Task) : Prop where
  | asks : x.point = .await v .saved → v ≤ (f.node x.node).mark.doneUntil → Rescued f v x
  | told : x.point = .awaiting v .saved → x.signal = some .released → Rescued f v x
  | bound : f.Bound x.node v x.point → Rescued f v x

/-- A task that fails as the watermark has failed, unless the version is done before it asks. -/
inductive Lost (f : Fleet) (v : Version) (q : Purpose) (e : Error) (x : Task) : Prop where
  | asks : x.point = .await v q → ¬ v ≤ (f.node x.node).mark.doneUntil → Lost f v q e x
  | told : x.point = .awaiting v q → x.signal = some .dropped → Lost f v q e x
  | failed : x.point = .ended (.failed e) → Lost f v q e x

lemma Rescued.stays (h : f.Rescued v x) (hl : f.Preserves g x.node) : g.Rescued v x := by
  cases h with
  | asks hp hv => exact .asks hp (Nat.le_trans hv hl.kept.doneUntil)
  | told hp hs => exact .told hp hs
  | bound hb => exact .bound (hb.stays hl)

lemma Rescued.turn (h : f.Rescued v x) (hw : f.Waiting) (hx : f.tasks[t]? = some x)
    (hc : v ≤ (f.node x.node).mark.doneUntil →
      ∃ c, (f.node x.node).history.catalog? v = some c)
    (hl : f.Preserves g x.node) (hturn : f.Turn g x p) :
    g.Rescued v { x with point := p, signal := none } := by
  have through : v ≤ (f.node x.node).mark.doneUntil → g.Bound x.node v (.confirm v) := by
    intro hv
    obtain ⟨c, hc⟩ := hc hv
    exact .confirm (hl.registered _ _ hc)
  cases h with
  | asks hp hv =>
    rcases hturn.of_await hp with ⟨-, rfl⟩ | ⟨hnv, -⟩
    · exact .bound (through hv)
    · exact absurd hv hnv
  | told hp hs =>
    rcases hturn.of_awaiting hp with ⟨-, rfl⟩ | ⟨hs', -⟩
    · exact .bound (through (hw.released t x v _ hx hp hs))
    · rw [hs] at hs'
      cases hs'
  | bound hb => exact .bound (hb.turn hl hturn)

/-- Those who are listed are dropped. -/
lemma told_of_held (hw : f.Waiting) (hx : f.tasks[t]? = some x) (hp : x.point = .awaiting v .saved)
    (hs : x.signal = none) (err : Error) :
    told .dropped ((f.node x.node).mark.fail err).2 t x = { x with signal := some .dropped } ∧
      ¬ v ≤ (f.node x.node).mark.doneUntil := by
  obtain ⟨l, hl, hmem⟩ := hw.held t x v .saved hx hp hs
  obtain ⟨hlt, -⟩ := hw.beyond x.node _ l hl
  have dropped : t ∈ ((f.node x.node).mark.fail err).2 :=
    List.mem_flatten.2 ⟨l, NatMap.mem_values.2 ⟨_, hl⟩, hmem⟩
  exact ⟨told_of_mem dropped, Nat.not_le.2 hlt⟩

/-- Those who were told something before are told nothing more. -/
lemma told_of_told (hw : f.Waiting) (hx : f.tasks[t]? = some x) (hs : x.signal ≠ none)
    (err : Error) : told .dropped ((f.node n).mark.fail err).2 t x = x := by
  refine told_of_not_mem fun dropped => ?_
  obtain ⟨m, l, hl, hmem⟩ := Watermark.fail_dropped dropped
  obtain ⟨y, _, _, hy, -, -, -, none⟩ := hw.listed n m t l hl hmem
  rw [hx] at hy
  cases hy
  exact hs none

/-- What a halt does to the task of an accepted statement, on a node that was healthy. -/
lemma Course.halted (h : f.Course x.node v x.point) (hw : f.Waiting)
    (hx : f.tasks[t]? = some x) (healthy : (f.node x.node).mark.failure = none) (err : Error) :
    (v ≤ (f.node x.node).mark.doneUntil ∧
        f.Rescued v (told .dropped ((f.node x.node).mark.fail err).2 t x)) ∨
      ¬ v ≤ (f.node x.node).mark.doneUntil ∧
        f.Lost v .saved err (told .dropped ((f.node x.node).mark.fail err).2 t x) := by
  obtain ⟨point, node⟩ := told_point .dropped ((f.node x.node).mark.fail err).2 t x
  generalize hp : x.point = q at h
  rw [hp] at point
  cases h with
  | asks =>
    by_cases hv : v ≤ (f.node x.node).mark.doneUntil
    · exact .inl ⟨hv, .asks point (by rwa [node])⟩
    · exact .inr ⟨hv, .asks point (by rwa [node])⟩
  | waits =>
    cases hs : x.signal with
    | none =>
      obtain ⟨told, hv⟩ := told_of_held hw hx hp hs err
      rw [told]
      exact .inr ⟨hv, .told hp rfl⟩
    | some signal =>
      rw [told_of_told hw hx (by rw [hs]; exact Option.some_ne_none _)]
      cases signal with
      | released => exact .inl ⟨hw.released t x v .saved hx hp hs, .told hp hs⟩
      | dropped =>
        obtain ⟨e, he⟩ := hw.dropped t x v .saved hx hp hs
        rw [marks, healthy] at he
        cases he
  | bound hv hb =>
    refine .inl ⟨hv, .bound ?_⟩
    rw [node, point]
    exact hb
  | failed he =>
    rw [healthy] at he
    cases he

lemma Lost.stays (h : f.Lost v q e x)
    (hd : (g.node x.node).mark.doneUntil = (f.node x.node).mark.doneUntil) : g.Lost v q e x := by
  cases h with
  | asks hp hv => exact .asks hp (by rwa [hd])
  | told hp hs => exact .told hp hs
  | failed hp => exact .failed hp

/-- A turn ends a task that is lost. -/
lemma Lost.turn (h : f.Lost v q e x) (he : (f.node x.node).mark.failure = some e)
    (hturn : f.Turn g x p) : p = .ended (.failed e) := by
  cases h with
  | asks hp hv =>
    rcases hturn.of_await hp with ⟨hv', -⟩ | ⟨-, ⟨e', he', rfl⟩ | ⟨none, -⟩⟩
    · exact absurd hv' hv
    · rw [he] at he'
      cases he'
      rfl
    · rw [he] at none
      cases none
  | told hp hs =>
    rcases hturn.of_awaiting hp with ⟨hs', -⟩ | ⟨-, rfl⟩
    · rw [hs] at hs'
      cases hs'
    · rw [Watermark.failureError, he]
      rfl
  | failed hp => exact (hturn.not_ended hp).elim

lemma Rescued.isStatement (h : f.Rescued v x) :
    x.point.isStatement = true ∨ ∃ o, x.point = .ended o := by
  cases h with
  | asks hp _ => exact .inl (by rw [hp]; rfl)
  | told hp _ => exact .inl (by rw [hp]; rfl)
  | bound hb =>
    generalize x.point = q at hb
    cases hb with
    | returned => exact .inr ⟨_, rfl⟩
    | _ => exact .inl rfl

lemma Lost.isStatement (h : f.Lost v q e x) :
    x.point.isStatement = true ∨ ∃ o, x.point = .ended o := by
  cases h with
  | asks hp _ => exact .inl (by rw [hp]; rfl)
  | told hp _ => exact .inl (by rw [hp]; rfl)
  | failed hp => exact .inr ⟨_, hp⟩

/-! ## How such a statement ends -/

lemma Rescued.outcome {o : Outcome} (h : f.Rescued v x) (hx : f.tasks[t]? = some x)
    (ho : f.outcome? t = some o) : o = .version v := by
  rw [outcome?, hx, Option.bind_some] at ho
  have ended := Task.point_of_outcome ho
  cases h with
  | asks hp _ => cases hp.symm.trans ended
  | told hp _ => cases hp.symm.trans ended
  | bound hb =>
    rw [ended] at hb
    cases hb
    rfl

lemma Lost.outcome {o : Outcome} (h : f.Lost v q e x) (hx : f.tasks[t]? = some x)
    (ho : f.outcome? t = some o) : o = .failed e := by
  rw [outcome?, hx, Option.bind_some] at ho
  have ended := Task.point_of_outcome ho
  cases h with
  | asks hp _ => cases hp.symm.trans ended
  | told hp _ => cases hp.symm.trans ended
  | failed hp =>
    cases hp.symm.trans ended
    rfl

/-- The task of a statement sleeps until the version is active on every node. -/
def SleepsFor (f : Fleet) (t n : Nat) (v : Version) : Prop :=
  ∃ x c, f.tasks[t]? = some x ∧ (f.node n).history.catalog? v = some c ∧
    x.point = .sleep (c.activation.everywhere (f.node n).skew) (.version v) ∧
    ¬ c.activation.everywhere (f.node n).skew ≤ f.clock.current

/-- A task that returns the version can go on until it has, or sleeps. -/
lemma Rescued.rests (h : f.Rescued v x) (hx : f.tasks[t]? = some x) (hs : f.step t = none) :
    f.outcome? t = some (.version v) ∨ f.SleepsFor t x.node v := by
  cases h with
  | asks hp _ =>
    rw [step, hx] at hs
    simp only [hp] at hs
    cases hs
  | told hp hsig => cases hsig.symm.trans ((stuck_awaiting_iff hx hp).1 hs)
  | bound hb =>
    rw [step, hx] at hs
    generalize hp : x.point = q at hb
    simp only [hp] at hs
    cases hb with
    | confirm _ => cases hs
    | readClock _ => cases hs
    | sleep hc =>
      simp only [stepSleep, ite_eq_right_iff, reduceCtorEq, imp_false] at hs
      exact .inr ⟨x, _, hx, hc, hp, hs⟩
    | returned => exact .inl (by rw [outcome?, hx, Option.bind_some, Task.outcome?, hp])

/-- A task on its course can go on until it has returned the version or sleeps, if the version is
done, and until it waits for the version otherwise. -/
lemma Course.rests (h : f.Course x.node v x.point) (hw : f.Waiting) (hx : f.tasks[t]? = some x)
    (healthy : (f.node x.node).mark.failure = none) (hs : f.step t = none) :
    v ≤ (f.node x.node).mark.doneUntil ∧
        (f.outcome? t = some (.version v) ∨ f.SleepsFor t x.node v) ∨
      ¬ v ≤ (f.node x.node).mark.doneUntil ∧ x.point = .awaiting v .saved ∧ x.signal = none := by
  generalize hp : x.point = q at h
  cases h with
  | asks =>
    rw [step, hx] at hs
    simp only [hp] at hs
    cases hs
  | waits =>
    have untold := (stuck_awaiting_iff hx hp).1 hs
    obtain ⟨l, hl, -⟩ := hw.held t x v .saved hx hp untold
    exact .inr ⟨Nat.not_le.2 (hw.beyond x.node _ l hl).1, rfl, untold⟩
  | bound hv hb => exact .inl ⟨hv, Rescued.rests (.bound (hp ▸ hb)) hx hs⟩
  | failed he =>
    rw [healthy] at he
    cases he

/-- A task that is lost can go on until it has ended. -/
lemma Lost.rests (h : f.Lost v q e x) (hx : f.tasks[t]? = some x) (hs : f.step t = none) :
    f.outcome? t = some (.failed e) := by
  cases h with
  | asks hp _ =>
    rw [step, hx] at hs
    simp only [hp] at hs
    cases hs
  | told hp hsig => cases hsig.symm.trans ((stuck_awaiting_iff hx hp).1 hs)
  | failed hp => rw [outcome?, hx, Option.bind_some, Task.outcome?, hp]

end Fleet

namespace Run

variable {r : Run} {s n t i j h k : Nat} {st : Statement} {u : Update} {v : Version} {x : Task}
  {e err : Error}

lemma preserves (r : Run) (i : Nat) (hn : n < (r.fleet i).nodes.length) :
    (r.fleet i).Preserves (r.fleet (i + 1)) n where
  kept := r.kept (Nat.le_succ i) hn
  registered _ _ := r.catalog_stays (Nat.le_succ i)

/-- A version that is done is registered. -/
lemma registered_of_done (hm : ∀ i, (r.moves i).sparesMarkOf n = true) (h0 : 0 < v.number.val)
    (hv : v ≤ ((r.fleet i).node n).mark.doneUntil) :
    ∃ c, ((r.fleet i).node n).history.catalog? v = some c := by
  have hd := r.dispatches hm i
  have ht := r.tracks i
  have done : v.number.val ≤ ((r.fleet i).node n).mark.doneUntil.number.val := hv
  cases hs : ((r.fleet i).node n).started with
  | false =>
    obtain ⟨-, -, zero⟩ := hd.unstarted hs
    omega
  | true =>
    obtain ⟨k, hk⟩ := ht.started n (Fleet.lt_of_started hs) hs
    have hvk := Nat.le_trans done (hd.doneUntil_le hk)
    obtain ⟨c, hc, -⟩ := hk.snapshot ht hvk
    exact ⟨c, (hk.catalog? ht v c).2 ⟨hvk, hc⟩⟩

/-- The task of an accepted statement is on its course from then on. -/
lemma Accepts.course (h : r.Accepts j t st u) (hm : ∀ i, (r.moves i).sparesMarkOf n = true)
    (hs : r.Starts s n st t) (hi : j < i) :
    ∃ x, (r.fleet i).tasks[t]? = some x ∧ x.node = n ∧ (r.fleet i).Course n u.version x.point := by
  obtain ⟨-, -, -, hv, -⟩ := h.serial
  refine h.induction hs (P := fun i p => (r.fleet i).Course n u.version p) .asks
    (fun i p node hp => hp.stays (r.preserves i node))
    (fun i x p node hx hxn hp hturn => ?_) hi
  subst hxn
  exact hp.turn (r.waiting i) hx (registered_of_done hm (by omega)) (r.preserves i node) hturn

/-- A task of a statement stays as it is or takes a turn, once the watermark has failed. -/
lemma same_or_turn (hx : (r.fleet i).tasks[t]? = some x)
    (hp : x.point.isStatement = true ∨ ∃ o, x.point = .ended o)
    (he : ((r.fleet i).node x.node).mark.failure = some e) :
    (r.fleet (i + 1)).tasks[t]? = some x ∨ (r.fleet i).Turns t x (r.fleet (i + 1)) := by
  by_cases hm : r.moves i = .step t
  · rcases hp with hp | ⟨o, ho⟩
    · rcases turn_or_same hm hx hp with same | turns
      · rw [same]
        exact .inl hx
      · exact .inr turns
    · -- A task that has ended has no step.
      have none : (r.fleet i).step t = none := by
        rw [Fleet.step, hx]
        simp only [ho]
      rw [fleet_succ, hm, Fleet.after, none]
      exact .inl hx
  · exact .inl ((r.frame i).untold t x hx hm (Fleet.not_listed (r.waiting i) hx he))

/-- A version was done on a node by the moment `h`, or was done when the task asked for it after
that, until the moment `i`. -/
def InTime (r : Run) (h i n t : Nat) (v : Version) : Prop :=
  v ≤ ((r.fleet h).node n).mark.doneUntil ∨
    ∃ m, h < m ∧ m ≤ i ∧ v ≤ ((r.fleet m).node n).mark.doneUntil ∧
      ∃ x, (r.fleet m).tasks[t]? = some x ∧ x.point = .await v .saved

lemma InTime.succ (ht : r.InTime h i n t v) : r.InTime h (i + 1) n t v := by
  rcases ht with hv | ⟨m, hm, hmi, rest⟩
  · exact .inl hv
  · exact .inr ⟨m, hm, Nat.le_succ_of_le hmi, rest⟩

/-- What comes too late stays so, unless the task asks now and the version is done. -/
lemma not_inTime_succ (late : ¬ r.InTime h i n t v) (hx : (r.fleet (i + 1)).tasks[t]? = some x)
    (now : x.point = .await v .saved → ¬ v ≤ ((r.fleet (i + 1)).node n).mark.doneUntil) :
    ¬ r.InTime h (i + 1) n t v := by
  rintro (hv | ⟨m, hm, hmi, hv, y, hy, hp⟩)
  · exact late (.inl hv)
  · rcases Nat.lt_or_eq_of_le hmi with hlt | rfl
    · exact late (.inr ⟨m, hm, Nat.le_of_lt_succ hlt, hv, y, hy, hp⟩)
    · rw [hx] at hy
      cases hy
      exact now hp hv

/-- Whether the task of a statement is rescued or lost after a halt, as the version was in time. -/
def Sorted (r : Run) (h i n t : Nat) (v : Version) (e : Error) : Prop :=
  ∃ x, (r.fleet i).tasks[t]? = some x ∧ x.node = n ∧
    (r.InTime h i n t v ∧ (r.fleet i).Rescued v x ∨
      ¬ r.InTime h i n t v ∧ (r.fleet i).Lost v .saved e x)

/-- What a halt of a healthy node comes to for the task of a statement that was accepted before. -/
lemma sorted_of_halt (hh : r.StopsAt h n k)
    (healthy : ((r.fleet h).node n).mark.failure = none)
    (hx : (r.fleet h).tasks[t]? = some x) (hn : x.node = n)
    (hc : (r.fleet h).Course n v x.point) :
    ∃ err, snapshot (r.fleet h).storage.log (k + 1) = .error err ∧
      ((r.fleet (h + 1)).node n).mark.failure = some err ∧ r.Sorted h (h + 1) n t v err := by
  obtain ⟨t', err, -, hands, hs, node, tasks⟩ := halt_of_stop hh
  -- The task that is halted hands a delivery over, so it is not the one of the statement.
  have ne : t' ≠ t := by
    rintro rfl
    obtain ⟨y, d, z, hy, hd, -⟩ := hands
    rw [hx] at hy
    cases hy
    rw [hd] at hc
    cases hc with
    | bound _ hb => cases hb
  have mark : ((r.fleet (h + 1)).node n).mark = (((r.fleet h).node n).mark.fail err).1 := by
    rw [node, Node.halted]
  have failure : ((r.fleet (h + 1)).node n).mark.failure = some err := by
    rw [mark, Watermark.fail, healthy]
    rfl
  have doneUntil : ((r.fleet (h + 1)).node n).mark.doneUntil =
      ((r.fleet h).node n).mark.doneUntil := by rw [mark, Watermark.fail]
  subst hn
  have next : (r.fleet (h + 1)).tasks[t]? =
      some (Fleet.told .dropped (((r.fleet h).node x.node).mark.fail err).2 t x) := by
    rw [tasks, List.getElem?_modify_ne _ _ ne, Fleet.getElem?_told hx]
  obtain ⟨-, same⟩ := Fleet.told_point .dropped (((r.fleet h).node x.node).mark.fail err).2 t x
  refine ⟨err, hs, failure, _, next, same, ?_⟩
  rcases hc.halted (r.waiting h) hx healthy err with ⟨hv, rescued⟩ | ⟨hv, lost⟩
  · refine .inl ⟨.inl hv, rescued.stays ?_⟩
    rw [same]
    exact r.preserves h ((r.plain h).placed t x hx)
  · refine .inr ⟨?_, lost.stays (by rw [same, doneUntil])⟩
    rintro (hv' | ⟨m, hm, hmi, hv', -⟩)
    · exact hv hv'
    · obtain rfl : m = h + 1 := by omega
      rw [doneUntil] at hv'
      exact hv hv'

/-- Once the watermark has failed a task stays rescued, and one that is lost is rescued only if the
version is done by the time it asks. -/
lemma Sorted.step (hm : ∀ i, (r.moves i).sparesMarkOf n = true) (h0 : 0 < v.number.val)
    (hi : h < i) (he : ((r.fleet i).node n).mark.failure = some e) (hs : r.Sorted h i n t v e) :
    r.Sorted h (i + 1) n t v e := by
  obtain ⟨x, hx, rfl, hs⟩ := hs
  have hl := r.preserves i ((r.plain i).placed t x hx)
  have started : x.point.isStatement = true ∨ ∃ o, x.point = .ended o := by
    rcases hs with ⟨-, rescued⟩ | ⟨-, lost⟩
    · exact rescued.isStatement
    · exact lost.isStatement
  rcases same_or_turn hx started he with same | ⟨p, hp, hturn⟩
  · refine ⟨x, same, rfl, ?_⟩
    rcases hs with ⟨time, rescued⟩ | ⟨late, lost⟩
    · exact .inl ⟨time.succ, rescued.stays hl⟩
    · -- The task may ask now for a version that is done since the last move.
      by_cases now : x.point = .await v .saved ∧
          v ≤ ((r.fleet (i + 1)).node x.node).mark.doneUntil
      · exact .inl ⟨.inr ⟨i + 1, Nat.lt_succ_of_lt hi, Nat.le_refl _, now.2, x, same, now.1⟩,
          .asks now.1 now.2⟩
      · have now := not_and.1 now
        refine .inr ⟨not_inTime_succ late same now, ?_⟩
        cases lost with
        | asks hp _ => exact .asks hp (now hp)
        | told hp hsig => exact .told hp hsig
        | failed hp => exact .failed hp
  · refine ⟨_, hp, rfl, ?_⟩
    rcases hs with ⟨time, rescued⟩ | ⟨late, lost⟩
    · exact .inl ⟨time.succ, rescued.turn (r.waiting i) hx (registered_of_done hm h0) hl hturn⟩
    · cases lost.turn he hturn
      exact .inr ⟨not_inTime_succ late hp nofun, .failed rfl⟩

/-- What becomes of a statement that was accepted as a version which its node has registered, where
the node is halted on a later update. If the version was done by the halt, or by the time the task
asked for it, the statement returns the version: it ends with no error, and it can go on unless it
has returned or sleeps until the version is active on every node. Otherwise it ends with the error
of the halt, although its version is applied and its events may still be delivered. -/
theorem ends_of_halt (r : Run) {s n t j h i k : Nat}
    (hm : ∀ i, (r.moves i).sparesMarkOf n = true) {st : Statement} {u : Update}
    (hs : r.Starts s n st t) (ha : r.Accepts j t st u) (hh : r.StopsAt h n k)
    (hk : u.version.number.val ≤ k) (healthy : ((r.fleet h).node n).mark.failure = none)
    (hi : h < i) :
    ∃ err, snapshot (r.fleet h).storage.log (k + 1) = .error err ∧
      (r.InTime h i n t u.version →
        (∀ o, (r.fleet i).outcome? t = some o → o = .version u.version) ∧
        ((r.fleet i).step t = none → (r.fleet i).outcome? t = some (.version u.version) ∨
          (r.fleet i).SleepsFor t n u.version)) ∧
      (¬ r.InTime h i n t u.version →
        (∀ o, (r.fleet i).outcome? t = some o → o = .failed err) ∧
        ((r.fleet i).step t = none → (r.fleet i).outcome? t = some (.failed err))) := by
  obtain ⟨-, -, -, hv, -⟩ := ha.serial
  -- The version is registered at the halt, so it was accepted before.
  have hjh : j < h := by
    obtain ⟨hlt, -⟩ := r.stop hh
    rcases Nat.lt_or_ge j h with hlt | hge
    · exact hlt
    · have := (r.log_grows hge).length_le
      omega
  obtain ⟨x, hx, hxn, course⟩ := ha.course hm hs hjh
  obtain ⟨err, herr, failure, base⟩ := sorted_of_halt hh healthy hx hxn course
  have node : n < (r.fleet (h + 1)).nodes.length :=
    Nat.lt_of_lt_of_le (hxn ▸ (r.plain h).placed t x hx) (r.nodes_le (Nat.le_succ h))
  -- Rescued or lost at the halt, it stays so, unless the task asks for the version in time later.
  have sorted : r.Sorted h i n t u.version err := by
    induction hi with
    | refl => exact base
    | @step i hi ih =>
      exact Sorted.step hm (by omega) hi ((r.kept hi node).failure err failure) ih
  obtain ⟨y, hy, rfl, sorted⟩ := sorted
  refine ⟨err, herr, fun time => ?_, fun late => ?_⟩
  · rcases sorted with ⟨-, rescued⟩ | ⟨late, -⟩
    · exact ⟨fun o ho => rescued.outcome hy ho, rescued.rests hy⟩
    · exact absurd time late
  · rcases sorted with ⟨time, -⟩ | ⟨-, lost⟩
    · exact absurd time late
    · exact ⟨fun o ho => lost.outcome hy ho, lost.rests hy⟩

/-! ## A statement that is applied and fails -/

/-- An update that cannot be applied to the catalogs here: it drops a table that there is not. -/
def unappliable : Update := ⟨⟨2⟩, Duration.zero, [.dropTable 99]⟩

/-- A statement is accepted and applied, and a listener holds its events up. Meanwhile another
writer commits an update on which the node halts. The statement is dropped before the listener lets
its events through and the clock is moved ahead. -/
def overtaken : Run :=
  ofMoves Clock.unset
    [.join Config.unset none, .request 0 .zero (.listen "listener" [.zoneAlter] .gate),
      .request 0 .zero .start, .step 0, .step 0, .step 0, .step 0,
      .request 0 .zero (.execute repartition), .step 3, .step 3, .step 2, .step 1, .step 1, .step 3,
      .request 0 .zero (.commit unappliable), .step 4, .step 2, .step 3,
      .request 0 .zero (.setMode "listener" .succeed), .step 1, .step 1,
      .request 0 .zero (.advance (Duration.ofMillis 9))]
    (by decide +kernel)

/-- The same with a listener that holds nothing up, so that the version is done before the halt. -/
def outlived : Run :=
  ofMoves Clock.unset
    [.join Config.unset none, .request 0 .zero (.listen "listener" [.zoneAlter] .succeed),
      .request 0 .zero .start, .step 0, .step 0, .step 0, .step 0,
      .request 0 .zero (.execute repartition), .step 3, .step 3, .step 2, .step 1, .step 1, .step 3,
      .request 0 .zero (.commit unappliable), .step 4, .step 1, .step 1, .step 2, .step 3,
      .step 3, .step 3, .request 0 .zero (.advance (Duration.ofMillis 9)), .step 3]
    (by decide +kernel)

lemma overtaken_starts : overtaken.Starts 7 0 repartition 3 where
  move := ⟨.zero, rfl⟩
  node := by decide
  task := by decide

lemma overtaken_accepts : overtaken.Accepts 9 3 repartition repartition.update :=
  .of_points (a := 1) rfl (by decide) (by decide)

lemma outlived_starts : outlived.Starts 7 0 repartition 3 where
  move := ⟨.zero, rfl⟩
  node := by decide
  task := by decide

lemma outlived_accepts : outlived.Accepts 9 3 repartition repartition.update :=
  .of_points (a := 1) rfl (by decide) (by decide)

/-- The node is halted when it is handed the second update of the log. -/
lemma stopsAt_of_unappliable {r : Run} {i : Nat} {c : Timestamp} (move : r.moves i = .step 2)
    (task : (r.fleet i).tasks[2]? = some ⟨0, .deliver 0, none⟩)
    (delivery : (r.fleet i).deliveries[0]? =
      some ⟨.node 0, [(⟨unappliable, c⟩ : Committed).stored], true, 2⟩)
    (entry : (r.fleet i).storage.log[1]? = some ⟨unappliable, c⟩)
    (failed : snapshot (r.fleet i).storage.log 2 = .error (.invariant (.noTable 99))) :
    r.StopsAt i 0 1 := by
  have hands : r.Hands i 2 0 ⟨unappliable, c⟩ :=
    ⟨move, _, 0, _, [], task, rfl, delivery, rfl, rfl⟩
  exact (hands.halted entry failed).1

lemma overtaken_stops : overtaken.StopsAt 16 0 1 :=
  stopsAt_of_unappliable (c := (overtaken.fleet 15).clock.tick.current) rfl (by decide)
    (by decide) (by decide) (by decide)

lemma outlived_stops : outlived.StopsAt 18 0 1 :=
  stopsAt_of_unappliable (c := (outlived.fleet 15).clock.tick.current) rfl (by decide)
    (by decide) (by decide) (by decide)

lemma overtaken_late : ¬ overtaken.InTime 16 18 0 3 ⟨1⟩ := by
  have none : ∀ m < 19, ¬ (⟨1⟩ : Version) ≤ ((overtaken.fleet m).node 0).mark.doneUntil := by
    decide
  rintro (hv | ⟨m, -, hm, hv, -⟩)
  · exact none 16 (by decide) hv
  · exact none m (Nat.lt_succ_of_le hm) hv

theorem ends_of_halt_overtaken :
    (overtaken.fleet 18).outcome? 3 = some (.failed (.invariant (.noTable 99))) ∧
      (outlived.fleet 24).outcome? 3 = some (.version ⟨1⟩) := by
  have spares : ∀ i, (overtaken.moves i).sparesMarkOf 0 = true :=
    moves_ofMoves (P := fun m => m.sparesMarkOf 0 = true) (by decide) rfl
  have spares' : ∀ i, (outlived.moves i).sparesMarkOf 0 = true :=
    moves_ofMoves (P := fun m => m.sparesMarkOf 0 = true) (by decide) rfl
  have failed : snapshot (overtaken.fleet 16).storage.log 2 =
      .error (.invariant (.noTable 99)) := by decide +kernel
  obtain ⟨err, herr, -, late⟩ := ends_of_halt overtaken spares (i := 18) overtaken_starts
    overtaken_accepts overtaken_stops (by decide) (by decide +kernel) (by decide)
  obtain ⟨_, -, time, -⟩ := ends_of_halt outlived spares' (i := 24) outlived_starts
    outlived_accepts outlived_stops (by decide) (by decide +kernel) (by decide)
  rw [failed] at herr
  cases herr
  have ended : ((outlived.fleet 24).outcome? 3).isSome := by decide +kernel
  obtain ⟨o, ho⟩ := Option.isSome_iff_exists.1 ended
  refine ⟨(late overtaken_late).2 (by decide +kernel), ?_⟩
  rw [ho]
  exact congrArg some ((time (.inl (by decide +kernel))).1 o ho)

/-- A statement is accepted and applied. Then its node is halted on a later update, and the
statement ends with the error of the halt. Its events are handled all the same, so that its version
is done, and the clock comes to be past the activation by the skew. -/
theorem overtaken_fails :
    overtaken.Starts 7 0 repartition 3 ∧
      overtaken.Accepts 9 3 repartition repartition.update ∧
      (∃ c, ((overtaken.fleet 16).node 0).history.catalog? ⟨1⟩ = some c ∧
        c.activation.everywhere ((overtaken.fleet 22).node 0).skew ≤
          (overtaken.fleet 22).clock.current) ∧
      ((overtaken.fleet 16).node 0).mark.failure = none ∧ overtaken.StopsAt 16 0 1 ∧
      (⟨1⟩ : Version) ≤ ((overtaken.fleet 22).node 0).mark.doneUntil ∧
      (overtaken.fleet 22).outcome? 3 = some (.failed (.invariant (.noTable 99))) := by
  refine ⟨overtaken_starts, overtaken_accepts, ?_, by decide +kernel, overtaken_stops,
    by decide +kernel, by decide +kernel⟩
  have registered : (((overtaken.fleet 16).node 0).history.catalog? ⟨1⟩).any (fun c =>
      c.activation.everywhere ((overtaken.fleet 22).node 0).skew ≤
        (overtaken.fleet 22).clock.current) = true := by decide +kernel
  obtain ⟨c, hc, reached⟩ := (Option.any_eq_true _ _).1 registered
  exact ⟨c, hc, of_decide_eq_true reached⟩

end Run

end SchemaCatalog
