import SchemaCatalog.Proofs.Run.Activation

/-!
# Waits for the clock

The clock is read, advanced and set, and those who wait for a time read it and sleep, in any order.
A vigil is any sequence of that from some time on (`Vigil`), in which tasks go on when they are told
to or when it is their turn. Whoever waits stands at one of three points (`Point.AwaitsTime`), and
whoever can go on is among the ready (`Fleet.AwaitsTimes`), which a clock that moves keeps up by
waking those who have slept long enough. So nobody goes on early and nobody is left behind
(`Vigil.waits_end_on_time`).
-/

namespace SchemaCatalog

/-! ## Where those who wait stand -/

namespace Point

/-- Where a task stands that waits for a time while the clock is at another one. -/
inductive AwaitsTime (now target : Timestamp) : Point → Prop where
  | check : AwaitsTime now target (.readClock target .done)
  | sleep : AwaitsTime now target (.sleep target .done)
  | ended : target ≤ now → AwaitsTime now target (.ended .done)

/-- Whether the clock lets a task go on from where it stands. -/
def IsDue (now : Timestamp) : Point → Prop
  | .readClock .. => True
  | .sleep target _ => target ≤ now
  | _ => False

/-- How many more steps a task can take from here, as far as it waits for the clock. -/
def clockSteps : Point → Nat
  | .readClock .. => 2
  | .sleep .. => 1
  | _ => 0

lemma AwaitsTime.mono {now later target : Timestamp} {p : Point} (h : p.AwaitsTime now target)
    (le : now ≤ later) : p.AwaitsTime later target := by
  cases h with
  | check => exact .check
  | sleep => exact .sleep
  | ended reached => exact .ended (Nat.le_trans reached le)

end Point

namespace Fleet

variable {f g : Fleet} {t : Nat} {w : Timestamp} {ws : List Timestamp} {p : Point} {x : Task}
  {o : Outcome} {c : Clock}

/-! ## Turns -/

/-- What holds of a fleet and of all that may come of it holds either way. -/
lemma getD_of {P : Fleet → Prop} {o : Option Fleet} (still : P f) (moved : ∀ g, o = some g → P g) :
    P (o.getD f) := by
  cases o with
  | none => exact still
  | some g => exact moved g rfl

/-- The task in front takes a step, or leaves the ready. -/
lemma turn_cases (hg : f.turn = some g) : ∃ t rest, f.ready = t :: rest ∧
    (f.step t = some g ∨ f.step t = none ∧ g = { f with ready := rest }) := by
  unfold turn at hg
  split at hg
  · cases hg
  · rename_i t rest front
    refine ⟨t, rest, front, ?_⟩
    split at hg
    · rename_i step
      exact .inl (step.trans hg)
    · rename_i stuck
      exact .inr ⟨stuck, (Option.some.inj hg).symm⟩

lemma ready_of_turn (idle : f.turn = none) : f.ready = [] := by
  unfold turn at idle
  split at idle
  · assumption
  · split at idle <;> cases idle

/-! ## What is kept -/

/-- Every task waits for its own one of these times, and whoever can go on is ready. -/
structure AwaitsTimes (f : Fleet) (ws : List Timestamp) : Prop where
  count : f.tasks.length = ws.length
  stands : ∀ (t : Nat) (x : Task) (w : Timestamp), f.tasks[t]? = some x → ws[t]? = some w →
    x.point.AwaitsTime f.clock.current w
  ready : ∀ (t : Nat) (x : Task), f.tasks[t]? = some x → x.point.IsDue f.clock.current → t ∈ f.ready

namespace AwaitsTimes

lemma wakeAll (h : f.AwaitsTimes ws) (ts : List Nat) : (f.wakeAll ts).AwaitsTimes ws where
  count := by simpa using h.count
  stands t x w hx hw := by
    simp only [wakeAll_fields] at hx ⊢
    exact h.stands t x w hx hw
  ready t x hx due := by
    simp only [wakeAll_fields] at hx due
    exact mem_ready_wakeAll.2 (.inl (h.ready t x hx due))

/-- Whoever has slept long enough when the clock moves is woken. -/
lemma setClock (h : f.AwaitsTimes ws) (le : f.clock.current ≤ c.current) :
    (f.setClock c).AwaitsTimes ws where
  count := by simpa using h.count
  stands t x w hx hw := by
    simp only [setClock_fields] at hx ⊢
    exact (h.stands t x w hx hw).mono le
  ready t x hx due := by
    simp only [setClock_fields] at hx due
    refine mem_ready_wakeAll.2 ?_
    cases hp : x.point with
    | readClock => exact .inl (h.ready t x hx (by rw [hp]; trivial))
    | sleep target o =>
      rw [hp] at due
      exact .inr (mem_tasksWhere.2 ⟨x, hx, by rw [sleepsUntil, hp]; exact decide_eq_true due⟩)
    | _ =>
      rw [hp] at due
      cases due

/-- Whoever comes to wait is ready. -/
lemma spawn (h : f.AwaitsTimes ws) (hp : p.AwaitsTime f.clock.current w) :
    (f.spawn 0 p).AwaitsTimes (ws ++ [w]) where
  count := by simp [Fleet.spawn, h.count]
  stands t x v hx hv := by
    rcases concat_cases hx with old | ⟨here, rfl⟩
    · have lt : t < ws.length := h.count ▸ (List.getElem?_eq_some_iff.1 old).1
      rw [List.getElem?_append_left lt] at hv
      exact h.stands t x v old hv
    · rw [here, h.count, List.getElem?_concat_length] at hv
      cases hv
      exact hp
  ready t x hx due := by
    rcases concat_cases hx with old | ⟨rfl, -⟩
    · exact List.mem_append_left _ (h.ready t x old due)
    · exact List.mem_append_right _ List.mem_cons_self

/-- A task that is ready moves, and stays ready. -/
lemma moveTo (h : f.AwaitsTimes ws) (ready : t ∈ f.ready) (hw : ws[t]? = some w)
    (hp : p.AwaitsTime f.clock.current w) : (f.moveTo t p).AwaitsTimes ws where
  count := by simpa [Fleet.moveTo] using h.count
  stands s y v hy hv := by
    rcases modify_cases hy with ⟨rfl, z, -, rfl⟩ | ⟨-, hy⟩
    · cases hw.symm.trans hv
      exact hp
    · exact h.stands s y v hy hv
  ready s y hy due := by
    rcases modify_cases hy with ⟨rfl, -⟩ | ⟨-, hy⟩
    · exact ready
    · exact h.ready s y hy due

lemma finish (h : f.AwaitsTimes ws) (ready : t ∈ f.ready) (hw : ws[t]? = some w)
    (reached : w ≤ f.clock.current) : (f.finish t .done).AwaitsTimes ws :=
  (h.moveTo ready hw (.ended reached)).wakeAll _

/-- A task that takes a step reads the clock, or has slept long enough. -/
lemma step_cases (h : f.AwaitsTimes ws) (hg : f.step t = some g) :
    ∃ (x : Task) (w : Timestamp), f.tasks[t]? = some x ∧ ws[t]? = some w ∧ t ∈ f.ready ∧
      (x.point = .readClock w .done ∧ g = f.stepReadClock t w .done ∨
        x.point = .sleep w .done ∧ w ≤ f.clock.current ∧ g = f.finish t .done) := by
  unfold step at hg
  cases hx : f.tasks[t]? with
  | none =>
    rw [hx] at hg
    cases hg
  | some x =>
    have lt : t < ws.length := h.count ▸ (List.getElem?_eq_some_iff.1 hx).1
    have hw := List.getElem?_eq_getElem lt
    have stands := h.stands t x _ hx hw
    rw [hx] at hg
    generalize e : x.point = p at stands
    cases stands with
    | check =>
      simp only [e, Option.some.injEq] at hg
      exact ⟨x, _, rfl, hw, h.ready t x hx (by rw [e]; trivial), .inl ⟨e, hg.symm⟩⟩
    | sleep =>
      simp only [e, stepSleep, Option.ite_none_right_eq_some, Option.some.injEq] at hg
      exact ⟨x, _, rfl, hw, h.ready t x hx (by rw [e]; exact hg.1), .inr ⟨e, hg.1, hg.2.symm⟩⟩
    | ended _ =>
      simp only [e] at hg
      cases hg

lemma step (h : f.AwaitsTimes ws) (hg : f.step t = some g) : g.AwaitsTimes ws := by
  obtain ⟨x, w, -, hw, ready, ⟨-, rfl⟩ | ⟨-, reached, rfl⟩⟩ := h.step_cases hg
  · have ticked := h.setClock (le_tick f.clock)
    have ready : t ∈ (f.setClock f.clock.tick).ready := mem_ready_wakeAll.2 (.inl ready)
    rw [stepReadClock]
    split
    · rename_i reached
      exact ticked.finish ready hw reached
    · exact ticked.moveTo ready hw .sleep
  · exact h.finish ready hw reached

/-- A wait whose time has come ends with the next step of its task, which is ready. -/
lemma due (h : f.AwaitsTimes ws) (hw : ws[t]? = some w) (pending : f.outcome? t = none)
    (reached : w ≤ f.clock.current) :
    t ∈ f.ready ∧ ∃ g, f.step t = some g ∧ g.outcome? t = some .done := by
  have lt : t < f.tasks.length := h.count ▸ (List.getElem?_eq_some_iff.1 hw).1
  have hx := List.getElem?_eq_getElem lt
  generalize f.tasks[t] = x at hx
  have stands := h.stands t x w hx hw
  rw [outcome?, hx, Option.bind_some] at pending
  generalize e : x.point = p at stands
  cases stands with
  | check =>
    have ready := h.ready t x hx (by rw [e]; trivial)
    have ticked : (f.setClock f.clock.tick).tasks[t]? = some x := by simpa using hx
    have later : w ≤ (f.setClock f.clock.tick).clock.current := by
      rw [(setClock_fields ..).1]
      exact Nat.le_trans reached (le_tick f.clock)
    refine ⟨ready, (f.setClock f.clock.tick).finish t .done, ?_, outcome?_finish ticked .done⟩
    rw [Fleet.step, hx]
    simp only [e, stepReadClock, if_pos later]
  | sleep =>
    have ready := h.ready t x hx (by rw [e]; exact reached)
    refine ⟨ready, f.finish t .done, ?_, outcome?_finish hx .done⟩
    rw [Fleet.step, hx]
    simp only [e, stepSleep, if_pos reached]
  | ended _ =>
    rw [Task.outcome?, e] at pending
    cases pending

/-- Whoever leaves the ready cannot go on. -/
lemma leave {rest : List Nat} (h : f.AwaitsTimes ws) (front : f.ready = t :: rest)
    (stuck : f.step t = none) : { f with ready := rest }.AwaitsTimes ws where
  count := h.count
  stands := h.stands
  ready s x hx due := by
    have among := h.ready s x hx due
    rw [front] at among
    rcases List.mem_cons.1 among with rfl | behind
    · rw [Fleet.step, hx] at stuck
      cases hp : x.point with
      | readClock =>
        simp [hp] at stuck
      | sleep target o =>
        rw [hp] at due
        have due : target ≤ f.clock.current := due
        simp [hp, stepSleep, due] at stuck
      | _ =>
        rw [hp] at due
        cases due
    · exact behind

lemma turn (h : f.AwaitsTimes ws) (hg : f.turn = some g) : g.AwaitsTimes ws := by
  obtain ⟨t, rest, front, step | ⟨stuck, rfl⟩⟩ := turn_cases hg
  · exact h.step step
  · exact h.leave front stuck

end AwaitsTimes

/-! ## Readings -/

/-- What a task reads from the clock with its next step, if it reads the clock. -/
def reading? (f : Fleet) (t : Nat) : Option Timestamp :=
  match f.tasks[t]?.map Task.point with
  | some (.readClock target o) => some (f.stepReadClock t target o).clock.current
  | _ => none

lemma clock_stepReadClock : (f.stepReadClock t w o).clock = f.clock.tick := by
  unfold stepReadClock
  dsimp only
  split <;> simp

lemma reading?_eq {r : Timestamp} (h : f.reading? t = some r) :
    r = f.clock.tick.current ∧ ∃ g, f.step t = some g ∧ g.clock.current = r := by
  unfold reading? at h
  split at h
  · rename_i target o point
    obtain ⟨x, hx, point⟩ := Option.map_eq_some_iff.1 point
    cases h
    refine ⟨by rw [clock_stepReadClock], f.stepReadClock t target o, ?_, rfl⟩
    simp only [step, hx, point]
  · cases h

namespace AwaitsTimes

lemma le_step (h : f.AwaitsTimes ws) (hg : f.step t = some g) :
    f.clock.current ≤ g.clock.current := by
  obtain ⟨x, w, -, -, -, ⟨-, rfl⟩ | ⟨-, -, rfl⟩⟩ := h.step_cases hg
  · rw [clock_stepReadClock]
    exact le_tick f.clock
  · rw [(finish_fields ..).1]
    exact Nat.le_refl _

lemma le_turn (h : f.AwaitsTimes ws) (hg : f.turn = some g) :
    f.clock.current ≤ g.clock.current := by
  obtain ⟨t, rest, -, step | ⟨-, rfl⟩⟩ := turn_cases hg
  · exact h.le_step step
  · exact Nat.le_refl _

end AwaitsTimes

/-! ## Coming to rest -/

/-- How many more steps tasks can take that wait for the clock. -/
def clockSteps (f : Fleet) : Nat := f.tasks.foldr (fun x n => x.point.clockSteps + n) 0

lemma clockSteps_modify (hx : f.tasks[t]? = some x) (tasks : g.tasks = f.tasks.modify t fun y =>
    { y with point := p, signal := none }) (fewer : p.clockSteps < x.point.clockSteps) :
    g.clockSteps < f.clockSteps := by
  rw [clockSteps, clockSteps, tasks]
  clear tasks
  generalize f.tasks = l at hx
  induction l generalizing t with
  | nil => cases hx
  | cons y l ih =>
    cases t with
    | zero =>
      cases hx
      simpa using fewer
    | succ t =>
      have rest := ih hx
      simpa using rest

namespace AwaitsTimes

lemma clockSteps_step (h : f.AwaitsTimes ws) (hg : f.step t = some g) :
    g.clockSteps < f.clockSteps := by
  obtain ⟨x, w, hx, -, -, ⟨point, rfl⟩ | ⟨point, -, rfl⟩⟩ := h.step_cases hg
  · have ticked : (f.setClock f.clock.tick).tasks = f.tasks := (setClock_fields ..).2.2.2.2.2.2.2.1
    unfold stepReadClock
    dsimp only
    split
    · refine clockSteps_modify (p := .ended .done) hx ?_ ?_
      · rw [(finish_fields ..).2.2.2.2.2.2.2.2, ticked]
      · rw [point]
        exact Nat.zero_lt_two
    · refine clockSteps_modify (p := .sleep w .done) hx ?_ ?_
      · rw [(moveTo_fields ..).2.2.2.2.2.2.2.2, ticked]
      · rw [point]
        exact Nat.lt_succ_self 1
  · refine clockSteps_modify (p := .ended .done) hx (finish_fields ..).2.2.2.2.2.2.2.2 ?_
    rw [point]
    exact Nat.one_pos

/-- With each turn there are fewer steps left, or as many and fewer tasks ready. So after some turns
no task can go on. -/
lemma exists_rest {f : Fleet} (h : f.AwaitsTimes ws) : ∃ n, (f.run n).turn = none := by
  cases hg : f.turn with
  | none => exact ⟨0, hg⟩
  | some g =>
    have fewer : g.clockSteps < f.clockSteps ∨
        g.clockSteps = f.clockSteps ∧ g.ready.length < f.ready.length := by
      obtain ⟨t, rest, front, step | ⟨-, rfl⟩⟩ := turn_cases hg
      · exact .inl (h.clockSteps_step step)
      · exact .inr ⟨rfl, by simp [front]⟩
    obtain ⟨n, rest⟩ := (h.turn hg).exists_rest
    exact ⟨n + 1, by simpa only [run, hg] using rest⟩
termination_by (f.clockSteps, f.ready.length)
decreasing_by
  rcases fewer with lt | ⟨same, lt⟩
  · exact .left _ _ lt
  · rw [same]
    exact .right _ lt

end AwaitsTimes

end Fleet

/-! ## Uses of a clock -/

/-- How a clock may be used: it is read, moved ahead or set, or somebody comes to wait for a time,
also after reading it or until the time has passed on every node. One who came goes on, or it is the
turn of the one in front. -/
inductive ClockUse where
  | read
  | advance (d : Duration)
  | set (t : Timestamp)
  | waitUntil (t : Timestamp)
  | waitFor (t : Timestamp)
  | waitForActivation (t : Timestamp) (skew : Duration)
  | goOn (task : Nat)
  | turn
  deriving DecidableEq

namespace ClockUse

/-- The fleet after its clock was used so. -/
def on (f : Fleet) : ClockUse → Fleet
  | .read => (Session.start f .zero 0 .now).1
  | .advance d => (Session.start f .zero 0 (.advance d)).1
  | .set t => (Session.start f .zero 0 (.setClock t)).1
  | .waitUntil t => (Session.start f .zero 0 (.waitUntil t)).1
  | .waitFor t => (Session.start f .zero 0 (.waitFor t)).1
  | .waitForActivation t skew => (Session.start f skew 0 (.waitForActivation t)).1
  | .goOn t => (f.step t).getD f
  | .turn => f.turn.getD f

/-- What is read from the clock, if it is read. -/
def reading? (f : Fleet) : ClockUse → Option Timestamp
  | .read =>
    match (Session.start f .zero 0 .now).2 with
    | .finished (.timestamp t) => some t
    | _ => none
  | .goOn t => f.reading? t
  | .turn => f.ready.head?.bind f.reading?
  | _ => none

/-- The time for which somebody comes to wait: when a time has passed on every node, it is later by
the whole milliseconds of the skew, but not beyond the end of time. -/
def target? : ClockUse → Option Timestamp
  | .waitUntil t => some t
  | .waitFor t => some t
  | .waitForActivation t skew => some ⟨Word64.capped (t.raw.val + skew.wholeMillis * 2 ^ 16)⟩
  | _ => none

variable {f : Fleet} {ws : List Timestamp} {u : ClockUse} {r : Timestamp}

/-- What a use makes of those who wait. -/
lemma awaits (h : f.AwaitsTimes ws) (u : ClockUse) :
    (u.on f).AwaitsTimes (ws ++ u.target?.toList) := by
  have same : ∀ {g : Fleet}, g.AwaitsTimes ws → g.AwaitsTimes (ws ++ []) := fun hg => by
    rwa [List.append_nil]
  cases u with
  | read => exact same (h.setClock (Fleet.le_tick f.clock))
  | advance d => exact same (h.setClock (Fleet.le_advance f.clock d))
  | set t => exact same (h.setClock (Fleet.le_set f.clock t))
  | waitUntil t => exact h.spawn .sleep
  | waitFor t => exact h.spawn .check
  | waitForActivation t skew =>
    have target : t.everywhere skew = ⟨Word64.capped (t.raw.val + skew.wholeMillis * 2 ^ 16)⟩ :=
      Timestamp.ext_val (Timestamp.add_val t skew)
    exact h.spawn (target ▸ .check)
  | goOn t => exact same (Fleet.getD_of (P := fun g => g.AwaitsTimes ws) h fun _ => h.step)
  | turn => exact same (Fleet.getD_of (P := fun g => g.AwaitsTimes ws) h fun _ => h.turn)

/-- No use moves the clock back. -/
lemma le_clock (h : f.AwaitsTimes ws) (u : ClockUse) :
    f.clock.current ≤ (u.on f).clock.current := by
  have set : ∀ c : Clock, f.clock.current ≤ c.current →
      f.clock.current ≤ (f.setClock c).clock.current := fun c le => by
    rwa [(Fleet.setClock_fields ..).1]
  cases u with
  | read => exact set _ (Fleet.le_tick f.clock)
  | advance d => exact set _ (Fleet.le_advance f.clock d)
  | set t => exact set _ (Fleet.le_set f.clock t)
  | waitUntil t => exact Nat.le_refl _
  | waitFor t => exact Nat.le_refl _
  | waitForActivation t skew => exact Nat.le_refl _
  | goOn t =>
    exact Fleet.getD_of (P := fun g => f.clock.current ≤ g.clock.current) (Nat.le_refl _)
      fun _ => h.le_step
  | turn =>
    exact Fleet.getD_of (P := fun g => f.clock.current ≤ g.clock.current) (Nat.le_refl _)
      fun _ => h.le_turn

/-- What is read is the next tick, and the clock then stands there. -/
lemma reading?_eq (hr : u.reading? f = some r) :
    r = f.clock.tick.current ∧ (u.on f).clock.current = r := by
  cases u with
  | read =>
    cases hr
    exact ⟨(Fleet.setClock_fields ..).1 ▸ rfl, rfl⟩
  | goOn t =>
    obtain ⟨tick, g, hg, clock⟩ := Fleet.reading?_eq hr
    rw [on, hg]
    exact ⟨tick, clock⟩
  | turn =>
    obtain ⟨t, front, hr⟩ := Option.bind_eq_some_iff.1 hr
    obtain ⟨tick, g, hg, clock⟩ := Fleet.reading?_eq hr
    obtain ⟨rest, front⟩ := List.head?_eq_some_iff.1 front
    rw [on, Fleet.turn, front]
    simp only [hg]
    exact ⟨tick, clock⟩
  | _ => cases hr

end ClockUse

/-! ## Vigils -/

/-- Uses of one clock in order, which begins at a time. -/
structure Vigil where
  initial : Timestamp
  uses : Nat → ClockUse

namespace Vigil

/-- Some uses, after which it is nobody's turn any more. -/
def ofUses (t : Timestamp) (us : List ClockUse) : Vigil := ⟨t, fun i => us.getD i .turn⟩

/-- The fleet with the clock after so many uses. -/
def fleet (k : Vigil) : Nat → Fleet
  | 0 => Session.oneNode ⟨k.initial⟩ Config.unset .shared
  | i + 1 => (k.uses i).on (k.fleet i)

/-- Where the clock stands after so many uses. -/
def time (k : Vigil) (i : Nat) : Timestamp := (k.fleet i).clock.current

/-- What a use reads from the clock. -/
def reading? (k : Vigil) (i : Nat) : Option Timestamp := (k.uses i).reading? (k.fleet i)

/-- The times for which those wait who came with the first so many uses, in order. -/
def targets (k : Vigil) (i : Nat) : List Timestamp :=
  (List.range i).filterMap fun j => (k.uses j).target?

/-- What becomes of a wait for a time, which is the wait of a task. If it has ended, the clock has
reached the time. If it has not although the clock has, the task is ready and ends with its next
step. So if no task is ready, or none can go on, the time is still to come. -/
structure OnTime (k : Vigil) (i t : Nat) (w : Timestamp) : Prop where
  ended : ∀ o, (k.fleet i).outcome? t = some o → o = .done ∧ w ≤ k.time i
  due : (k.fleet i).outcome? t = none → w ≤ k.time i →
    t ∈ (k.fleet i).ready ∧ ∃ g, (k.fleet i).step t = some g ∧ g.outcome? t = some .done
  pending : (k.fleet i).outcome? t = none → (k.fleet i).turn = none ∨ (k.fleet i).Quiescent →
    k.time i < w

variable (k : Vigil) {i j t : Nat} {w r s : Timestamp}

lemma tasks_zero : (k.fleet 0).tasks = [] := rfl

lemma awaits (i : Nat) : (k.fleet i).AwaitsTimes (k.targets i) := by
  induction i with
  | zero =>
    have nobody : ∀ (t : Nat) (x : Task), (k.fleet 0).tasks[t]? ≠ some x := by
      intro t x
      rw [tasks_zero, List.getElem?_nil]
      exact nofun
    exact
      { count := rfl
        stands := fun t x _ hx => (nobody t x hx).elim
        ready := fun t x hx => (nobody t x hx).elim }
  | succ i ih =>
    have more : k.targets (i + 1) = k.targets i ++ (k.uses i).target?.toList := by
      rw [targets, List.range_succ, List.filterMap_append]
      cases h : (k.uses i).target? <;> simp [targets, h]
    rw [more]
    exact ClockUse.awaits ih (k.uses i)

/-- The clock never goes back. -/
lemma time_mono (h : i ≤ j) : k.time i ≤ k.time j := by
  induction j, h using Nat.le_induction with
  | base => exact Nat.le_refl _
  | succ j _ ih => exact Nat.le_trans ih (ClockUse.le_clock (k.awaits j) (k.uses j))

/-- A reading is later than all that the clock has shown before, except at the end of time. -/
lemma reading_increases (h : i < j) (hi : k.reading? i = some r) (hj : k.reading? j = some s) :
    r < s ∨ s = Timestamp.greatest := by
  obtain ⟨-, shown⟩ := ClockUse.reading?_eq hi
  obtain ⟨rfl, -⟩ := ClockUse.reading?_eq hj
  have shown : r ≤ (k.fleet j).clock.current := shown ▸ k.time_mono h
  rcases Nat.lt_or_ge r.raw.val Timestamp.greatest.raw.val with before | last
  · exact .inl (Clock.lt_tick before shown)
  · exact .inr (Timestamp.eq_greatest (Nat.le_trans last (Nat.le_trans shown (Fleet.le_tick _))))

lemma onTime (hw : (k.targets i)[t]? = some w) : k.OnTime i t w := by
  have awaits := k.awaits i
  refine ⟨fun o ended => ?_, awaits.due hw, fun pending rest => ?_⟩
  · obtain ⟨x, hx, outcome⟩ := Option.bind_eq_some_iff.1 ended
    have point := Task.point_of_outcome outcome
    have stands := awaits.stands t x w hx hw
    rw [point] at stands
    cases stands with
    | ended reached => exact ⟨rfl, reached⟩
  · refine Nat.lt_of_not_le fun reached => ?_
    obtain ⟨ready, g, step, -⟩ := awaits.due hw pending reached
    rcases rest with idle | stuck
    · rw [Fleet.ready_of_turn idle] at ready
      cases ready
    · cases (stuck t).symm.trans step

/-- The clock never goes back, and every reading is later than all before it, except at the end of
time. Every wait has a task of its own and ends when the clock has reached its time, neither earlier
nor later, whoever moves the clock and however much is read from it meanwhile; and when the tasks
take their turns, some time no task can go on. -/
theorem waits_end_on_time (k : Vigil) :
    (∀ i j, i ≤ j → k.time i ≤ k.time j) ∧
      (∀ i j r s, i < j → k.reading? i = some r → k.reading? j = some s →
        r < s ∨ s = Timestamp.greatest) ∧
      (∀ i, (k.fleet i).tasks.length = (k.targets i).length ∧
        ∀ t w, (k.targets i)[t]? = some w → k.OnTime i t w) ∧
      ∀ i, ∃ n, ((k.fleet i).run n).turn = none :=
  ⟨fun _ _ => k.time_mono, fun _ _ _ _ => k.reading_increases,
    fun i => ⟨(k.awaits i).count, fun _ _ => k.onTime⟩, fun i => (k.awaits i).exists_rest⟩

/-- Some wait for the third tick from the beginning, some until later, and one for the end of time,
which its skew exceeds. -/
def relayed : Vigil :=
  .ofUses ⟨9⟩ [.waitUntil ⟨12⟩, .turn, .waitFor ⟨20⟩, .read, .turn, .turn,
    .waitForActivation ⟨5⟩ ⟨0, 1_999_999, by decide⟩, .turn, .turn, .turn, .turn,
    .advance (Duration.ofMillis 1),
    .waitForActivation ⟨18_446_744_073_709_551_613⟩ (Duration.ofMillis 2000), .set Timestamp.greatest,
    .turn, .turn, .turn, .turn, .turn, .read]

/-- The clock is read by one who waits, and that lets another one go on whose time has come, while
the time of a third is still to come. At the end of time readings repeat. -/
theorem waits_end_on_time_relayed :
    (relayed.time 3 ≤ relayed.time 14) ∧
      (relayed.reading? 3 = some ⟨10⟩ ∧ relayed.reading? 7 = some ⟨12⟩ ∧
        ((⟨10⟩ : Timestamp) < ⟨12⟩ ∨ (⟨12⟩ : Timestamp) = Timestamp.greatest)) ∧
      (relayed.reading? 18 = some Timestamp.greatest ∧
        relayed.reading? 19 = some Timestamp.greatest) ∧
      (0 ∈ (relayed.fleet 8).ready ∧
        ∃ g, (relayed.fleet 8).step 0 = some g ∧ g.outcome? 0 = some .done) ∧
      ((relayed.fleet 10).outcome? 0 = some .done ∧ ⟨12⟩ ≤ relayed.time 10) ∧
      ((relayed.fleet 11).outcome? 1 = none ∧ relayed.time 11 < ⟨20⟩) ∧
      (relayed.targets 13 = [⟨12⟩, ⟨20⟩, ⟨65_541⟩, Timestamp.greatest] ∧
        ∃ n, ((relayed.fleet 13).run n).turn = none) := by
  obtain ⟨mono, readings, waits, rest⟩ := waits_end_on_time relayed
  have tenth : relayed.reading? 3 = some ⟨10⟩ := by decide +kernel
  have twelfth : relayed.reading? 7 = some ⟨12⟩ := by decide +kernel
  have woken := (waits 8).2 0 ⟨12⟩ (by decide +kernel)
  have past := (waits 10).2 0 ⟨12⟩ (by decide +kernel)
  have later := (waits 11).2 1 ⟨20⟩ (by decide +kernel)
  have ended : (relayed.fleet 10).outcome? 0 = some .done := by decide +kernel
  have pending : (relayed.fleet 11).outcome? 1 = none := by decide +kernel
  exact ⟨mono 3 14 (by decide), ⟨tenth, twelfth, readings 3 7 _ _ (by decide) tenth twelfth⟩,
    by decide +kernel, woken.due (by decide +kernel) (by decide +kernel),
    ⟨ended, (past.ended _ ended).2⟩,
    ⟨pending, later.pending pending (.inl (by decide +kernel))⟩, by decide +kernel, rest 13⟩

end Vigil

end SchemaCatalog
