import SchemaCatalog.Proofs.Run.Shutdown

/-!
# A node that is started and stopped once

When a start has succeeded, the node is done with all that was stored when it was asked for. When a
stop has returned that is the only one, the node has come to the version that was the last one when
the storage was detached, and stays there. Whoever waits for a later version is refused
(`Run.clean_cuts`).
-/

namespace SchemaCatalog

namespace Fleet

/-- What a task that starts a node has come to, where `k` versions were stored when it was asked
to. -/
inductive Replaying (f : Fleet) (n k : Nat) : Point → Prop where
  | begins : Replaying f n k .start
  | links : Replaying f n k .startLink
  | asks : Replaying f n k .replay
  | awaits {v : Version} : k ≤ v.number.val → Replaying f n k (.await v .started)
  | waits {v : Version} : k ≤ v.number.val → Replaying f n k (.awaiting v .started)
  | failed {e : Error} : Replaying f n k (.ended (.failed e))
  | replayed : k ≤ (f.node n).mark.doneUntil.number.val → Replaying f n k (.ended .done)

/-- Where a task stands that waits for a version which is never done. -/
inductive Refused (v : Version) (q : Purpose) : Point → Prop where
  | asks : Refused v q (.await v q)
  | waits : Refused v q (.awaiting v q)
  | ended : Refused v q (.ended (.failed .stopped))

section

variable {f g : Fleet} {t n k : Nat} {x : Task} {p : Point} {v : Version} {q : Purpose}

lemma Replaying.stays (h : f.Replaying n k p) (kept : (f.node n).Kept (g.node n)) :
    g.Replaying n k p := by
  cases h with
  | begins => exact .begins
  | links => exact .links
  | asks => exact .asks
  | awaits le => exact .awaits le
  | waits le => exact .waits le
  | failed => exact .failed
  | replayed le => exact .replayed (Nat.le_trans le kept.doneUntil)

/-- A task that starts a node goes on to wait for all that is stored by then, and succeeds only when
that is done. -/
lemma Replaying.step {y : Task} (h : f.Replaying x.node k x.point) (hp : f.Plain) (hw : f.Waiting)
    (hk : k ≤ f.storage.committed.number.val) (hx : f.tasks[t]? = some x) (hg : f.step t = some g)
    (kept : (f.node x.node).Kept (g.node x.node)) (hy : g.tasks[t]? = some y) :
    g.Replaying x.node k y.point := by
  -- Once it waits, such a task takes the turns of one that waits for a version.
  have turn (hs : x.point.isStatement = true) : f.Turn g x y.point := by
    obtain ⟨p, hp', turn⟩ := turn_of_step hp hx hs hg
    cases hy.symm.trans hp'
    exact turn
  rw [Fleet.step, hx] at hg
  generalize e : x.point = p at h
  cases h with
  | begins =>
    simp only [e, Option.some.injEq] at hg
    rw [← hg, stepStart] at hy
    split at hy
    · exact point_of_finish hy ▸ .failed
    · dsimp only at hy
      split at hy
      · exact point_of_finish hy ▸ .failed
      · exact point_of_moveTo hy ▸ .links
  | links =>
    simp only [e, Option.some.injEq] at hg
    rw [← hg, stepStartLink] at hy
    split at hy
    · exact point_of_finish hy ▸ .failed
    · exact point_of_moveTo hy ▸ .asks
  | asks =>
    simp only [e, Option.some.injEq] at hg
    obtain ⟨log, hl⟩ := Option.isSome_iff_exists.1 (hp.linked x.node)
    rw [← hg, stepReplay, committedOf_of_log hl] at hy
    exact point_of_moveTo hy ▸ .awaits hk
  | awaits le =>
    rcases (turn (by rw [e]; rfl)).of_await e with ⟨done, next⟩ | ⟨-, ⟨_, -, next⟩ | ⟨-, next⟩⟩
    · exact next ▸ .replayed (Nat.le_trans le (Nat.le_trans done kept.doneUntil))
    · exact next ▸ .failed
    · exact next ▸ .waits le
  | waits le =>
    rcases (turn (by rw [e]; rfl)).of_awaiting e with ⟨released, next⟩ | ⟨-, next⟩
    · have done := hw.released t x _ _ hx e released
      exact next ▸ .replayed (Nat.le_trans le (Nat.le_trans done kept.doneUntil))
    · exact next ▸ .failed
  | failed =>
    simp only [e] at hg
    cases hg
  | replayed le =>
    simp only [e] at hg
    cases hg

/-- A task that waits for a version which is not done goes on to, or is refused as its node is
stopped. -/
lemma Refused.turn (h : Refused v q x.point) (hw : f.Waiting) (hx : f.tasks[t]? = some x)
    (late : ¬ v ≤ (f.node x.node).mark.doneUntil)
    (stopped : ∀ e, (f.node x.node).mark.failure = some e → e = .stopped)
    (hturn : f.Turn g x p) : Refused v q p := by
  generalize e : x.point = o at h
  cases h with
  | asks =>
    rcases hturn.of_await e with ⟨done, -⟩ | ⟨-, ⟨err, failure, next⟩ | ⟨-, next⟩⟩
    · exact absurd done late
    · exact next ▸ stopped err failure ▸ .ended
    · exact next ▸ .waits
  | waits =>
    rcases hturn.of_awaiting e with ⟨released, -⟩ | ⟨dropped, next⟩
    · exact absurd (hw.released t x _ _ hx e released) late
    · obtain ⟨err, failure⟩ := hw.dropped t x _ _ hx e dropped
      have failure : (f.node x.node).mark.failure = some err := failure
      rw [next, Watermark.failureError, failure, stopped err failure]
      exact .ended
  | ended => exact (hturn.not_ended e).elim

lemma Refused.isStatement (h : Refused v q x.point) (hx : f.tasks[t]? = some x)
    (hg : f.step t = some g) : x.point.isStatement = true := by
  rw [step, hx] at hg
  generalize e : x.point = o at h
  cases h with
  | asks => rfl
  | waits => rfl
  | ended =>
    simp only [e] at hg
    cases hg

/-- Such a task can go on until it has been refused once its watermark has failed. -/
lemma Refused.rests (h : Refused v q x.point) (hw : f.Waiting) (hx : f.tasks[t]? = some x)
    {err : Error} (failure : (f.node x.node).mark.failure = some err) (stuck : f.step t = none) :
    f.outcome? t = some (.failed .stopped) := by
  rw [step, hx] at stuck
  generalize e : x.point = o at h
  cases h with
  | asks =>
    simp only [e] at stuck
    cases stuck
  | waits =>
    simp only [e] at stuck
    have untold : x.signal = none := by
      cases hs : x.signal with
      | none => rfl
      | some s =>
        rw [hs] at stuck
        cases s with
        | released => cases stuck
        | dropped => cases stuck
    obtain ⟨l, listed, -⟩ := hw.held t x _ _ hx e untold
    cases (hw.beyond _ _ _ listed).2.symm.trans failure
  | ended => rw [outcome?, hx, Option.bind_some, Task.outcome?, e]

lemma Refused.outcome {o : Outcome} (h : Refused v q x.point) (hx : f.tasks[t]? = some x)
    (ho : f.outcome? t = some o) : o = .failed .stopped := by
  rw [outcome?, hx, Option.bind_some] at ho
  rw [Task.point_of_outcome ho] at h
  cases h
  rfl

end

end Fleet

namespace Run

open Fleet

variable {r : Run} {n s b c i j k q t a log d : Nat} {x y : Task} {v : Version} {p : Purpose}
  {h : Receiver}

/-! ## What a start waits for -/

/-- What the task has come to that was asked to start a node. -/
lemma replaying {skew : Duration} (move : r.moves s = .request n skew .start)
    (hn : n < (r.fleet s).nodes.length) (hi : s < i) :
    ∃ x, (r.fleet i).tasks[(r.fleet s).tasks.length]? = some x ∧ x.node = n ∧
      (r.fleet i).Replaying n (r.fleet s).storage.log.length x.point := by
  induction hi with
  | refl => exact ⟨⟨n, .start, none⟩, r.errand_begins move hn rfl, rfl, .begins⟩
  | @step i hi ih =>
    obtain ⟨x, hx, rfl, replaying⟩ := ih
    have kept := (r.frame i).node x.node ((r.plain i).placed _ x hx)
    rcases r.rests_or_steps hx with ⟨⟨y, hy, node, point⟩, -⟩ | ⟨-, hg⟩
    · exact ⟨y, hy, node, point ▸ replaying.stays kept⟩
    · obtain ⟨y, hy, node, -⟩ := (r.frame i).task _ x hx
      have stored : (r.fleet s).storage.log.length ≤ (r.fleet i).storage.committed.number.val := by
        rw [(r.tracks i).sound.committed]
        exact (r.log_grows (Nat.le_of_lt hi)).length_le
      exact ⟨y, hy, node, replaying.step (r.plain i) (r.waiting i) stored hx hg kept hy⟩

/-- All that was stored when the start was asked for is done when it has succeeded. -/
lemma Managed.replayed (hr : r.Managed n s b) :
    r.Settled b n (r.fleet s).storage.log.length := by
  obtain ⟨skew, move⟩ := hr.asked
  obtain ⟨x, hx, -, replaying⟩ := replaying move hr.node hr.lt
  obtain ⟨k, reached⟩ := (r.tracks b).started n
    (Nat.lt_of_lt_of_le hr.node (r.nodes_le (Nat.le_of_lt hr.lt))) (hr.started (Nat.le_refl b))
  refine settled_of_done hr.spared reached ?_
  have ended := hr.returned
  rw [outcome?, hx, Option.bind_some] at ended
  rw [Task.point_of_outcome ended] at replaying
  cases replaying with
  | replayed le => exact le

/-! ## A stop that is the only one -/

/-- One stop is asked for at most. -/
def StopsOnce (r : Run) : Prop :=
  ∀ i j, (r.moves i).stops = true → (r.moves j).stops = true → i = j

/-- Whatever stops something is the same task. -/
lemma StopsOnce.sole {u : Nat} (once : r.StopsOnce) (hx : (r.fleet i).tasks[t]? = some x)
    (hs : x.point.stops = true) (hy : (r.fleet j).tasks[u]? = some y)
    (hs' : y.point.stops = true) : t = u := by
  obtain ⟨q, -, asked, task⟩ := exists_stops hx hs
  obtain ⟨q', -, asked', task'⟩ := exists_stops hy hs'
  obtain rfl := once q q' asked asked'
  exact task.trans task'.symm

/-- A stop does not go back to a stage. -/
lemma stage_le (ha : ∀ i, (r.moves i).managesOnly n = true) (hij : i ≤ j)
    (hx : (r.fleet i).tasks[t]? = some x) :
    ∃ y, (r.fleet j).tasks[t]? = some y ∧ x.point.stage ≤ y.point.stage := by
  induction hij with
  | refl => exact ⟨x, hx, Nat.le_refl _⟩
  | @step j _ ih =>
    obtain ⟨y, hy, le⟩ := ih
    rcases r.rests_or_steps hy with ⟨⟨z, hz, -, point⟩, -⟩ | ⟨-, hg⟩
    · exact ⟨z, hz, point ▸ le⟩
    · obtain ⟨z, hz, -⟩ := (r.frame j).task t y hy
      refine ⟨z, hz, ?_⟩
      rcases stage_of_step (r.plain j) hy (fun hs => (stopper ha hy hs).2) hg hz with lt | ⟨-, past⟩
      · exact Nat.le_trans le (Nat.le_of_lt lt)
      · exact Point.stage_of_not_stops past ▸ Point.stage_le _

/-- A stop that has taken a step is past its stage for good. -/
lemma stage_lt (ha : ∀ i, (r.moves i).managesOnly n = true) (hij : i < j)
    (hm : r.moves i = .step t) (hx : (r.fleet i).tasks[t]? = some x) (hs : x.point.stops = true)
    (free : (r.fleet i).step t ≠ none) (hy : (r.fleet j).tasks[t]? = some y) :
    x.point.stage < y.point.stage := by
  have hg := (r.step_cases hm).resolve_left fun stuck => free stuck.1
  obtain ⟨z, hz, -⟩ := (r.frame i).task t x hx
  have lt : x.point.stage < z.point.stage := by
    rcases stage_of_step (r.plain i) hx (fun hs => (stopper ha hx hs).2) hg hz with lt | ⟨past, -⟩
    · exact lt
    · cases hs.symm.trans past
  obtain ⟨w, hw, le⟩ := stage_le ha (Nat.succ_le_of_lt hij) hz
  cases hy.symm.trans hw
  exact Nat.lt_of_lt_of_le lt le

/-- A stop that is the only one finds nobody who has taken a step from the stage where it stands. -/
lemma StopsOnce.stage_lt {u : Nat} (once : r.StopsOnce)
    (ha : ∀ i, (r.moves i).managesOnly n = true) (hij : i < j) (hm : r.moves i = .step t)
    (hx : (r.fleet i).tasks[t]? = some x) (hs : x.point.stops = true)
    (free : (r.fleet i).step t ≠ none) (hy : (r.fleet j).tasks[u]? = some y)
    (hs' : y.point.stops = true) : x.point.stage < y.point.stage := by
  obtain rfl := once.sole hx hs hy hs'
  exact Run.stage_lt ha hij hm hx hs free hy

/-- A node that is started has its handler until it gives it up. -/
lemma holds_or_releases (r : Run) (n i : Nat) : ((r.fleet i).node n).Holds ∨
    ∃ j < i, ∃ t x, r.moves j = .step t ∧ (r.fleet j).tasks[t]? = some x ∧ x.node = n ∧
      x.point = .releaseHandler := by
  induction i with
  | zero => exact .inl nofun
  | succ i ih =>
    rcases ih with holds | ⟨j, hj, released⟩
    · obtain ⟨k, hk, core⟩ := r.change i
      obtain ⟨-, -, -, -, -, nodes, -⟩ := core_inj core
      rw [node_congr nodes]
      rcases holds_of_change hk holds with holds | released
      · exact .inl holds
      · exact .inr ⟨i, Nat.lt_succ_self i, released⟩
    · exact .inr ⟨j, Nat.lt_succ_of_lt hj, released⟩

/-- A log that was started has its delivery until a log is stopped. -/
lemma Begins.owns (hb : r.Begins a log d h) (hi : a < i) (unstopped : r.NoStop a i)
    (fine : ∀ j < i, ¬ r.Fails j d) : (r.fleet i).Owns log d := by
  induction hi with
  | refl =>
    obtain ⟨t, x, hm, hx, hs⟩ := hb.starts
    obtain ⟨g, p, hg, core⟩ := step_startsLog hx hs hb.receiver hb.free
    have next := r.fleet_of_step hm hg
    obtain ⟨lg, hl, -⟩ := Option.bind_eq_some_iff.1 hb.receiver
    refine ⟨{ lg with delivery := some d }, ?_, rfl⟩
    rw [next, (core_inj core).2.2.2.1, hb.delivery]
    show ((r.fleet a).logs.modify log _)[log]? = _
    rw [List.getElem?_modify_eq, hl]
    rfl
  | @step i hi ih =>
    have before : r.NoStop a i := fun j log hj hji => unstopped j log hj (Nat.lt_succ_of_lt hji)
    have fine' : ∀ j < i, ¬ r.Fails j d := fun j hj => fine j (Nat.lt_succ_of_lt hj)
    obtain ⟨-, -, -, fed⟩ := hb.fed hi before fine'
    obtain ⟨-, -, -, fed'⟩ := hb.fed (Nat.lt_succ_of_lt hi) unstopped fine
    obtain ⟨k, hk, core⟩ := r.change i
    obtain ⟨-, -, sink, logs, -, -, -⟩ := core_inj core
    rcases owns_of_change hk (ih before fine') with own | free | free
    · rwa [Owns, logs]
    · cases fed.symm.trans free
    · cases fed'.symm.trans (sink.trans free)

namespace Managed

/-- A stop that is the only one overtakes no other one. -/
lemma not_overtakes (hr : r.Managed n s b) (once : r.StopsOnce) (i : Nat) :
    ¬ (r.fleet i).Overtakes n (r.moves i) := by
  intro overtakes
  cases hm : r.moves i with
  | step t =>
    rw [hm] at overtakes
    obtain ⟨x, hx, node, ⟨point, ⟨log, hl, free⟩, -⟩ | ⟨point, given, -⟩⟩ := overtakes
    · have hs : x.point.stops = true := by rw [point]; rfl
      have late := hr.lt_of_stops hx hs
      obtain ⟨a, log', ha, hb⟩ := hr.begins
      -- Whoever stopped a log before stood where this stop stands.
      have unstopped : r.NoStop a i := by
        rintro j l - hj ⟨u, y, move, hy, stops⟩
        obtain ⟨g, step, -⟩ := step_stopsLog hy stops
        have free : (r.fleet j).step u ≠ none := step ▸ Option.some_ne_none g
        have lt := once.stage_lt hr.alone hj move hy stops.stops free hx hs
        rw [point] at lt
        exact Nat.not_lt_zero _ lt
      have own := hb.owns (Nat.lt_trans ha late) unstopped fun j _ => hr.fine j
      obtain ⟨u, z, -, hz, placed, -, link⟩ := hb.startLink hr.alone
      have kept := r.kept (Nat.le_of_lt (Nat.lt_trans ha late)) (placed ▸ (r.plain a).placed u z hz)
      cases hl.symm.trans (kept.log.trans link)
      obtain ⟨y, hy, -⟩ := hr.delivery (Nat.le_of_lt late)
      cases free.symm.trans (own.stopLog (y := y) (by rw [hy]; rfl))
    · have hs : x.point.stops = true := by rw [point]; rfl
      rcases holds_or_releases r n i with holds | ⟨j, hj, u, y, move, hy, -, released⟩
      · have started := hr.started (Nat.le_of_lt (hr.lt_of_stops hx hs))
        cases given.symm.trans (holds started)
      · have free : (r.fleet j).step u ≠ none := by
          rw [step, hy]
          simp only [released]
          exact Option.some_ne_none _
        have lt := once.stage_lt hr.alone hj move hy (by rw [released]; rfl) free hx hs
        rw [point, released] at lt
        exact absurd lt (Nat.lt_irrefl _)
  | _ =>
    rw [hm] at overtakes
    exact overtakes.elim

end Managed

/-- The stop is what detached the storage. -/
lemma StopsOnce.detaches (once : r.StopsOnce) (asks : r.AsksStop q n t) (hc : r.Detaches c) :
    q < c ∧ r.moves c = .step t := by
  obtain ⟨log, u, x, move, hx, stops⟩ := hc.stops
  obtain rfl := once.sole asks.begins rfl hx stops.stops
  exact ⟨r.lt_of_task (Nat.le_of_eq asks.task.symm) hx, move⟩

/-! ## After the stop has returned -/

/-- A node has come to the version `k` and no further, and is done with that. -/
structure Cut (r : Run) (i n k : Nat) : Prop where
  latest : ∃ c, ((r.fleet i).node n).history.latest = .ok c ∧ c.version.number.val = k
  done : ((r.fleet i).node n).mark.doneUntil.number.val = k
  settled : r.Settled i n k

/-- When a stop has returned its node stays where it has come to. -/
lemma Managed.cut (hr : r.Managed n s b) (ho : ∀ i, (r.fleet i).Orderly n) (hc : r.Detaches c)
    (stopped : r.Stopped i n) (hij : i ≤ j) : r.Cut j n (r.fleet c).storage.log.length := by
  obtain ⟨err, he⟩ := stopped.failed
  obtain ⟨-, old, -⟩ := hr.done_of_failure (ho i) hc he
  obtain ⟨-, reached, done⟩ := hr.done_of_failure (ho j) hc ((r.kept hij old.lt).failure err he)
  obtain ⟨d, hd, version⟩ := reached.snapshot (r.tracks j) (Nat.le_refl _)
  exact ⟨⟨d, (reached.latest (r.tracks j)).trans hd, version⟩, done,
    settled_of_done hr.spared reached (Nat.le_of_eq done.symm)⟩

/-- A version that was not stored when the storage was detached is never done. -/
lemma Managed.late (hr : r.Managed n s b) (ho : ∀ i, (r.fleet i).Orderly n) (hc : r.Detaches c)
    (stopped : r.Stopped i n) (hn : n < (r.fleet j).nodes.length)
    (hv : (r.fleet c).storage.log.length < v.number.val) :
    ¬ v ≤ ((r.fleet j).node n).mark.doneUntil := by
  intro done
  rcases Nat.le_total i j with hij | hji
  · rw [Version.le_def, (hr.cut ho hc stopped hij).done] at done
    exact absurd hv (Nat.not_lt.2 done)
  · have done := Nat.le_trans done (r.kept hji hn).doneUntil
    rw [(hr.cut ho hc stopped (Nat.le_refl i)).done] at done
    exact absurd hv (Nat.not_lt.2 done)

/-- Whoever waits for such a version goes on to until it is refused. -/
lemma Managed.refused (hr : r.Managed n s b) (ho : ∀ i, (r.fleet i).Orderly n)
    (late : ∀ j, n < (r.fleet j).nodes.length → ¬ v ≤ ((r.fleet j).node n).mark.doneUntil)
    (hx : (r.fleet i).tasks[t]? = some x) (hn : x.node = n) (h : Refused v p x.point)
    (hij : i ≤ j) :
    ∃ y, (r.fleet j).tasks[t]? = some y ∧ y.node = n ∧ Refused v p y.point := by
  induction hij with
  | refl => exact ⟨x, hx, hn, h⟩
  | @step j _ ih =>
    obtain ⟨y, hy, rfl, refused⟩ := ih
    rcases r.rests_or_steps hy with ⟨⟨z, hz, node, point⟩, -⟩ | ⟨-, hg⟩
    · exact ⟨z, hz, node, point ▸ refused⟩
    · obtain ⟨p, hz, turn⟩ := turn_of_step (r.plain j) hy (refused.isStatement hy hg) hg
      have undone := late j ((r.plain j).placed t y hy)
      exact ⟨_, hz, rfl, refused.turn (r.waiting j) hy undone (fun e he => ((ho j).failed e he).1)
        turn⟩

/-- Start and stop are clean cuts on a node that is managed alone, is never halted and drives its
own watermark, if it is stopped once at most. When the start has succeeded, the node has registered
all versions that were stored when the start was asked for, and their events were handed over in
calls that have ended. When the stop has returned, it was the stop that detached the storage, and
the node has come to the last version that was stored then and is done with it, and stays so for
good. A statement that was accepted as one of these versions ends with its version and with nothing
else; it does not wait any more without having been released, and can go on until it has returned or
sleeps until the version is active on every node. Whoever waits for a later version of the node,
whenever that is, ends as stopped and with nothing else, and can go on until it has ended. -/
theorem clean_cuts (r : Run) {n s b : Nat} (hr : r.Managed n s b) (once : r.StopsOnce) :
    r.Settled b n (r.fleet s).storage.log.length ∧
    ∀ q t e, r.AsksStop q n t → (r.fleet e).outcome? t = some .done →
      ∃ c, q < c ∧ c < e ∧ r.moves c = .step t ∧ r.Detaches c ∧
        (∀ i, e ≤ i → r.Cut i n (r.fleet c).storage.log.length) ∧
        (∀ q' t' a st u, r.Starts q' n st t' → r.Accepts a t' st u →
          u.version.number.val ≤ (r.fleet c).storage.log.length →
          (∀ i o, (r.fleet i).outcome? t' = some o → o = .version u.version) ∧
          ∀ i, e ≤ i →
            (∀ x v p, (r.fleet i).tasks[t']? = some x → x.point = .awaiting v p →
              x.signal = some .released) ∧
            ((r.fleet i).step t' = none →
              (r.fleet i).outcome? t' = some (.version u.version) ∨
                (r.fleet i).SleepsFor t' n u.version)) ∧
        ∀ i t' x v p, (r.fleet i).tasks[t']? = some x → x.node = n →
          x.point = .await v p ∨ x.point = .awaiting v p →
          (r.fleet c).storage.log.length < v.number.val → ∀ j, i ≤ j →
            (∀ o, (r.fleet j).outcome? t' = some o → o = .failed .stopped) ∧
            (e ≤ j → (r.fleet j).step t' = none →
              (r.fleet j).outcome? t' = some (.failed .stopped)) := by
  have ho := hr.orderly (hr.not_overtakes once)
  refine ⟨hr.replayed, fun q t e asks returned => ?_⟩
  have stopped : r.Stopped e n := ⟨q, t, asks, returned⟩
  -- The stop has closed the watermark, as is done only after the storage was detached.
  obtain ⟨err, failure⟩ := stopped.failed
  obtain ⟨c, hce, hc⟩ := hr.exists_detaches_of_failure (ho e) failure
  obtain ⟨hqc, move⟩ := once.detaches asks hc
  have stays {i : Nat} (hi : e ≤ i) : r.Stopped i n := ⟨q, t, asks, r.outcome hi returned⟩
  refine ⟨c, hqc, hce, move, hc, fun i hi => hr.cut ho hc stopped hi, ?_, ?_⟩
  · intro q' t' a st u hs ha hk
    exact ⟨fun i o ended => hr.returns ho hc hs ha hk ended, fun i hi =>
      ⟨fun x v p hx hp => hr.told ho hc hs ha hk (stays hi) hx hp,
        hr.rests ho hc hs ha hk (.inl (stays hi))⟩⟩
  · intro i t' x v p hx hn waits hv j hij
    -- Whoever waits for a later version is released no more, and refused once the node is closed.
    have here : Refused v p x.point := by
      rcases waits with asks | waits
      · exact asks ▸ .asks
      · exact waits ▸ .waits
    obtain ⟨y, hy, rfl, refused⟩ :=
      hr.refused ho (fun j hn => hr.late ho hc stopped hn hv) hx hn here hij
    refine ⟨fun o ended => refused.outcome hy ended, fun hj stuck => ?_⟩
    obtain ⟨err, failure⟩ := (stays hj).failed
    exact refused.rests (r.waiting j) hy failure stuck

/-- One stop is asked for at most where only one of the moves that are made asks for a stop. -/
lemma stopsOnce_ofMoves {m : Nat} {f : Clock} {l : List Move}
    {fit : OffersFit (Fleet.ofClock f) l}
    (only : ∀ i < l.length, ((ofMoves f l fit).moves i).stops = true → i = m) :
    (ofMoves f l fit).StopsOnce := by
  have all (i : Nat) (asked : ((ofMoves f l fit).moves i).stops = true) : i = m := by
    rcases Nat.lt_or_ge i l.length with hi | hi
    · exact only i hi asked
    · rw [moves_of_le hi] at asked
      cases asked
  exact fun i j hi hj => (all i hi).trans (all j hj).symm

/-- A version is stored before a node is started. The start waits for it. Then a statement is
accepted, and the node is stopped, which hands its update over. A statement that is started after
that stores its update too, and is refused. -/
def ceased : Run :=
  ofMoves Clock.unset
    [.join Config.unset none, .request 0 .zero (.commit (blank ⟨1⟩)), .step 0,
      .request 0 .zero .start, .step 1, .step 1, .step 1, .step 1, .step 3, .step 2, .step 2,
      .step 1, .request 0 .zero (.execute repartition), .step 4, .step 4, .step 4,
      .request 0 .zero .stop, .step 5, .step 3, .step 3, .step 5, .step 5, .step 2, .step 2,
      .step 2, .step 2, .step 2, .step 5, .step 5, .step 4, .step 4, .step 4,
      .request 0 .zero (.advance (Duration.ofMillis 9)), .step 4,
      .request 0 .zero (.execute repartition), .step 6, .step 6, .step 6]
    (by decide +kernel)

lemma ceased_managed : ceased.Managed 0 3 12 :=
  managed_ofMoves (by decide) (by decide) ⟨.zero, rfl⟩ (by decide)
    (by decide) (by decide)

lemma ceased_stopsOnce : ceased.StopsOnce := stopsOnce_ofMoves (m := 16) (by decide)

lemma ceased_detaches : ceased.Detaches 17 :=
  ceased_managed.detaches_of_sink (by decide) (by decide) (by decide)

theorem clean_cuts_ceased :
    ceased.Settled 12 0 1 ∧ ceased.Cut 38 0 2 ∧
      (ceased.fleet 34).outcome? 4 = some (.version ⟨2⟩) ∧
      (ceased.fleet 38).outcome? 6 = some (.failed .stopped) := by
  obtain ⟨start, stop⟩ := clean_cuts ceased ceased_managed ceased_stopsOnce
  obtain ⟨c, -, -, -, hc, cut, accepted, refused⟩ := stop 16 5 29
    ⟨⟨.zero, rfl⟩, by decide +kernel, by decide +kernel⟩ (by decide +kernel)
  obtain rfl := hc.unique ceased_detaches
  have before : (ceased.fleet 3).storage.log.length = 1 := by decide +kernel
  have stored : (ceased.fleet 17).storage.log.length = 2 := by decide +kernel
  obtain ⟨returns, -⟩ := accepted 12 4 14 repartition { repartition.update with version := ⟨2⟩ }
    ⟨⟨.zero, rfl⟩, by decide +kernel, by decide +kernel⟩
    (.of_points (a := 1) rfl (by decide +kernel) (by decide +kernel)) (by decide +kernel)
  have ended : ((ceased.fleet 34).outcome? 4).isSome := by decide +kernel
  obtain ⟨o, ho⟩ := Option.isSome_iff_exists.1 ended
  obtain ⟨-, rests⟩ := refused 37 6 ⟨0, .await ⟨3⟩ .saved, none⟩ ⟨3⟩ .saved (by decide +kernel) rfl
    (.inl rfl) (by decide +kernel) 38 (by decide)
  refine ⟨before ▸ start, stored ▸ cut 38 (by decide), returns 34 o ho ▸ ho, ?_⟩
  exact rests (by decide) (by decide +kernel)

/-- Somebody closes the watermark of a node while a statement waits for its version, and after the
node was stopped marks a version that was never stored. -/
def meddled : Run :=
  ofMoves Clock.unset
    [.join Config.unset none, .request 0 .zero .start, .step 0, .step 0, .step 0, .step 0,
      .request 0 .zero (.execute repartition), .step 3, .step 3, .step 3,
      .request 0 .zero (.failMark .stopped), .step 3, .request 0 .zero .stop, .step 4, .step 2,
      .step 2, .step 4, .step 4, .step 1, .step 1, .step 1, .step 1, .step 1, .step 4, .step 4,
      .request 0 .zero (.markDone ⟨2⟩)]
    (by decide +kernel)

/-- The node is managed alone, never halted and stopped once, and one version was stored when the
storage was detached. But the statement that was accepted as that version ends as stopped, and the
watermark comes to be beyond it after the stop has returned. -/
theorem meddled_slips :
    (∀ i, (meddled.moves i).managesOnly 0 = true) ∧ (∀ i k, ¬ meddled.StopsAt i 0 k) ∧
      meddled.StopsOnce ∧ meddled.moves 1 = .request 0 .zero .start ∧
      (meddled.fleet 6).outcome? 0 = some .done ∧ meddled.AsksStop 12 0 4 ∧
      meddled.Detaches 13 ∧ (meddled.fleet 13).storage.log.length = 1 ∧
      (meddled.fleet 25).outcome? 4 = some .done ∧ meddled.Starts 6 0 repartition 3 ∧
      meddled.Accepts 8 3 repartition repartition.update ∧
      (meddled.fleet 25).outcome? 3 = some (.failed .stopped) ∧
      ((meddled.fleet 26).node 0).mark.doneUntil = ⟨2⟩ := by
  have unstopped (j : Nat) (hj : j < 13) : (meddled.fleet j).Unstopped := by
    have quiet : ∀ k < 12, (meddled.moves k).stops = false := by decide
    exact Run.unstopped fun k hk => quiet k (Nat.lt_of_lt_of_le hk (Nat.le_of_lt_succ hj))
  have detaches : meddled.Detaches 13 := by
    refine ⟨⟨0, 4, ⟨0, .stop, none⟩, rfl, by decide +kernel, .inr ⟨rfl, by decide +kernel⟩⟩, ?_⟩
    rintro j hj log ⟨t, x, -, hx, stops⟩
    cases stops.stops.symm.trans (unstopped j hj t x hx)
  exact ⟨moves_ofMoves (P := fun m => m.managesOnly 0 = true) (by decide) rfl,
    fun i k => not_stopsAt _ (fleet_ofMoves (P := fun f =>
      (snapshot f.storage.log f.storage.log.length).toOption.isSome = true) (by decide +kernel)),
    stopsOnce_ofMoves (m := 12) (by decide), rfl, by decide +kernel,
    ⟨⟨.zero, rfl⟩, by decide +kernel, by decide +kernel⟩, detaches, by decide +kernel,
    by decide +kernel, ⟨⟨.zero, rfl⟩, by decide +kernel, by decide +kernel⟩,
    .of_points (a := 1) rfl (by decide +kernel) (by decide +kernel), by decide +kernel,
    by decide +kernel⟩

end Run

end SchemaCatalog
