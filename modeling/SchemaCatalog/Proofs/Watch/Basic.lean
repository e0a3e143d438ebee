import SchemaCatalog.Proofs.Fleet.Waiting
import SchemaCatalog.Proofs.Watermark.Counting

/-!
# Watermarks in use

A watermark is used by those who mark versions as done, those who wait for one, and those who let it
fail, in any order. What was begun for one who waits goes on when it is looked at, at any time
later. A watch is any sequence of such uses of one watermark from some version on, by which nobody
marks the last version there is (`Watch`). What a use does to the watermark and to those who wait is
one of a few things (`Use.Turns`), which no use is at a loss about (`Watch.turns`).
-/

namespace SchemaCatalog

/-- How a watermark may be used: a version is done, somebody comes to wait for one, the watermark
fails, or one who came goes on. -/
inductive Use where
  | finish (v : Version)
  | wait (v : Version)
  | fail (e : Error)
  | goOn (task : Nat)
  deriving DecidableEq

namespace Use

/-- The move by which the watermark of the first node is used so. -/
def move : Use → Move
  | .finish v => .request 0 Config.unset.skew (.markDone v)
  | .wait v => .request 0 Config.unset.skew (.awaitVersion v)
  | .fail e => .request 0 Config.unset.skew (.failMark e)
  | .goOn t => .step t

/-- What a use makes of the tasks and the watermark. -/
inductive Turns (l : List Task) (w : Watermark Nat) : Use → List Task → Watermark Nat → Prop where
  | finish {v : Version} {w' : Watermark Nat} {ts : List Nat} :
      w.finish v = (w', .ok ts) → Turns l w (.finish v) (l.mapIdx (Fleet.told .released ts)) w'
  | overflow {v : Version} {w' : Watermark Nat} {a : Abort} :
      w.finish v = (w', .error a) → Turns l w (.finish v) l w'
  | wait {v : Version} : Turns l w (.wait v) (l ++ [⟨0, .await v .bare, none⟩]) w
  | fail {e : Error} :
      Turns l w (.fail e) (l.mapIdx (Fleet.told .dropped (w.fail e).2)) (w.fail e).1
  | ready {t : Nat} {x : Task} {v : Version} :
      l[t]? = some x → x.point = .await v .bare → v ≤ w.doneUntil →
      Turns l w (.goOn t) (l.modify t fun x => { x with point := .ended .done, signal := none }) w
  | refused {t : Nat} {x : Task} {v : Version} {e : Error} :
      l[t]? = some x → x.point = .await v .bare → ¬ v ≤ w.doneUntil → w.failure = some e →
      Turns l w (.goOn t)
        (l.modify t fun x => { x with point := .ended (.failed e), signal := none }) w
  | enqueue {t : Nat} {x : Task} {v : Version} :
      l[t]? = some x → x.point = .await v .bare → ¬ v ≤ w.doneUntil → w.failure = none →
      Turns l w (.goOn t)
        (l.modify t fun x => { x with point := .awaiting v .bare, signal := none })
        (w.enqueue v t)
  | released {t : Nat} {x : Task} {v : Version} :
      l[t]? = some x → x.point = .awaiting v .bare → x.signal = some .released →
      Turns l w (.goOn t) (l.modify t fun x => { x with point := .ended .done, signal := none }) w
  | dropped {t : Nat} {x : Task} {v : Version} :
      l[t]? = some x → x.point = .awaiting v .bare → x.signal = some .dropped →
      Turns l w (.goOn t)
        (l.modify t fun x =>
          { x with point := .ended (.failed w.failureError), signal := none }) w
  | still {t : Nat} :
      (∀ x, l[t]? = some x → x.isHeld ∨ ∃ o, x.point = .ended o) → Turns l w (.goOn t) l w

end Use

/-- Where a task stands that waits for a version on its own account. -/
inductive Point.Bare : Point → Prop where
  | await {v : Version} : Bare (.await v .bare)
  | awaiting {v : Version} : Bare (.awaiting v .bare)
  | ended {o : Outcome} : Bare (.ended o)

/-- On the first node, tasks wait for versions on their own account. -/
def Bare (l : List Task) : Prop :=
  ∀ (t : Nat) (x : Task), l[t]? = some x → x.node = 0 ∧ x.point.Bare

/-- Whoever was told something is held no longer. -/
lemma Task.not_isHeld_of_told {x : Task} {s : Signal} (h : x.signal = some s) : ¬ x.isHeld := by
  rintro ⟨v, q, -, hs⟩
  cases h.symm.trans hs

namespace Bare

variable {l l' : List Task} {w w' : Watermark Nat} {u : Use}

lemma modify (h : Bare l) (t : Nat) {p : Point} (hp : p.Bare) :
    Bare (l.modify t fun x => { x with point := p, signal := none }) := by
  intro s y hy
  rcases modify_cases hy with ⟨-, z, hz, rfl⟩ | ⟨-, hy⟩
  · exact ⟨(h s z hz).1, hp⟩
  · exact h s y hy

lemma told (h : Bare l) (s : Signal) (ts : List Nat) : Bare (l.mapIdx (Fleet.told s ts)) := by
  intro t y hy
  obtain ⟨z, hz, rfl⟩ := Fleet.told_cases hy
  rw [(Fleet.told_point s ts t z).1, (Fleet.told_point s ts t z).2]
  exact h t z hz

lemma turns (h : Bare l) (ht : u.Turns l w l' w') : Bare l' := by
  cases ht with
  | finish _ => exact h.told _ _
  | fail => exact h.told _ _
  | overflow _ => exact h
  | still _ => exact h
  | wait =>
    intro t y hy
    rcases concat_cases hy with hy | ⟨-, rfl⟩
    · exact h t y hy
    · exact ⟨rfl, .await⟩
  | ready _ _ _ => exact h.modify _ .ended
  | refused _ _ _ _ => exact h.modify _ .ended
  | released _ _ _ => exact h.modify _ .ended
  | dropped _ _ _ => exact h.modify _ .ended
  | enqueue _ _ _ _ => exact h.modify _ .awaiting

end Bare

/-! ## The use of a fleet of one node -/

namespace Fleet

variable {f : Fleet}

/-- The watermarks of a fleet whose first node has this one. -/
def soleMark (w : Watermark Nat) : Nat → Watermark Nat :=
  Function.update (fun _ => Watermark.startingAt Version.initial) 0 w

/-- A step of a task that waits on its own account. -/
lemma turns_step (one : f.nodes.length = 1) (bare : Bare f.tasks) (t : Nat) :
    (f.after (.step t)).nodes.length = 1 ∧ (Use.goOn t).Turns f.tasks (f.node 0).mark
      (f.after (.step t)).tasks ((f.after (.step t)).node 0).mark := by
  have fits : 0 < f.nodes.length := by omega
  have ended : ∀ o, ((f.finish t o).node 0).mark = (f.node 0).mark :=
    fun o => congrArg Node.mark (node_congr (finish_fields f t o).2.2.2.2.2.1 0)
  rw [after, step]
  cases hx : f.tasks[t]? with
  | none =>
    refine ⟨one, .still fun x h => ?_⟩
    rw [hx] at h
    cases h
  | some x =>
    obtain ⟨hn, hp⟩ := bare t x hx
    generalize e : x.point = p at hp
    -- A task that waits on its own account has ended, asks for the version, or waits for it.
    cases hp with
    | @ended o =>
      dsimp only
      rw [e]
      refine ⟨one, .still fun y h => .inr ⟨o, ?_⟩⟩
      rw [hx] at h
      cases h
      exact e
    | @await v =>
      dsimp only
      rw [e]
      dsimp only [Option.getD_some, stepAwait]
      rw [hn]
      cases hr : (f.node 0).mark.reply v with
      | ready =>
        dsimp only [afterVersion]
        refine ⟨by simpa using one, ?_⟩
        rw [ended, (finish_fields f t _).2.2.2.2.2.2.2.2]
        exact .ready hx e (Watermark.reply_ready hr)
      | refused err =>
        obtain ⟨hv, hf⟩ := Watermark.reply_refused hr
        refine ⟨by simpa using one, ?_⟩
        rw [ended, (finish_fields f t _).2.2.2.2.2.2.2.2]
        exact .refused hx e hv hf
      | wait =>
        obtain ⟨hv, hf⟩ := Watermark.reply_wait hr
        refine ⟨by simpa using one, ?_⟩
        have mark : (((f.onNode 0 fun x => { x with mark := x.mark.enqueue v t }).moveTo t
            (.awaiting v .bare)).node 0).mark = (f.node 0).mark.enqueue v t := by
          rw [node_modify (f := f) (n := 0) (by simp; rfl) fits, if_pos rfl]
        rw [mark, (moveTo_fields _ t _).2.2.2.2.2.2.2.2]
        exact .enqueue hx e hv hf
    | @awaiting v =>
      dsimp only
      rw [e]
      dsimp only
      cases hs : x.signal with
      | none =>
        refine ⟨one, .still fun y h => .inl ?_⟩
        rw [hx] at h
        cases h
        exact ⟨v, .bare, e, hs⟩
      | some s =>
        cases s with
        | released =>
          dsimp only [stepAwaiting, Option.getD_some, afterVersion]
          refine ⟨by simpa using one, ?_⟩
          rw [ended, (finish_fields f t _).2.2.2.2.2.2.2.2]
          exact .released hx e hs
        | dropped =>
          dsimp only [stepAwaiting, Option.getD_some]
          rw [hn]
          refine ⟨by simpa using one, ?_⟩
          rw [ended, (finish_fields f t _).2.2.2.2.2.2.2.2]
          exact .dropped hx e hs

/-- A use of the watermark of a fleet of one node. -/
lemma turns (one : f.nodes.length = 1) (bare : Bare f.tasks) (u : Use) :
    (f.after u.move).nodes.length = 1 ∧ u.Turns f.tasks (f.node 0).mark
      (f.after u.move).tasks ((f.after u.move).node 0).mark := by
  have fits : 0 < f.nodes.length := by omega
  -- Requests to the node come through.
  have asked : ∀ r : Request, r.isDelivery = false →
      f.after (.request 0 Config.unset.skew r) = (Session.start f Config.unset.skew 0 r).1 :=
    fun r hr => if_pos ⟨fits, hr⟩
  have marked : ∀ (w : Watermark Nat) (s : Signal) (ts : List Nat),
      (((f.onNode 0 fun x => { x with mark := w }).tell s ts).node 0).mark = w := by
    intro w s ts
    rw [node_modify (f := f) (n := 0) (by simp; rfl) fits, if_pos rfl]
  cases u with
  | goOn t => exact turns_step one bare t
  | wait v =>
    rw [Use.move, asked _ rfl]
    exact ⟨one, .wait⟩
  | fail e =>
    rw [Use.move, asked _ rfl]
    refine ⟨by simpa [Session.start, Session.carriedOut, failMark] using one, ?_⟩
    have mark := marked ((f.node 0).mark.fail e).1 .dropped ((f.node 0).mark.fail e).2
    have tasks := (tell_fields (f.onNode 0 fun x => { x with mark := ((f.node 0).mark.fail e).1 })
      .dropped ((f.node 0).mark.fail e).2).2.2.2.2.2.2.2.1
    rw [Session.start, Session.carriedOut, failMark]
    dsimp only
    rw [mark, tasks]
    exact .fail
  | finish v =>
    rw [Use.move, asked _ rfl, Session.start, finishVersion]
    cases hf : (f.node 0).mark.finish v with
    | mk w o =>
      cases o with
      | ok ts =>
        refine ⟨by simpa [Session.carriedOut] using one, ?_⟩
        have tasks := (tell_fields (f.onNode 0 fun x => { x with mark := w })
          .released ts).2.2.2.2.2.2.2.1
        dsimp only [Session.carriedOut]
        rw [marked w .released ts, tasks]
        exact .finish hf
      | error a =>
        refine ⟨by simpa [Session.carriedOut] using one, ?_⟩
        have mark : ((f.onNode 0 fun x => { x with mark := w }).node 0).mark = w := by
          rw [node_modify (f := f) (n := 0) rfl fits, if_pos rfl]
        dsimp only [Session.carriedOut]
        rw [mark]
        exact .overflow hf

end Fleet

/-! ## Watches -/

/-- Uses of one watermark in order, which begins at a version. Nobody marks the last version. -/
structure Watch where
  initial : Version
  uses : Nat → Use
  short : ∀ i, uses i ≠ .finish ⟨Word64.greatest⟩

namespace Watch

/-- Some uses, after which nothing is done any more. -/
def ofUses (v : Version) (us : List Use) (short : ∀ u ∈ us, u ≠ .finish ⟨Word64.greatest⟩) :
    Watch where
  initial := v
  uses i := us.getD i (.goOn us.length)
  short i := by
    rw [List.getD_eq_getElem?_getD]
    cases hu : us[i]? with
    | none => exact nofun
    | some u => exact short u (List.mem_of_getElem? hu)

/-- The fleet with the watermark after so many uses. -/
def fleet (k : Watch) (i : Nat) : Fleet :=
  (Session.markedNode k.initial).trace (fun j => (k.uses j).move) i

/-- The watermark after so many uses. -/
def mark (k : Watch) (i : Nat) : Watermark Nat := ((k.fleet i).node 0).mark

variable (k : Watch) {i j : Nat}

lemma fleet_succ (i : Nat) : k.fleet (i + 1) = (k.fleet i).after (k.uses i).move := rfl

lemma tasks_zero : (k.fleet 0).tasks = [] := rfl

/-- There is one node, on which all tasks wait on their own account. -/
lemma alone (i : Nat) : (k.fleet i).nodes.length = 1 ∧ Bare (k.fleet i).tasks := by
  induction i with
  | zero =>
    refine ⟨rfl, fun t x hx => ?_⟩
    rw [tasks_zero, List.getElem?_nil] at hx
    cases hx
  | succ i ih =>
    obtain ⟨one, turns⟩ := Fleet.turns ih.1 ih.2 (k.uses i)
    exact ⟨one, ih.2.turns turns⟩

/-- What the next use makes of the tasks and the watermark. -/
lemma turns (i : Nat) : (k.uses i).Turns (k.fleet i).tasks (k.mark i)
    (k.fleet (i + 1)).tasks (k.mark (i + 1)) :=
  (Fleet.turns (k.alone i).1 (k.alone i).2 (k.uses i)).2

/-- Those who wait are listed as they should be. -/
lemma waiting (i : Nat) : Waits (k.fleet i).tasks (Fleet.soleMark (k.mark i)) := by
  induction i with
  | zero =>
    -- In the beginning nobody waits, as there are no tasks.
    have nobody : ∀ n, (Fleet.soleMark (k.mark 0) n).waiters = NatMap.empty := by
      intro n
      rw [Fleet.soleMark, Function.update_apply]
      split <;> rfl
    have nothing : ∀ (t : Nat) (x : Task), (k.fleet 0).tasks[t]? ≠ some x := by
      intro t x
      rw [tasks_zero, List.getElem?_nil]
      exact nofun
    exact
      { listed := fun n v t l h => by
          rw [nobody] at h
          cases h
        released := fun t x _ _ h => (nothing t x h).elim
        held := fun t x _ _ h => (nothing t x h).elim
        dropped := fun t x _ _ h => (nothing t x h).elim
        beyond := fun n v l h => by
          rw [nobody] at h
          cases h }
  | succ i ih =>
    -- There is one node only, so what its watermark becomes is all that changes.
    have sole : ∀ w, Function.update (Fleet.soleMark (k.mark i)) 0 w = Fleet.soleMark w :=
      fun _ => Function.update_idem ..
    have here : Fleet.soleMark (k.mark i) 0 = k.mark i := Function.update_self ..
    have bare := (k.alone i).2
    have turns := k.turns i
    generalize k.uses i = u, (k.fleet (i + 1)).tasks = l', k.mark (i + 1) = w' at turns
    cases turns with
    | finish hf =>
      rw [← sole]
      exact ih.finish (here.symm ▸ hf)
    | overflow hf =>
      rw [← sole]
      exact ih.overflow (here.symm ▸ hf)
    | wait => exact ih.append rfl
    | @fail e =>
      have told := ih.fail (n := 0) e
      rw [here, sole] at told
      exact told
    | ready hx hp _ => exact ih.modify hx (Fleet.not_isHeld hp rfl) rfl
    | refused hx hp _ _ => exact ih.modify hx (Fleet.not_isHeld hp rfl) rfl
    | @enqueue t x v hx hp hv hf =>
      have node := (bare t x hx).1
      have reply : (Fleet.soleMark (k.mark i) x.node).reply v = .wait := by
        rw [node, here, Watermark.reply, if_neg hv, hf]
      have listed := ih.enqueue (q := .bare) hx (Fleet.not_isHeld hp rfl) reply
      rw [node, here, sole] at listed
      exact listed
    | released hx hp hs =>
      exact ih.modify hx (Task.not_isHeld_of_told hs) rfl
    | dropped hx hp hs =>
      exact ih.modify hx (Task.not_isHeld_of_told hs) rfl
    | still _ => exact ih

end Watch

end SchemaCatalog
