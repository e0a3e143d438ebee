import Mathlib.Logic.Function.Basic
import SchemaCatalog.Proofs.Fleet.Origin
import SchemaCatalog.Proofs.Fleet.Replay

/-!
# Those who wait

Whoever is listed as waiting for a version of a node stands there and was told nothing yet, and
whoever was told that the version is done was told so by a watermark that has reached it. The
invariant is one of the tasks and the watermarks, so it is proved for lists of tasks and families of
watermarks, and then for each effect.
-/

namespace SchemaCatalog

/-- The tasks listed as waiting stand where they are listed, and whoever waits and was told nothing
is listed, for a version that is not done, on a watermark that has not failed. Those released wait
for versions that are done, and those dropped on a watermark that has failed. -/
structure Waits (tasks : List Task) (marks : Nat → Watermark Nat) : Prop where
  listed : ∀ (n v t : Nat) (l : List Nat), (marks n).waiters.get? v = some l → t ∈ l →
    ∃ x w q, tasks[t]? = some x ∧ x.node = n ∧ x.point = .awaiting w q ∧ w.number.val = v ∧
      x.signal = none
  released : ∀ (t : Nat) (x : Task) (w : Version) (q : Purpose), tasks[t]? = some x →
    x.point = .awaiting w q → x.signal = some .released → w ≤ (marks x.node).doneUntil
  held : ∀ (t : Nat) (x : Task) (w : Version) (q : Purpose), tasks[t]? = some x →
    x.point = .awaiting w q → x.signal = none →
    ∃ l, (marks x.node).waiters.get? w.number.val = some l ∧ t ∈ l
  dropped : ∀ (t : Nat) (x : Task) (w : Version) (q : Purpose), tasks[t]? = some x →
    x.point = .awaiting w q → x.signal = some .dropped → ∃ e, (marks x.node).failure = some e
  beyond : ∀ (n v : Nat) (l : List Nat), (marks n).waiters.get? v = some l →
    (marks n).doneUntil.number.val < v ∧ (marks n).failure = none

/-- Whether a task at this point is among those who wait for a version. -/
def Point.waits : Point → Bool
  | .awaiting .. => true
  | _ => false

lemma Point.waits_of_isFree {p : Point} (h : p.isFree = true) : p.waits = false := by
  cases p with
  | awaiting v q => cases h
  | _ => rfl

/-- Whether a task waits and was told nothing yet. -/
def Task.isHeld (x : Task) : Prop := ∃ w q, x.point = .awaiting w q ∧ x.signal = none

namespace Waits

variable {tasks : List Task} {marks : Nat → Watermark Nat} {t n : Nat} {x : Task} {p : Point}

/-- Whoever is listed stays so when a task goes on that is not held. -/
lemma listed_modify (h : Waits tasks marks) (hx : tasks[t]? = some x) (hh : ¬ x.isHeld)
    {k : Task → Task} {v s : Nat} {l : List Nat} (hl : (marks n).waiters.get? v = some l)
    (hs : s ∈ l) :
    ∃ y w q, (tasks.modify t k)[s]? = some y ∧ y.node = n ∧ y.point = .awaiting w q ∧
      w.number.val = v ∧ y.signal = none := by
  obtain ⟨y, w, q, hy, hn, hp, hw, hsig⟩ := h.listed n v s l hl hs
  have ne : t ≠ s := by
    rintro rfl
    cases hx.symm.trans hy
    exact hh ⟨w, q, hp, hsig⟩
  exact ⟨y, w, q, (List.getElem?_modify_ne _ _ ne).trans hy, hn, hp, hw, hsig⟩

/-- Whoever waits is listed at the version and the node for which it does. -/
lemma place (h : Waits tasks marks) (hx : tasks[t]? = some x) {w : Version} {q : Purpose}
    (hp : x.point = .awaiting w q) {v : Nat} {l : List Nat}
    (hl : (marks n).waiters.get? v = some l) (ht : t ∈ l) : x.node = n ∧ w.number.val = v := by
  obtain ⟨y, w', q', hy, hn, hp', hw, -⟩ := h.listed n v t l hl ht
  cases hx.symm.trans hy
  cases hp.symm.trans hp'
  exact ⟨hn, hw⟩

/-- A task that is not held goes to a point at which it does not wait. -/
lemma modify (h : Waits tasks marks) (hx : tasks[t]? = some x) (hh : ¬ x.isHeld)
    (hp : p.waits = false) :
    Waits (tasks.modify t fun x => { x with point := p, signal := none }) marks where
  listed n v s l hl hs := h.listed_modify hx hh hl hs
  released s y w q hy hp hs := by
    rcases modify_cases hy with ⟨-, z, -, rfl⟩ | ⟨-, hy⟩
    · cases hs
    · exact h.released s y w q hy hp hs
  held s y w q hy hpt hs := by
    rcases modify_cases hy with ⟨-, z, -, rfl⟩ | ⟨-, hy⟩
    · cases hpt
      cases hp
    · exact h.held s y w q hy hpt hs
  dropped s y w q hy hp hs := by
    rcases modify_cases hy with ⟨-, z, -, rfl⟩ | ⟨-, hy⟩
    · cases hs
    · exact h.dropped s y w q hy hp hs
  beyond := h.beyond

/-- A new task waits for nothing. -/
lemma append (h : Waits tasks marks) (hp : p.waits = false) :
    Waits (tasks ++ [⟨n, p, none⟩]) marks where
  listed n v s l hl hs := by
    obtain ⟨y, w, q, hy, hrest⟩ := h.listed n v s l hl hs
    exact ⟨y, w, q, getElem?_concat hy _, hrest⟩
  released s y w q hy hp hs := by
    rcases concat_cases hy with hy | ⟨-, rfl⟩
    · exact h.released s y w q hy hp hs
    · cases hs
  held s y w q hy hpt hs := by
    rcases concat_cases hy with hy | ⟨-, rfl⟩
    · exact h.held s y w q hy hpt hs
    · cases hpt
      cases hp
  dropped s y w q hy hp hs := by
    rcases concat_cases hy with hy | ⟨-, rfl⟩
    · exact h.dropped s y w q hy hp hs
    · cases hs
  beyond := h.beyond

/-! One watermark goes on, and the others stay as they are. -/

lemma le_update {w' : Watermark Nat} (le : (marks n).doneUntil ≤ w'.doneUntil) (m : Nat) :
    (marks m).doneUntil ≤ (Function.update marks n w' m).doneUntil := by
  by_cases e : m = n
  · subst e
    rw [Function.update_self]
    exact le
  · rw [Function.update_of_ne e]
    exact Nat.le_refl _

lemma failure_update {w' : Watermark Nat}
    (failure : ∀ e, (marks n).failure = some e → w'.failure = some e) {m : Nat} {e : Error}
    (he : (marks m).failure = some e) : (Function.update marks n w' m).failure = some e := by
  by_cases en : m = n
  · subst en
    rw [Function.update_self]
    exact failure e he
  · rw [Function.update_of_ne en]
    exact he

lemma beyond_update {w' : Watermark Nat} (h : Waits tasks marks)
    (beyond : ∀ v l, w'.waiters.get? v = some l →
      w'.doneUntil.number.val < v ∧ w'.failure = none) (m v : Nat) (l : List Nat)
    (hl : (Function.update marks n w' m).waiters.get? v = some l) :
    (Function.update marks n w' m).doneUntil.number.val < v ∧
      (Function.update marks n w' m).failure = none := by
  by_cases e : m = n
  · subst e
    rw [Function.update_self] at hl ⊢
    exact beyond v l hl
  · rw [Function.update_of_ne e] at hl ⊢
    exact h.beyond m v l hl

/-- A task that goes to wait is listed. -/
lemma enqueue {v : Version} {q : Purpose} (h : Waits tasks marks) (hx : tasks[t]? = some x)
    (hh : ¬ x.isHeld) (hr : (marks x.node).reply v = .wait) :
    Waits (tasks.modify t fun x => { x with point := .awaiting v q, signal := none })
      (Function.update marks x.node ((marks x.node).enqueue v t)) where
  listed n v' s l hl hs := by
    by_cases e : n = x.node
    · subst e
      rw [Function.update_self] at hl
      rcases Watermark.listed_enqueue.1 ⟨l, hl, hs⟩ with ⟨l', hl', hs'⟩ | ⟨ev, rfl⟩
      · exact h.listed_modify hx hh hl' hs'
      · exact ⟨{ x with point := .awaiting v q, signal := none }, v, q,
          by simp [hx], rfl, rfl, ev.symm, rfl⟩
    · rw [Function.update_of_ne e] at hl
      exact h.listed_modify hx hh hl hs
  released s y w q' hy hp hs := by
    rcases modify_cases hy with ⟨-, z, -, rfl⟩ | ⟨-, hy⟩
    · cases hs
    · refine Nat.le_trans (h.released s y w q' hy hp hs) (le_update ?_ y.node)
      exact Nat.le_refl (marks x.node).doneUntil.number.val
  held s y w q' hy hp hs := by
    rcases modify_cases hy with ⟨rfl, z, hz, rfl⟩ | ⟨-, hy⟩
    · cases hx.symm.trans hz
      cases hp
      rw [Function.update_self]
      exact Watermark.listed_enqueue.2 (.inr ⟨rfl, rfl⟩)
    · have old := h.held s y w q' hy hp hs
      by_cases e : y.node = x.node
      · rw [e] at old ⊢
        rw [Function.update_self]
        exact Watermark.listed_enqueue.2 (.inl old)
      · rw [Function.update_of_ne e]
        exact old
  dropped s y w q' hy hp hs := by
    rcases modify_cases hy with ⟨-, z, -, rfl⟩ | ⟨-, hy⟩
    · cases hs
    · obtain ⟨e, he⟩ := h.dropped s y w q' hy hp hs
      refine ⟨e, failure_update (fun _ hn => ?_) he⟩
      exact hn
  beyond := by
    refine h.beyond_update fun v' l hl => ?_
    rw [Watermark.enqueue, NatMap.get?_insert] at hl
    split at hl
    · rename_i ev
      obtain ⟨hv, hf⟩ := Watermark.reply_wait hr
      rw [ev]
      exact ⟨Nat.not_le.1 hv, hf⟩
    · exact h.beyond x.node v' l hl

/-- Some who are listed on a node are told something, and are listed no longer. -/
lemma tell {w' : Watermark Nat} {s : Signal} {ids : List Nat} (h : Waits tasks marks)
    (kept : ∀ v l, w'.waiters.get? v = some l → (marks n).waiters.get? v = some l)
    (le : (marks n).doneUntil ≤ w'.doneUntil)
    (listed : ∀ i ∈ ids, ∃ v l, (marks n).waiters.get? v = some l ∧ i ∈ l ∧
      (s = .released → v ≤ w'.doneUntil.number.val) ∧ w'.waiters.get? v = none)
    (stays : ∀ v l i, (marks n).waiters.get? v = some l → i ∈ l →
      i ∈ ids ∨ w'.waiters.get? v = some l)
    (fails : ∀ i ∈ ids, s = .dropped → ∃ e, w'.failure = some e)
    (failure : ∀ e, (marks n).failure = some e → w'.failure = some e)
    (beyond : ∀ v l, w'.waiters.get? v = some l →
      w'.doneUntil.number.val < v ∧ w'.failure = none) :
    Waits (tasks.mapIdx (Fleet.told s ids)) (Function.update marks n w') where
  listed m v t l hl ht := by
    have was : (marks m).waiters.get? v = some l := by
      by_cases e : m = n
      · subst e
        rw [Function.update_self] at hl
        exact kept v l hl
      · rwa [Function.update_of_ne e] at hl
    obtain ⟨x, a, q, hx, hn, hp, ha, hs⟩ := h.listed m v t l was ht
    -- A task waits for one version of one node, and those told wait for other ones.
    have untold : t ∉ ids := by
      intro hi
      obtain ⟨v', l', hl', ht', -, hnone⟩ := listed t hi
      obtain ⟨hn', ha'⟩ := h.place hx hp hl' ht'
      rw [← hn, hn', Function.update_self, ← ha, ha', hnone] at hl
      cases hl
    refine ⟨x, a, q, ?_, hn, hp, ha, hs⟩
    rw [Fleet.getElem?_told hx, Fleet.told_of_not_mem untold]
  released t y a q hy hp hs := by
    obtain ⟨z, hz, rfl⟩ := Fleet.told_cases hy
    by_cases hi : t ∈ ids
    · rw [Fleet.told_of_mem hi] at hp hs ⊢
      cases hs
      obtain ⟨v, l, hl, ht, hle, -⟩ := listed t hi
      obtain ⟨hn, ha⟩ := h.place hz hp hl ht
      change a ≤ (Function.update marks n w' z.node).doneUntil
      rw [hn, Function.update_self, Version.le_def, ha]
      exact hle rfl
    · rw [Fleet.told_of_not_mem hi] at hp hs ⊢
      exact Nat.le_trans (h.released t z a q hz hp hs) (le_update le z.node)
  held t y a q hy hp hs := by
    obtain ⟨z, hz, rfl⟩ := Fleet.told_cases hy
    by_cases hi : t ∈ ids
    · rw [Fleet.told_of_mem hi] at hs
      cases hs
    · rw [Fleet.told_of_not_mem hi] at hp hs ⊢
      obtain ⟨l, hl, htl⟩ := h.held t z a q hz hp hs
      by_cases e : z.node = n
      · rw [e] at hl ⊢
        rw [Function.update_self]
        exact ⟨l, (stays _ l t hl htl).resolve_left hi, htl⟩
      · rw [Function.update_of_ne e]
        exact ⟨l, hl, htl⟩
  dropped t y a q hy hp hs := by
    obtain ⟨z, hz, rfl⟩ := Fleet.told_cases hy
    by_cases hi : t ∈ ids
    · rw [Fleet.told_of_mem hi] at hp hs ⊢
      cases hs
      obtain ⟨v, l, hl, ht, -⟩ := listed t hi
      obtain ⟨hn, -⟩ := h.place hz hp hl ht
      change ∃ e, (Function.update marks n w' z.node).failure = some e
      rw [hn, Function.update_self]
      exact fails t hi rfl
    · rw [Fleet.told_of_not_mem hi] at hp hs ⊢
      obtain ⟨e, he⟩ := h.dropped t z a q hz hp hs
      exact ⟨e, failure_update failure he⟩
  beyond := h.beyond_update beyond

/-- The release of those who wait for versions that are now done. -/
lemma finish {v : Version} {w' : Watermark Nat} {ids : List Nat} (h : Waits tasks marks)
    (hf : (marks n).finish v = (w', .ok ids)) :
    Waits (tasks.mapIdx (Fleet.told .released ids)) (Function.update marks n w') := by
  refine h.tell (fun v l hl => Watermark.finish_waiters hf hl) (Watermark.le_finish hf) ?_
    (fun v l i hl hi => Watermark.finish_waiting hf hl hi) nofun ?_ fun v l hl => ?_
  · intro i hi
    obtain ⟨m, l, hl, hil, hm⟩ := Watermark.finish_released hf hi
    refine ⟨m, l, hl, hil, fun _ => hm, ?_⟩
    cases hw : w'.waiters.get? m with
    | none => rfl
    | some l' =>
      rcases Watermark.finish_disjoint hf hw with e | hlt
      · rw [e] at hi
        cases hi
      · omega
  · intro e he
    rw [Watermark.finish_failure hf]
    exact he
  · obtain ⟨hb, he⟩ := h.beyond n v l (Watermark.finish_waiters hf hl)
    exact ⟨Watermark.finish_beyond hf hl hb, (Watermark.finish_failure hf).trans he⟩

/-- A watermark that cannot rise releases nobody. -/
lemma overflow {v : Version} {w' : Watermark Nat} {a : Abort} (h : Waits tasks marks)
    (hf : (marks n).finish v = (w', .error a)) : Waits tasks (Function.update marks n w') := by
  obtain ⟨waiters, -⟩ := Watermark.finish_error hf
  have none : Waits (tasks.mapIdx (Fleet.told .dropped [])) (Function.update marks n w') := by
    refine h.tell (fun v l hl => Watermark.finish_waiters hf hl) (Watermark.le_finish hf) nofun
      (fun v l i hl hi => .inr (waiters ▸ hl)) nofun ?_ fun v l hl => ?_
    · intro e he
      rw [Watermark.finish_failure hf]
      exact he
    · obtain ⟨hb, he⟩ := h.beyond n v l (waiters ▸ hl)
      exact ⟨Watermark.finish_beyond hf hl hb, (Watermark.finish_failure hf).trans he⟩
  have same : tasks.mapIdx (Fleet.told .dropped []) = tasks := by
    apply List.ext_getElem?
    intro i
    rw [List.getElem?_mapIdx]
    cases tasks[i]? <;> rfl
  rw [same] at none
  exact none

/-- The dropping of all who wait. -/
lemma fail (h : Waits tasks marks) (e : Error) :
    Waits (tasks.mapIdx (Fleet.told .dropped ((marks n).fail e).2))
      (Function.update marks n ((marks n).fail e).1) := by
  refine h.tell (fun v l hl => nomatch hl) (Nat.le_refl _) ?_ ?_ (fun _ _ _ => ⟨_, rfl⟩)
    (fun _ => Watermark.fail_failure) fun v l hl => nomatch hl
  · intro i hi
    obtain ⟨v, l, hl, hil⟩ := Watermark.fail_dropped hi
    exact ⟨v, l, hl, hil, nofun, rfl⟩
  · intro v l i hl hi
    exact .inl (List.mem_flatten.2 ⟨l, NatMap.mem_values.2 ⟨v, hl⟩, hi⟩)

end Waits

namespace Fleet

/-- The watermarks of the nodes. -/
def marks (f : Fleet) (n : Nat) : Watermark Nat := (f.node n).mark

/-- Those who wait in a fleet. -/
def Waiting (f : Fleet) : Prop := Waits f.tasks f.marks

section

variable {f g k : Fleet} {m : Move} {t n : Nat} {x : Task} {p : Point}

lemma marks_modify {y : Node → Node} (h : g.nodes = f.nodes.modify n y) (hn : n < f.nodes.length) :
    g.marks = Function.update f.marks n (y (f.node n)).mark := by
  funext j
  rw [marks, node_modify h hn j]
  by_cases e : j = n
  · rw [if_pos e, e, Function.update_self]
  · rw [if_neg e, Function.update_of_ne e]
    rfl

lemma marks_keep {y : Node → Node} (h : g.nodes = f.nodes.modify n y)
    (hy : ∀ z, (y z).mark = z.mark) : g.marks = f.marks :=
  funext fun j => proj_modify h Node.mark hy j

lemma marks_alike {nodes : List Node} (h : f.Alike nodes) :
    ({ f with nodes := nodes } : Fleet).marks = f.marks :=
  funext fun j => (h.2 j).mark

lemma marks_handed {u : Update} {c : Timestamp} {i : Token} {z : Node}
    (h : (f.node n).handle u c i = .ok z) :
    ({ f with nodes := f.nodes.modify n fun _ => z } : Fleet).marks = f.marks := by
  by_cases hn : n < f.nodes.length
  · obtain ⟨history, notice, -, rfl⟩ := Node.handle_ok h
    rw [marks_modify (f := f) rfl hn]
    simp only [Node.notify_fields]
    exact Function.update_eq_self n f.marks
  · rw [List.modify_eq_self (Nat.not_lt.1 hn)]

lemma not_isHeld {q : Point} (e : x.point = q) (h : q.waits = false) : ¬ x.isHeld := by
  rintro ⟨v, o, hp, -⟩
  rw [← e, hp] at h
  cases h

lemma not_isHeld_of_isFree (h : x.isFree) : ¬ x.isHeld := by
  rintro ⟨v, o, hp, hs⟩
  rcases h with h | ⟨v', o', s, -, hs'⟩
  · rw [hp] at h
    cases h
  · rw [hs] at hs'
    cases hs'

lemma not_isHeld_told {s : Signal} {ts : List Nat} (h : ¬ x.isHeld) : ¬ (told s ts t x).isHeld := by
  unfold told
  split
  · rintro ⟨v, o, -, hs⟩
    cases hs
  · exact h

/-- A step that moves a task which is not held, and does nothing to a watermark. -/
lemma Waiting.moved (h : f.Waiting) (hx : f.tasks[t]? = some x) (hh : ¬ x.isHeld)
    (hp : p.waits = false)
    (ht : g.tasks = f.tasks.modify t fun x => { x with point := p, signal := none })
    (hm : g.marks = f.marks) : g.Waiting := by
  rw [Waiting, ht, hm]
  exact h.modify hx hh hp

/-- A step that tells tasks something and moves one which is not held. -/
lemma Waiting.toldMoved {s : Signal} {ts : List Nat} {w : Watermark Nat}
    (h : Waits (f.tasks.mapIdx (told s ts)) (Function.update f.marks n w))
    (hx : f.tasks[t]? = some x) (hh : ¬ x.isHeld) (hp : p.waits = false) (hn : n < f.nodes.length)
    (ht : g.tasks = (f.tasks.mapIdx (told s ts)).modify t
      fun x => { x with point := p, signal := none })
    {y : Node → Node} (hg : g.nodes = f.nodes.modify n y) (hy : (y (f.node n)).mark = w) :
    g.Waiting := by
  rw [Waiting, ht, marks_modify hg hn, hy]
  exact h.modify (getElem?_told hx) (not_isHeld_told hh) hp

/-- A step that starts another task, and moves one which is not held. -/
lemma Waiting.spawned {q : Point} (h : f.Waiting) (hx : f.tasks[t]? = some x) (hh : ¬ x.isHeld)
    (hp : p.waits = false) (hq : q.waits = false)
    (ht : g.tasks = (f.tasks ++ [(⟨n, q, none⟩ : Task)]).modify t
      fun x => { x with point := p, signal := none })
    (hm : g.marks = f.marks) : g.Waiting := by
  obtain ⟨hlt, -⟩ := List.getElem?_eq_some_iff.1 hx
  rw [Waiting, ht, hm]
  refine (h.append hq).modify ?_ hh hp
  rw [List.getElem?_append_left hlt, hx]

lemma waiting_of_effect (hp : f.Plain) (ht : f.Tracks) (h : f.Waiting) (hx : f.tasks[t]? = some x)
    (ho : x.outcome? = none) (he : f.Effect t x k) : k.Waiting := by
  have hn := hp.placed t x hx
  -- A task comes to be held by enqueueing only, and those held are told when a version is done or
  -- the watermark fails. In all other effects a task moves between points that do not wait.
  cases he with
  | idle _ => exact h
  | still hfree hpf _ _ ha =>
    exact h.moved hx (not_isHeld_of_isFree hfree) (Point.waits_of_isFree hpf) rfl (marks_alike ha)
  | draft hd _ _ _ _ => exact h.moved hx (not_isHeld hd rfl) rfl rfl rfl
  | append _ hu ho ha =>
    refine h.moved hx (not_isHeld rfl ?_) ?_ rfl (marks_alike ha)
    · rcases Point.offer?_cases hu with ⟨st, a, e⟩ | e
      all_goals rw [e]; rfl
    · rcases ho with e | e
      all_goals rw [e]; rfl
  | enqueue hq hr =>
    rw [Waiting, marks_modify (f := f) rfl hn]
    exact h.enqueue hx (not_isHeld hq rfl) hr
  | start hs _ hpf _ _ =>
    exact h.spawned hx (not_isHeld hs rfl) (Point.waits_of_isFree hpf) rfl rfl
      (marks_keep (f := f) rfl fun _ => rfl)
  | beginDelivery hfree _ _ _ hpf _ =>
    exact h.spawned hx (not_isHeld rfl (Point.waits_of_isFree hfree)) (Point.waits_of_isFree hpf)
      rfl rfl rfl
  | detach hfree _ hpf _ =>
    exact h.moved hx (not_isHeld rfl (Point.waits_of_isFree hfree)) (Point.waits_of_isFree hpf)
      rfl rfl
  | release hr hpf _ =>
    exact h.moved hx (not_isHeld hr rfl) (Point.waits_of_isFree hpf) rfl
      (marks_keep (f := f) rfl fun _ => rfl)
  | closeMark hc => exact Waiting.toldMoved (h.fail _) hx (not_isHeld hc rfl) rfl hn rfl rfl rfl
  | hand _ _ _ _ _ hz =>
    have hm := marks_handed hz
    rw [Waiting]
    exact hm ▸ h
  | note _ _ _ _ => exact h
  | @halt _ n _ _ _ err hd hy hq hr _ =>
    obtain ⟨j, i, z, w⟩ := ht.front hx ho hd hy hq hr
    have told := h.fail (n := n) err
    exact Waiting.toldMoved told hx (not_isHeld hd rfl) rfl w.reached.lt rfl rfl rfl
  | haltRecorder hd _ _ _ => exact h.moved hx (not_isHeld hd rfl) rfl rfl rfl
  | endDelivery hd _ => exact h.moved hx (not_isHeld hd rfl) rfl rfl rfl
  | takeNotice hd _ _ =>
    exact h.moved hx (not_isHeld hd rfl) rfl rfl (marks_keep (f := f) rfl fun _ => rfl)
  | endDispatch hd _ => exact h.moved hx (not_isHeld hd rfl) rfl rfl rfl
  | call hd => exact h.moved hx (not_isHeld hd rfl) rfl rfl rfl
  | wait hd => exact h.moved hx (not_isHeld hd rfl) rfl rfl rfl
  | called hd ha => exact h.moved hx (not_isHeld hd rfl) rfl rfl (marks_alike ha)
  | done hd hm => exact Waiting.toldMoved (h.finish hm) hx (not_isHeld hd rfl) rfl hn rfl rfl rfl
  | overflow hd hm =>
    have told := h.overflow (n := x.node) hm
    rw [Waiting, marks_modify (f := f) rfl hn]
    exact told.modify hx (not_isHeld hd rfl) rfl

/-- A move keeps those who wait. -/
theorem waiting_of_change (hp : f.Plain) (ht : f.Tracks) (h : f.Waiting) (hc : f.Change m k) :
    k.Waiting := by
  cases hc with
  | step hx ho he => exact waiting_of_effect hp ht h hx ho he
  | stuck _ => exact h
  | still _ ha =>
    have hm := marks_alike ha
    rw [Waiting]
    exact hm ▸ h
  | turn => exact h
  | spawn _ hpf _ => exact h.append (Point.waits_of_isFree hpf)
  | register _ _ => exact h
  | @join _ c link _ _ =>
    have hm : (Session.addNode f c link).marks = f.marks := by
      funext n
      rw [marks, node_addNode]
      split
      · rename_i e
        rw [marks, e, node_of_le (Nat.le_refl _)]
        rfl
      · rfl
    rw [Waiting, hm]
    exact h
  | markDone hn hm =>
    rw [Waiting, marks_modify (f := f) rfl hn]
    exact h.finish hm
  | overflow hn hm =>
    rw [Waiting, marks_modify (f := f) rfl hn]
    exact h.overflow hm
  | failMark hn =>
    rw [Waiting, marks_modify (f := f) rfl hn]
    exact h.fail _

lemma Waiting.congr (h : f.Waiting) (e : g.core = f.core) : g.Waiting := by
  obtain ⟨-, -, -, -, -, nodes, tasks⟩ := core_inj e
  have hm : g.marks = f.marks := funext fun n => congrArg Node.mark (node_congr nodes n)
  rw [Waiting, tasks, hm]
  exact h

lemma waiting_ofClock (c : Clock) : (ofClock c).Waiting where
  listed _ _ _ _ h := nomatch h
  released _ _ _ _ h := nomatch h
  held _ _ _ _ h := nomatch h
  dropped _ _ _ _ h := nomatch h
  beyond _ _ _ h := nomatch h

end

end Fleet

end SchemaCatalog
