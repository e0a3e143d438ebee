import SchemaCatalog.Proofs.Watch.Height

/-!
# What becomes of a wait

A wait begins when the task that was started for it is looked at for the first time. It is decided
at once, or it is held, and then the first use that carries the watermark up to its version or lets
the watermark fail decides it (`Held.turns`). What is decided stays so, whether the task has taken
notice of it or not (`Settled.turns`). Whoever is held can be told from the uses alone
(`Watch.pends_iff`).
-/

namespace SchemaCatalog

/-- A task waits for a version and was told nothing yet. -/
def Held (l : List Task) (t : Nat) (v : Version) : Prop :=
  l[t]? = some ⟨0, .awaiting v .bare, none⟩

/-- What a task is going to leave behind, or has left behind. -/
inductive Settled (l : List Task) (w : Watermark Nat) (t : Nat) : Outcome → Prop where
  | ended {x : Task} {o : Outcome} : l[t]? = some x → x.point = .ended o → Settled l w t o
  | released {x : Task} {v : Version} :
      l[t]? = some x → x.point = .awaiting v .bare → x.signal = some .released →
      Settled l w t .done
  | dropped {x : Task} {v : Version} {e : Error} :
      l[t]? = some x → x.point = .awaiting v .bare → x.signal = some .dropped →
      w.failure = some e → Settled l w t (.failed e)

section

variable {l l' : List Task} {w w' : Watermark Nat} {u : Use} {t : Nat} {x : Task} {v : Version}
  {o : Outcome} {e : Error}

/-! ## Who is told -/

lemma Waits.sole_listed (h : Waits l (Fleet.soleMark w)) {n : Nat} {ts : List Nat}
    (hn : w.waiters.get? n = some ts) (ht : t ∈ ts) :
    ∃ v q, l[t]? = some ⟨0, .awaiting v q, none⟩ ∧ v.number.val = n := by
  have here : Fleet.soleMark w 0 = w := Function.update_self ..
  obtain ⟨⟨node, point, signal⟩, v, q, hx, rfl, rfl, hv, rfl⟩ :=
    h.listed 0 n t ts (here.symm ▸ hn) ht
  exact ⟨v, q, hx, hv⟩

lemma Held.listed (h : Waits l (Fleet.soleMark w)) (ht : Held l t v) :
    ∃ ts, w.waiters.get? v.number.val = some ts ∧ t ∈ ts := by
  have here : Fleet.soleMark w 0 = w := Function.update_self ..
  have listed := h.held t _ v .bare ht rfl rfl
  rw [here] at listed
  exact listed

/-- The watermark has not come to the version of one who is held, and has not failed. -/
lemma Held.beyond (h : Waits l (Fleet.soleMark w)) (ht : Held l t v) :
    ¬ v ≤ w.doneUntil ∧ w.failure = none := by
  have here : Fleet.soleMark w 0 = w := Function.update_self ..
  obtain ⟨ts, hts, -⟩ := ht.listed h
  have beyond := h.beyond 0 v.number.val ts
  rw [here] at beyond
  exact ⟨Nat.not_le.2 (beyond hts).1, (beyond hts).2⟩

/-- Whoever is not held is left alone by what others do. -/
lemma Use.Turns.apart (h : Waits l (Fleet.soleMark w)) (ht : u.Turns l w l' w')
    (hx : l[t]? = some x) (hh : ¬ x.isHeld) (hu : u ≠ .goOn t) : l'[t]? = some x := by
  have unlisted : ∀ n ts, w.waiters.get? n = some ts → t ∉ ts := by
    intro n ts hn hts
    obtain ⟨v, q, hy, -⟩ := h.sole_listed hn hts
    rw [hx] at hy
    cases hy
    exact hh ⟨v, q, rfl, rfl⟩
  have untold : ∀ s ts, t ∉ ts → (l.mapIdx (Fleet.told s ts))[t]? = some x := by
    intro s ts hts
    rw [Fleet.getElem?_told hx, Fleet.told_of_not_mem hts]
  have unmoved : ∀ (s : Nat) (k : Task → Task), Use.goOn s ≠ .goOn t →
      (l.modify s k)[t]? = some x := by
    intro s k ne
    rw [List.getElem?_modify_ne _ _ fun e => ne (congrArg _ e)]
    exact hx
  cases ht with
  | finish hf =>
    refine untold _ _ fun hts => ?_
    obtain ⟨n, ids, hn, hids, -⟩ := Watermark.finish_released hf hts
    exact unlisted n ids hn hids
  | fail =>
    refine untold _ _ fun hts => ?_
    obtain ⟨n, ids, hn, hids⟩ := Watermark.fail_dropped hts
    exact unlisted n ids hn hids
  | overflow _ => exact hx
  | still _ => exact hx
  | wait => exact getElem?_concat hx _
  | ready _ _ _ => exact unmoved _ _ hu
  | refused _ _ _ _ => exact unmoved _ _ hu
  | enqueue _ _ _ _ => exact unmoved _ _ hu
  | released _ _ _ => exact unmoved _ _ hu
  | dropped _ _ _ => exact unmoved _ _ hu

/-- A failure stays. -/
lemma Use.Turns.failure (ht : u.Turns l w l' w') (he : w.failure = some e) :
    w'.failure = some e := by
  cases ht with
  | finish hf => exact (Watermark.finish_failure hf).trans he
  | overflow hf => exact (Watermark.finish_failure hf).trans he
  | fail => exact Watermark.fail_failure he
  | _ => exact he

/-! ## What is settled -/

lemma Settled.not_held (h : Settled l w t o) : ∃ x, l[t]? = some x ∧ ¬ x.isHeld := by
  cases h with
  | ended hx hp => exact ⟨_, hx, Fleet.not_isHeld hp rfl⟩
  | released hx _ hs => exact ⟨_, hx, Task.not_isHeld_of_told hs⟩
  | dropped hx _ hs _ => exact ⟨_, hx, Task.not_isHeld_of_told hs⟩

/-- A task that is looked at leaves behind what is settled. -/
lemma Settled.goOn (h : Settled l w t o) (ht : (Use.goOn t).Turns l w l' w') :
    ∃ y, l'[t]? = some y ∧ y.point = .ended o := by
  -- The task stands where it is settled, and goes where that point leads.
  have moved : ∀ p x, l[t]? = some x →
      ∃ y, (l.modify t fun x => { x with point := p, signal := none })[t]? = some y ∧
        y.point = p := by
    intro p x hx
    refine ⟨{ x with point := p, signal := none }, ?_, rfl⟩
    rw [List.getElem?_modify_eq, hx]
    rfl
  cases h with
  | ended hx hp =>
    cases ht with
    | still _ => exact ⟨_, hx, hp⟩
    | ready hy hq _ => cases hx.symm.trans hy; cases hp.symm.trans hq
    | refused hy hq _ _ => cases hx.symm.trans hy; cases hp.symm.trans hq
    | enqueue hy hq _ _ => cases hx.symm.trans hy; cases hp.symm.trans hq
    | released hy hq _ => cases hx.symm.trans hy; cases hp.symm.trans hq
    | dropped hy hq _ => cases hx.symm.trans hy; cases hp.symm.trans hq
  | released hx hp hs =>
    cases ht with
    | released _ _ _ => exact moved _ _ hx
    | still hy =>
      rcases hy _ hx with ⟨_, _, _, hs'⟩ | ⟨_, hq⟩
      · cases hs.symm.trans hs'
      · cases hp.symm.trans hq
    | ready hy hq _ => cases hx.symm.trans hy; cases hp.symm.trans hq
    | refused hy hq _ _ => cases hx.symm.trans hy; cases hp.symm.trans hq
    | enqueue hy hq _ _ => cases hx.symm.trans hy; cases hp.symm.trans hq
    | dropped hy _ hs' => cases hx.symm.trans hy; cases hs.symm.trans hs'
  | dropped hx hp hs he =>
    cases ht with
    | dropped _ _ _ =>
      rw [Watermark.failureError, he]
      exact moved _ _ hx
    | still hy =>
      rcases hy _ hx with ⟨_, _, _, hs'⟩ | ⟨_, hq⟩
      · cases hs.symm.trans hs'
      · cases hp.symm.trans hq
    | ready hy hq _ => cases hx.symm.trans hy; cases hp.symm.trans hq
    | refused hy hq _ _ => cases hx.symm.trans hy; cases hp.symm.trans hq
    | enqueue hy hq _ _ => cases hx.symm.trans hy; cases hp.symm.trans hq
    | released hy _ hs' => cases hx.symm.trans hy; cases hs.symm.trans hs'

/-- Whoever has ended has ended for good. -/
lemma Use.Turns.ended (hw : Waits l (Fleet.soleMark w)) (ht : u.Turns l w l' w')
    (hx : l[t]? = some x) (hp : x.point = .ended o) :
    ∃ y, l'[t]? = some y ∧ y.point = .ended o := by
  by_cases hu : u = .goOn t
  · subst hu
    exact Settled.goOn (.ended hx hp) ht
  · exact ⟨x, ht.apart hw hx (Fleet.not_isHeld hp rfl) hu, hp⟩

/-- What is settled stays so. -/
lemma Settled.turns (hw : Waits l (Fleet.soleMark w)) (h : Settled l w t o)
    (ht : u.Turns l w l' w') : Settled l' w' t o := by
  by_cases hu : u = .goOn t
  · subst hu
    obtain ⟨y, hy, hp⟩ := h.goOn ht
    exact .ended hy hp
  · obtain ⟨x, hx, hh⟩ := h.not_held
    have stays := ht.apart hw hx hh hu
    cases h with
    | ended hy hp =>
      cases hx.symm.trans hy
      exact .ended stays hp
    | released hy hp hs =>
      cases hx.symm.trans hy
      exact .released stays hp hs
    | dropped hy hp hs he =>
      cases hx.symm.trans hy
      exact .dropped stays hp hs (ht.failure he)

/-! ## Who is held -/

/-- One who is held and looked at is told nothing. -/
lemma Held.goOn (h : Held l t v) (ht : (Use.goOn t).Turns l w l' w') : Held l' t v := by
  generalize hu : Use.goOn t = u at ht
  cases ht with
  | still _ => exact h
  | ready hy hq _ => cases hu; cases h.symm.trans hy; cases hq
  | refused hy hq _ _ => cases hu; cases h.symm.trans hy; cases hq
  | enqueue hy hq _ _ => cases hu; cases h.symm.trans hy; cases hq
  | released hy _ hs => cases hu; cases h.symm.trans hy; cases hs
  | dropped hy _ hs => cases hu; cases h.symm.trans hy; cases hs
  | _ => cases hu

/-- One who is held is held on, is released by a use that carries the watermark up to the version,
or is dropped by a use that lets the watermark fail. -/
lemma Held.turns (hw : Waits l (Fleet.soleMark w)) (hw' : Waits l' (Fleet.soleMark w'))
    (h : Held l t v) (ht : u.Turns l w l' w') :
    Held l' t v ∨ (v ≤ w'.doneUntil ∧ Settled l' w' t .done) ∨
      ∃ e, u = .fail e ∧ Settled l' w' t (.failed e) := by
  have here : Fleet.soleMark w' 0 = w' := Function.update_self ..
  have unmoved : ∀ (s : Nat) (k : Task → Task) (x : Task), l[s]? = some x → ¬ x.isHeld →
      Held (l.modify s k) t v := by
    intro s k x hx hh
    have ne : s ≠ t := by
      rintro rfl
      cases hx.symm.trans h
      exact hh ⟨v, .bare, rfl, rfl⟩
    exact (List.getElem?_modify_ne _ _ ne).trans h
  cases ht with
  | @finish _ _ ts hf =>
    by_cases hts : t ∈ ts
    · have told : (l.mapIdx (Fleet.told .released ts))[t]? = _ := Fleet.getElem?_told h
      rw [Fleet.told_of_mem hts] at told
      have reached := hw'.released t _ v .bare told rfl rfl
      rw [here] at reached
      exact .inr (.inl ⟨reached, .released told rfl rfl⟩)
    · left
      rw [Held, Fleet.getElem?_told h, Fleet.told_of_not_mem hts]
  | @fail e =>
    obtain ⟨ts, hts, ht⟩ := h.listed hw
    have told : (l.mapIdx (Fleet.told .dropped (w.fail e).2))[t]? = _ := Fleet.getElem?_told h
    have dropped : t ∈ (w.fail e).2 :=
      List.mem_flatten.2 ⟨ts, NatMap.mem_values.2 ⟨_, hts⟩, ht⟩
    rw [Fleet.told_of_mem dropped] at told
    refine .inr (.inr ⟨e, rfl, .dropped told rfl rfl ?_⟩)
    rw [Watermark.fail, (h.beyond hw).2]
    rfl
  | overflow _ => exact .inl h
  | still _ => exact .inl h
  | wait => exact .inl (getElem?_concat h _)
  | ready hx hp _ => exact .inl (unmoved _ _ _ hx (Fleet.not_isHeld hp rfl))
  | refused hx hp _ _ => exact .inl (unmoved _ _ _ hx (Fleet.not_isHeld hp rfl))
  | enqueue hx hp _ _ => exact .inl (unmoved _ _ _ hx (Fleet.not_isHeld hp rfl))
  | released hx _ hs =>
    exact .inl (unmoved _ _ _ hx (Task.not_isHeld_of_told hs))
  | dropped hx _ hs =>
    exact .inl (unmoved _ _ _ hx (Task.not_isHeld_of_told hs))

/-- Whoever is held was so before, or has come to wait. -/
lemma Held.before (h : Held l' t v) (ht : u.Turns l w l' w') :
    Held l t v ∨ u = .goOn t ∧ (∃ x, l[t]? = some x ∧ x.point = .await v .bare) ∧
      ¬ v ≤ w.doneUntil ∧ w.failure = none := by
  have untold : ∀ s ts, Held (l.mapIdx (Fleet.told s ts)) t v → Held l t v := by
    intro s ts ht
    obtain ⟨x, hx, e⟩ := Fleet.told_cases ht
    by_cases hts : t ∈ ts
    · rw [Fleet.told_of_mem hts] at e
      cases congrArg Task.signal e
    · rw [Fleet.told_of_not_mem hts] at e
      rw [Held, hx, e]
  have unmoved : ∀ s o,
      Held (l.modify s fun x => { x with point := .ended o, signal := none }) t v →
        Held l t v := by
    intro s o ht
    rcases modify_cases ht with ⟨-, x, -, e⟩ | ⟨-, ht⟩
    · cases congrArg Task.point e
    · exact ht
  cases ht with
  | finish _ => exact .inl (untold _ _ h)
  | fail => exact .inl (untold _ _ h)
  | overflow _ => exact .inl h
  | still _ => exact .inl h
  | wait =>
    rcases concat_cases h with h | ⟨-, e⟩
    · exact .inl h
    · cases e
  | ready _ _ _ => exact .inl (unmoved _ _ h)
  | refused _ _ _ _ => exact .inl (unmoved _ _ h)
  | released _ _ _ => exact .inl (unmoved _ _ h)
  | dropped _ _ _ => exact .inl (unmoved _ _ h)
  | enqueue hx hp hv hf =>
    rcases modify_cases h with ⟨rfl, x, -, e⟩ | ⟨-, h⟩
    · cases congrArg Task.point e
      exact .inr ⟨rfl, ⟨_, hx, hp⟩, hv, hf⟩
    · exact .inl h

end

namespace Watch

/-! ## Waits of a watch -/

/-- At a moment a wait for a version begins. -/
def Begins (k : Watch) (i t : Nat) (v : Version) : Prop :=
  k.uses i = .goOn t ∧ ∃ x, (k.fleet i).tasks[t]? = some x ∧ x.point = .await v .bare

/-- The watermark has failed before a moment. -/
def Fails (k : Watch) (i : Nat) : Prop := ∃ j < i, ∃ e, k.uses j = .fail e

/-- The error with which the watermark failed first, before a moment. -/
def FailsFirst (k : Watch) (i : Nat) (e : Error) : Prop :=
  ∃ j < i, k.uses j = .fail e ∧ ¬ k.Fails j

/-- A use at this moment decides the waits for a version that are not decided: it carries the
watermark up to the version, or lets it fail. -/
def Frees (k : Watch) (m : Nat) (v : Version) : Prop :=
  v ≤ (k.mark (m + 1)).doneUntil ∨ ∃ e, k.uses m = .fail e

/-- A wait has begun before the version was done and before any failure, and nothing has decided it
since. -/
def Pends (k : Watch) (j t : Nat) (v : Version) : Prop :=
  ∃ i < j, k.Begins i t v ∧ ¬ v ≤ (k.mark i).doneUntil ∧ ¬ k.Fails i ∧
    ∀ m, i < m → m < j → ¬ k.Frees m v

/-- What a task leaves behind if it is looked at now, or has left behind. -/
def verdict? (k : Watch) (j t : Nat) : Option Outcome :=
  ((k.fleet j).after (.step t)).outcome? t

variable {k : Watch} {i j m t : Nat} {v : Version} {e : Error} {o : Outcome}

/-! ## Failures -/

lemma fails_succ : k.Fails (i + 1) ↔ k.Fails i ∨ ∃ e, k.uses i = .fail e := by
  constructor
  · rintro ⟨j, hj, h⟩
    rcases Nat.lt_succ_iff_lt_or_eq.1 hj with lt | rfl
    · exact .inl ⟨j, lt, h⟩
    · exact .inr h
  · rintro (⟨j, hj, h⟩ | h)
    · exact ⟨j, Nat.lt_succ_of_lt hj, h⟩
    · exact ⟨i, Nat.lt_succ_self i, h⟩

lemma failure_succ (k : Watch) (i : Nat) : (k.mark (i + 1)).failure = (k.mark i).failure ∧
      (∀ e, k.uses i ≠ .fail e) ∨
    ∃ e, k.uses i = .fail e ∧ (k.mark (i + 1)).failure = some ((k.mark i).failure.getD e) := by
  have turns := k.turns i
  generalize k.uses i = u, (k.fleet (i + 1)).tasks = l', k.mark (i + 1) = w' at turns
  cases turns with
  | fail => exact .inr ⟨_, rfl, rfl⟩
  | finish hf => exact .inl ⟨Watermark.finish_failure hf, fun _ h => by cases h⟩
  | overflow hf => exact .inl ⟨Watermark.finish_failure hf, fun _ h => by cases h⟩
  | _ => exact .inl ⟨rfl, fun _ h => by cases h⟩

lemma failure_none (k : Watch) (i : Nat) : (k.mark i).failure = none ↔ ¬ k.Fails i := by
  induction i with
  | zero => exact ⟨fun _ ⟨_, hj, _⟩ => Nat.not_lt_zero _ hj, fun _ => rfl⟩
  | succ i ih =>
    rw [fails_succ, not_or]
    rcases k.failure_succ i with ⟨same, none⟩ | ⟨e, he, some⟩
    · rw [same, ih]
      exact ⟨fun h => ⟨h, fun ⟨e, he⟩ => none e he⟩, And.left⟩
    · rw [some]
      exact ⟨nofun, fun h => (h.2 ⟨e, he⟩).elim⟩

lemma failure_some (k : Watch) (i : Nat) (e : Error) :
    (k.mark i).failure = some e ↔ k.FailsFirst i e := by
  induction i with
  | zero => exact ⟨nofun, fun ⟨_, hj, _⟩ => (Nat.not_lt_zero _ hj).elim⟩
  | succ i ih =>
    -- Whatever failed first goes on to be the first.
    have grow : k.FailsFirst i e → k.FailsFirst (i + 1) e :=
      fun ⟨j, hj, h⟩ => ⟨j, Nat.lt_succ_of_lt hj, h⟩
    rcases k.failure_succ i with ⟨same, none⟩ | ⟨e', he', some⟩
    · rw [same, ih]
      refine ⟨grow, fun ⟨j, hj, he, first⟩ => ?_⟩
      rcases Nat.lt_succ_iff_lt_or_eq.1 hj with lt | rfl
      · exact ⟨j, lt, he, first⟩
      · exact (none e he).elim
    · rw [some]
      cases hf : (k.mark i).failure with
      | none =>
        have first := (k.failure_none i).1 hf
        constructor
        · intro h
          cases h
          exact ⟨i, Nat.lt_succ_self i, he', first⟩
        · rintro ⟨j, hj, he, -⟩
          rcases Nat.lt_succ_iff_lt_or_eq.1 hj with lt | rfl
          · exact (first ⟨j, lt, e, he⟩).elim
          · cases he'.symm.trans he
            rfl
      | some e₀ =>
        rw [Option.getD_some, ← hf, ih]
        refine ⟨grow, fun ⟨j, hj, he, first⟩ => ?_⟩
        rcases Nat.lt_succ_iff_lt_or_eq.1 hj with lt | rfl
        · exact ⟨j, lt, he, first⟩
        · rw [(k.failure_none j).2 first] at hf
          cases hf

/-! ## From the beginning of a wait on -/

/-- What a wait comes to at once. -/
lemma Begins.begun (h : k.Begins i t v) :
    (v ≤ (k.mark i).doneUntil → (k.fleet (i + 1)).outcome? t = some .done) ∧
      (¬ v ≤ (k.mark i).doneUntil → ∀ e, (k.mark i).failure = some e →
        (k.fleet (i + 1)).outcome? t = some (.failed e)) ∧
      (¬ v ≤ (k.mark i).doneUntil → (k.mark i).failure = none →
        Held (k.fleet (i + 1)).tasks t v) := by
  obtain ⟨hu, x, hx, hp⟩ := h
  have turns := k.turns i
  have node := ((k.alone i).2 t x hx).1
  rw [hu] at turns
  have moved : ∀ p : Point, ((k.fleet i).tasks.modify t
      fun x => { x with point := p, signal := none })[t]? = some ⟨0, p, none⟩ := by
    intro p
    rw [List.getElem?_modify_eq, hx, ← node]
    rfl
  rw [Fleet.outcome?]
  generalize (k.fleet (i + 1)).tasks = l', k.mark (i + 1) = w' at turns
  -- The task asks for the version, so no other turns are possible than the three replies.
  cases turns with
  | ready hy hq hv =>
    cases hx.symm.trans hy
    cases hp.symm.trans hq
    refine ⟨fun _ => ?_, fun h => (h hv).elim, fun h => (h hv).elim⟩
    rw [moved]
    rfl
  | refused hy hq hv hf =>
    cases hx.symm.trans hy
    cases hp.symm.trans hq
    refine ⟨fun h => (hv h).elim, fun _ e he => ?_, fun _ h => by cases hf.symm.trans h⟩
    cases hf.symm.trans he
    rw [moved]
    rfl
  | enqueue hy hq hv hf =>
    cases hx.symm.trans hy
    cases hp.symm.trans hq
    exact ⟨fun h => (hv h).elim, fun _ e he => (by cases hf.symm.trans he), fun _ _ => moved _⟩
  | released hy hq _ => cases hx.symm.trans hy; cases hp.symm.trans hq
  | dropped hy hq _ => cases hx.symm.trans hy; cases hp.symm.trans hq
  | still hy =>
    rcases hy x hx with ⟨_, _, hq, _⟩ | ⟨_, hq⟩
    · cases hp.symm.trans hq
    · cases hp.symm.trans hq

lemma settled_of_outcome (h : (k.fleet i).outcome? t = some o) :
    Settled (k.fleet i).tasks (k.mark i) t o := by
  obtain ⟨x, hx, ho⟩ := Option.bind_eq_some_iff.1 h
  exact .ended hx (Task.point_of_outcome ho)

lemma outcome_of_le (h : (k.fleet i).outcome? t = some o) (hij : i ≤ j) :
    (k.fleet j).outcome? t = some o := by
  induction hij with
  | refl => exact h
  | step _ ih =>
    obtain ⟨x, hx, ho⟩ := Option.bind_eq_some_iff.1 ih
    obtain ⟨y, hy, hp⟩ := (k.turns _).ended (k.waiting _) hx (Task.point_of_outcome ho)
    rw [Fleet.outcome?, hy, Option.bind_some, Task.outcome?, hp]

lemma settled_of_le (h : Settled (k.fleet i).tasks (k.mark i) t o) (hij : i ≤ j) :
    Settled (k.fleet j).tasks (k.mark j) t o := by
  induction hij with
  | refl => exact h
  | step _ ih => exact ih.turns (k.waiting _) (k.turns _)

/-- A wait that has begun is held or settled. -/
lemma Begins.fate (h : k.Begins i t v) (hij : i < j) :
    Held (k.fleet j).tasks t v ∨ ∃ o, Settled (k.fleet j).tasks (k.mark j) t o := by
  induction hij with
  | refl =>
    obtain ⟨ready, refused, held⟩ := h.begun
    by_cases hv : v ≤ (k.mark i).doneUntil
    · exact .inr ⟨_, settled_of_outcome (ready hv)⟩
    · cases hf : (k.mark i).failure with
      | none => exact .inl (held hv hf)
      | some e => exact .inr ⟨_, settled_of_outcome (refused hv e hf)⟩
  | @step j _ ih =>
    rcases ih with held | ⟨o, settled⟩
    · rcases held.turns (k.waiting j) (k.waiting (j + 1)) (k.turns j) with
        held | ⟨-, settled⟩ | ⟨e, -, settled⟩
      · exact .inl held
      · exact .inr ⟨_, settled⟩
      · exact .inr ⟨_, settled⟩
    · exact .inr ⟨o, settled.turns (k.waiting j) (k.turns j)⟩

/-- A task begins one wait. -/
lemma Begins.unique {w : Version} (h : k.Begins i t v) (h' : k.Begins j t w) : i = j ∧ v = w := by
  have later : ∀ {i j v w}, k.Begins i t v → k.Begins j t w → ¬ i < j := by
    intro i j v w h h' hij
    obtain ⟨-, x, hx, hp⟩ := h'
    rcases h.fate hij with held | ⟨o, settled⟩
    · cases hx.symm.trans held
      cases hp
    · cases settled with
      | ended hy hq => cases hx.symm.trans hy; cases hp.symm.trans hq
      | released hy hq _ => cases hx.symm.trans hy; cases hp.symm.trans hq
      | dropped hy hq _ _ => cases hx.symm.trans hy; cases hp.symm.trans hq
  have same : i = j := Nat.le_antisymm (Nat.not_lt.1 (later h' h)) (Nat.not_lt.1 (later h h'))
  subst same
  obtain ⟨-, x, hx, hp⟩ := h
  obtain ⟨-, y, hy, hq⟩ := h'
  cases hx.symm.trans hy
  cases hp.symm.trans hq
  exact ⟨rfl, rfl⟩

/-- Those who are held are those whose waits nothing has decided. -/
lemma pends_iff : k.Pends j t v ↔ Held (k.fleet j).tasks t v := by
  constructor
  · rintro ⟨i, hij, begins, hv, hf, free⟩
    -- From the beginning of the wait on the task is held, as nothing has freed it.
    induction hij with
    | refl => exact begins.begun.2.2 hv ((k.failure_none i).2 hf)
    | @step j hij ih =>
      have held := ih fun m hm hmj => free m hm (Nat.lt_succ_of_lt hmj)
      have free := free j hij (Nat.lt_succ_self j)
      rcases held.turns (k.waiting j) (k.waiting (j + 1)) (k.turns j) with
        held | ⟨reached, -⟩ | ⟨e, he, -⟩
      · exact held
      · exact (free (.inl reached)).elim
      · exact (free (.inr ⟨e, he⟩)).elim
  · -- Back from the moment at which it is held the task was held, until its wait began.
    induction j with
    | zero =>
      intro held
      rw [Held, tasks_zero, List.getElem?_nil] at held
      cases held
    | succ j ih =>
      intro held
      obtain ⟨beyond, failure⟩ := held.beyond (k.waiting (j + 1))
      have free : ¬ k.Frees j v := by
        rintro (reached | failed)
        · exact beyond reached
        · exact (k.failure_none (j + 1)).1 failure (fails_succ.2 (.inr failed))
      rcases held.before (k.turns j) with held | ⟨hu, hx, hv, hf⟩
      · obtain ⟨i, hij, begins, hv, hf, before⟩ := ih held
        refine ⟨i, Nat.lt_succ_of_lt hij, begins, hv, hf, fun m hm hmj => ?_⟩
        rcases Nat.lt_succ_iff_lt_or_eq.1 hmj with lt | rfl
        · exact before m hm lt
        · exact free
      · exact ⟨j, Nat.lt_succ_self j, ⟨hu, hx⟩, hv, (k.failure_none j).1 hf, by omega⟩

/-! ## Verdicts -/

lemma verdict_of_settled (h : Settled (k.fleet j).tasks (k.mark j) t o) :
    k.verdict? j t = some o := by
  obtain ⟨-, turns⟩ := Fleet.turns_step (k.alone j).1 (k.alone j).2 t
  obtain ⟨y, hy, hp⟩ := h.goOn turns
  rw [verdict?, Fleet.outcome?, hy, Option.bind_some, Task.outcome?, hp]

lemma verdict_of_held (h : Held (k.fleet j).tasks t v) : k.verdict? j t = none := by
  obtain ⟨-, turns⟩ := Fleet.turns_step (k.alone j).1 (k.alone j).2 t
  rw [verdict?, Fleet.outcome?, h.goOn turns]
  rfl

end Watch

end SchemaCatalog
