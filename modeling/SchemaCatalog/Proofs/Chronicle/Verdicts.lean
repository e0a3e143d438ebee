import SchemaCatalog.Proofs.Chronicle.Attempts

/-!
# What an offer is made from, and how a statement ends

Each offer was drafted on the latest catalog, and nothing changes by the steps of a statement until
an offer is accepted. A statement that ends with a verdict had none accepted, and one that yields
nothing is bound to return the version that it was drafted on.
-/

namespace SchemaCatalog

/-- Where a task stands that is bound to return a version. -/
inductive Point.Returns (v : Version) : Point → Prop where
  | confirm : Returns v (.confirm v)
  | readClock {target : Timestamp} : Returns v (.readClock target (.version v))
  | sleep {target : Timestamp} : Returns v (.sleep target (.version v))
  | ended : Returns v (.ended (.version v))

namespace Fleet

/-- The task of a statement that returns a version sleeps, and the time has not come. -/
def Sleeps (f : Fleet) (t : Nat) (v : Version) : Prop :=
  ∃ x target, f.tasks[t]? = some x ∧ x.point = .sleep target (.version v) ∧
    ¬ target ≤ f.clock.current

section

variable {f g : Fleet} {x : Task} {p : Point} {st : Statement} {t a : Nat} {c : Catalog}
  {v : Version} {u : Update}

/-- A statement that yields nothing on the latest catalog is done with its draft. -/
lemma step_draft_empty (hx : f.tasks[t]? = some x) (hp : x.point = .draft st a)
    (hc : (f.node x.node).history.latest = .ok c)
    (empty : st.isVacuous = true ∨ st.entries c = .ok []) :
    ∃ g p, f.step t = some g ∧ g.tasks[t]? = some { x with point := p, signal := none } ∧
      p.Returns c.version := by
  have step : f.step t = some (f.stepDraft t x.node st a) := by simp only [Fleet.step, hx, hp]
  rw [stepDraft, hc] at step
  by_cases vacuous : st.isVacuous = true
  · simp only [vacuous, if_true] at step
    exact ⟨_, _, step, getElem?_finish hx _, .ended⟩
  · simp only [vacuous, empty.resolve_left vacuous] at step
    exact ⟨_, _, step, getElem?_moveTo hx _, .confirm⟩

/-- A stride to the offer of an update drafts it. -/
lemma Stride.to_submit (h : f.Stride g x (.submit st a u)) :
    x.point = .draft st a ∧ ∃ c, (f.node x.node).history.latest = .ok c ∧ st.Yields c u := by
  generalize hp : Point.submit st a u = p at h
  cases h with
  | turn _ turn _ => exact Turn.to_submit (hp ▸ turn)
  | _ => cases hp

/-- A stride to a verdict is a turn: no log gives one. -/
lemma Stride.to_verdict {e : Error} (h : f.Stride g x (.ended (.failed e)))
    (he : e.isVerdict = true) : f.Turn g x (.ended (.failed e)) := by
  generalize hp : Point.ended (.failed e) = p at h
  cases h with
  | turn _ turn _ => exact turn
  | broken _ _ =>
    cases hp
    cases he
  | _ => cases hp

/-- A task that comes to a verdict, which its node has not failed with, has had no offer accepted.
It gives up only when all attempts were refused and all waits are over. -/
lemma Stride.verdict {e : Error} {o w : Nat} {as : List Bool}
    (h : f.Stride g x (.ended (.failed e))) (he : e.isVerdict = true) (hof : x.point.Of st)
    (ht : x.point.Tally st o as w) (failed : (f.node x.node).mark.failure ≠ some e) :
    x.point.offer? = none ∧ (∃ b, as = .replicate b false) ∧ ∀ m, e = .retryLimitExceeded m →
      m = Word64.capped maxAttempts ∧ as = .replicate maxAttempts false ∧
        w + (f.passes x).toNat = maxAttempts := by
  rcases (h.to_verdict he).to_verdict hof he failed with
    ⟨a, c, hp, -, refused⟩ | ⟨rfl, v, a, ha, waits⟩
  · rw [hp] at ht ⊢
    refine ⟨rfl, ?_, fun m hm => ?_⟩
    · cases ht with
      | draft _ => exact ⟨_, rfl⟩
      | left free _ _ _ => cases free
    · -- A check does not say that there were too many attempts.
      rw [hm] at refused
      cases Statement.entries_error refused
  · obtain ⟨rfl, hw, rfl⟩ := ht.of_retry (waits.imp And.left And.left)
    have last : w + 1 = maxAttempts := Nat.le_antisymm hw ha
    have passes : x.point.offer? = none ∧ f.passes x = true := by
      rcases waits with ⟨hp, hv⟩ | ⟨hp, hs⟩
      · simpa [hp, passes, Point.offer?] using hv
      · simp [hp, hs, passes, Point.offer?]
    refine ⟨passes.1, ⟨_, rfl⟩, fun m hm => ?_⟩
    cases hm
    rw [passes.2, last]
    exact ⟨rfl, rfl, last⟩

/-- A task that is bound to return a version stays so. -/
lemma Stride.returns (h : f.Stride g x p) (hr : x.point.Returns v)
    (registered : ((f.node x.node).history.catalog? v).isSome) :
    x.point.offer? = none ∧ p.Returns v := by
  generalize hp : x.point = q at hr
  cases hr with
  | confirm =>
    rcases (h.of_turn (by rw [hp]; rfl)).of_confirm hp with ⟨c, -, rfl⟩ | missing
    · exact ⟨rfl, .readClock⟩
    · rw [missing] at registered
      cases registered
  | readClock =>
    rcases (h.of_turn (by rw [hp]; rfl)).of_readClock hp with rfl | rfl
    · exact ⟨rfl, .ended⟩
    · exact ⟨rfl, .sleep⟩
  | sleep =>
    rw [(h.of_turn (by rw [hp]; rfl)).of_sleep hp]
    exact ⟨rfl, .ended⟩
  | ended => exact ((h.of_turn (by rw [hp]; rfl)).not_ended hp).elim

/-- A task that is bound to return a version can go on until it has, or sleeps. -/
lemma rests_of_returns (hx : f.tasks[t]? = some x) (hr : x.point.Returns v)
    (hs : f.step t = none) : f.outcome? t = some (.version v) ∨ f.Sleeps t v := by
  rw [step, hx] at hs
  generalize hp : x.point = q at hr
  simp only [hp] at hs
  cases hr with
  | confirm => cases hs
  | readClock => cases hs
  | sleep =>
    simp only [stepSleep, ite_eq_right_iff, reduceCtorEq, imp_false] at hs
    exact .inr ⟨x, _, hx, hp, hs⟩
  | ended => exact .inl (by rw [outcome?, hx, Option.bind_some, Task.outcome?, hp])

end

end Fleet

namespace Chronicle

/-- At this moment a statement is drafted on the latest catalog of its node. -/
structure Drafts (k : Chronicle) (d t : Nat) (st : Statement) (c : Catalog) : Prop where
  happening : k.happenings d = .step t
  latest : ∃ x a, (k.fleet d).tasks[t]? = some x ∧ x.point = .draft st a ∧
    ((k.fleet d).node x.node).history.latest = .ok c

/-- No step of the task is made between two moments. -/
def Pauses (k : Chronicle) (t d j : Nat) : Prop := ∀ i, d < i → i < j → k.happenings i ≠ .step t

variable {k : Chronicle} {s n t i j d : Nat} {st : Statement} {x y : Task} {u : Update}
  {c : Catalog} {e : Error}

/-! ## What an offer is made from -/

/-- What is offered was drafted on the latest catalog, in the last step of the task. -/
lemma Starts.offer_drafted (h : k.Starts s n st t) (hu : k.offer? t i = some u) :
    ∃ d c, d < i ∧ k.Drafts d t st c ∧ st.Yields c u ∧ k.Pauses t d i := by
  obtain ⟨x, b, hx, hp, -⟩ := h.refused_of_offer hu
  refine (h.induction (P := fun i p => ∀ a u, p = .submit st a u →
    ∃ d c, d < i ∧ k.Drafts d t st c ∧ st.Yields c u ∧ k.Pauses t d i)
    ?base ?stay ?stride hx).2.2.2 _ _ hp
  case base =>
    intro a u e
    cases e
  case stay =>
    intro i x _ hx hs drafted a u hp
    obtain ⟨d, c, hd, drafts, yields, pauses⟩ := drafted a u hp
    refine ⟨d, c, Nat.lt_succ_of_lt hd, drafts, yields, fun j hdj hji move => ?_⟩
    rcases Nat.lt_or_eq_of_le (Nat.le_of_lt_succ hji) with hji | rfl
    · exact pauses j hdj hji move
    · -- A task that has an offer to make can take a step.
      have none := (still_of_stride hs hx).2 move
      simp only [Fleet.step, hx, hp] at none
      cases none
  case stride =>
    intro i x y _ hs _ _ _ hstride a u hp
    rw [hp] at hstride
    obtain ⟨hd, c, hc, yields⟩ := hstride.to_submit
    obtain ⟨move, hx, -⟩ := of_stride hs
    exact ⟨i, c, Nat.lt_succ_self i, ⟨move, x, a, hx, hd, hc⟩, yields, fun j _ _ => by omega⟩

/-! ## What is changed -/

/-- A step changes what is committed or registered only if its offer is accepted. -/
lemma Starts.record (h : k.Starts s n st t) (hs : (k.stride? t i).isSome)
    (ha : k.answer? t i ≠ some true) : (k.fleet (i + 1)).record = (k.fleet i).record := by
  obtain ⟨⟨x, y⟩, hs⟩ := Option.isSome_iff_exists.1 hs
  rcases (h.stride hs).2.2.2.record with same | ⟨offers, accepted⟩
  · exact same
  · obtain ⟨u, hu⟩ := Option.isSome_iff_exists.1 offers
    rw [answer?, hs, Option.bind_some, Fleet.answered, hu, Option.bind_some, accepted] at ha
    exact absurd rfl ha

/-- What a log over the shared storage accepts is stored. -/
lemma Starts.stored (h : k.Starts s n st t) (hu : k.offer? t i = some u)
    (ha : k.answer? t i = some true) (hl : ((k.fleet i).node n).link.log?.isSome) :
    ∃ acc : (k.fleet i).storage.accepts u, (k.fleet (i + 1)).storage =
      (k.fleet i).storage.append u (k.fleet i).clock.tick.current acc := by
  obtain ⟨x, b, hx, hp, -⟩ := h.refused_of_offer hu
  obtain ⟨⟨x', y⟩, hs, ha⟩ := Option.bind_eq_some_iff.1 ha
  obtain ⟨-, hx', -⟩ := of_stride hs
  rw [hx] at hx'
  cases hx'
  obtain ⟨-, hn, -, hstride⟩ := h.stride hs
  have accepted : y.point.answer? = some true := by
    simpa [Fleet.answered, hp, Point.offer?] using ha
  generalize y.point = p at accepted hstride
  cases hstride with
  | taken e stores =>
    cases hp.symm.trans e
    exact stores (by rwa [hn])
  | turn silent _ _ =>
    rw [hp] at silent
    cases silent
  | _ => cases accepted

/-! ## Verdicts -/

/-- The watermark of a node that is not told to fail with a verdict has not failed with one. -/
lemma unfailed (spares : ∀ i, (k.happenings i).sparesVerdicts n = true)
    (he : ((k.fleet i).node n).mark.failure = some e) : e.isVerdict = false := by
  induction i with
  | zero => cases he
  | succ i ih =>
    rcases (k.keeps i).failure n e he with he | plain | fails
    · exact ih he
    · exact plain
    · exact Happening.not_isVerdict_of_fails (spares i) fails

/-- A statement that ends with a verdict had no offer accepted. It gives up only when all attempts
were refused and all waits are over. -/
lemma Starts.verdict (h : k.Starts s n st t)
    (spares : ∀ i, (k.happenings i).sparesVerdicts n = true)
    (ho : (k.fleet i).outcome? t = some (.failed e)) (he : e.isVerdict = true) :
    (∃ b, k.answers t i = .replicate b false) ∧ ∀ m, e = .retryLimitExceeded m →
      m = Word64.capped maxAttempts ∧ k.answers t i = .replicate maxAttempts false ∧
        k.passed t i = maxAttempts := by
  obtain ⟨x, hx, hp⟩ := Option.bind_eq_some_iff.1 ho
  refine (h.induction (P := fun i p => p = .ended (.failed e) →
    (∃ b, k.answers t i = .replicate b false) ∧ ∀ m, e = .retryLimitExceeded m →
      m = Word64.capped maxAttempts ∧ k.answers t i = .replicate maxAttempts false ∧
        k.passed t i = maxAttempts) ?base ?stay ?stride hx).2.2.2 (Task.point_of_outcome hp)
  case base =>
    intro e
    cases e
  case stay =>
    intro i x _ _ hs holds hp
    obtain ⟨-, answers, passed⟩ := account_still hs
    rw [answers, passed]
    exact holds hp
  case stride =>
    intro i x y _ hs hn hof _ hstride hp
    obtain ⟨-, hx, -⟩ := of_stride hs
    have failed : ((k.fleet i).node x.node).mark.failure ≠ some e := by
      intro failed
      rw [unfailed spares (hn ▸ failed)] at he
      cases he
    obtain ⟨offer, refused, limit⟩ := (hp ▸ hstride).verdict he hof (h.tally hx) failed
    rw [answers_succ, passed_succ, answer?, passes, hs, Option.bind_some, Fleet.answered, offer,
      Option.bind_none, Option.toList_none, List.append_nil]
    exact ⟨refused, limit⟩

/-- A statement that has had all attempts refused, and has waited after each, gives up. -/
lemma Starts.limit (h : k.Starts s n st t) (hw : k.passed t i = maxAttempts) :
    (k.fleet i).outcome? t =
      some (.failed (.retryLimitExceeded (Word64.capped maxAttempts))) := by
  rcases Nat.lt_or_ge s i with hi | hi
  · obtain ⟨x, hx⟩ := task_stays hi h.begins
    have tally := h.tally hx
    rw [hw] at tally
    rw [Fleet.outcome?, hx, Option.bind_some, Task.outcome?, tally.limit]
  · obtain ⟨-, -, passed⟩ := h.account_blank (Nat.le_succ_of_le hi)
    rw [passed] at hw
    cases hw

/-! ## Statements that yield nothing -/

lemma Starts.registered (h : k.Starts s n st t) (hd : k.Drafts d t st c) (hi : d ≤ i) :
    (((k.fleet i).node n).history.catalog? c.version).isSome := by
  obtain ⟨x, a, hx, -, hc⟩ := hd.latest
  obtain ⟨hsd, rfl, -⟩ := h.of_task hx
  have hn : x.node < (k.fleet d).nodes.length := k.placed d t x hx
  refine (kept hi hn).history.registered _ ?_
  rw [(keyed hn).latest hc]
  rfl

/-- After a draft that yields nothing the statement is bound to return the version of the catalog
that it was drafted on. -/
lemma Starts.returns (h : k.Starts s n st t) (hd : k.Drafts d t st c)
    (empty : st.isVacuous = true ∨ st.entries c = .ok []) (hi : d < i)
    (hx : (k.fleet i).tasks[t]? = some x) : x.point.Returns c.version := by
  obtain ⟨y, a, hy, hp, hc⟩ := hd.latest
  obtain ⟨g, q, hg, hq, returns⟩ := Fleet.step_draft_empty hy hp hc empty
  obtain ⟨rfl, z, hz⟩ := stride_of_step hd.happening hy hg
  refine (h.induction (P := fun i p => d < i → p.Returns c.version) ?base ?stay ?stride
    hx).2.2.2 hi
  case base =>
    intro hds
    have := h.lt_of_task hy
    omega
  case stay =>
    intro i x _ _ hs holds hdi
    rcases Nat.lt_or_eq_of_le (Nat.le_of_lt_succ hdi) with lt | rfl
    · exact holds lt
    · rw [hs] at hz
      cases hz
  case stride =>
    intro i x y _ hs hn _ holds hstride hdi
    rcases Nat.lt_or_eq_of_le (Nat.le_of_lt_succ hdi) with lt | rfl
    · exact (hstride.returns (holds lt) (hn ▸ h.registered hd (Nat.le_of_lt lt))).2
    · obtain ⟨-, -, hy, -⟩ := of_stride hs
      rw [hq] at hy
      cases hy
      exact returns

/-- After such a draft the statement makes no offer. -/
lemma Starts.offer_none_of_draft (h : k.Starts s n st t) (hd : k.Drafts d t st c)
    (empty : st.isVacuous = true ∨ st.entries c = .ok []) (hi : d < i) : k.offer? t i = none := by
  cases hs : k.stride? t i with
  | none => rw [offer?, hs, Option.bind_none]
  | some z =>
    obtain ⟨x, y⟩ := z
    obtain ⟨-, hx, -⟩ := of_stride hs
    obtain ⟨-, rfl, -, hstride⟩ := h.stride hs
    have registered := h.registered hd (Nat.le_of_lt hi)
    rw [offer?, hs, Option.bind_some]
    exact (hstride.returns (h.returns hd empty hi hx) registered).1

end Chronicle

end SchemaCatalog
