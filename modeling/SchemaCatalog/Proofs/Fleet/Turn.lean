import SchemaCatalog.Proofs.Fleet.Step
import SchemaCatalog.Proofs.Watermark

/-!
# The turns of a statement

What carries a statement out is a task that is drafted, submitted, waits and confirms. `Turn` lists
where one step takes such a task, with what the step found in the fleet, and `turn_of_step` says
that there are no other turns.
-/

namespace SchemaCatalog

/-- Whether the task of a statement can stand at this point. -/
def Point.isStatement : Point → Bool
  | .draft .. => true
  | .submit .. => true
  | .review .. => true
  | .await .. => true
  | .awaiting .. => true
  | .confirm _ => true
  | .readClock .. => true
  | .sleep .. => true
  | _ => false

/-- Where a task goes on once the version it waited for is done. -/
def Purpose.next (v : Version) : Purpose → Point
  | .saved => .confirm v
  | .retry st a =>
    if a < maxAttempts then .draft st (a + 1)
    else .ended (.failed (.retryLimitExceeded (Word64.capped maxAttempts)))
  | .started => .ended .done
  | .bare => .ended .done

namespace Fleet

/-- Where a step from `f` to `g` takes the task `x`, if it stands at a point of a statement. -/
inductive Turn (f g : Fleet) (x : Task) : Point → Prop where
  | unready {st : Statement} {a : Nat} {e : Error} :
      x.point = .draft st a → (f.node x.node).history.latest = .error e →
      Turn f g x (.ended (.failed e))
  | vacuous {st : Statement} {a : Nat} {c : Catalog} :
      x.point = .draft st a → (f.node x.node).history.latest = .ok c → st.isVacuous = true →
      Turn f g x (.ended (.version c.version))
  | refused {st : Statement} {a : Nat} {c : Catalog} {e : Abort} :
      x.point = .draft st a → (f.node x.node).history.latest = .ok c → st.entries c = .error e →
      Turn f g x (.ended (.aborted e))
  | unchanged {st : Statement} {a : Nat} {c : Catalog} :
      x.point = .draft st a → (f.node x.node).history.latest = .ok c → st.entries c = .ok [] →
      Turn f g x (.confirm c.version)
  | exhausted {st : Statement} {a : Nat} :
      x.point = .draft st a → Turn f g x (.ended (.aborted .overflow))
  | drafted {st : Statement} {a : Nat} {c : Catalog} {es : List Entry} {v : Version} :
      x.point = .draft st a → (f.node x.node).history.latest = .ok c → st.entries c = .ok es →
      es ≠ [] → c.version.next? = some v →
      Turn f g x (.submit st a ⟨v, Duration.ofMillis (f.node x.node).delay, es⟩)
  | accepted {st : Statement} {a : Nat} {u : Update} (h : f.storage.accepts u) :
      x.point = .submit st a u → g.storage = f.storage.append u f.clock.tick.current h →
      Turn f g x (.await u.version .saved)
  | rejected {st : Statement} {a : Nat} {u : Update} :
      x.point = .submit st a u →
      (∀ log, (f.node x.node).link = .shared log → ¬ f.storage.accepts u) →
      Turn f g x (.review st a)
  | reviewed {st : Statement} {a : Nat} :
      x.point = .review st a → Turn f g x (.await f.storage.committed (.retry st a))
  | ready {v : Version} {q : Purpose} :
      x.point = .await v q → v ≤ (f.node x.node).mark.doneUntil → Turn f g x (q.next v)
  | denied {v : Version} {q : Purpose} {e : Error} :
      x.point = .await v q → ¬ v ≤ (f.node x.node).mark.doneUntil →
      (f.node x.node).mark.failure = some e → Turn f g x (.ended (.failed e))
  | waiting {v : Version} {q : Purpose} :
      x.point = .await v q → ¬ v ≤ (f.node x.node).mark.doneUntil →
      (f.node x.node).mark.failure = none → Turn f g x (.awaiting v q)
  | released {v : Version} {q : Purpose} :
      x.point = .awaiting v q → x.signal = some .released → Turn f g x (q.next v)
  | dropped {v : Version} {q : Purpose} :
      x.point = .awaiting v q → x.signal = some .dropped →
      Turn f g x (.ended (.failed (f.node x.node).mark.failureError))
  | found {v : Version} {c : Catalog} :
      x.point = .confirm v → (f.node x.node).history.catalog? v = some c →
      Turn f g x (.readClock (c.activation.everywhere (f.node x.node).skew) (.version v))
  | missing {v : Version} :
      x.point = .confirm v → (f.node x.node).history.catalog? v = none →
      Turn f g x (.ended (.failed (.invariant (.unregistered v))))
  | due {target : Timestamp} {o : Outcome} :
      x.point = .readClock target o → target ≤ g.clock.current → Turn f g x (.ended o)
  | early {target : Timestamp} {o : Outcome} :
      x.point = .readClock target o → Turn f g x (.sleep target o)
  | woken {target : Timestamp} {o : Outcome} :
      x.point = .sleep target o → target ≤ g.clock.current → Turn f g x (.ended o)

section

variable {f g k : Fleet} {t : Nat} {x : Task}

/-- A step takes the task to a point. -/
def Turns (f : Fleet) (t : Nat) (x : Task) (g : Fleet) : Prop :=
  ∃ p, g.tasks[t]? = some { x with point := p, signal := none } ∧ f.Turn g x p

lemma getElem?_moveTo (hk : k.tasks[t]? = some x) (p : Point) :
    (k.moveTo t p).tasks[t]? = some { x with point := p, signal := none } := by
  simp only [moveTo_fields, List.getElem?_modify, hk]
  simp

lemma getElem?_finish (hk : k.tasks[t]? = some x) (o : Outcome) :
    (k.finish t o).tasks[t]? = some { x with point := .ended o, signal := none } := by
  simp only [finish_fields, List.getElem?_modify, hk]
  simp

lemma outcome?_finish (hk : k.tasks[t]? = some x) (o : Outcome) :
    (k.finish t o).outcome? t = some o := by
  rw [outcome?, getElem?_finish hk]
  rfl

lemma turns_moveTo (hk : k.tasks[t]? = some x) {p : Point} (h : f.Turn (k.moveTo t p) x p) :
    f.Turns t x (k.moveTo t p) :=
  ⟨p, getElem?_moveTo hk p, h⟩

lemma turns_finish (hk : k.tasks[t]? = some x) {o : Outcome}
    (h : f.Turn (k.finish t o) x (.ended o)) : f.Turns t x (k.finish t o) :=
  ⟨.ended o, getElem?_finish hk o, h⟩

lemma turns_draft (hx : f.tasks[t]? = some x) {st : Statement} {a : Nat}
    (e : x.point = .draft st a) : f.Turns t x (f.stepDraft t x.node st a) := by
  unfold stepDraft
  split
  · rename_i err herr
    exact turns_finish hx (.unready e herr)
  · rename_i c hc
    split
    · rename_i hv
      exact turns_finish hx (.vacuous e hc hv)
    · split
      · rename_i err herr
        exact turns_finish hx (.refused e hc herr)
      · rename_i hes
        exact turns_moveTo hx (.unchanged e hc hes)
      · rename_i es hne hes
        split
        · exact turns_finish hx (.exhausted e)
        · rename_i v hv
          exact turns_moveTo hx (.drafted e hc hes hne hv)

lemma turns_submit {log : Nat} (hl : (f.node x.node).link.log? = some log)
    (hn : x.node < f.nodes.length) (hx : f.tasks[t]? = some x) {st : Statement} {a : Nat}
    {u : Update} (e : x.point = .submit st a u) : f.Turns t x (f.stepSubmit t x.node st a u) := by
  obtain ⟨nodes, -, ⟨contended, h⟩ | h⟩ := appendLink_of_log hn hl u
  · rw [stepSubmit, h]
    exact turns_moveTo (k := { f with nodes := nodes }) hx
      (.rejected e fun log shared => absurd shared (contended log))
  · rw [stepSubmit, h]
    by_cases acc : f.storage.accepts u
    · obtain ⟨k, hk, hc⟩ := commit_of_accepts nodes acc
      obtain ⟨-, storage, -, -, -, -, tasks⟩ := core_inj hc
      rw [hk]
      refine turns_moveTo (by rw [tasks]; exact hx) (.accepted acc e ?_)
      simp only [moveTo_fields]
      exact storage
    · rw [commit_of_not_accepts (f := { f with nodes := nodes }) acc]
      exact turns_moveTo (k := { f with nodes := nodes }) hx (.rejected e fun _ _ => acc)

lemma turns_afterVersion (hx : f.tasks[t]? = some x) {v : Version} {q : Purpose}
    (h : ∀ g, f.Turn g x (q.next v)) : f.Turns t x (f.afterVersion t v q) := by
  cases q with
  | saved => exact turns_moveTo hx (h _)
  | retry st a =>
    rw [afterVersion]
    split
    · rename_i ha
      refine turns_moveTo hx ?_
      have := h (f.moveTo t (.draft st (a + 1)))
      rwa [Purpose.next, if_pos ha] at this
    · rename_i ha
      refine turns_finish hx ?_
      have := h (f.finish t (.failed (.retryLimitExceeded (Word64.capped maxAttempts))))
      rwa [Purpose.next, if_neg ha] at this
  | started => exact turns_finish hx (h _)
  | bare => exact turns_finish hx (h _)

lemma turns_await (hx : f.tasks[t]? = some x) {v : Version} {q : Purpose}
    (e : x.point = .await v q) : f.Turns t x (f.stepAwait t x.node v q) := by
  unfold stepAwait
  split
  · rename_i hr
    exact turns_afterVersion hx fun _ => .ready e (Watermark.reply_ready hr)
  · rename_i err hr
    obtain ⟨hv, hf⟩ := Watermark.reply_refused hr
    exact turns_finish hx (.denied e hv hf)
  · rename_i hr
    obtain ⟨hv, hf⟩ := Watermark.reply_wait hr
    refine turns_moveTo (k := f.onNode x.node _) ?_ (.waiting e hv hf)
    simp only [onNode_fields]
    exact hx

lemma turns_readClock (hx : f.tasks[t]? = some x) {target : Timestamp} {o : Outcome}
    (e : x.point = .readClock target o) : f.Turns t x (f.stepReadClock t target o) := by
  have tasks : (f.setClock f.clock.tick).tasks[t]? = some x := by
    simp only [setClock_fields]
    exact hx
  unfold stepReadClock
  dsimp only
  split
  · rename_i h
    refine turns_finish tasks (.due e ?_)
    simp only [finish_fields]
    exact h
  · exact turns_moveTo tasks (.early e)

/-- Every step of the task of a statement is one of its turns, if the log of the node that it turns
to is one over the shared storage. -/
theorem turn_of_step_of_log (hn : x.node < f.nodes.length)
    (linked : x.point.asksLog = true → (f.node x.node).link.log?.isSome)
    (hx : f.tasks[t]? = some x) (hs : x.point.isStatement = true) (h : f.step t = some g) :
    f.Turns t x g := by
  unfold step at h
  rw [hx] at h
  dsimp only at h
  -- One case for each point at which the task of a statement can stand.
  cases e : x.point with
  | draft st a =>
    rw [e] at h
    cases h
    exact turns_draft hx e
  | submit st a u =>
    rw [e] at h
    cases h
    obtain ⟨log, hl⟩ := Option.isSome_iff_exists.1 (linked (by rw [e]; rfl))
    exact turns_submit hl hn hx e
  | review st a =>
    rw [e] at h
    cases h
    obtain ⟨log, hl⟩ := Option.isSome_iff_exists.1 (linked (by rw [e]; rfl))
    rw [stepReview, committedOf_of_log hl]
    exact turns_moveTo hx (.reviewed e)
  | await v q =>
    rw [e] at h
    cases h
    exact turns_await hx e
  | awaiting v q =>
    rw [e] at h
    cases hsig : x.signal with
    | none =>
      rw [hsig] at h
      cases h
    | some s =>
      rw [hsig] at h
      cases s with
      | released =>
        cases h
        exact turns_afterVersion hx fun _ => .released e hsig
      | dropped =>
        cases h
        exact turns_finish hx (.dropped e hsig)
  | confirm v =>
    rw [e] at h
    cases h
    unfold stepConfirm
    split
    · rename_i hc
      exact turns_finish hx (.missing e hc)
    · rename_i c hc
      exact turns_moveTo hx (.found e hc)
  | readClock target o =>
    rw [e] at h
    cases h
    exact turns_readClock hx e
  | sleep target o =>
    rw [e] at h
    simp only [stepSleep, Option.ite_none_right_eq_some, Option.some.injEq] at h
    obtain ⟨hle, rfl⟩ := h
    refine turns_finish hx (.woken e ?_)
    simp only [finish_fields]
    exact hle
  | _ =>
    rw [e] at hs
    cases hs

/-- Every step of the task of a statement is one of its turns. -/
theorem turn_of_step (hp : f.Plain) (hx : f.tasks[t]? = some x)
    (hs : x.point.isStatement = true) (h : f.step t = some g) : f.Turns t x g :=
  turn_of_step_of_log (hp.placed t x hx) (fun _ => hp.linked x.node) hx hs h

/-! ## The turns from one point -/

variable {p : Point} {v : Version} {q : Purpose} {target : Timestamp} {o : Outcome}

/-- The draft of an attempt makes the update to offer, or the statement is done with attempts. -/
lemma Turn.of_draft {st : Statement} {a : Nat} (h : f.Turn g x p) (e : x.point = .draft st a) :
    (∃ u, p = .submit st a u) ∨ p.statement? = none := by
  cases h with
  | drafted e' _ _ _ _ =>
    cases e.symm.trans e'
    exact .inl ⟨_, rfl⟩
  | unready _ _ => exact .inr rfl
  | vacuous _ _ _ => exact .inr rfl
  | refused _ _ _ => exact .inr rfl
  | unchanged _ _ _ => exact .inr rfl
  | exhausted _ => exact .inr rfl
  | _ => simp_all

/-- An offer is taken, and is then stored, or refused, by a log that refuses nothing by itself
because it is not the next update. -/
lemma Turn.of_submit {st : Statement} {a : Nat} {u : Update} (h : f.Turn g x p)
    (e : x.point = .submit st a u) :
    (p = .review st a ∧ ∀ log, (f.node x.node).link = .shared log → ¬ f.storage.accepts u) ∨
      p = .await u.version .saved ∧ ∃ acc : f.storage.accepts u,
        g.storage = f.storage.append u f.clock.tick.current acc := by
  cases h with
  | accepted acc e' hs =>
    cases e.symm.trans e'
    exact .inr ⟨rfl, acc, hs⟩
  | rejected e' shared =>
    cases e.symm.trans e'
    exact .inl ⟨rfl, shared⟩
  | _ => simp_all

/-- Whoever lost waits for what is committed. -/
lemma Turn.of_review {st : Statement} {a : Nat} (h : f.Turn g x p) (e : x.point = .review st a) :
    p = .await f.storage.committed (.retry st a) := by
  cases h with
  | reviewed e' =>
    cases e.symm.trans e'
    rfl
  | _ => simp_all

/-- One who asks for a version is let through, refused or listed, as the watermark stands. -/
lemma Turn.of_await (h : f.Turn g x p) (e : x.point = .await v q) :
    (v ≤ (f.node x.node).mark.doneUntil ∧ p = q.next v) ∨
      ¬ v ≤ (f.node x.node).mark.doneUntil ∧
        ((∃ err, (f.node x.node).mark.failure = some err ∧ p = .ended (.failed err)) ∨
          (f.node x.node).mark.failure = none ∧ p = .awaiting v q) := by
  cases h with
  | ready e' hv =>
    cases e.symm.trans e'
    exact .inl ⟨hv, rfl⟩
  | denied e' hv hf =>
    cases e.symm.trans e'
    exact .inr ⟨hv, .inl ⟨_, hf, rfl⟩⟩
  | waiting e' hv hf =>
    cases e.symm.trans e'
    exact .inr ⟨hv, .inr ⟨hf, rfl⟩⟩
  | _ => simp_all

/-- One who waits goes on as told. -/
lemma Turn.of_awaiting (h : f.Turn g x p) (e : x.point = .awaiting v q) :
    (x.signal = some .released ∧ p = q.next v) ∨
      x.signal = some .dropped ∧ p = .ended (.failed (f.node x.node).mark.failureError) := by
  cases h with
  | released e' hs =>
    cases e.symm.trans e'
    exact .inl ⟨hs, rfl⟩
  | dropped e' hs =>
    cases e.symm.trans e'
    exact .inr ⟨hs, rfl⟩
  | _ => simp_all

/-- A saved version is looked up. -/
lemma Turn.of_confirm (h : f.Turn g x p) (e : x.point = .confirm v) :
    (∃ c, (f.node x.node).history.catalog? v = some c ∧
      p = .readClock (c.activation.everywhere (f.node x.node).skew) (.version v)) ∨
      (f.node x.node).history.catalog? v = none := by
  cases h with
  | found e' hc =>
    cases e.symm.trans e'
    exact .inl ⟨_, hc, rfl⟩
  | missing e' hc =>
    cases e.symm.trans e'
    exact .inr hc
  | _ => simp_all

lemma Turn.of_readClock (h : f.Turn g x p) (e : x.point = .readClock target o) :
    p = .ended o ∨ p = .sleep target o := by
  cases h with
  | due e' _ =>
    cases e.symm.trans e'
    exact .inl rfl
  | early e' =>
    cases e.symm.trans e'
    exact .inr rfl
  | _ => simp_all

lemma Turn.of_sleep (h : f.Turn g x p) (e : x.point = .sleep target o) : p = .ended o := by
  cases h with
  | woken e' _ =>
    cases e.symm.trans e'
    rfl
  | _ => simp_all

lemma Turn.not_ended (h : f.Turn g x p) (e : x.point = .ended o) : False := by
  cases h with
  | _ => simp_all

/-! ## The statement of a task -/

/-- A task that goes on with its statement after a wait is drafted anew. -/
lemma next_statement {st : Statement} (h : (q.next v).statement? = some st) :
    ∃ a, q = .retry st a ∧ q.next v = .draft st (a + 1) := by
  cases q with
  | retry st' a =>
    rw [Purpose.next] at h ⊢
    split at h
    · rename_i ha
      cases h
      exact ⟨a, rfl, if_pos ha⟩
    · cases h
  | _ => cases h

/-- A task that has a statement to get accepted after a turn had it before. -/
lemma Turn.statement {st : Statement} (h : f.Turn g x p) (hp : p.statement? = some st) :
    x.point.statement? = some st := by
  cases h with
  | drafted e _ _ _ _ =>
    rw [e]
    exact hp
  | rejected e _ =>
    rw [e]
    exact hp
  | reviewed e =>
    rw [e]
    exact hp
  | ready e _ =>
    obtain ⟨a, rfl, -⟩ := next_statement hp
    rw [e]
    rfl
  | waiting e _ _ =>
    rename_i q _ _
    rw [e]
    cases q with
    | retry st' a => exact hp
    | _ => cases hp
  | released e _ =>
    obtain ⟨a, rfl, -⟩ := next_statement hp
    rw [e]
    rfl
  | _ => cases hp

end

end Fleet

end SchemaCatalog
