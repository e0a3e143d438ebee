import SchemaCatalog.Proofs.Catalog.Refusals
import SchemaCatalog.Proofs.Chronicle.Basic
import SchemaCatalog.Proofs.Run.Serial

/-!
# The attempts of a statement

Whatever its log answers, a statement makes an offer, waits if that is refused, and then makes the
next one, at most ten. What its task has behind it, where it stands at a point, is a tally of
offers, answers and waits (`Point.Tally`), which each of its strides keeps.
-/

namespace SchemaCatalog

/-- A task stands at this point with so many offers for a statement, these answers and so many waits
after a refusal behind it. Once the statement is off its way to an offer, at most one was accepted,
and not all waits are passed unless it has given up. -/
inductive Point.Tally (st : Statement) : Point → Nat → List Bool → Nat → Prop where
  | draft {a : Nat} : a < maxAttempts →
      Tally st (.draft st (a + 1)) a (.replicate a false) a
  | submit {a : Nat} {u : Update} : a < maxAttempts →
      Tally st (.submit st (a + 1) u) a (.replicate a false) a
  | review {a : Nat} : a < maxAttempts →
      Tally st (.review st (a + 1)) (a + 1) (.replicate (a + 1) false) a
  | await {a : Nat} {v : Version} : a < maxAttempts →
      Tally st (.await v (.retry st (a + 1))) (a + 1) (.replicate (a + 1) false) a
  | awaiting {a : Nat} {v : Version} : a < maxAttempts →
      Tally st (.awaiting v (.retry st (a + 1))) (a + 1) (.replicate (a + 1) false) a
  | left {p : Point} {o : Nat} {as : List Bool} {w : Nat} : p.statement? = none →
      o ≤ maxAttempts → as.count true ≤ 1 → w < maxAttempts → Tally st p o as w
  | exhausted :
      Tally st (.ended (.failed (.retryLimitExceeded (Word64.capped maxAttempts)))) maxAttempts
        (.replicate maxAttempts false) maxAttempts

lemma count_true_replicate (b : Nat) : (List.replicate b false).count true ≤ 1 := by
  simp [List.count_replicate]

/-- No tally has more offers than there are attempts, or more than one that was accepted. -/
lemma Point.Tally.le {st : Statement} {p : Point} {o w : Nat} {as : List Bool}
    (h : p.Tally st o as w) : o ≤ maxAttempts ∧ as.count true ≤ 1 := by
  cases h with
  | draft ha => exact ⟨Nat.le_of_lt ha, count_true_replicate _⟩
  | submit ha => exact ⟨Nat.le_of_lt ha, count_true_replicate _⟩
  | review ha => exact ⟨ha, count_true_replicate _⟩
  | await ha => exact ⟨ha, count_true_replicate _⟩
  | awaiting ha => exact ⟨ha, count_true_replicate _⟩
  | left _ ho has _ => exact ⟨ho, has⟩
  | exhausted => exact ⟨Nat.le_refl _, count_true_replicate _⟩

/-- A task that has passed as many waits as there are attempts has given up. -/
lemma Point.Tally.limit {st : Statement} {p : Point} {o : Nat} {as : List Bool}
    (h : p.Tally st o as maxAttempts) :
    p = .ended (.failed (.retryLimitExceeded (Word64.capped maxAttempts))) := by
  cases h with
  | draft ha => exact absurd ha (Nat.lt_irrefl _)
  | submit ha => exact absurd ha (Nat.lt_irrefl _)
  | review ha => exact absurd ha (Nat.lt_irrefl _)
  | await ha => exact absurd ha (Nat.lt_irrefl _)
  | awaiting ha => exact absurd ha (Nat.lt_irrefl _)
  | left _ _ _ ha => exact absurd ha (Nat.lt_irrefl _)
  | exhausted => rfl

/-- A task that waits after a refusal has had all its offers refused, and all waits but this one
are over. -/
lemma Point.Tally.of_retry {st : Statement} {p : Point} {o w a : Nat} {as : List Bool} {v : Version}
    (h : p.Tally st o as w) (hp : p = .await v (.retry st a) ∨ p = .awaiting v (.retry st a)) :
    a = w + 1 ∧ w < maxAttempts ∧ as = .replicate a false := by
  rcases hp with rfl | rfl
  · cases h with
    | await ha => exact ⟨rfl, ha, rfl⟩
    | left free _ _ _ => cases free
  · cases h with
    | awaiting ha => exact ⟨rfl, ha, rfl⟩
    | left free _ _ _ => cases free

namespace Fleet

/-- Whether the next step of a task ends a wait after a refusal, with success. -/
def passes (f : Fleet) (x : Task) : Bool :=
  match x.point with
  | .await v (.retry ..) => v ≤ (f.node x.node).mark.doneUntil
  | .awaiting _ (.retry ..) => x.signal = some .released
  | _ => false

/-- The answer that a task gets in a step to what it offers. -/
def answered (x : Task) (p : Point) : Option Bool := x.point.offer?.bind fun _ => p.answer?

/-- A step that takes the task `x` to a point adds to the tally what is offered in it, the answer to
that, and the wait that it ends. -/
def Counts (f : Fleet) (x : Task) (st : Statement) (o : Nat) (as : List Bool) (w : Nat)
    (p : Point) : Prop :=
  p.Tally st (o + x.point.offer?.toList.length) (as ++ (answered x p).toList)
    (w + (f.passes x).toNat)

section

variable {f g : Fleet} {x : Task} {p : Point} {st : Statement} {o w a : Nat} {as : List Bool}
  {u : Update} {v : Version}

/-- A wait after a refusal that is over leads to the next attempt, or was the last one. -/
lemma tally_next (ha : a < maxAttempts) :
    ((Purpose.retry st (a + 1)).next v).Tally st (a + 1) (.replicate (a + 1) false) (a + 1) := by
  rw [Purpose.next]
  split
  · rename_i lt
    exact .draft lt
  · rename_i ge
    have last : a + 1 = maxAttempts := Nat.le_antisymm ha (Nat.not_lt.1 ge)
    rw [last]
    exact .exhausted

lemma counts_silent (h : p.Tally st o as w) (offer : x.point.offer? = none)
    (passes : f.passes x = false) : f.Counts x st o as w p := by
  simpa [Counts, answered, offer, passes] using h

lemma counts_pass (h : p.Tally st o as (w + 1)) (offer : x.point.offer? = none)
    (passes : f.passes x = true) : f.Counts x st o as w p := by
  simpa [Counts, answered, offer, passes] using h

lemma counts_offer (e : x.point = .submit st a u)
    (h : p.Tally st (o + 1) (as ++ p.answer?.toList) w) : f.Counts x st o as w p := by
  simpa [Counts, answered, passes, e, Point.offer?] using h

/-- A task with no statement to get accepted gets none, makes no offer and waits for no retry. -/
lemma Stride.left (h : f.Stride g x p) (hof : x.point.Of st) (free : x.point.statement? = none) :
    p.statement? = none ∧ x.point.offer? = none ∧ f.passes x = false := by
  have silent : x.point.asksLog = false ∧ x.point.offer? = none ∧ f.passes x = false := by
    generalize hp : x.point = q at hof free
    cases hof with
    | draft _ => cases free
    | submit _ _ => cases free
    | review _ => cases free
    | awaitRetry _ _ => cases free
    | awaitingRetry _ _ => cases free
    | _ => simp [Point.asksLog, Point.offer?, passes, hp]
  refine ⟨?_, silent.2⟩
  cases hst : p.statement? with
  | none => rfl
  | some st' =>
    have had := (h.of_turn silent.1).statement hst
    rw [free] at had
    cases had

/-- A stride keeps the tally. -/
lemma Stride.tally (h : f.Stride g x p) (ht : x.point.Tally st o as w) (hof : x.point.Of st) :
    f.Counts x st o as w p := by
  -- One case for each point, with the strides from there.
  generalize hp : x.point = q at ht
  cases ht with
  | draft ha =>
    have silent : x.point.offer? = none ∧ f.passes x = false := by simp [passes, hp, Point.offer?]
    refine counts_silent ?_ silent.1 silent.2
    rcases (h.of_turn (by rw [hp]; rfl)).of_draft hp with ⟨u, rfl⟩ | left
    · exact .submit ha
    · exact .left left (Nat.le_of_lt ha) (count_true_replicate _) ha
  | submit ha =>
    refine counts_offer hp ?_
    rcases h.of_submit hp with rfl | rfl | ⟨fault, rfl⟩
    · exact .left rfl ha (by simp [Point.answer?, List.count_replicate]) ha
    · rw [Point.answer?, Option.toList_some, ← List.replicate_succ']
      exact .review ha
    · exact .left rfl ha (by simp [Point.answer?, Outcome.failed, List.count_replicate]) ha
  | review ha =>
    have silent : x.point.offer? = none ∧ f.passes x = false := by simp [passes, hp, Point.offer?]
    refine counts_silent ?_ silent.1 silent.2
    rcases h.of_review hp with ⟨v, rfl⟩ | ⟨fault, rfl⟩
    · exact .await ha
    · exact .left rfl ha (count_true_replicate _) ha
  | await ha =>
    have silent : x.point.offer? = none := by simp [hp, Point.offer?]
    rcases (h.of_turn (by rw [hp]; rfl)).of_await hp with
      ⟨hv, rfl⟩ | ⟨hv, ⟨e, -, rfl⟩ | ⟨-, rfl⟩⟩
    · exact counts_pass (tally_next ha) silent (by simpa [passes, hp] using hv)
    · have stays : f.passes x = false := by simpa [passes, hp] using hv
      exact counts_silent (.left rfl ha (count_true_replicate _) ha) silent stays
    · have stays : f.passes x = false := by simpa [passes, hp] using hv
      exact counts_silent (.awaiting ha) silent stays
  | awaiting ha =>
    have silent : x.point.offer? = none := by simp [hp, Point.offer?]
    rcases (h.of_turn (by rw [hp]; rfl)).of_awaiting hp with ⟨hs, rfl⟩ | ⟨hs, rfl⟩
    · exact counts_pass (tally_next ha) silent (by simp [passes, hp, hs])
    · have stays : f.passes x = false := by simp [passes, hp, hs]
      exact counts_silent (.left rfl ha (count_true_replicate _) ha) silent stays
  | left free ho has hw =>
    obtain ⟨left, silent, stays⟩ := h.left hof (hp ▸ free)
    exact counts_silent (.left left ho has hw) silent stays
  | exhausted => exact ((h.of_turn (by rw [hp]; rfl)).not_ended hp).elim

end

end Fleet

namespace Chronicle

/-- The update that a task offers at this moment to the log of its node. -/
def offer? (k : Chronicle) (t i : Nat) : Option Update :=
  (k.stride? t i).bind fun z => z.1.point.offer?

/-- The answer that a task gets at this moment to what it offers. -/
def answer? (k : Chronicle) (t i : Nat) : Option Bool :=
  (k.stride? t i).bind fun z => Fleet.answered z.1 z.2.point

/-- Whether a task ends at this moment its wait after a refusal, with success. -/
def passes (k : Chronicle) (t i : Nat) : Bool := (k.stride? t i).any fun z => (k.fleet i).passes z.1

/-- What a task has offered before this moment. -/
def offers (k : Chronicle) (t i : Nat) : List Update := (List.range i).filterMap (k.offer? t)

/-- The answers that a task has got before this moment to what it offered. -/
def answers (k : Chronicle) (t i : Nat) : List Bool := (List.range i).filterMap (k.answer? t)

/-- How many waits after a refusal a task has ended before this moment, with success. -/
def passed (k : Chronicle) (t i : Nat) : Nat := (List.range i).countP (k.passes t)

variable {k : Chronicle} {s n t i j : Nat} {st : Statement} {x : Task} {u : Update}

lemma offers_succ (k : Chronicle) (t i : Nat) :
    k.offers t (i + 1) = k.offers t i ++ (k.offer? t i).toList := by
  simp only [offers, List.range_succ, List.filterMap_append, List.filterMap_cons,
    List.filterMap_nil]
  cases k.offer? t i <;> rfl

lemma answers_succ (k : Chronicle) (t i : Nat) :
    k.answers t (i + 1) = k.answers t i ++ (k.answer? t i).toList := by
  simp only [answers, List.range_succ, List.filterMap_append, List.filterMap_cons,
    List.filterMap_nil]
  cases k.answer? t i <;> rfl

lemma passed_succ (k : Chronicle) (t i : Nat) :
    k.passed t (i + 1) = k.passed t i + (k.passes t i).toNat := by
  simp only [passed, List.range_succ, List.countP_append, List.countP_singleton]
  cases k.passes t i <;> rfl

/-- The account of a task that takes no step is what it was. -/
lemma account_still (h : k.stride? t i = none) : k.offers t (i + 1) = k.offers t i ∧
    k.answers t (i + 1) = k.answers t i ∧ k.passed t (i + 1) = k.passed t i := by
  rw [offers_succ, answers_succ, passed_succ, offer?, answer?, passes, h]
  simp

/-- Before its statement is started a task has done nothing. -/
lemma Starts.account_blank (h : k.Starts s n st t) (hi : i ≤ s + 1) :
    k.offers t i = [] ∧ k.answers t i = [] ∧ k.passed t i = 0 := by
  induction i with
  | zero => exact ⟨rfl, rfl, rfl⟩
  | succ i ih =>
    have still : k.stride? t i = none := by
      cases hs : k.stride? t i with
      | none => rfl
      | some z =>
        obtain ⟨x, y⟩ := z
        obtain ⟨-, hx, -⟩ := of_stride hs
        have := h.lt_of_task hx
        omega
    obtain ⟨offers, answers, passed⟩ := account_still still
    rw [offers, answers, passed]
    exact ih (by omega)

/-- At every moment the task of a statement stands where its account says. -/
lemma Starts.tally (h : k.Starts s n st t) (hx : (k.fleet i).tasks[t]? = some x) :
    x.point.Tally st (k.offers t i).length (k.answers t i) (k.passed t i) := by
  refine (h.induction (P := fun i p =>
    p.Tally st (k.offers t i).length (k.answers t i) (k.passed t i)) ?base ?stay ?stride hx).2.2.2
  case base =>
    obtain ⟨offers, answers, passed⟩ := h.account_blank (Nat.le_refl _)
    rw [offers, answers, passed]
    exact .draft (a := 0) (by decide)
  case stay =>
    intro i x _ _ hs hp
    obtain ⟨offers, answers, passed⟩ := account_still hs
    rw [offers, answers, passed]
    exact hp
  case stride =>
    intro i x y _ hs _ hof hp hstride
    have next := hstride.tally hp hof
    rw [offers_succ, answers_succ, passed_succ, List.length_append, offer?, answer?, passes, hs]
    exact next

/-- A task makes no more offers than there are attempts, and at most one is accepted. -/
lemma Starts.offers_le (h : k.Starts s n st t) (i : Nat) :
    (k.offers t i).length ≤ maxAttempts ∧ (k.answers t i).count true ≤ 1 := by
  rcases Nat.lt_or_ge s i with hi | hi
  · obtain ⟨x, hx⟩ := task_stays hi h.begins
    exact (h.tally hx).le
  · obtain ⟨offers, answers, -⟩ := h.account_blank (Nat.le_succ_of_le hi)
    rw [offers, answers]
    exact ⟨Nat.zero_le _, Nat.zero_le _⟩

/-- A task that has an offer to make has had all its offers refused. -/
lemma Starts.refused_of_offer (h : k.Starts s n st t) (hu : k.offer? t i = some u) :
    ∃ x b, (k.fleet i).tasks[t]? = some x ∧ x.point = .submit st (b + 1) u ∧
      (k.offers t i).length = b ∧ k.answers t i = .replicate b false := by
  obtain ⟨⟨x, y⟩, hs, hu⟩ := Option.bind_eq_some_iff.1 hu
  obtain ⟨-, hx, -⟩ := of_stride hs
  obtain ⟨-, -, hof⟩ := h.of_task hx
  have tally := h.tally hx
  obtain ⟨a, hp⟩ : ∃ a, x.point = .submit st a u := by
    dsimp only at hu
    generalize x.point = p at hof hu
    cases hof with
    | submit a u' =>
      cases hu
      exact ⟨a, rfl⟩
    | _ => cases hu
  rw [hp] at tally
  generalize (k.offers t i).length = o, k.answers t i = as, k.passed t i = w at tally
  cases tally with
  | submit ha => exact ⟨x, _, hx, hp, rfl, rfl⟩
  | left free _ _ _ => cases free

lemma mem_answers {yes : Bool} (h : k.answer? t j = some yes) (hj : j < i) : yes ∈ k.answers t i :=
  List.mem_filterMap.2 ⟨j, List.mem_range.2 hj, h⟩

/-- After an accepted offer a task makes none. -/
lemma Starts.offer_none (h : k.Starts s n st t) (ha : k.answer? t j = some true) (hj : j < i) :
    k.offer? t i = none := by
  cases hu : k.offer? t i with
  | none => rfl
  | some u =>
    obtain ⟨-, b, -, -, -, answers⟩ := h.refused_of_offer hu
    have accepted := mem_answers ha hj
    rw [answers, List.mem_replicate] at accepted
    cases accepted.2

end Chronicle

end SchemaCatalog
