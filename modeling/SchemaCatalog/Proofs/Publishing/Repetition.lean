import SchemaCatalog.Proofs.Publishing.Publication

/-!
# What comes of a redelivery

A task that repeats the failed deliveries of a node takes all of them out and makes them again, one
after another in the order in which they were kept, each to its own listener alone
(`Chronicle.Redelivery`). If meanwhile nothing else is recorded on the node and nothing is taken out
of its buffer, there is room for all that fail again (`Chronicle.Refilled`). So in redeliveries that
follow one another each delivery succeeds once or is still kept
(`Chronicle.redeliveries_account`). Two redeliveries at the same time get in each other's way
(`Chronicle.redeliveries_interfere`).
-/

namespace SchemaCatalog

namespace FailedDelivery

/-- The call by which a task makes a delivery again. -/
def call (t : Nat) (d : FailedDelivery) : CallRecord := ⟨t, d.listener, d.event⟩

/-- Who is told of what by a delivery. -/
def address (d : FailedDelivery) : String × Event := (d.listener, d.event)

/-- Of deliveries that were repeated, who was told of what with success. -/
def successes (l : List (FailedDelivery × CallResult)) : List (String × Event) :=
  (l.filter fun a => a.2 = .delivered).map fun a => a.1.address

/-- Of deliveries that were repeated, those that failed again, each with the new reason. -/
def failuresAgain (l : List (FailedDelivery × CallResult)) : List FailedDelivery :=
  l.filterMap fun a => a.1.again a.2

variable {l l' : List (FailedDelivery × CallResult)}

lemma failuresAgain_append :
    failuresAgain (l ++ l') = failuresAgain l ++ failuresAgain l' :=
  List.filterMap_append

/-- Each delivery that is repeated succeeds or fails again, and to fail again does not change whom
it is to, nor the order. -/
lemma successes_or_again (l : List (FailedDelivery × CallResult)) :
    List.Perm (l.map fun a => a.1.address) (successes l ++ (failuresAgain l).map address) ∧
      List.Sublist ((failuresAgain l).map address) (l.map fun a => a.1.address) := by
  induction l with
  | nil => exact ⟨.refl _, .refl _⟩
  | cons a l ih =>
    obtain ⟨perm, sublist⟩ := ih
    obtain ⟨d, r⟩ := a
    cases r with
    | delivered => exact ⟨perm.cons _, sublist.cons _⟩
    | failed reason => exact ⟨(perm.cons _).trans List.perm_middle.symm, sublist.cons_cons _⟩

/-- If all succeed none fails again. -/
lemma failuresAgain_eq_nil (h : ∀ a ∈ l, a.2 = .delivered) : failuresAgain l = [] := by
  rw [failuresAgain, List.filterMap_eq_nil_iff]
  intro a mem
  rw [h a mem]
  rfl

end FailedDelivery

/-- A delivery that is repeated now, with how it ends, if its listener answers. -/
def Fleet.attempt? (f : Fleet) (d : FailedDelivery) : Option (FailedDelivery × CallResult) :=
  (f.modes d.listener).reply?.map fun r => (d, r)

/-- Where a task stands that repeats deliveries, with those that it has still to repeat, the number
of those that have succeeded, and the one whose call is under way. -/
inductive Point.Repeats : Point → List FailedDelivery → Nat → List FailedDelivery → Prop where
  | next {rest : List FailedDelivery} {delivered : Nat} :
      Repeats (.redeliverRest rest delivered) rest delivered []
  | waits {current : FailedDelivery} {rest : List FailedDelivery} {delivered : Nat} :
      Repeats (.redelivering current rest delivered) (current :: rest) delivered [current]
  | ended {delivered : Nat} : Repeats (.ended (.delivered delivered)) [] delivered []

namespace Chronicle

/-- At this moment a task takes the failed deliveries of a node out, to repeat them. -/
structure Redelivers (k : Chronicle) (n t s : Nat) : Prop where
  happening : k.happenings s = .step t
  task : ∃ x, (k.fleet s).tasks[t]? = some x ∧ x.node = n ∧ x.point = .redeliver

/-- The failed deliveries that are kept on a node at this moment. -/
def buffer (k : Chronicle) (n i : Nat) : List FailedDelivery :=
  ((k.fleet i).node n).publisher.failed

/-- What a task that took the failed deliveries of a node out at the moment `s` is to have repeated
before another moment, and how that ended: in each of its steps the next delivery, unless the
listener is at the gate. -/
def repeated (k : Chronicle) (n t s : Nat) : Nat → List (FailedDelivery × CallResult)
  | 0 => []
  | i + 1 =>
    if s < i ∧ (k.happenings i).steps t then
      k.repeated n t s i ++
        (((k.buffer n s).drop (k.repeated n t s i).length).head?.bind (k.fleet i).attempt?).toList
    else k.repeated n t s i

/-- What the task has still to repeat at this moment. -/
def remaining (k : Chronicle) (n t s i : Nat) : List FailedDelivery :=
  (k.buffer n s).drop (k.repeated n t s i).length

/-- How many of the repeated deliveries have succeeded before this moment. -/
def delivered (k : Chronicle) (n t s i : Nat) : Nat :=
  (FailedDelivery.successes (k.repeated n t s i)).length

/-- How many steps the task has been given since then in which the next listener, if there was one,
was not at the gate. -/
def freeTurns (k : Chronicle) (n t s i : Nat) : Nat :=
  (List.range i).countP fun j => s < j && (k.happenings j).steps t &&
    (k.remaining n t s j).head?.all fun d => (k.fleet j).modes d.listener ≠ .gate

/-- Between two moments nothing is recorded on a node but what this task repeats, and nothing is
taken out of the buffer. -/
def Undisturbed (k : Chronicle) (n t s i : Nat) : Prop :=
  ∀ j, s < j → j < i → k.happenings j ≠ .step t →
    k.recordedAt n j = [] ∧ (k.drainsAt n j = true → k.buffer n j = [])

instance (k : Chronicle) (n t s i : Nat) : Decidable (k.Undisturbed n t s i) :=
  decidable_of_iff
    (∀ j, j < i → s < j → (k.happenings j).steps t = false →
      k.recordedAt n j = [] ∧ (k.drainsAt n j = true → k.buffer n j = []))
    ⟨fun h j hj hji move => h j hji hj (Bool.eq_false_iff.2 (mt Happening.steps_iff.1 move)),
      fun h j hji hj move => h j hj hji fun e => Bool.eq_false_iff.1 move (Happening.steps_iff.2 e)⟩

/-- What comes of a redelivery that a task begins at the moment `s`. -/
structure Redelivery (k : Chronicle) (n t s : Nat) : Prop where
  order : ∀ i, (k.repeated n t s i).map Prod.fst <+: k.buffer n s
  calls : ∀ i, s < i → k.callsBy t s i <+: (k.buffer n s).map (FailedDelivery.call t)
  records : ∀ j, s < j → k.happenings j = .step t → k.recordedAt n j = FailedDelivery.failuresAgain
    ((k.remaining n t s j).head?.bind (k.fleet j).attempt?).toList
  ends : ∀ i o, s < i → (k.fleet i).outcome? t = some o → o = .delivered (k.delivered n t s i) ∧
    (k.repeated n t s i).map Prod.fst = k.buffer n s ∧
    k.callsBy t s i = (k.buffer n s).map (FailedDelivery.call t)
  returns : ∀ i, s < i → (k.buffer n s).length < k.freeTurns n t s i →
    ((k.fleet i).outcome? t).isSome

/-- After repeated deliveries the buffer holds those that failed again, and these are counted. -/
structure Refilled (k : Chronicle) (n t s i : Nat) : Prop where
  buffer : k.buffer n i = FailedDelivery.failuresAgain (k.repeated n t s i)
  failures : ((k.fleet i).node n).publisher.failures = ((k.fleet s).node n).publisher.failures +
    (FailedDelivery.failuresAgain (k.repeated n t s i)).length

/-- Redeliveries on a node that follow one another: each has ended when the next one begins, and up
to then nothing disturbs it. -/
structure Rounds (k : Chronicle) (n m : Nat) (task start : Nat → Nat) : Prop where
  redelivers : ∀ r, r < m → k.Redelivers n (task r) (start r)
  follows : ∀ r, r < m → start r < start (r + 1)
  ends : ∀ r, r < m → ((k.fleet (start (r + 1))).outcome? (task r)).isSome
  undisturbed : ∀ r, r < m → k.Undisturbed n (task r) (start r) (start (r + 1))

/-- What is repeated in one of the redeliveries that follow one another. -/
def round (k : Chronicle) (n : Nat) (task start : Nat → Nat) (r : Nat) :
    List (FailedDelivery × CallResult) :=
  k.repeated n (task r) (start r) (start (r + 1))

/-- What comes of redeliveries that follow one another: each delivery that was kept at first has
succeeded once or is still kept, in the same order, and none is kept any more once all listeners
have answered in one of them that all is well. -/
structure Balance (k : Chronicle) (n m : Nat) (task start : Nat → Nat) : Prop where
  perm : List.Perm ((k.buffer n (start 0)).map FailedDelivery.address)
    ((List.range m).flatMap (fun r => FailedDelivery.successes (k.round n task start r)) ++
      (k.buffer n (start m)).map FailedDelivery.address)
  order : List.Sublist ((k.buffer n (start m)).map FailedDelivery.address)
    ((k.buffer n (start 0)).map FailedDelivery.address)
  empties : ∀ r, r < m → (∀ j, start r < j → j < start (r + 1) → k.happenings j = .step (task r) →
    ∀ d ∈ k.buffer n (start r), ((k.fleet j).modes d.listener).reply? = some .delivered) →
    k.buffer n (start m) = []

end Chronicle

namespace Point.Repeats

variable {p : Point} {rest called : List FailedDelivery} {done : Nat}

/-- A task that repeats deliveries has none left, or is to make a call or to wait for it. -/
lemma cases (h : p.Repeats rest done called) :
    (rest = [] ∧ called = [] ∧ (p = .redeliverRest [] done ∨ p = .ended (.delivered done))) ∨
      ∃ current pending, rest = current :: pending ∧
        p.redelivery? = some (current, pending, done) ∧
        ∀ listeners, called.map FailedDelivery.address ++ p.begins listeners =
          [current.address] := by
  cases h with
  | next =>
    cases rest with
    | nil => exact .inl ⟨rfl, rfl, .inl rfl⟩
    | cons current pending => exact .inr ⟨current, pending, rfl, rfl, fun _ => rfl⟩
  | waits => exact .inr ⟨_, _, rfl, rfl, fun _ => rfl⟩
  | ended => exact .inl ⟨rfl, rfl, .inr rfl⟩

/-- The call that is under way is that of the next delivery. -/
lemma called_prefix (h : p.Repeats rest done called) : called <+: rest := by
  cases h with
  | next => exact List.nil_prefix
  | waits => exact ⟨_, rfl⟩
  | ended => exact List.nil_prefix

lemma ne_redeliver (h : p.Repeats rest done called) : p ≠ .redeliver := by
  cases h with
  | next => exact Point.noConfusion
  | waits => exact Point.noConfusion
  | ended => exact Point.noConfusion

lemma ne_gather (h : p.Repeats rest done called) (event : Event) (calls : List Call)
    (after : AfterCalls) : p ≠ .gather event calls after := by
  cases h with
  | next => exact Point.noConfusion
  | waits => exact Point.noConfusion
  | ended => exact Point.noConfusion

end Point.Repeats

namespace Chronicle

section

variable {k : Chronicle} {n t s i j m r : Nat} {task start : Nat → Nat}

/-! ## What is repeated -/

lemma repeated_step (h : s < i) (move : k.happenings i = .step t) :
    k.repeated n t s (i + 1) =
      k.repeated n t s i ++ ((k.remaining n t s i).head?.bind (k.fleet i).attempt?).toList :=
  if_pos ⟨h, Happening.steps_iff.2 move⟩

lemma repeated_still (move : k.happenings i ≠ .step t) :
    k.repeated n t s (i + 1) = k.repeated n t s i :=
  if_neg fun both => move (Happening.steps_iff.1 both.2)

lemma repeated_start (k : Chronicle) (n t s : Nat) : k.repeated n t s (s + 1) = [] := by
  suffices blank : ∀ i, i ≤ s + 1 → k.repeated n t s i = [] from blank _ (Nat.le_refl _)
  intro i hi
  induction i with
  | zero => rfl
  | succ i ih =>
    rw [repeated, if_neg fun both => Nat.not_lt.2 (Nat.le_of_succ_le_succ hi) both.1]
    exact ih (Nat.le_of_succ_le hi)

/-- In a step the next delivery is repeated, and the others remain, if the listener answers. -/
lemma repeated_answer {d : FailedDelivery} {rest : List FailedDelivery} (h : s < i)
    (move : k.happenings i = .step t) (hd : k.remaining n t s i = d :: rest) :
    match ((k.fleet i).modes d.listener).reply? with
    | some r => k.repeated n t s (i + 1) = k.repeated n t s i ++ [(d, r)] ∧
        k.remaining n t s (i + 1) = rest
    | none => k.repeated n t s (i + 1) = k.repeated n t s i ∧
        k.remaining n t s (i + 1) = d :: rest := by
  have next := repeated_step (n := n) h move
  rw [hd, List.head?_cons, Option.bind_some, Fleet.attempt?] at next
  cases reply : ((k.fleet i).modes d.listener).reply? with
  | none =>
    rw [reply] at next
    have same : k.repeated n t s (i + 1) = k.repeated n t s i := next.trans (List.append_nil _)
    exact ⟨same, by rw [remaining, same, ← hd, remaining]⟩
  | some r =>
    rw [reply] at next
    refine ⟨next, ?_⟩
    rw [remaining, next]
    rw [remaining] at hd
    rw [List.length_append, ← List.drop_drop, hd]
    rfl

/-- From one moment to the next nothing is repeated, or the next delivery is. -/
lemma repeated_succ (k : Chronicle) (n t s i : Nat) :
    (k.repeated n t s (i + 1) = k.repeated n t s i ∧
        k.remaining n t s (i + 1) = k.remaining n t s i) ∨
      (s < i ∧ k.happenings i = .step t ∧ ∃ d rest r, k.remaining n t s i = d :: rest ∧
        ((k.fleet i).modes d.listener).reply? = some r ∧
        k.repeated n t s (i + 1) = k.repeated n t s i ++ [(d, r)] ∧
        k.remaining n t s (i + 1) = rest) := by
  have still : k.repeated n t s (i + 1) = k.repeated n t s i →
      k.repeated n t s (i + 1) = k.repeated n t s i ∧
        k.remaining n t s (i + 1) = k.remaining n t s i := by
    intro same
    refine ⟨same, ?_⟩
    rw [remaining, same, remaining]
  by_cases now : s < i ∧ k.happenings i = .step t
  · obtain ⟨hi, move⟩ := now
    cases hd : k.remaining n t s i with
    | nil =>
      have none := repeated_step (n := n) hi move
      rw [hd] at none
      exact .inl (hd ▸ still (none.trans (List.append_nil _)))
    | cons d rest =>
      have answer := repeated_answer hi move hd
      split at answer
      · rename_i r reply
        exact .inr ⟨hi, move, d, rest, r, rfl, reply, answer⟩
      · exact .inl answer
  · exact .inl (still (if_neg fun both => now ⟨both.1, Happening.steps_iff.1 both.2⟩))

/-- What was repeated and what remains make up what was taken out. -/
lemma repeated_append_remaining (k : Chronicle) (n t s i : Nat) :
    (k.repeated n t s i).map Prod.fst ++ k.remaining n t s i = k.buffer n s := by
  induction i with
  | zero => rfl
  | succ i ih =>
    obtain ⟨same, rest⟩ | ⟨-, -, d, rest, r, hd, -, next, rest'⟩ := k.repeated_succ n t s i
    · rw [same, rest, ih]
    · rw [hd] at ih
      rw [next, rest', List.map_append, List.append_assoc]
      exact ih

/-- If all listeners answer that all is well, all that is repeated succeeds. -/
lemma repeated_well (well : ∀ j, s < j → j < i → k.happenings j = .step t →
    ∀ d ∈ k.buffer n s, ((k.fleet j).modes d.listener).reply? = some .delivered) :
    ∀ a ∈ k.repeated n t s i, a.2 = .delivered := by
  induction i with
  | zero => exact fun a mem => absurd mem List.not_mem_nil
  | succ i ih =>
    have before := ih fun j hj hji => well j hj (Nat.lt_succ_of_lt hji)
    obtain ⟨same, -⟩ | ⟨hi, move, d, rest, r, hd, reply, next, -⟩ := k.repeated_succ n t s i
    · rwa [same]
    · have mem : d ∈ k.buffer n s := List.mem_of_mem_drop (hd ▸ List.mem_cons_self)
      rw [well i hi (Nat.lt_succ_self i) move d mem] at reply
      cases reply
      intro a mem
      rw [next, List.mem_append, List.mem_singleton] at mem
      rcases mem with mem | rfl
      · exact before a mem
      · rfl

lemma repeated_length_le (k : Chronicle) (n t s i : Nat) :
    (k.repeated n t s i).length ≤ (k.buffer n s).length := by
  rw [← k.repeated_append_remaining n t s i, List.length_append, List.length_map]
  exact Nat.le_add_right ..

lemma delivered_congr (h : k.repeated n t s j = k.repeated n t s i) :
    k.delivered n t s j = k.delivered n t s i := by
  rw [delivered, h, delivered]

/-- A delivery that is repeated counts if it succeeds. -/
lemma delivered_concat {d : FailedDelivery} {r : CallResult}
    (h : k.repeated n t s j = k.repeated n t s i ++ [(d, r)]) :
    k.delivered n t s j =
      if r = .delivered then k.delivered n t s i + 1 else k.delivered n t s i := by
  rw [delivered, h, FailedDelivery.successes, List.filter_append, List.map_append,
    List.length_append]
  cases r with
  | delivered => rfl
  | failed reason => rfl

/-! ## The task -/

/-- Where a task stands that took the failed deliveries out at the moment `s`, and the calls that it
has begun. -/
def Repeating (k : Chronicle) (n t s i : Nat) : Prop :=
  ∃ x called, (k.fleet i).tasks[t]? = some x ∧ x.node = n ∧
    x.point.Repeats (k.remaining n t s i) (k.delivered n t s i) called ∧
    k.callsBy t s i = ((k.repeated n t s i).map Prod.fst ++ called).map (FailedDelivery.call t)

lemma Redelivers.begins (h : k.Redelivers n t s) :
    k.Repeating n t s (s + 1) ∧ k.recordedAt n s = [] ∧ k.drainsAt n s = true := by
  obtain ⟨x, hx, rfl, hp⟩ := h.task
  have moved := Fleet.says_redeliver (k.gated s) hx hp
  rw [← befall_step h.happening] at moved
  obtain ⟨y, hy, node, point⟩ := moved.own
  refine ⟨⟨y, [], hy, node, ?_, ?_⟩, ?_, ?_⟩
  · rw [point, remaining, delivered, repeated_start]
    exact .next
  · rw [callsBy_step (Nat.le_refl s) h.happening hx, callsBy_self, repeated_start, hp]
    rfl
  · rw [recordedAt_of_step h.happening hx,
      Fleet.reports_eq_nil hx (hp ▸ rfl) fun _ _ _ => hp ▸ Point.noConfusion]
  · rw [drainsAt, h.happening, Fleet.drains, hx, Option.any_some, hp]
    simp

/-- A task with nothing left to repeat has ended after its next step. -/
lemma Repeating.ended (h : k.Repeating n t s i) (move : k.happenings i = .step t)
    (none : k.remaining n t s i = []) :
    ∃ y, (k.fleet (i + 1)).tasks[t]? = some y ∧ y.node = n ∧
      y.point = .ended (.delivered (k.delivered n t s i)) := by
  obtain ⟨x, called, hx, hn, hp, -⟩ := h
  rw [none] at hp
  obtain ⟨-, -, e | e⟩ | ⟨current, pending, some, -⟩ := hp.cases
  · have moved := Fleet.says_redelivered (k.gated i) hx e
    rw [← befall_step move] at moved
    obtain ⟨y, hy, node, point⟩ := moved.own
    exact ⟨y, hy, node.trans hn, point⟩
  · obtain ⟨y, hy, node, same⟩ := (k.keeps i).task t x hx
    exact ⟨y, hy, node.trans hn, (same (.inr (by rw [Task.outcome?, e]; rfl))).trans e⟩
  · cases some

/-- One moment later. -/
lemma Repeating.succ (h : k.Repeating n t s i) (hi : s < i) : k.Repeating n t s (i + 1) := by
  obtain ⟨x, called, hx, hn, hp, calls⟩ := id h
  -- Only a step of the task itself repeats anything.
  by_cases move : k.happenings i = .step t
  · obtain ⟨none, rfl, stops⟩ | ⟨current, pending, some, redelivery, begins⟩ := hp.cases
    · -- Nothing remains to be repeated, so the task ends.
      have same : k.repeated n t s (i + 1) = k.repeated n t s i := by
        rw [repeated_step hi move, none]
        exact List.append_nil _
      obtain ⟨y, hy, node, point⟩ := h.ended move none
      refine ⟨y, [], hy, node, ?_, ?_⟩
      · rw [point, delivered_congr same, remaining, same, ← remaining, none]
        exact .ended
      · rw [callsBy_step (Nat.le_of_lt hi) move hx, calls, same]
        rcases stops with e | e
        · rw [e]
          exact List.append_nil _
        · rw [e]
          exact List.append_nil _
    · have moved := Fleet.says_redelivery (k.gated i) hx redelivery
      rw [← befall_step move] at moved
      obtain ⟨y, hy, node, point⟩ := moved.own
      have answer := repeated_answer hi move some
      have made : k.callsBy t s (i + 1) =
          ((k.repeated n t s i).map Prod.fst ++ [current]).map (FailedDelivery.call t) := by
        have call := congrArg (List.map fun c => (⟨t, c.1, c.2⟩ : CallRecord))
          (begins ((k.fleet i).node x.node).publisher.listenersOf)
        rw [List.map_append, List.map_map] at call
        rw [callsBy_step (Nat.le_of_lt hi) move hx, calls, List.map_append, List.append_assoc,
          List.map_append]
        exact congrArg _ call
      -- At a gate the call waits. Otherwise it is answered, and the next one is due.
      cases reply : ((k.fleet i).modes current.listener).reply? with
      | none =>
        rw [reply] at point answer
        refine ⟨y, [current], hy, node.trans hn, ?_, ?_⟩
        · rw [point, answer.2, delivered_congr answer.1]
          exact .waits
        · rw [made, answer.1]
      | some r =>
        rw [reply] at point answer
        refine ⟨y, [], hy, node.trans hn, ?_, ?_⟩
        · rw [point, answer.2, delivered_concat answer.1]
          exact .next
        · simp only [made, answer.1, List.map_append, List.map_cons, List.map_nil, List.append_nil]
  · obtain ⟨y, hy, node, same⟩ := (k.keeps i).task t x hx
    refine ⟨y, called, hy, node.trans hn, ?_, ?_⟩
    · rw [same (.inl move), remaining, delivered, repeated_still move]
      exact hp
    · rw [callsBy_still (Nat.le_of_lt hi) move, repeated_still move, calls]

lemma Redelivers.repeating (h : k.Redelivers n t s) (hi : s < i) : k.Repeating n t s i := by
  induction hi with
  | refl => exact h.begins.1
  | @step i hi ih => exact ih.succ hi

/-- In a step what is repeated is recorded if it fails again. -/
lemma Repeating.records (h : k.Repeating n t s i) (move : k.happenings i = .step t) :
    k.drainsAt n i = false ∧ k.recordedAt n i = FailedDelivery.failuresAgain
      ((k.remaining n t s i).head?.bind (k.fleet i).attempt?).toList := by
  obtain ⟨x, called, hx, rfl, hp, -⟩ := h
  have other := hp.ne_redeliver
  refine ⟨?_, ?_⟩
  · rw [drainsAt, move, Fleet.drains, hx, Option.any_some, decide_eq_false other, Bool.and_false]
  · rw [recordedAt_of_step move hx]
    obtain ⟨none, -, stops⟩ | ⟨current, pending, some, redelivery, -⟩ := hp.cases
    · rw [none, Fleet.reports_eq_nil hx ?_ hp.ne_gather]
      · rfl
      · rcases stops with e | e
        · rw [e]
          rfl
        · rw [e]
          rfl
    · rw [some, Fleet.reports_of_redelivery hx redelivery, List.head?_cons, Option.bind_some,
        Fleet.attempt?]
      cases ((k.fleet i).modes current.listener).reply? with
      | none => rfl
      | some r => cases r <;> rfl

/-- The calls that were begun are those to the first of what was taken out. -/
lemma Repeating.calls (h : k.Repeating n t s i) :
    k.callsBy t s i <+: (k.buffer n s).map (FailedDelivery.call t) := by
  obtain ⟨x, called, -, -, hp, calls⟩ := h
  rw [calls, ← k.repeated_append_remaining n t s i]
  exact ((List.prefix_append_right_inj _).2 hp.called_prefix).map _

/-- A task that has ended has repeated all, and tells how many have succeeded. -/
lemma Repeating.ends {o : Outcome} (h : k.Repeating n t s i)
    (ho : (k.fleet i).outcome? t = some o) :
    o = .delivered (k.delivered n t s i) ∧ (k.repeated n t s i).map Prod.fst = k.buffer n s ∧
      k.callsBy t s i = (k.buffer n s).map (FailedDelivery.call t) := by
  obtain ⟨x, called, hx, -, hp, calls⟩ := h
  have all := k.repeated_append_remaining n t s i
  rw [Fleet.outcome?, hx, Option.bind_some] at ho
  rw [Task.point_of_outcome ho] at hp
  generalize k.remaining n t s i = rest at hp all
  cases hp with
  | ended =>
    rw [List.append_nil] at all calls
    exact ⟨rfl, all, all ▸ calls⟩

lemma freeTurns_start (k : Chronicle) (n t s : Nat) : k.freeTurns n t s (s + 1) = 0 := by
  rw [freeTurns, List.countP_eq_zero]
  intro j hj
  rw [List.mem_range] at hj
  simp [Nat.not_lt.2 (Nat.le_of_lt_succ hj)]

lemma freeTurns_succ (k : Chronicle) (n t s i : Nat) :
    k.freeTurns n t s (i + 1) = k.freeTurns n t s i ∨
      (k.freeTurns n t s (i + 1) = k.freeTurns n t s i + 1 ∧ k.happenings i = .step t ∧
        ∀ d ∈ (k.remaining n t s i).head?, (k.fleet i).modes d.listener ≠ .gate) := by
  rw [freeTurns, List.range_succ, List.countP_append, List.countP_singleton, freeTurns]
  split
  · rename_i free
    simp only [Bool.and_eq_true, decide_eq_true_eq, Option.all_eq_true, Happening.steps_iff] at free
    exact .inr ⟨rfl, free.1.2, free.2⟩
  · exact .inl rfl

/-- In each step in which the next listener is not at the gate a task repeats a delivery, or it has
ended. -/
lemma Redelivers.pace (h : k.Redelivers n t s) (hi : s < i) :
    ((k.fleet i).outcome? t).isSome ∨ k.freeTurns n t s i ≤ (k.repeated n t s i).length := by
  induction hi with
  | refl =>
    right
    rw [freeTurns_start]
    exact Nat.zero_le _
  | @step i hi ih =>
    rcases ih with ended | pace
    · left
      obtain ⟨o, ho⟩ := Option.isSome_iff_exists.1 ended
      rw [outcome_le (Nat.le_succ i) ho]
      rfl
    · obtain same | ⟨more, move, free⟩ := k.freeTurns_succ n t s i
      · right
        rw [same]
        obtain ⟨still, -⟩ | ⟨-, -, d, rest, r, -, -, next, -⟩ := k.repeated_succ n t s i
        · rwa [still]
        · rw [next, List.length_append]
          exact Nat.le_trans pace (Nat.le_add_right ..)
      · -- A free turn repeats the delivery that is due, or ends the task if none is left.
        cases hd : k.remaining n t s i with
        | nil =>
          obtain ⟨z, hz, -, point⟩ := (h.repeating hi).ended move hd
          left
          rw [Fleet.outcome?, hz, Option.bind_some, Task.outcome?, point]
          rfl
        | cons d rest =>
          obtain ⟨r, reply⟩ := Option.isSome_iff_exists.1
            (Mode.reply?_isSome.2 (free d (hd ▸ rfl)))
          have answer := repeated_answer hi move hd
          rw [reply] at answer
          right
          rw [more, answer.1, List.length_append]
          exact Nat.succ_le_succ pace

/-- What comes of each redelivery. -/
lemma Redelivers.carriedOut (h : k.Redelivers n t s) : k.Redelivery n t s where
  order i := ⟨_, k.repeated_append_remaining n t s i⟩
  calls _ hi := (h.repeating hi).calls
  records _ hj move := ((h.repeating hj).records move).2
  ends _ _ hi ho := (h.repeating hi).ends ho
  returns i hi enough := by
    rcases h.pace hi with ended | pace
    · exact ended
    · have le := Nat.le_trans pace (k.repeated_length_le n t s i)
      exact absurd enough (Nat.not_lt.2 le)

/-! ## The buffer -/

/-- There is a node, and it has room for all that it keeps. -/
lemma Redelivers.room (h : k.Redelivers n t s) : n < (k.fleet s).nodes.length ∧
    (k.buffer n s).length ≤ ((k.fleet s).node n).publisher.capacity.val := by
  obtain ⟨x, hx, rfl, -⟩ := h.task
  have there := k.placed s t x hx
  exact ⟨there, (k.account there).keeps.length_le⟩

/-- What fails again has room, whatever fails. -/
lemma Redelivers.again_le (h : k.Redelivers n t s) (hi : s ≤ i) :
    (FailedDelivery.failuresAgain (k.repeated n t s i)).length ≤
      ((k.fleet i).node n).publisher.capacity.val := by
  obtain ⟨there, room⟩ := h.room
  rw [capacity_le hi there]
  exact Nat.le_trans (List.length_filterMap_le ..)
    (Nat.le_trans (k.repeated_length_le n t s i) room)

/-- Undisturbed, a node keeps and counts what has failed again since its buffer was taken out. -/
lemma Redelivers.keeps (h : k.Redelivers n t s) (hi : s < i) (still : k.Undisturbed n t s i) :
    ((k.fleet i).node n).publisher.Keeps (FailedDelivery.failuresAgain (k.repeated n t s i)) ∧
      ((k.fleet i).node n).publisher.failures = ((k.fleet s).node n).publisher.failures +
        (FailedDelivery.failuresAgain (k.repeated n t s i)).length := by
  obtain ⟨there, -⟩ := h.room
  -- The induction is on the moments. A step of the task records what it repeats if that fails
  -- again, and nothing else records or takes anything out.
  induction hi with
  | refl =>
    obtain ⟨-, records, drains⟩ := h.begins
    obtain ⟨failures, -, keeps⟩ := k.publisher_succ there
    have kept := keeps _ (k.account there).keeps
    rw [if_pos drains] at kept
    rw [failures, records, repeated_start]
    exact ⟨kept, rfl⟩
  | @step i hi ih =>
    obtain ⟨kept, counted⟩ := ih fun j hj hji => still j hj (Nat.lt_succ_of_lt hji)
    have here := Nat.lt_of_lt_of_le there (nodes_le (Nat.le_of_lt hi))
    obtain ⟨failures, -, keeps⟩ := k.publisher_succ here
    have kept' := keeps _ kept
    by_cases move : k.happenings i = .step t
    · obtain ⟨drains, records⟩ := (h.repeating hi).records move
      have again : FailedDelivery.failuresAgain (k.repeated n t s (i + 1)) =
          FailedDelivery.failuresAgain (k.repeated n t s i) ++ k.recordedAt n i := by
        rw [repeated_step hi move, FailedDelivery.failuresAgain_append, records]
      rw [if_neg (drains ▸ Bool.false_ne_true)] at kept'
      rw [again, failures, counted, List.length_append, Nat.add_assoc]
      exact ⟨kept', rfl⟩
    · obtain ⟨records, drains⟩ := still i hi (Nat.lt_succ_self i) move
      rw [repeated_still move, failures, records]
      refine ⟨?_, counted⟩
      rw [records, List.append_nil] at kept'
      by_cases drained : k.drainsAt n i = true
      · -- Only what is empty is taken out.
        have none := (kept.all (h.again_le (Nat.le_of_lt hi))).symm.trans (drains drained)
        rw [if_pos drained] at kept'
        rwa [none]
      · rwa [if_neg drained] at kept'

lemma Redelivers.refilled (h : k.Redelivers n t s) (hi : s < i) (still : k.Undisturbed n t s i) :
    k.Refilled n t s i := by
  obtain ⟨keeps, counted⟩ := h.keeps hi still
  exact ⟨keeps.all (h.again_le (Nat.le_of_lt hi)), counted⟩

/-! ## Redeliveries that follow one another -/

/-- What a redelivery does to the buffer. -/
lemma Rounds.succ (h : k.Rounds n m task start) (hr : r < m) :
    (k.round n task start r).map Prod.fst = k.buffer n (start r) ∧
      k.buffer n (start (r + 1)) = FailedDelivery.failuresAgain (k.round n task start r) := by
  have redelivers := h.redelivers r hr
  obtain ⟨o, ho⟩ := Option.isSome_iff_exists.1 (h.ends r hr)
  exact ⟨((redelivers.repeating (h.follows r hr)).ends ho).2.1,
    (redelivers.refilled (h.follows r hr) (h.undisturbed r hr)).buffer⟩

/-- In a redelivery each delivery that is kept succeeds or fails again. -/
lemma Rounds.shares (h : k.Rounds n m task start) (hr : r < m) :
    List.Perm ((k.buffer n (start r)).map FailedDelivery.address)
        (FailedDelivery.successes (k.round n task start r) ++
          (k.buffer n (start (r + 1))).map FailedDelivery.address) ∧
      List.Sublist ((k.buffer n (start (r + 1))).map FailedDelivery.address)
        ((k.buffer n (start r)).map FailedDelivery.address) := by
  obtain ⟨all, again⟩ := h.succ hr
  rw [again, ← all, List.map_map]
  exact FailedDelivery.successes_or_again _

lemma Rounds.order (h : k.Rounds n m task start) {b : Nat} (hr : r ≤ b) (hb : b ≤ m) :
    List.Sublist ((k.buffer n (start b)).map FailedDelivery.address)
      ((k.buffer n (start r)).map FailedDelivery.address) := by
  induction hr with
  | refl => exact .refl _
  | @step b _ ih => exact (h.shares hb).2.trans (ih (Nat.le_of_succ_le hb))

lemma Rounds.perm (h : k.Rounds n m task start) {b : Nat} (hb : b ≤ m) :
    List.Perm ((k.buffer n (start 0)).map FailedDelivery.address)
      ((List.range b).flatMap (fun r => FailedDelivery.successes (k.round n task start r)) ++
        (k.buffer n (start b)).map FailedDelivery.address) := by
  induction b with
  | zero => exact .refl _
  | succ b ih =>
    rw [List.range_succ, List.flatMap_append, List.flatMap_singleton, List.append_assoc]
    exact (ih (Nat.le_of_succ_le hb)).trans ((h.shares hb).1.append_left _)

/-- Once all listeners have answered in a redelivery that all is well, the buffer stays empty. -/
lemma Rounds.empties (h : k.Rounds n m task start) (hr : r < m)
    (well : ∀ j, start r < j → j < start (r + 1) → k.happenings j = .step (task r) →
      ∀ d ∈ k.buffer n (start r), ((k.fleet j).modes d.listener).reply? = some .delivered) :
    k.buffer n (start m) = [] := by
  have none : k.buffer n (start (r + 1)) = [] := by
    rw [(h.succ hr).2]
    exact FailedDelivery.failuresAgain_eq_nil (repeated_well well)
  have order := h.order (Nat.succ_le_of_lt hr) (Nat.le_refl m)
  rw [none] at order
  exact List.map_eq_nil_iff.1 (List.sublist_nil.1 order)

lemma Rounds.balance (h : k.Rounds n m task start) : k.Balance n m task start where
  perm := h.perm (Nat.le_refl m)
  order := h.order (Nat.zero_le m) (Nat.le_refl m)
  empties _ hr well := h.empties hr well

end

/-- A redelivery makes each failed delivery that it takes out once, in order and to its listener
alone, and tells how many have succeeded. If nothing else is recorded meanwhile and nothing taken
out, the buffer holds in the end those that failed again, and these are counted. Of redeliveries
that follow one another none repeats what has succeeded. -/
theorem redeliveries_account (k : Chronicle) (n : Nat) :
    (∀ t s, k.Redelivers n t s → k.Redelivery n t s ∧
      ∀ i, s < i → k.Undisturbed n t s i → k.Refilled n t s i) ∧
    ∀ m task start, k.Rounds n m task start → k.Balance n m task start :=
  ⟨fun _ _ h => ⟨h.carriedOut, fun _ hi still => h.refilled hi still⟩, fun _ _ _ h => h.balance⟩

/-! ## Two redeliveries, one after the other -/

/-- Room for two failed deliveries. -/
def small : Config := { Config.unset with failureBuffer := 2 }

/-- An event is published to two listeners who both fail. When the deliveries are repeated the first
one fails for another reason, and the second one succeeds after it has waited at the gate. When they
are repeated once more the first one succeeds, too. -/
def retried : Chronicle where
  clock := Clock.unset
  happenings := fun
    | 0 => .join small .shared
    | 1 => .request 0 .zero (.listen "first" [.zoneDrop] (.fail "closed"))
    | 2 => .request 0 .zero (.listen "second" [.zoneDrop] .crash)
    | 3 => .request 0 .zero (.publish (.dropZone 7) ⟨1⟩ ⟨1⟩)
    | 4 => .step 0
    | 5 => .step 0
    | 6 => .request 0 .zero (.setMode "first" (.fail "shut"))
    | 7 => .request 0 .zero (.setMode "second" .gate)
    | 8 => .request 0 .zero .redeliver
    | 9 => .step 1
    | 10 => .step 1
    | 11 => .step 1
    | 12 => .request 0 .zero (.setMode "second" .succeed)
    | 13 => .step 1
    | 14 => .step 1
    | 15 => .request 0 .zero (.setMode "first" .succeed)
    | 16 => .request 0 .zero .redeliver
    | _ => .step 2

/-- The tasks that repeat deliveries. -/
def retriedBy (r : Nat) : Nat := r + 1

/-- When they take them out, and when all is over. -/
def retriedFrom : Nat → Nat
  | 0 => 9
  | 1 => 17
  | _ => 20

lemma retried_rounds : retried.Rounds 0 2 retriedBy retriedFrom where
  redelivers r hr := by
    obtain rfl | rfl : r = 0 ∨ r = 1 := by omega
    · exact ⟨rfl, ⟨0, .redeliver, none⟩, rfl, rfl, rfl⟩
    · exact ⟨rfl, ⟨0, .redeliver, none⟩, rfl, rfl, rfl⟩
  follows r hr := by
    obtain rfl | rfl : r = 0 ∨ r = 1 := by omega
    · decide
    · decide
  ends r hr := by
    obtain rfl | rfl : r = 0 ∨ r = 1 := by omega
    · decide +kernel
    · decide +kernel
  undisturbed r hr := by
    obtain rfl | rfl : r = 0 ∨ r = 1 := by omega
    · decide +kernel
    · decide +kernel

theorem redeliveries_account_retried :
    (retried.fleet 15).outcome? 1 = some (.delivered 1) ∧
    retried.callsBy 1 9 15 = [⟨1, "first", zoneDropped⟩, ⟨1, "second", zoneDropped⟩] ∧
    retried.buffer 0 15 = [⟨zoneDropped, "first", "shut"⟩] ∧
    ((retried.fleet 15).node 0).publisher.failures = 3 ∧
    retried.Balance 0 2 retriedBy retriedFrom ∧
    retried.buffer 0 20 = [] := by
  obtain ⟨each, all⟩ := redeliveries_account retried 0
  have redelivers := retried_rounds.redelivers 0 (by decide)
  obtain ⟨redelivery, refilled⟩ := each 1 9 redelivers
  have ended := redelivery.returns 15 (by decide) (by decide +kernel)
  obtain ⟨o, ho⟩ := Option.isSome_iff_exists.1 ended
  obtain ⟨told, -, calls⟩ := redelivery.ends 15 o (by decide) ho
  have refilled := refilled 15 (by decide) (by decide +kernel)
  have well : ∀ j, j < 20 → 17 < j → ∀ d ∈ retried.buffer 0 17,
      ((retried.fleet j).modes d.listener).reply? = some .delivered := by decide +kernel
  have balance := all 2 retriedBy retriedFrom retried_rounds
  refine ⟨?_, ?_, ?_, ?_, balance, balance.empties 1 (by decide) fun j hj hj' _ => well j hj' hj⟩
  · rw [ho, told]
    decide +kernel
  · rw [calls]
    decide +kernel
  · rw [refilled.buffer]
    decide +kernel
  · rw [refilled.failures]
    decide +kernel

/-! ## Two redeliveries at the same time -/

/-- An event is published to two listeners who both fail. While a redelivery, in which the first
delivery has failed again, waits for the second one, another redelivery makes the first one with
success. -/
def shared : Chronicle where
  clock := Clock.unset
  happenings := fun
    | 0 => .join Config.unset .shared
    | 1 => .request 0 .zero (.listen "first" [.zoneDrop] (.fail "closed"))
    | 2 => .request 0 .zero (.listen "second" [.zoneDrop] (.fail "busy"))
    | 3 => .request 0 .zero (.publish (.dropZone 7) ⟨1⟩ ⟨1⟩)
    | 4 => .step 0
    | 5 => .step 0
    | 6 => .request 0 .zero (.setMode "second" .gate)
    | 7 => .request 0 .zero .redeliver
    | 8 => .step 1
    | 9 => .step 1
    | 10 => .step 1
    | 11 => .request 0 .zero (.setMode "first" .succeed)
    | 12 => .request 0 .zero .redeliver
    | 13 => .step 2
    | 14 => .step 2
    | 15 => .step 2
    | 16 => .request 0 .zero (.setMode "second" .succeed)
    | _ => .step 1

/-- A redelivery begins when a call of a publication has failed that is recorded only during the
redelivery. -/
def late : Chronicle where
  clock := Clock.unset
  happenings := fun
    | 0 => .join Config.unset .shared
    | 1 => .request 0 .zero (.listen "second" [.zoneDrop] (.fail "busy"))
    | 2 => .request 0 .zero (.publish (.dropZone 7) ⟨1⟩ ⟨1⟩)
    | 3 => .step 0
    | 4 => .step 0
    | 5 => .request 0 .zero (.listen "first" [.zoneDrop] (.fail "closed"))
    | 6 => .request 0 .zero (.setMode "second" .gate)
    | 7 => .request 0 .zero (.publish (.dropZone 7) ⟨1⟩ ⟨1⟩)
    | 8 => .step 1
    | 9 => .request 0 .zero .redeliver
    | 10 => .step 2
    | 11 => .step 2
    | 12 => .request 0 .zero (.setMode "second" .succeed)
    | 13 => .step 1
    | _ => .step 2

/-- The buffer need not hold what has failed again in a redelivery during which no other delivery is
recorded, nor need it hold nothing else if the other deliveries have failed before. -/
theorem redeliveries_interfere :
    (shared.Redelivers 0 1 8 ∧
      (∀ j, j < 19 → 8 < j → (shared.happenings j).steps 1 = false → shared.recordedAt 0 j = []) ∧
      (shared.fleet 19).outcome? 1 = some (.delivered 1) ∧
      FailedDelivery.failuresAgain (shared.repeated 0 1 8 19) =
        [⟨zoneDropped, "first", "closed"⟩] ∧
      shared.buffer 0 19 = []) ∧
    late.Redelivers 0 2 10 ∧
      (late.fleet 10).tasks[1]?.map Task.point = some (.gather zoneDropped
        [⟨"second", none⟩, ⟨"first", some (.failed "closed")⟩] .report) ∧
      (late.fleet 12).modes "second" = .gate ∧ (late.fleet 13).modes "second" = .succeed ∧
      (late.fleet 16).outcome? 2 = some (.delivered 1) ∧
      FailedDelivery.failuresAgain (late.repeated 0 2 10 16) = [] ∧
      late.buffer 0 16 = [⟨zoneDropped, "first", "closed"⟩] := by
  refine ⟨⟨⟨rfl, ⟨0, .redeliver, none⟩, rfl, rfl, rfl⟩, ?_⟩,
    ⟨rfl, ⟨0, .redeliver, none⟩, rfl, rfl, rfl⟩, ?_⟩
  · decide +kernel
  · decide +kernel

end Chronicle

end SchemaCatalog
