import Mathlib.Data.List.Basic
import SchemaCatalog.Proofs.Chronicle.Pace
import SchemaCatalog.Proofs.Chronicle.Verdicts

/-!
# A statement commits at most once

Whatever its log answers, a statement makes at most ten offers, each drafted on the latest catalog,
and none after one was accepted. With a verdict it ends only if none was accepted, and it gives up
exactly when ten were refused and it waited after each (`Chronicle.saves_once`).
-/

namespace SchemaCatalog

namespace Chronicle

/-- How many steps of a task are to be made between two moments. -/
def turns (k : Chronicle) (t s i : Nat) : Nat :=
  (List.range i).countP fun j => s < j && (k.happenings j).steps t

/-- Between two moments nothing but the steps of a task changes a node, or what is committed. -/
def Idles (k : Chronicle) (n t s i : Nat) : Prop :=
  ∀ j, s < j → j < i → k.happenings j ≠ .step t →
    (k.fleet (j + 1)).node n = (k.fleet j).node n ∧
      (k.fleet (j + 1)).storage = (k.fleet j).storage

variable {k : Chronicle} {s n t i j d r : Nat} {st : Statement} {x y : Task} {u : Update}
  {c : Catalog} {e : Error} {o : Outcome}

/-! ## Refusals ahead of an idle node -/

lemma turns_succ (k : Chronicle) (t : Nat) (hi : s < i) :
    k.turns t s (i + 1) = k.turns t s i + ((k.happenings i).steps t).toNat := by
  simp only [turns, List.range_succ, List.countP_append, List.countP_singleton, hi, decide_true,
    Bool.true_and]
  cases (k.happenings i).steps t <;> rfl

lemma turns_start (k : Chronicle) (t s : Nat) : k.turns t s (s + 1) = 0 := by
  rw [turns, List.countP_eq_zero]
  intro j hj
  rw [List.mem_range] at hj
  simp only [Bool.and_eq_true, decide_eq_true_eq, not_and]
  omega

/-- While the log refuses what it is offered by itself, the task of a statement stands where the
number of its steps says. -/
lemma Starts.paced (h : k.Starts s n st t) (primed : (k.fleet s).Primed n r st u) (hi : s < i)
    (idle : k.Idles n t s i) (hr : k.turns t s i ≤ 4 * r + 1)
    (hm : k.turns t s i < 4 * maxAttempts) :
    ∃ x, (k.fleet i).tasks[t]? = some x ∧ x.node = n ∧
      (k.fleet s).Paced (k.fleet i) n r st u (k.turns t s i) x.point := by
  -- The induction is on the moments. Only a turn of the task counts, and the others leave it be.
  induction hi with
  | refl =>
    refine ⟨_, h.begins, rfl, ?_⟩
    rw [turns_start]
    obtain ⟨skew, move⟩ := h.happening
    have spawned : k.fleet (s + 1) = (k.fleet s).spawn n (.draft st 1) := by
      rw [fleet, move, Fleet.befall, if_pos h.node]
      rfl
    have holds : (k.fleet s).Holds (k.fleet (s + 1)) n r :=
      primed.holds.congr (by rw [spawned]; rfl) (by rw [spawned]; rfl)
    exact .draft (a := 0) (Nat.zero_le _) (by decide) holds
  | @step i hi ih =>
    rw [turns_succ k t hi] at hr hm ⊢
    obtain ⟨x, hx, hn, paced⟩ := ih (fun j hsj hji => idle j hsj (Nat.lt_succ_of_lt hji))
      (by omega) (by omega)
    by_cases move : k.happenings i = .step t
    · rw [Happening.steps_iff.2 move] at hr hm ⊢
      have placed := hn ▸ k.placed i t x hx
      obtain ⟨g, p, step, hp, next⟩ := paced.step primed hx hn placed hr hm
      obtain ⟨rfl, -⟩ := stride_of_step move hx step
      exact ⟨_, hp, hn, next⟩
    · have still : (k.happenings i).steps t = false := by
        rw [Bool.eq_false_iff, ne_eq, Happening.steps_iff]
        exact move
      rw [still]
      obtain ⟨node, storage⟩ := idle i hi (Nat.lt_succ_self i) move
      obtain ⟨y, hy, hyn, hyp⟩ := (k.keeps i).task t x hx
      refine ⟨y, hy, hyn.trans hn, ?_⟩
      rw [hyp (.inl move)]
      exact paced.congr node storage

/-- The offer after the last refusal is accepted. -/
lemma Starts.saves (h : k.Starts s n st t) (primed : (k.fleet s).Primed n r st u) (hj : s < j)
    (idle : k.Idles n t s j) (move : k.happenings j = .step t) (hr : r < maxAttempts)
    (turns : k.turns t s j = 4 * r + 1) :
    k.offer? t j = some u ∧ (k.offers t j).length = r ∧ k.answers t j = .replicate r false ∧
      k.answer? t j = some true ∧ ∃ acc : (k.fleet s).storage.accepts u,
        (k.fleet (j + 1)).storage =
          (k.fleet s).storage.append u (k.fleet j).clock.tick.current acc := by
  obtain ⟨x, hx, hn, paced⟩ := h.paced primed hj idle (Nat.le_of_eq turns) (by omega)
  rw [turns] at paced
  obtain ⟨hp, g, step, hy, stored⟩ := paced.stores primed hx hn
  obtain ⟨rfl, y, hs⟩ := stride_of_step move hx step
  obtain ⟨-, -, hy', -⟩ := of_stride hs
  rw [hy] at hy'
  cases hy'
  have offer : k.offer? t j = some u := by
    rw [offer?, hs, Option.bind_some, hp]
    rfl
  obtain ⟨x', b, hx', hp', offers, answers⟩ := h.refused_of_offer offer
  rw [hx] at hx'
  cases hx'
  cases hp.symm.trans hp'
  refine ⟨offer, offers, answers, ?_, stored⟩
  rw [answer?, hs, Option.bind_some, Fleet.answered, hp]
  rfl

/-- Where the log refuses as many updates as there are attempts the statement gives up. -/
lemma Starts.gives_up (h : k.Starts s n st t) (primed : (k.fleet s).Primed n r st u) (hj : s < j)
    (idle : k.Idles n t s j) (move : k.happenings j = .step t) (hr : maxAttempts ≤ r)
    (turns : k.turns t s j = 4 * maxAttempts - 1) :
    (k.fleet (j + 1)).outcome? t =
        some (.failed (.retryLimitExceeded (Word64.capped maxAttempts))) ∧
      (k.fleet (j + 1)).storage = (k.fleet s).storage := by
  obtain ⟨x, hx, hn, paced⟩ := h.paced primed hj idle (by omega)
    (turns ▸ Nat.sub_lt (by decide) Nat.one_pos)
  rw [turns] at paced
  obtain ⟨g, step, storage, limit⟩ := paced.gives_up primed hx hn
  obtain ⟨rfl, -⟩ := stride_of_step move hx step
  exact ⟨limit, storage⟩

/-! ## Every statement -/

/-- A task that has ended takes no step. -/
lemma still_of_outcome (ho : (k.fleet i).outcome? t = some o) (hj : i ≤ j) :
    k.stride? t j = none := by
  have ended := outcome_le hj ho
  cases hs : k.stride? t j with
  | none => rfl
  | some z =>
    obtain ⟨x, y⟩ := z
    obtain ⟨-, hx, -, step⟩ := of_stride hs
    obtain ⟨x', hx', hp⟩ := Option.bind_eq_some_iff.1 ended
    rw [hx] at hx'
    cases hx'
    simp only [Fleet.step, hx, Task.point_of_outcome hp] at step
    cases step

/-- A statement that ends with a verdict has changed nothing. -/
lemma Starts.blameless (h : k.Starts s n st t)
    (spares : ∀ i, (k.happenings i).sparesVerdicts n = true)
    (ho : (k.fleet i).outcome? t = some (.failed e)) (he : e.isVerdict = true)
    (hs : (k.stride? t j).isSome) :
    k.answer? t j ≠ some true ∧ (k.fleet (j + 1)).record = (k.fleet j).record := by
  have refused : k.answer? t j ≠ some true := by
    intro accepted
    rcases Nat.lt_or_ge j i with hj | hj
    · obtain ⟨⟨b, answers⟩, -⟩ := h.verdict spares ho he
      have mem := mem_answers accepted hj
      rw [answers, List.mem_replicate] at mem
      cases mem.2
    · rw [still_of_outcome ho hj] at hs
      cases hs
  exact ⟨refused, h.record hs refused⟩

/-- Whatever the log of its node answers, a statement makes at most ten offers, none after one was
accepted, and each of an update that it yields on the latest catalog, drafted in its last step.
Nothing is committed or registered by its steps unless an offer is accepted, which a log over the
shared storage does by storing the update. Where the node is not told to fail with a verdict, a
statement that ends with one has had no offer accepted, and it gives up exactly when ten offers were
refused and it has waited after each. One that yields nothing makes no more offers and is bound to
return the latest version. Where a log refuses so many updates by itself and nothing else happens to
its node, the next offer is accepted, or there is none. -/
theorem saves_once (k : Chronicle) {s n t : Nat} {st : Statement} (h : k.Starts s n st t) :
    (∀ i, (k.offers t i).length ≤ 10 ∧ (k.answers t i).count true ≤ 1) ∧
    (∀ j i, k.answer? t j = some true → j < i → k.offer? t i = none) ∧
    (∀ i u, k.offer? t i = some u →
      ∃ d c, d < i ∧ k.Drafts d t st c ∧ st.Yields c u ∧ k.Pauses t d i) ∧
    (∀ i, (k.stride? t i).isSome → k.answer? t i ≠ some true →
      (k.fleet (i + 1)).record = (k.fleet i).record) ∧
    (∀ i u, k.offer? t i = some u → k.answer? t i = some true →
      ((k.fleet i).node n).link.log?.isSome → ∃ acc : (k.fleet i).storage.accepts u,
        (k.fleet (i + 1)).storage =
          (k.fleet i).storage.append u (k.fleet i).clock.tick.current acc) ∧
    ((∀ i, (k.happenings i).sparesVerdicts n = true) →
      (∀ i e, (k.fleet i).outcome? t = some (.failed e) → e.isVerdict = true →
        ∀ j, (k.stride? t j).isSome →
          k.answer? t j ≠ some true ∧ (k.fleet (j + 1)).record = (k.fleet j).record) ∧
      ∀ i m, (k.fleet i).outcome? t = some (.failed (.retryLimitExceeded m)) ↔
        m = 10 ∧ k.answers t i = .replicate 10 false ∧ k.passed t i = 10) ∧
    (∀ d c, k.Drafts d t st c → st.isVacuous = true ∨ st.entries c = .ok [] →
      ∀ i, d < i → k.offer? t i = none ∧
        (∃ x, (k.fleet i).tasks[t]? = some x ∧ x.point.Returns c.version) ∧
        ((k.fleet i).step t = none → (k.fleet i).outcome? t = some (.version c.version) ∨
          (k.fleet i).Sleeps t c.version)) ∧
    ∀ r u j, (k.fleet s).Primed n r st u → s < j → k.Idles n t s j →
      k.happenings j = .step t →
      (r < 10 → k.turns t s j = 4 * r + 1 →
        k.offer? t j = some u ∧ (k.offers t j).length = r ∧ k.answers t j = .replicate r false ∧
          k.answer? t j = some true ∧ ∃ acc : (k.fleet s).storage.accepts u,
            (k.fleet (j + 1)).storage =
              (k.fleet s).storage.append u (k.fleet j).clock.tick.current acc) ∧
      (10 ≤ r → k.turns t s j = 39 →
        (k.fleet (j + 1)).outcome? t = some (.failed (.retryLimitExceeded 10)) ∧
          (k.fleet (j + 1)).storage = (k.fleet s).storage) := by
  refine ⟨h.offers_le, fun j i => h.offer_none, fun i u => h.offer_drafted, fun i => h.record,
    fun i u => h.stored, fun spares => ⟨fun i e ho he j => h.blameless spares ho he, ?limit⟩,
    ?nothing, fun r u j primed hj idle move =>
      ⟨h.saves primed hj idle move, h.gives_up primed hj idle move⟩⟩
  case limit =>
    intro i m
    constructor
    · intro ho
      exact (h.verdict spares ho rfl).2 m rfl
    · rintro ⟨rfl, -, passed⟩
      exact h.limit passed
  case nothing =>
    intro d c hd empty i hi
    obtain ⟨y, a, hy, -⟩ := hd.latest
    obtain ⟨x, hx⟩ := task_stays (Nat.le_of_lt hi) hy
    -- A statement that yields nothing is bound to return, which rules out further offers.
    have returns := h.returns hd empty hi hx
    exact ⟨h.offer_none_of_draft hd empty hi, ⟨x, hx, returns⟩,
      Fleet.rests_of_returns hx returns⟩

/-! ## A statement that is refused -/

/-- A node whose log is to refuse so many updates is started and carries a statement out. -/
def contended (r : Nat) : Chronicle where
  clock := Clock.unset
  happenings := fun
    | 0 => .join Config.unset fun log => .contended log r 0
    | 1 => .request 0 .zero .start
    | 2 => .step 0
    | 3 => .step 0
    | 4 => .step 0
    | 5 => .step 0
    | 6 => .request 0 .zero (.execute Run.repartition)
    | _ => .step 3

lemma contended_idles (r i : Nat) : (contended r).Idles 0 3 6 i := by
  intro j hj _ move
  obtain ⟨b, rfl⟩ := Nat.exists_eq_add_of_le (show 7 ≤ j from hj)
  rw [Nat.add_comm] at move
  exact absurd rfl move

/-- What is to be known of a fleet whose node is about to carry out a statement. -/
lemma contended_fleet : ∀ r ∈ [3, 10], ((contended r).fleet 6).nodes.length = 1 ∧
    ((contended r).fleet 6).tasks.length = 3 ∧
    (((contended r).fleet 6).node 0).link = .contended 0 r 0 ∧
    (((contended r).fleet 6).node 0).history.latest = .ok Catalog.initial ∧
    ((contended r).fleet 6).storage.committed = Version.initial ∧
    (((contended r).fleet 6).node 0).delay = 0 := by
  decide

lemma contended_starts {r : Nat} (hr : r ∈ [3, 10]) :
    (contended r).Starts 6 0 Run.repartition 3 := by
  obtain ⟨nodes, tasks, -⟩ := contended_fleet r hr
  exact ⟨⟨.zero, rfl⟩, by rw [nodes]; exact Nat.one_pos, tasks.symm⟩

lemma contended_primed {r : Nat} (hr : r ∈ [3, 10]) :
    ((contended r).fleet 6).Primed 0 r Run.repartition Run.repartition.update := by
  obtain ⟨-, -, link, latest, committed, delay⟩ := contended_fleet r hr
  exact {
    link := ⟨0, 0, link⟩
    latest := ⟨Catalog.initial, latest, committed.symm, by decide, by decide⟩
    done := by
      rw [committed]
      exact Nat.zero_le _
    delay := by
      rw [delay]
      decide
    entries := nofun
    substantial := rfl }

theorem saves_once_contended :
    ((contended 3).answers 3 20 = [false, false, false] ∧
      (contended 3).offer? 3 20 = some Run.repartition.update ∧
      (contended 3).answer? 3 20 = some true) ∧
    ((contended 10).fleet 47).outcome? 3 = some (.failed (.retryLimitExceeded 10)) := by
  obtain ⟨-, -, -, -, -, -, -, saves⟩ := saves_once (contended 3) (contended_starts (by decide))
  obtain ⟨-, -, -, -, -, -, -, gives⟩ := saves_once (contended 10) (contended_starts (by decide))
  obtain ⟨accepts, -⟩ :=
    saves 3 _ 20 (contended_primed (by decide)) (by decide) (contended_idles 3 20) rfl
  obtain ⟨-, gives_up⟩ :=
    gives 10 _ 46 (contended_primed (by decide)) (by decide) (contended_idles 10 46) rfl
  obtain ⟨offer, -, answers, accepted, -⟩ := accepts (by decide) (by decide +kernel)
  obtain ⟨limit, -⟩ := gives_up (by decide) (by decide +kernel)
  exact ⟨⟨answers, offer, accepted⟩, limit⟩

end Chronicle

end SchemaCatalog
