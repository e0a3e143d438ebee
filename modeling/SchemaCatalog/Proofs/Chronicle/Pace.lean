import SchemaCatalog.Proofs.Run.Serial

/-!
# Refusals ahead of an idle node

Where a log refuses so many updates by itself and nothing else happens to its node, each refusal
costs a statement four steps: it is drafted, offered, reviewed, and does not have to wait. So after
so many steps of its task it is known where the task stands (`Paced`).
-/

namespace SchemaCatalog

namespace Fleet

/-- The log of a node is to refuse so many updates by itself, the node is done with all that is
committed, and the statement yields this update on its latest catalog. -/
structure Primed (f : Fleet) (n r : Nat) (st : Statement) (u : Update) : Prop where
  link : ∃ log attempts, (f.node n).link = .contended log r attempts
  latest : ∃ c, (f.node n).history.latest = .ok c ∧ c.version = f.storage.committed ∧
    st.Yields c u
  done : f.storage.committed ≤ (f.node n).mark.doneUntil
  delay : u.delay = Duration.ofMillis (f.node n).delay
  entries : u.entries ≠ []
  substantial : st.isVacuous = false

/-- Nothing has changed for a node but that its log is to refuse so many updates by itself. -/
structure Holds (g f : Fleet) (n r : Nat) : Prop where
  node : ∃ log attempts, f.node n = { g.node n with link := .contended log r attempts }
  storage : f.storage = g.storage

/-- Where the task of a statement stands after so many steps from `g` on, if the log of its node
refuses so many updates by itself and nothing else happens to the node. -/
inductive Paced (g f : Fleet) (n r : Nat) (st : Statement) (u : Update) : Nat → Point → Prop where
  | draft {a : Nat} : a ≤ r → a < maxAttempts → g.Holds f n (r - a) →
      Paced g f n r st u (4 * a) (.draft st (a + 1))
  | submit {a : Nat} : a ≤ r → a < maxAttempts → g.Holds f n (r - a) →
      Paced g f n r st u (4 * a + 1) (.submit st (a + 1) u)
  | review {a : Nat} : a < r → a < maxAttempts → g.Holds f n (r - (a + 1)) →
      Paced g f n r st u (4 * a + 2) (.review st (a + 1))
  | await {a : Nat} : a < r → a < maxAttempts → g.Holds f n (r - (a + 1)) →
      Paced g f n r st u (4 * a + 3) (.await g.storage.committed (.retry st (a + 1)))

section

variable {f g k : Fleet} {n r t a b m : Nat} {st : Statement} {u : Update} {x : Task} {p : Point}

/-! ## The node -/

lemma Holds.congr (h : g.Holds f n b) (node : k.node n = f.node n)
    (storage : k.storage = f.storage) : g.Holds k n b where
  node := by
    rw [node]
    exact h.node
  storage := storage.trans h.storage

lemma Holds.moveTo (h : g.Holds f n b) (t : Nat) (p : Point) : g.Holds (f.moveTo t p) n b :=
  h.congr (node_congr (by simp) n) (by simp)

lemma Primed.holds (h : g.Primed n r st u) : g.Holds g n r := by
  obtain ⟨log, attempts, hl⟩ := h.link
  exact ⟨⟨log, attempts, by rw [← hl]⟩, rfl⟩

lemma Paced.congr (h : g.Paced f n r st u m p) (node : k.node n = f.node n)
    (storage : k.storage = f.storage) : g.Paced k n r st u m p := by
  cases h with
  | draft ha ha' hf => exact .draft ha ha' (hf.congr node storage)
  | submit ha ha' hf => exact .submit ha ha' (hf.congr node storage)
  | review ha ha' hf => exact .review ha ha' (hf.congr node storage)
  | await ha ha' hf => exact .await ha ha' (hf.congr node storage)

/-- The log is one over the shared storage. -/
lemma Holds.log (h : g.Holds f n b) : ∃ log, (f.node n).link.log? = some log := by
  obtain ⟨log, attempts, hf⟩ := h.node
  exact ⟨log, by rw [hf]; rfl⟩

/-- The log refuses the next update by itself. -/
lemma Holds.refuses (h : g.Holds f n (b + 1)) (hn : n < f.nodes.length) (u : Update) :
    ∃ k, f.appendLink n u = .ok (k, false) ∧ k.tasks = f.tasks ∧ g.Holds k n b := by
  obtain ⟨log, attempts, hf⟩ := h.node
  obtain ⟨log', hl⟩ := h.log
  refine ⟨f.onNode n fun y => { y with link := .contended log b (attempts + 1) }, ?_, by simp,
    ⟨log, attempts + 1, ?_⟩, by simpa using h.storage⟩
  · rw [appendLink, linkFault_of_log hl, hf]
    rfl
  · rw [onNode, node_modify (f := f) rfl hn, if_pos rfl, hf]

/-- The log passes the next update on to the storage. -/
lemma Holds.passesOn (h : g.Holds f n 0) (u : Update) :
    ∃ nodes, f.appendLink n u = .ok ({ f with nodes }.commit u) := by
  obtain ⟨log, attempts, hf⟩ := h.node
  obtain ⟨log', hl⟩ := h.log
  refine ⟨f.nodes.modify n fun y => { y with link := .contended log 0 (attempts + 1) }, ?_⟩
  rw [appendLink, linkFault_of_log hl, hf]
  rfl

/-! ## The steps of the task -/

/-- A statement that yields an update is drafted. -/
lemma Primed.drafts (h : g.Primed n r st u) (hf : g.Holds f n b) (hn : x.node = n)
    (hx : f.tasks[t]? = some x) (hp : x.point = .draft st a) :
    f.step t = some (f.moveTo t (.submit st a u)) := by
  obtain ⟨c, hc, -, yields⟩ := h.latest
  obtain ⟨log, attempts, node⟩ := hf.node
  have latest : (f.node n).history.latest = .ok c := by rw [node, ← hc]
  have delay : (f.node n).delay = (g.node n).delay := by rw [node]
  have step : f.step t = some (f.stepDraft t n st a) := by simp only [Fleet.step, hx, hp, hn]
  obtain ⟨version, d, es⟩ := u
  obtain rfl : d = Duration.ofMillis (f.node n).delay := delay ▸ h.delay
  rw [step, stepDraft, latest]
  cases es with
  | nil => exact absurd rfl h.entries
  | cons e es =>
    simp only [h.substantial, yields.entries, yields.next, Bool.false_eq_true, if_false]

/-- The wait for what is committed is over at once. -/
lemma Primed.awaits (h : g.Primed n r st u) (hf : g.Holds f n b) (hn : x.node = n)
    (hx : f.tasks[t]? = some x) {q : Purpose} (hp : x.point = .await g.storage.committed q) :
    f.step t = some (f.afterVersion t g.storage.committed q) := by
  obtain ⟨log, attempts, node⟩ := hf.node
  have ready : (f.node n).mark.reply g.storage.committed = .ready := by
    rw [node, Watermark.reply, if_pos h.done]
  simp only [Fleet.step, hx, hp, hn, stepAwait, ready]

/-- As long as updates are refused, and attempts are left, each step of the task is the next one. -/
lemma Paced.step (primed : g.Primed n r st u) (hx : f.tasks[t]? = some x) (hn : x.node = n)
    (hlt : n < f.nodes.length) (h : g.Paced f n r st u m x.point) (hr : m < 4 * r + 1)
    (hm : m + 1 < 4 * maxAttempts) :
    ∃ k p, f.step t = some k ∧ k.tasks[t]? = some { x with point := p, signal := none } ∧
      g.Paced k n r st u (m + 1) p := by
  generalize hp : x.point = q at h
  cases h with
  | draft ha ha' hf =>
    exact ⟨_, _, primed.drafts hf hn hx hp, getElem?_moveTo hx _, .submit ha ha' (hf.moveTo _ _)⟩
  | @submit a ha ha' hf =>
    obtain ⟨b, hb⟩ : ∃ b, r - a = b + 1 := ⟨r - a - 1, by omega⟩
    obtain ⟨k, hk, tasks, holds⟩ := Holds.refuses (hb ▸ hf) hlt u
    have step : f.step t = some (k.moveTo t (.review st (a + 1))) := by
      simp only [Fleet.step, hx, hp, hn, stepSubmit, hk]
    obtain rfl : b = r - (a + 1) := by omega
    exact ⟨_, _, step, getElem?_moveTo (tasks ▸ hx) _,
      .review (by omega) ha' (holds.moveTo _ _)⟩
  | @review a ha ha' hf =>
    obtain ⟨log, hl⟩ := hf.log
    have step : f.step t = some (f.moveTo t (.await f.storage.committed (.retry st (a + 1)))) := by
      simp only [Fleet.step, hx, hp, hn, stepReview, committedOf_of_log hl]
    rw [hf.storage] at step
    exact ⟨_, _, step, getElem?_moveTo hx _, .await ha ha' (hf.moveTo _ _)⟩
  | @await a ha ha' hf =>
    have step := primed.awaits hf hn hx hp
    rw [afterVersion, if_pos (by omega)] at step
    exact ⟨_, _, step, getElem?_moveTo hx _, .draft (a := a + 1) (by omega) (by omega)
      (hf.moveTo _ _)⟩

/-- When the log has refused all that it was to refuse, the next step of the task gets the update
stored. -/
lemma Paced.stores (primed : g.Primed n r st u) (hx : f.tasks[t]? = some x) (hn : x.node = n)
    (h : g.Paced f n r st u (4 * r + 1) x.point) :
    x.point = .submit st (r + 1) u ∧ ∃ k, f.step t = some k ∧
      k.tasks[t]? = some { x with point := .await u.version .saved, signal := none } ∧
      ∃ acc : g.storage.accepts u,
        k.storage = g.storage.append u f.clock.tick.current acc := by
  obtain ⟨c, -, version, yields⟩ := primed.latest
  have acc : g.storage.accepts u := by
    rw [Storage.accepts, Version.next?_val yields.next, version]
    rfl
  generalize hm : 4 * r + 1 = m at h
  generalize hp : x.point = q at h
  cases h with
  | @submit a ha _ hf =>
    obtain rfl : a = r := by omega
    rw [Nat.sub_self] at hf
    obtain ⟨nodes, passed⟩ := hf.passesOn u
    obtain ⟨k, hk, hc⟩ := commit_of_accepts (f := f) nodes (hf.storage ▸ acc)
    obtain ⟨-, storage, -, -, -, -, tasks⟩ := core_inj hc
    refine ⟨rfl, k.moveTo t (.await u.version .saved), ?_,
      getElem?_moveTo (tasks ▸ hx) _, acc, ?_⟩
    · simp only [Fleet.step, hx, hp, hn, stepSubmit, passed, hk]
    · simp only [moveTo_fields, storage, hf.storage]
  | _ => omega

/-- When the last attempt is refused, the next step of the task ends it. -/
lemma Paced.gives_up (primed : g.Primed n r st u) (hx : f.tasks[t]? = some x) (hn : x.node = n)
    (h : g.Paced f n r st u (4 * maxAttempts - 1) x.point) :
    ∃ k, f.step t = some k ∧ k.storage = g.storage ∧
      k.outcome? t = some (.failed (.retryLimitExceeded (Word64.capped maxAttempts))) := by
  generalize hm : 4 * maxAttempts - 1 = m at h
  generalize hp : x.point = q at h
  cases h with
  | @await a _ ha hf =>
    have step := primed.awaits hf hn hx hp
    obtain last : a + 1 = maxAttempts := by omega
    rw [afterVersion, if_neg (by omega)] at step
    exact ⟨_, step, by simpa using hf.storage, outcome?_finish hx _⟩
  | _ => omega

end

end Fleet

end SchemaCatalog
