import SchemaCatalog.Proofs.Fleet.Barring
import SchemaCatalog.Proofs.Run.Contention
import SchemaCatalog.Proofs.Run.Halt

/-!
# A halt is final

A node that is halted on an update never gets beyond the version before it, while the log has the
update and so all that a statement of the node could still offer. So a statement that is started
after the halt commits nothing. It ends with the error of its own check, with the version at which
the node stands if it changes nothing, and otherwise with the error of the halt after one offer
(`Run.halt_is_final`).
-/

namespace SchemaCatalog

/-- How a statement ends where the latest catalog of its node stays, nothing that it offers is
accepted, and whoever waits fails with this error. -/
def Statement.fate (st : Statement) (c : Catalog) (err : Error) : Outcome :=
  if st.isVacuous then .version c.version
  else
    match st.entries c with
    | .error a => .aborted a
    | .ok [] => .version c.version
    | .ok (_ :: _) => .failed err

/-- Whether a statement has an update to offer on a catalog. -/
def Statement.Changes (st : Statement) (c : Catalog) : Prop :=
  st.isVacuous = false ∧ ∃ es, st.entries c = .ok es ∧ es ≠ []

/-- Whether a task at this point makes an offer in its next step. -/
def Point.offers (p : Point) : Bool := p.offer?.isSome

lemma Statement.Changes.fate {st : Statement} {c : Catalog} {err : Error} (h : st.Changes c) :
    st.fate c err = .failed err := by
  obtain ⟨vacuous, es, hes, ne⟩ := h
  obtain ⟨e, rest, rfl⟩ := List.exists_cons_of_ne_nil ne
  rw [Statement.fate, vacuous, hes]
  rfl

/-- A statement that has nothing to offer fails with the error of its check. -/
lemma Statement.fate_failed {st : Statement} {c : Catalog} {err e : Error} (hc : ¬ st.Changes c)
    (h : st.fate c err = .failed e) : e.isValidation = true := by
  unfold Statement.fate at h
  split at h
  · cases h
  · rename_i vacuous
    split at h
    · rename_i hes
      cases h
      exact Statement.entries_error hes
    · cases h
    · rename_i hes
      exact absurd ⟨Bool.eq_false_iff.2 vacuous, _, hes, List.cons_ne_nil _ _⟩ hc

lemma Version.next?_of_lt {v w : Version} (h : v < w) : ∃ u, v.next? = some u := by
  have room : v.number.val + 1 < 18_446_744_073_709_551_616 :=
    Nat.lt_of_le_of_lt h w.number.isLt
  rw [Version.next?, Word64.ofNat?, dif_pos room]
  exact ⟨_, rfl⟩

/-- The greatest number of steps that the task of a statement still takes from a point on if it
neither waits among others nor tries again. -/
def Point.stepsLeft : Point → Nat
  | .draft .. => 4
  | .submit .. => 3
  | .confirm _ => 3
  | .review .. => 2
  | .readClock .. => 2
  | .await .. => 1
  | .sleep .. => 1
  | _ => 0

namespace Fleet

variable {f g : Fleet} {m : Move} {t n w : Nat} {x : Task} {p : Point}

/-! ## A statement that commits nothing -/

section

variable {k a : Nat} {st : Statement} {c : Catalog} {err : Error}

/-- A node stays at a catalog and is halted with an error, where the log has the next version. -/
structure Stranded (f : Fleet) (n : Nat) (c : Catalog) (err : Error) : Prop where
  latest : (f.node n).history.latest = .ok c
  registered : (f.node n).history.catalog? c.version = some c
  undone : (f.node n).mark.doneUntil ≤ c.version
  failure : (f.node n).mark.failure = some err
  taken : c.version < f.storage.committed

/-- Where the task of a statement stands that is started on such a node, after so many offers. -/
inductive Vain (f : Fleet) (n : Nat) (st : Statement) (c : Catalog) (err : Error) :
    Nat → Point → Prop where
  | draft : Vain f n st c err 0 (.draft st 1)
  | submit {u : Update} : st.Changes c → st.Yields c u → Vain f n st c err 0 (.submit st 1 u)
  | review : st.Changes c → Vain f n st c err 1 (.review st 1)
  | await {v : Version} : st.Changes c → c.version < v →
      Vain f n st c err 1 (.await v (.retry st 1))
  | lost : st.Changes c → Vain f n st c err 1 (.ended (.failed err))
  | refused {e : Abort} : st.fate c err = .aborted e → ¬ st.Changes c →
      Vain f n st c err 0 (.ended (.aborted e))
  | bound {p : Point} : st.fate c err = .version c.version → f.Bound n c.version p →
      Vain f n st c err 0 p

lemma Vain.stays (h : f.Vain n st c err a p) (hl : f.Preserves g n) : g.Vain n st c err a p := by
  cases h with
  | draft => exact .draft
  | submit hc hy => exact .submit hc hy
  | review hc => exact .review hc
  | await hc hv => exact .await hc hv
  | lost hc => exact .lost hc
  | refused hf hc => exact .refused hf hc
  | bound hf hb => exact .bound hf (hb.stays hl)

/-- The first step of a statement on such a node. -/
lemma Stranded.draft (h : f.Stranded x.node c err) (hx : f.tasks[t]? = some x)
    (hp : x.point = .draft st 1) (hg : f.step t = some g) (hl : f.Preserves g x.node) :
    ∃ p, g.tasks[t]? = some { x with point := p, signal := none } ∧
      g.Vain x.node st c err 0 p ∧ p.stepsLeft < 4 := by
  rw [step, hx] at hg
  simp only [hp, Option.some.injEq] at hg
  subst hg
  -- The draft is made on the latest catalog, which stays the same for good.
  rw [stepDraft, h.latest] at hl ⊢
  cases vacuous : st.isVacuous with
  | true =>
    refine ⟨_, getElem?_finish hx _, .bound ?_ .returned, Nat.succ_pos 3⟩
    rw [Statement.fate, if_pos vacuous]
  | false =>
    simp only [vacuous, Bool.false_eq_true, if_false] at hl ⊢
    cases hes : st.entries c with
    | error e =>
      refine ⟨_, getElem?_finish hx _, .refused ?_ ?_, Nat.succ_pos 3⟩
      · rw [Statement.fate, vacuous, hes]
        rfl
      · rintro ⟨-, es, hes', -⟩
        rw [hes] at hes'
        cases hes'
    | ok es =>
      rw [hes] at hl
      cases es with
      | nil =>
        refine ⟨_, getElem?_moveTo hx _, .bound ?_ (.confirm (hl.registered _ _ h.registered)),
          Nat.lt_succ_self 3⟩
        rw [Statement.fate, vacuous, hes]
        rfl
      | cons entry rest =>
        obtain ⟨v, hv⟩ := Version.next?_of_lt h.taken
        simp only [hv]
        exact ⟨_, getElem?_moveTo hx _,
          .submit ⟨vacuous, _, hes, List.cons_ne_nil _ _⟩ ⟨hes, hv⟩, Nat.lt_succ_self 3⟩

/-- An offer on such a node is refused. -/
lemma Stranded.not_accepts {u : Update} (h : f.Stranded n c err) (hy : st.Yields c u) :
    ¬ f.storage.accepts u := by
  intro accepts
  have next := Version.next?_val hy.next
  have taken : c.version.number.val < f.storage.entries.length := h.taken
  have version : u.version.number.val = f.storage.entries.length + 1 := accepts
  omega

lemma not_ended (hx : f.tasks[t]? = some x) (hg : f.step t = some g) : ¬ ∃ o, x.point = .ended o := by
  rintro ⟨o, ho⟩
  have live := outcome_of_step hx hg
  rw [Task.outcome?, ho] at live
  cases live

/-- A task that is bound to return makes no offer. -/
lemma Bound.offers {v : Version} (h : f.Bound n v p) : p.offers = false := by
  cases h <;> rfl

lemma Bound.stepsLeft {v : Version} (h : f.Bound x.node v x.point) (hturn : f.Turn g x p) :
    p.stepsLeft < x.point.stepsLeft := by
  generalize e : x.point = q at h
  cases h with
  | confirm hc =>
    rcases hturn.of_confirm e with ⟨_, -, rfl⟩ | missing
    · exact Nat.lt_succ_self 2
    · rw [hc] at missing
      cases missing
  | readClock _ =>
    rcases hturn.of_readClock e with rfl | rfl
    · exact Nat.succ_pos 1
    · exact Nat.lt_succ_self 1
  | sleep _ =>
    obtain rfl := hturn.of_sleep e
    exact Nat.succ_pos 0
  | returned => exact (hturn.not_ended e).elim

/-- Each step of a statement on such a node brings it closer to its end. -/
lemma Vain.step (h : f.Vain x.node st c err a x.point) (hs : f.Stranded x.node c err)
    (hp : f.Plain) (hx : f.tasks[t]? = some x) (hg : f.step t = some g)
    (hl : f.Preserves g x.node) :
    ∃ p, g.tasks[t]? = some { x with point := p, signal := none } ∧
      g.Vain x.node st c err (a + x.point.offers.toNat) p ∧ p.stepsLeft < x.point.stepsLeft := by
  generalize e : x.point = q at h
  have turn : q.isStatement = true → ∃ p, g.tasks[t]? = some { x with point := p, signal := none } ∧
      f.Turn g x p := fun hq => turn_of_step hp hx (by rw [e, hq]) hg
  -- An offer is refused, as the storage holds the version already. The wait after the refusal fails
  -- at once, as the watermark has failed.
  cases h with
  | draft => exact hs.draft hx e hg hl
  | submit hc hy =>
    obtain ⟨p, next, hturn⟩ := turn rfl
    rcases hturn.of_submit e with ⟨rfl, -⟩ | ⟨-, accepts, -⟩
    · exact ⟨_, next, .review hc, Nat.lt_succ_self 2⟩
    · exact absurd accepts (hs.not_accepts hy)
  | review hc =>
    obtain ⟨p, next, hturn⟩ := turn rfl
    obtain rfl := hturn.of_review e
    exact ⟨_, next, .await hc hs.taken, Nat.lt_succ_self 1⟩
  | await hc hv =>
    obtain ⟨p, next, hturn⟩ := turn rfl
    rcases hturn.of_await e with ⟨done, -⟩ | ⟨-, ⟨e', he', rfl⟩ | ⟨none, -⟩⟩
    · exact absurd (Nat.le_trans done hs.undone) (Nat.not_le.2 hv)
    · rw [hs.failure] at he'
      cases he'
      exact ⟨_, next, .lost hc, Nat.succ_pos 0⟩
    · rw [hs.failure] at none
      cases none
  | bound hf hb =>
    subst e
    have started : x.point.isStatement = true := by
      rcases Rescued.isStatement (.bound hb) with started | ended
      · exact started
      · exact absurd ended (not_ended hx hg)
    obtain ⟨p, next, hturn⟩ := turn started
    rw [hb.offers]
    exact ⟨p, next, .bound hf (hb.turn hl hturn), hb.stepsLeft hturn⟩
  | lost _ => exact absurd ⟨_, e⟩ (not_ended hx hg)
  | refused _ _ => exact absurd ⟨_, e⟩ (not_ended hx hg)

/-- What such a task leaves behind, and how many offers it has made by then. -/
lemma Vain.outcome {o : Outcome} (h : f.Vain n st c err a (.ended o)) :
    o = st.fate c err ∧ (st.Changes c → a = 1) ∧ (¬ st.Changes c → a = 0) := by
  cases h with
  | lost hc => exact ⟨hc.fate.symm, fun _ => rfl, fun none => absurd hc none⟩
  | refused hf hc => exact ⟨hf.symm, fun some => absurd some hc, fun _ => rfl⟩
  | bound hf hb =>
    cases hb
    refine ⟨hf.symm, fun hc => ?_, fun _ => rfl⟩
    rw [hc.fate] at hf
    cases hf

/-- Such a task can go on until it has ended, or sleeps. -/
lemma Vain.rests (h : f.Vain x.node st c err a x.point) (hx : f.tasks[t]? = some x)
    (hs : f.step t = none) : f.outcome? t = some (st.fate c err) ∨
      st.fate c err = .version c.version ∧ f.SleepsFor t x.node c.version := by
  have stuck := hs
  have ended : ∀ {o}, x.point = .ended o → f.outcome? t = some o := fun ho => by
    rw [outcome?, hx, Option.bind_some, Task.outcome?, ho]
  rw [Fleet.step, hx] at stuck
  generalize e : x.point = q at h
  simp only [e] at stuck
  cases h with
  | draft => cases stuck
  | submit _ _ => cases stuck
  | review _ => cases stuck
  | await _ _ => cases stuck
  | lost hc => exact .inl (by rw [ended e, hc.fate])
  | refused hf _ => exact .inl (by rw [ended e, hf])
  | bound hf hb =>
    rcases Rescued.rests (.bound (e ▸ hb)) hx hs with returned | sleeps
    · exact .inl (by rw [returned, hf])
    · exact .inr ⟨hf, sleeps⟩

/-- Nothing that such a task offers is accepted. -/
lemma Vain.not_stores {u : Update} (h : f.Vain n st c err a p) (hs : f.Stranded n c err)
    (offer : p.offer? = some u) : ¬ f.storage.accepts u := by
  cases h with
  | submit _ hy =>
    cases offer
    exact hs.not_accepts hy
  | bound _ hb =>
    have silent := hb.offers
    rw [Point.offers, offer] at silent
    cases silent
  | _ => cases offer

lemma Vain.not_awaiting {v : Version} {q : Purpose} :
    ¬ f.Vain n st c err a (.awaiting v q) := by
  intro h
  cases h with
  | bound _ hb => cases hb

/-- Such a task has ended once it has no steps left. -/
lemma Vain.ended (h : f.Vain n st c err a p) (none : p.stepsLeft = 0) : ∃ o, p = .ended o := by
  cases h with
  | bound _ hb =>
    cases hb with
    | returned => exact ⟨_, rfl⟩
    | _ => cases none
  | lost _ => exact ⟨_, rfl⟩
  | refused _ _ => exact ⟨_, rfl⟩
  | _ => cases none

end

end Fleet

/-- Whether a move is a step of this task. -/
def Move.steps (t : Nat) : Move → Bool
  | .step s => s = t
  | _ => false

lemma Move.steps_iff {t : Nat} {m : Move} : m.steps t = true ↔ m = .step t := by
  cases m <;> simp [Move.steps]

namespace Run

/-- How many steps a task has taken from such points before a moment. -/
def stepsFrom (r : Run) (t : Nat) (test : Point → Bool) (i : Nat) : Nat :=
  (List.range i).countP fun j => (r.moves j).steps t && ((r.fleet j).step t).isSome &&
    (r.fleet j).tasks[t]?.any fun x => test x.point

variable {r : Run} {s n t i j h k : Nat} {st : Statement} {c : Catalog} {x : Task} {err : Error}
  {test : Point → Bool}

/-! ## Counting steps -/

lemma stepsFrom_succ : r.stepsFrom t test (i + 1) = r.stepsFrom t test i +
    ((r.moves i).steps t && ((r.fleet i).step t).isSome &&
      (r.fleet i).tasks[t]?.any fun x => test x.point).toNat := by
  rw [stepsFrom, List.range_succ, List.countP_append, List.countP_singleton, stepsFrom]
  cases (r.moves i).steps t && ((r.fleet i).step t).isSome &&
    (r.fleet i).tasks[t]?.any fun x => test x.point <;> rfl

lemma stepsFrom_rest (none : r.moves i = .step t → (r.fleet i).step t = none) :
    r.stepsFrom t test (i + 1) = r.stepsFrom t test i := by
  rw [stepsFrom_succ]
  by_cases hm : r.moves i = .step t
  · rw [none hm]
    simp
  · rw [Bool.eq_false_iff.2 fun e => hm (Move.steps_iff.1 e)]
    rfl

lemma stepsFrom_step (hm : r.moves i = .step t) (hx : (r.fleet i).tasks[t]? = some x)
    (some : ((r.fleet i).step t).isSome) :
    r.stepsFrom t test (i + 1) = r.stepsFrom t test i + (test x.point).toNat := by
  rw [stepsFrom_succ, Move.steps_iff.2 hm, some, hx]
  rfl

/-- A task that has not begun has taken no steps. -/
lemma Starts.stepsFrom (hs : r.Starts s n st t) : r.stepsFrom t test (s + 1) = 0 := by
  rw [Run.stepsFrom, List.countP_eq_zero]
  intro j hj
  rw [List.mem_range] at hj
  cases hx : (r.fleet j).tasks[t]? with
  | none => simp
  | some x =>
    have := hs.lt_of_task hx
    omega

/-! ## After a halt -/

/-- A version that no request marks, and that a node does not come to, is never marked. -/
lemma barred {w : Nat} (hw : 0 < w)
    (spared : ∀ i skew v, r.moves i = .request n skew (.markDone v) → v.number.val ≠ w)
    (bound : ∀ i k, (r.fleet i).Reached n k → k < w) (i : Nat) : (r.fleet i).Barred n w := by
  induction i with
  | zero => exact Fleet.barred_ofClock r.clock hw
  | succ i ih =>
    obtain ⟨g, hg, e⟩ := r.change i
    rcases Fleet.serves_or_drives (n := n) (r.plain i) (r.tracks i) hg with hs | hd
    · exact ih.serves (r.tracks i).sound.numbered (r.frame i) (bound (i + 1)) (hs.congr e)
    · exact (ih.drives hd (spared i)).congr e

/-- A node that is halted on an update stays at the version before it. -/
lemma stranded_of_halt (hh : r.StopsAt h n k)
    (healthy : ((r.fleet h).node n).mark.failure = none)
    (spared : ∀ i skew v, r.moves i = .request n skew (.markDone v) → v.number.val ≠ k + 1) :
    ∃ c err, snapshot (r.fleet h).storage.log k = .ok c ∧ c.version.number.val = k ∧
      snapshot (r.fleet h).storage.log (k + 1) = .error err ∧
      ∀ i, h < i → (r.fleet i).Stranded n c err := by
  obtain ⟨hlt, -⟩ := r.stop hh
  obtain ⟨t, -, -, hr, -⟩ := id hh
  obtain ⟨_, err, -, -, herr, node, -⟩ := halt_of_stop hh
  obtain ⟨c, hc, version⟩ := hr.snapshot (r.tracks h) (Nat.le_refl k)
  have bound : ∀ i k', (r.fleet i).Reached n k' → k' < k + 1 := by
    intro i k' hk'
    obtain ⟨d, hd, hv⟩ := hk'.snapshot (r.tracks i) (Nat.le_refl k')
    have registered := (hk'.catalog? (r.tracks i) d.version d).2 ⟨Nat.le_of_eq hv, by rw [hv, hd]⟩
    exact hv ▸ r.stays_below hlt herr registered
  refine ⟨c, err, hc, version, herr, fun i hi => ?_⟩
  -- The node is still where it was, as it does not fall back.
  obtain ⟨k', hkk', hk'⟩ := r.advances (Nat.le_of_lt hi) n k hr
  obtain rfl : k' = k := Nat.le_antisymm (Nat.le_of_lt_succ (bound i k' hk')) hkk'
  have latest : ((r.fleet i).node n).history.latest = .ok c := by
    rw [hk'.latest (r.tracks i), ← r.snapshot_eq (i := h) (Nat.le_of_lt hlt) hk'.follows.le, hc]
  have barred := barred (Nat.succ_pos k') spared bound i
  have halted : ((r.fleet (h + 1)).node n).mark.failure = some err := by
    rw [node, Node.halted, Watermark.fail, healthy]
    rfl
  have length := (r.log_grows (Nat.le_of_lt hi)).length_le
  refine ⟨latest, (r.tracks i).latest_registered latest, ?_, ?_, ?_⟩
  · rw [Version.le_def, version]
    exact Nat.le_of_lt_succ (Nat.lt_of_not_le fun le => barred.unmarked (.inl le))
  · exact (r.kept hi (Nat.lt_of_lt_of_le hr.lt (r.nodes_le (Nat.le_succ h)))).failure err halted
  · rw [Version.lt_def, version]
    show k' < (r.fleet i).storage.entries.length
    rw [← (r.tracks i).sound.length]
    omega

/-- Where the task of a statement stands that is started on a halted node. -/
lemma Starts.vain (hs : r.Starts s n st t)
    (stranded : ∀ i, s < i → (r.fleet i).Stranded n c err) (hi : s < i) :
    ∃ x, (r.fleet i).tasks[t]? = some x ∧ x.node = n ∧
      (r.fleet i).Vain n st c err (r.stepsFrom t Point.offers i) x.point ∧
      r.stepsFrom t (fun _ => true) i + x.point.stepsLeft ≤ 4 := by
  induction hi with
  | refl =>
    refine ⟨_, hs.begins, rfl, ?_, ?_⟩
    · rw [hs.stepsFrom]
      exact .draft
    · rw [hs.stepsFrom]
      exact Nat.le_refl 4
  | @step i hi ih =>
    obtain ⟨x, hx, rfl, vain, left⟩ := ih
    have hl := r.preserves i ((r.plain i).placed t x hx)
    rcases r.rests_or_steps hx with ⟨⟨y, hy, node, same⟩, rests⟩ | ⟨hm, some⟩
    · refine ⟨y, hy, node, ?_, ?_⟩
      · rw [stepsFrom_rest rests, same]
        exact vain.stays hl
      · rw [stepsFrom_rest rests, same]
        exact left
    · obtain ⟨p, hp, next, less⟩ := vain.step (stranded i hi) (r.plain i) hx some hl
      have taken : ((r.fleet i).step t).isSome := by rw [some, Option.isSome_some]
      refine ⟨_, hp, rfl, ?_, ?_⟩
      · rw [stepsFrom_step hm hx taken]
        exact next
      · rw [stepsFrom_step hm hx taken, Bool.toNat_true]
        show _ + p.stepsLeft ≤ 4
        omega

/-- A halt is final, whatever moves come after it. A node that was healthy is halted on an update
of the log, and nobody marks the version of that update on it. From then on the latest version of
the node is the one before the update, its watermark is not beyond that, and has failed with the
error of the update for good. A statement that is started on the node later appends nothing. It
ends after four steps of its task at most, and its task can go on until it has ended, or sleeps
until the latest version is active on every node; nobody lets it wait. It ends with the error of
its check, with the latest version if it changes nothing, and otherwise with the error of the halt,
after one offer. -/
theorem halt_is_final (r : Run) {h n k : Nat} (hh : r.StopsAt h n k)
    (healthy : ((r.fleet h).node n).mark.failure = none)
    (spared : ∀ i skew v, r.moves i = .request n skew (.markDone v) → v.number.val ≠ k + 1) :
    ∃ c err, snapshot (r.fleet h).storage.log k = .ok c ∧ c.version.number.val = k ∧
      snapshot (r.fleet h).storage.log (k + 1) = .error err ∧
      (∀ i, h < i → ((r.fleet i).node n).history.latest = .ok c ∧
        ((r.fleet i).node n).mark.doneUntil ≤ c.version ∧
        ((r.fleet i).node n).mark.failure = some err) ∧
      ∀ s t st, r.Starts s n st t → h < s →
        (∀ j u, ¬ r.Appends j t u) ∧
        (¬ st.Changes c → ∀ e, st.fate c err = .failed e → e.isValidation = true) ∧
        ∀ i, s < i →
          (∀ o, (r.fleet i).outcome? t = some o → o = st.fate c err ∧
            (st.Changes c → r.stepsFrom t Point.offers i = 1) ∧
            (¬ st.Changes c → r.stepsFrom t Point.offers i = 0)) ∧
          (4 ≤ r.stepsFrom t (fun _ => true) i → ∃ o, (r.fleet i).outcome? t = some o) ∧
          ((r.fleet i).step t = none → (r.fleet i).outcome? t = some (st.fate c err) ∨
            st.fate c err = .version c.version ∧ (r.fleet i).SleepsFor t n c.version) ∧
          ∀ x v q, (r.fleet i).tasks[t]? = some x → x.point ≠ .awaiting v q := by
  -- From the halt on the node is stranded, and each statement that is started later is in vain.
  obtain ⟨c, err, hc, version, herr, stranded⟩ := stranded_of_halt hh healthy spared
  refine ⟨c, err, hc, version, herr, fun i hi => ?_, fun s t st hs hhs => ⟨fun j u ha => ?_, ?_,
    fun i hi => ?_⟩⟩
  · exact ⟨(stranded i hi).latest, (stranded i hi).undone, (stranded i hi).failure⟩
  · obtain ⟨x, hx, stores⟩ := ha.stores
    have hj := hs.lt_of_task hx
    obtain ⟨y, hy, -, vain, -⟩ := hs.vain (fun i hi => stranded i (Nat.lt_trans hhs hi)) hj
    rw [hx] at hy
    cases hy
    exact vain.not_stores (stranded j (Nat.lt_trans hhs hj)) stores.offer stores.accepts
  · exact fun none e he => Statement.fate_failed none he
  · obtain ⟨x, hx, rfl, vain, left⟩ := hs.vain (fun i hi => stranded i (Nat.lt_trans hhs hi)) hi
    have outcome : ∀ o, (r.fleet i).outcome? t = some o ↔ x.point = .ended o := fun o => by
      rw [Fleet.outcome?, hx, Option.bind_some]
      exact ⟨Task.point_of_outcome, fun ho => by rw [Task.outcome?, ho]⟩
    refine ⟨fun o ho => ?_, fun four => ?_, vain.rests hx, fun y v q hy hp => ?_⟩
    · rw [(outcome o).1 ho] at vain
      exact vain.outcome
    · obtain ⟨o, ho⟩ := vain.ended (by omega)
      exact ⟨o, (outcome o).2 ho⟩
    · rw [hx] at hy
      cases hy
      rw [hp] at vain
      exact vain.not_awaiting

/-- A node is halted on the second update of the log and stopped. Then a statement is started that
changes a zone, one that is refused, and one that changes nothing. -/
def abandoned : Run :=
  ofMoves Clock.unset
    [.join Config.unset none, .request 0 .zero .start, .step 0, .step 0, .step 0, .step 0,
      .request 0 .zero (.commit (blank ⟨1⟩)), .step 3, .step 2, .step 1, .step 1,
      .request 0 .zero (.commit unappliable), .step 4, .step 2,
      .request 0 .zero .stop, .step 5, .step 1, .step 5, .step 5, .step 5, .step 5,
      .request 0 .zero (.execute repartition), .step 6, .step 6, .step 6, .step 6,
      .request 0 .zero (.execute (.dropZone Zone.defaultName)), .step 7,
      .request 0 .zero (.execute (.dropColumns none "T" [])), .step 8]
    (by decide +kernel)

lemma abandoned_stops : abandoned.StopsAt 13 0 1 :=
  stopsAt_of_unappliable (c := (abandoned.fleet 12).clock.tick.current) rfl (by decide)
    (by decide) (by decide) (by decide)

lemma abandoned_spared (i : Nat) (skew : Duration) (v : Version)
    (hm : abandoned.moves i = .request 0 skew (.markDone v)) : v.number.val ≠ 1 + 1 := by
  have spares : (abandoned.moves i).sparesMarkOf 0 = true :=
    moves_ofMoves (P := fun m => m.sparesMarkOf 0 = true) (by decide) rfl i
  rw [hm] at spares
  cases spares

theorem halt_is_final_abandoned :
    (abandoned.fleet 30).outcome? 6 = some (.failed (.invariant (.noTable 99))) ∧
      abandoned.stepsFrom 6 Point.offers 30 = 1 ∧
      (abandoned.fleet 30).outcome? 7 = some (.failed (.defaultZoneProtected .drop)) ∧
      (abandoned.fleet 30).outcome? 8 = some (.version ⟨1⟩) := by
  obtain ⟨c, err, hc, -, herr, -, statements⟩ :=
    halt_is_final abandoned abandoned_stops (by decide +kernel) abandoned_spared
  have started : ∀ s t st, abandoned.moves s = .request 0 .zero (.execute st) →
      t = (abandoned.fleet s).tasks.length → 0 < (abandoned.fleet s).nodes.length →
      abandoned.Starts s 0 st t := fun s t st move task node => ⟨⟨.zero, move⟩, node, task⟩
  have failed : snapshot (abandoned.fleet 13).storage.log 2 =
      .error (.invariant (.noTable 99)) := by decide +kernel
  rw [failed] at herr
  cases herr
  have fates : (snapshot (abandoned.fleet 13).storage.log 1).toOption.map (fun c =>
      [repartition, .dropZone Zone.defaultName, .dropColumns none "T" []].map fun st =>
        st.fate c (.invariant (.noTable 99))) =
      some [.failed (.invariant (.noTable 99)), .failed (.defaultZoneProtected .drop),
        .version ⟨1⟩] := by decide +kernel
  rw [hc] at fates
  simp only [Except.toOption, Option.map_some, List.map_cons, List.map_nil, Option.some.injEq,
    List.cons.injEq, and_true] at fates
  obtain ⟨changing, refused, vacuous⟩ := fates
  obtain ⟨-, validation, changed⟩ := statements 21 6 repartition
    (started _ _ _ rfl (by decide +kernel) (by decide +kernel)) (by decide)
  obtain ⟨-, -, unchanged⟩ := statements 26 7 (.dropZone Zone.defaultName)
    (started _ _ _ rfl (by decide +kernel) (by decide +kernel)) (by decide)
  obtain ⟨-, -, unchanged'⟩ := statements 28 8 (.dropColumns none "T" [])
    (started _ _ _ rfl (by decide +kernel) (by decide +kernel)) (by decide)
  have ended : ∀ t ∈ [6, 7, 8], ((abandoned.fleet 30).outcome? t).isSome := by decide +kernel
  obtain ⟨o, ho⟩ := Option.isSome_iff_exists.1 (ended 6 (by decide))
  obtain ⟨o', ho'⟩ := Option.isSome_iff_exists.1 (ended 7 (by decide))
  obtain ⟨o'', ho''⟩ := Option.isSome_iff_exists.1 (ended 8 (by decide))
  obtain ⟨rfl, offers, -⟩ := (changed 30 (by decide)).1 o ho
  obtain ⟨rfl, -⟩ := (unchanged 30 (by decide)).1 o' ho'
  obtain ⟨rfl, -⟩ := (unchanged' 30 (by decide)).1 o'' ho''
  refine ⟨changing ▸ ho, offers ?_, refused ▸ ho', vacuous ▸ ho''⟩
  -- The error of the halt is none of a check.
  by_contra none
  have := validation none _ changing
  cases this

/-- The same node, where the version of the update on which it is halted is marked from outside. -/
def overruled : Run :=
  ofMoves Clock.unset
    [.join Config.unset none, .request 0 .zero .start, .step 0, .step 0, .step 0, .step 0,
      .request 0 .zero (.commit (blank ⟨1⟩)), .step 3, .step 2, .step 1, .step 1,
      .request 0 .zero (.commit unappliable), .step 4, .step 2,
      .request 0 .zero (.markDone ⟨2⟩)]
    (by decide +kernel)

/-- A node is halted on an update, and its watermark comes to be beyond the version before it, as
somebody else marks that of the update. -/
theorem overruled_passes :
    overruled.StopsAt 13 0 1 ∧ ((overruled.fleet 13).node 0).mark.failure = none ∧
      ((overruled.fleet 15).node 0).mark.doneUntil = ⟨2⟩ :=
  ⟨stopsAt_of_unappliable (c := (overruled.fleet 12).clock.tick.current) rfl (by decide +kernel)
    (by decide +kernel) (by decide +kernel) (by decide +kernel), by decide +kernel,
    by decide +kernel⟩

end Run

end SchemaCatalog
