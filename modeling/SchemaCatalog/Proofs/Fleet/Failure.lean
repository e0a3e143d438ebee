import SchemaCatalog.Proofs.Fleet.Replay

/-!
# Why waits fail

A watermark fails because its node is stopped, because an update that is handed over cannot be
applied, or on request. So nobody who waits is told a verdict on a statement, which is that a check
refused it or that it lost too often, unless a request says so.
-/

namespace SchemaCatalog

/-- Whether an error is a verdict on a statement: a check refused it, or it lost too often. -/
def Error.isVerdict : Error → Bool
  | .retryLimitExceeded _ => true
  | e => e.isValidation

lemma Error.isVerdict_of_isValidation {e : Error} (h : e.isValidation = true) :
    e.isVerdict = true := by
  cases e with
  | retryLimitExceeded a => rfl
  | _ => exact h

/-- Whether a move leaves it to statements to fail checks on a node. -/
def Move.sparesChecks (n : Nat) : Move → Bool
  | .request k _ (.failMark e) => k ≠ n || !e.isValidation
  | _ => true

/-- The history of a node fails to take an update up only where an invariant does not hold. -/
lemma History.handle_error {y : History} {u : Update} {commit : Timestamp} {token : Token}
    {e : Error} (h : y.handle u commit token = .error e) : ∃ b, e = .invariant b := by
  unfold handle at h
  split at h
  · cases h
  · split at h
    · cases h
      exact ⟨_, rfl⟩
    · rename_i previous _
      split at h
      · cases h
      · rename_i err herr
        cases h
        rcases bind_error herr with herr | ⟨_, -, herr⟩
        · exact Catalog.applyEntries_error herr
        · cases herr

lemma Node.handle_error {x : Node} {u : Update} {commit : Timestamp} {token : Token} {e : Error}
    (h : x.handle u commit token = .error e) : ∃ b, e = .invariant b := by
  unfold handle at h
  split at h
  · cases h
  · rename_i herr
    cases h
    exact History.handle_error herr

lemma Update.decode_error {bytes : List UInt8} {e : Error} (h : decode bytes = .error e) :
    ∃ w, e = .codec w := by
  unfold decode at h
  split at h
  · cases h
  · cases h
    exact ⟨_, rfl⟩

namespace Fleet

/-- Nodes whose watermarks had failed as they have. -/
def FailuresKept (f : Fleet) (nodes : List Node) : Prop :=
  ∀ n e, ({ f with nodes := nodes }.node n).mark.failure = some e →
    (f.node n).mark.failure = some e

/-- In a step of the task `t`, which is `x`, the watermark of a node fails with an error, because
the node lets nobody wait any more or because it is halted. -/
inductive FailsWith (f g : Fleet) (t : Nat) (x : Task) (n : Nat) : Error → Prop where
  | closed : x.point = .closeMark → x.node = n → FailsWith f g t x n .stopped
  | halted {z : Stored} {e : Error} :
      f.HandsTo t n → handed (f.node n) z = .error e → g.outcome? t = some .done →
      FailsWith f g t x n e

section

variable {f g : Fleet} {m : Move} {t n : Nat} {x : Task} {e : Error}

/-- A node is not halted with a verdict. -/
lemma handed_error {y : Node} {z : Stored} (h : handed y z = .error e) : e.isVerdict = false := by
  rcases bind_error h with h | ⟨u, -, h⟩
  · obtain ⟨w, rfl⟩ := Update.decode_error h
    rfl
  · obtain ⟨b, rfl⟩ := Node.handle_error h
    rfl

/-- No step makes a watermark fail with a verdict. -/
lemma FailsWith.not_verdict (h : f.FailsWith g t x n e) : e.isVerdict = false := by
  cases h with
  | closed _ _ => rfl
  | halted _ herr _ => exact handed_error herr

lemma failuresKept_refl : f.FailuresKept f.nodes := fun _ _ h => h

lemma failuresKept_alike {nodes : List Node} (h : f.Alike nodes) : f.FailuresKept nodes := by
  intro n e he
  rw [(h.2 n).mark] at he
  exact he

/-- Where one node changes, its watermark alone can fail. -/
lemma failure_modify {k : Node → Node} {j : Nat}
    (he : ({ f with nodes := f.nodes.modify n k }.node j).mark.failure = some e) :
    (f.node j).mark.failure = some e ∨ j = n ∧ (k (f.node n)).mark.failure = some e := by
  by_cases hn : n < f.nodes.length
  · rw [node_modify (f := f) (g := { f with nodes := f.nodes.modify n k }) rfl hn] at he
    split at he
    · rename_i ej
      exact .inr ⟨ej, he⟩
    · exact .inl he
  · rw [List.modify_eq_self (Nat.not_lt.1 hn)] at he
    exact .inl he

lemma failuresKept_modify {k : Node → Node}
    (h : ∀ e, (k (f.node n)).mark.failure = some e → (f.node n).mark.failure = some e) :
    f.FailuresKept (f.nodes.modify n k) :=
  fun _ _ he => (failure_modify he).elim id fun h' => h'.1 ▸ h _ h'.2

lemma failuresKept_finish {w : Watermark Nat} {v : Version} {o : Except Abort (List Nat)}
    (hm : (f.node n).mark.finish v = (w, o)) :
    f.FailuresKept (f.nodes.modify n fun z => { z with mark := w }) :=
  failuresKept_modify fun _ h => (Watermark.finish_failure hm).symm.trans h

lemma failure_fail {w : Watermark Nat} {err : Error} (h : (w.fail err).1.failure = some e) :
    w.failure = some e ∨ e = err := by
  cases hf : w.failure with
  | none =>
    rw [Watermark.fail, hf] at h
    cases h
    exact .inr rfl
  | some e' =>
    rw [Watermark.fail, hf] at h
    cases h
    exact .inl rfl

/-- Where one watermark is made to fail, the others keep their failures. -/
lemma failure_failed {k : Node → Node} {j : Nat} {err : Error}
    (hk : (k (f.node n)).mark = ((f.node n).mark.fail err).1)
    (he : ({ f with nodes := f.nodes.modify n k }.node j).mark.failure = some e) :
    (f.node j).mark.failure = some e ∨ j = n ∧ e = err := by
  rcases failure_modify he with old | ⟨rfl, new⟩
  · exact .inl old
  · rw [hk] at new
    exact (failure_fail new).imp id fun same => ⟨rfl, same⟩

/-- A watermark that has failed after a step had failed before it, or fails in it. -/
lemma failure_of_effect (hx : f.tasks[t]? = some x) (h : f.Effect t x g)
    (he : (g.node n).mark.failure = some e) :
    (f.node n).mark.failure = some e ∨ f.FailsWith g t x n e := by
  have kept : f.FailuresKept g.nodes →
      (f.node n).mark.failure = some e ∨ f.FailsWith g t x n e := fun h => .inl (h n e he)
  -- A watermark comes to fail in two steps only, when its node is closed and when it is halted.
  -- Otherwise its failure is kept.
  cases h with
  | still _ _ _ _ ha => exact kept (failuresKept_alike ha)
  | append _ _ _ ha => exact kept (failuresKept_alike ha)
  | called _ ha => exact kept (failuresKept_alike ha)
  | enqueue => exact kept (failuresKept_modify fun _ => id)
  | start => exact kept (failuresKept_modify fun _ => id)
  | release => exact kept (failuresKept_modify fun _ => id)
  | takeNotice => exact kept (failuresKept_modify fun _ => id)
  | closeMark hp =>
    rcases failure_failed rfl he with old | ⟨rfl, rfl⟩
    · exact .inl old
    · exact .inr (.closed hp rfl)
  | hand _ _ _ _ _ hz =>
    refine kept (failuresKept_modify fun e h => ?_)
    obtain ⟨history, notice, -, rfl⟩ := Node.handle_ok hz
    simpa using h
  | halt hp hy hq hr herr =>
    rcases failure_failed rfl he with old | ⟨rfl, rfl⟩
    · exact .inl old
    · exact .inr (.halted ⟨x, _, _, hx, hp, hy, hr, by rw [hq]; nofun⟩ herr
        (outcome?_moveTo (getElem?_told hx) rfl))
  | done _ hm => exact kept (failuresKept_finish hm)
  | overflow _ hm => exact kept (failuresKept_finish hm)
  | _ => exact kept failuresKept_refl

/-- A watermark that has failed after a move had failed before it, or fails in a step, or on
request. -/
lemma fails_of_change {k : Fleet} (hc : f.Change m k) (he : (k.node n).mark.failure = some e) :
    (f.node n).mark.failure = some e ∨
      (∃ t x, m = .step t ∧ f.tasks[t]? = some x ∧ f.FailsWith k t x n e) ∨
      ∃ skew, m = .request n skew (.failMark e) := by
  have kept : f.FailuresKept k.nodes → (f.node n).mark.failure = some e ∨
      (∃ t x, m = .step t ∧ f.tasks[t]? = some x ∧ f.FailsWith k t x n e) ∨
      ∃ skew, m = .request n skew (.failMark e) := fun h => .inl (h n e he)
  cases hc with
  | step hx _ h =>
    exact (failure_of_effect hx h he).imp id fun h => .inl ⟨_, _, rfl, hx, h⟩
  | stuck _ => exact kept failuresKept_refl
  | still _ ha => exact kept (failuresKept_alike ha)
  | turn => exact kept failuresKept_refl
  | spawn _ _ _ => exact kept failuresKept_refl
  | register _ _ => exact kept failuresKept_refl
  | join _ _ =>
    rw [node_addNode] at he
    split at he
    · cases he
    · exact .inl he
  | markDone _ hm => exact kept (failuresKept_finish hm)
  | overflow _ hm => exact kept (failuresKept_finish hm)
  | failMark _ =>
    rcases failure_failed rfl he with old | ⟨rfl, rfl⟩
    · exact .inl old
    · exact .inr (.inr ⟨_, rfl⟩)

/-- A watermark that has failed had failed before, or fails with no verdict, or on request. -/
lemma failure_of_change {k : Fleet} (hc : f.Change m k) (he : (k.node n).mark.failure = some e) :
    (f.node n).mark.failure = some e ∨ e.isVerdict = false ∨
      ∃ skew, m = .request n skew (.failMark e) :=
  (fails_of_change hc he).imp id (.imp (fun ⟨_, _, _, _, h⟩ => h.not_verdict) id)

end

end Fleet

end SchemaCatalog
