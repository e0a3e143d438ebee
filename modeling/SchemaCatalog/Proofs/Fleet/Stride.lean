import SchemaCatalog.Proofs.Fleet.Happening

/-!
# The steps of a statement over any log

Where a log answers what it likes, the task of a statement still goes from point to point as its
statement does (`Stride`). Nothing that it does changes what is committed or registered, unless its
update is accepted.
-/

namespace SchemaCatalog

namespace Fleet

/-- What is committed, and what the nodes have registered. -/
def record (f : Fleet) : Storage × List History := (f.storage, f.nodes.map Node.history)

/-- Where a step from `f` to `g` takes the task `x` of a statement, whatever the log of its node
answers. A log over the shared storage accepts an update by storing it. -/
inductive Stride (f g : Fleet) (x : Task) : Point → Prop where
  | turn {p : Point} : x.point.asksLog = false → f.Turn g x p → g.record = f.record → Stride f g x p
  | taken {st : Statement} {a : Nat} {u : Update} :
      x.point = .submit st a u →
      ((f.node x.node).link.log?.isSome → ∃ acc : f.storage.accepts u,
        g.storage = f.storage.append u f.clock.tick.current acc) →
      Stride f g x (.await u.version .saved)
  | refused {st : Statement} {a : Nat} {u : Update} :
      x.point = .submit st a u → g.record = f.record → Stride f g x (.review st a)
  | asked {st : Statement} {a : Nat} {v : Version} :
      x.point = .review st a → g.record = f.record → Stride f g x (.await v (.retry st a))
  | broken {e : LogFault} :
      x.point.asksLog = true → g.record = f.record → Stride f g x (.ended (.failed (.log e)))

section

variable {f g k : Fleet} {t n : Nat} {x : Task} {p : Point} {s : Script} {st : Statement} {a : Nat}
  {u : Update}

/-! ## What is committed and registered -/

lemma record_congr (storage : g.storage = f.storage) (nodes : g.nodes = f.nodes) :
    g.record = f.record := by
  rw [record, record, storage, nodes]

lemma record_of_core (e : g.core = f.core) : g.record = f.record := by
  obtain ⟨-, storage, -, -, -, nodes, -⟩ := core_inj e
  exact record_congr storage nodes

@[simp] lemma record_moveTo (f : Fleet) (t : Nat) (p : Point) : (f.moveTo t p).record = f.record :=
  record_congr (by simp) (by simp)

@[simp] lemma record_finish (f : Fleet) (t : Nat) (o : Outcome) :
    (f.finish t o).record = f.record :=
  record_congr (by simp) (by simp)

lemma record_onNode {c : Node → Node} (h : ∀ y, (c y).history = y.history) :
    (f.onNode n c).record = f.record := by
  have same : ∀ (l : List Node) (n : Nat),
      (l.modify n c).map Node.history = l.map Node.history := by
    intro l
    induction l with
    | nil => simp
    | cons y l ih =>
      intro n
      cases n with
      | zero => simp [h]
      | succ n => simp [ih]
  simp [record, same]

lemma record_alike {nodes : List Node} (h : f.Alike nodes) :
    { f with nodes := nodes }.record = f.record := by
  rw [record, record]
  refine congrArg _ (List.ext_getElem (by simp [h.1]) fun i hi hi' => ?_)
  simp only [List.length_map] at hi hi'
  have same := (h.2 i).history
  rw [node, node, List.getD_eq_getElem?_getD, List.getD_eq_getElem?_getD,
    List.getElem?_eq_getElem hi, List.getElem?_eq_getElem hi'] at same
  simpa using same

/-- A step of a statement that offers nothing changes none of it. -/
lemma record_of_effect (hs : x.point.isStatement = true) (ho : x.point.offer? = none)
    (h : f.Effect t x k) : k.record = f.record := by
  have stands : ∀ {q : Point}, x.point = q → q.isStatement = false → k.record = f.record := by
    intro q hq hn
    rw [hq, hn] at hs
    cases hs
  cases h with
  | idle _ => rfl
  | still _ _ _ _ ha => exact record_alike ha
  | draft _ _ _ _ _ => exact record_moveTo ..
  | append _ hu _ _ =>
    rw [ho] at hu
    cases hu
  | enqueue _ _ => exact (record_moveTo ..).trans (record_onNode fun _ => rfl)
  | beginDelivery _ _ _ _ _ _ => rfl
  | detach _ _ _ _ => rfl
  | start e _ _ _ _ => exact stands e rfl
  | release e _ _ => exact stands e rfl
  | closeMark e => exact stands e rfl
  | hand e _ _ _ _ _ => exact stands e rfl
  | note e _ _ _ => exact stands e rfl
  | halt e _ _ _ _ => exact stands e rfl
  | haltRecorder e _ _ _ => exact stands e rfl
  | endDelivery e _ => exact stands e rfl
  | takeNotice e _ _ => exact stands e rfl
  | endDispatch e _ => exact stands e rfl
  | call e => exact stands e rfl
  | wait e => exact stands e rfl
  | called e _ => exact stands e rfl
  | done e _ => exact stands e rfl
  | overflow e _ => exact stands e rfl

/-! ## Steps that turn to the log -/

/-- A step takes the task of a statement to a point. -/
def Strides (f : Fleet) (t : Nat) (x : Task) (g : Fleet) : Prop :=
  ∃ p, g.tasks[t]? = some { x with point := p, signal := none } ∧ f.Stride g x p

lemma linkFault_error {call : LogCall} {e : Error} (h : f.linkFault n call = .error e) :
    ∃ fault, e = .log fault := by
  unfold linkFault at h
  split at h
  · split at h
    · rename_i e' he
      cases h
      obtain ⟨words, -, rfl⟩ := Option.map_eq_some_iff.1 he
      exact ⟨_, rfl⟩
    · cases h
  · cases h

lemma appendLink_error {e : Error} (h : f.appendLink n u = .error e) : ∃ fault, e = .log fault := by
  unfold appendLink at h
  rcases bind_error h with h | ⟨_, -, h⟩
  · exact linkFault_error h
  · split at h
    all_goals cases h

lemma committedOf_error {e : Error} (h : f.committedOf n = .error e) : ∃ fault, e = .log fault := by
  unfold committedOf at h
  rcases bind_error h with h | ⟨_, -, h⟩
  · exact linkFault_error h
  · split at h
    all_goals cases h

/-- What a scripted log answers: it refuses an update and nothing is committed or registered, or it
accepts it. -/
lemma appendLink_of_script {yes : Bool} (hl : (f.node n).link = .scripted s)
    (hg : f.appendLink n u = .ok (g, yes)) : yes = true ∨ g.record = f.record := by
  unfold appendLink at hg
  rcases bind_ok hg with ⟨_, -, hg⟩
  rw [hl] at hg
  have e := Except.ok.inj hg
  unfold appendScripted at e
  dsimp only at e
  split at e
  · exact .inl (congrArg Prod.snd e).symm
  · split at e
    · exact .inl (congrArg Prod.snd e).symm
    · exact .inl (congrArg Prod.snd e).symm
  · cases e
    exact .inr (record_onNode fun _ => rfl)

/-- A task that has an offer to make makes it, and goes on as the log answers. -/
lemma strides_submit (hn : x.node < f.nodes.length) (hx : f.tasks[t]? = some x)
    (e : x.point = .submit st a u) : f.Strides t x (f.stepSubmit t x.node st a u) := by
  -- A log over the storage answers as the storage does, and a scripted one as it was told.
  cases hl : (f.node x.node).link.log? with
  | some log =>
    obtain ⟨nodes, ha, ⟨-, h⟩ | h⟩ := appendLink_of_log hn hl u
    · rw [stepSubmit, h]
      exact ⟨_, getElem?_moveTo (k := { f with nodes }) hx _,
        .refused e ((record_moveTo ..).trans (record_alike ha))⟩
    · rw [stepSubmit, h]
      by_cases acc : f.storage.accepts u
      · obtain ⟨k, hk, hc⟩ := commit_of_accepts nodes acc
        obtain ⟨-, storage, -, -, -, -, tasks⟩ := core_inj hc
        rw [hk]
        exact ⟨_, getElem?_moveTo (by rw [tasks]; exact hx) _,
          .taken e fun _ => ⟨acc, by simpa using storage⟩⟩
      · rw [commit_of_not_accepts (f := { f with nodes }) acc]
        exact ⟨_, getElem?_moveTo (k := { f with nodes }) hx _,
          .refused e ((record_moveTo ..).trans (record_alike ha))⟩
  | none =>
    obtain ⟨s, hs⟩ := link_of_none hl
    unfold stepSubmit
    split
    · rename_i err herr
      obtain ⟨fault, rfl⟩ := appendLink_error herr
      exact ⟨_, getElem?_finish hx _, .broken (by rw [e]; rfl) (record_finish ..)⟩
    · rename_i k hk
      obtain ⟨y, hy, hyn, -⟩ := (keeps_appendLink (h := .turnClock f.clock) hs hk).task t x hx
      refine ⟨_, by rw [getElem?_moveTo hy, hyn], .taken e fun linked => ?_⟩
      rw [hl] at linked
      cases linked
    · rename_i k hk
      obtain ⟨y, hy, hyn, -⟩ := (keeps_appendLink (h := .turnClock f.clock) hs hk).task t x hx
      refine ⟨_, by rw [getElem?_moveTo hy, hyn], .refused e ((record_moveTo ..).trans ?_)⟩
      exact (appendLink_of_script hs hk).resolve_left Bool.false_ne_true

lemma strides_review (hx : f.tasks[t]? = some x) (e : x.point = .review st a) :
    f.Strides t x (f.stepReview t x.node st a) := by
  unfold stepReview
  split
  · rename_i err herr
    obtain ⟨fault, rfl⟩ := committedOf_error herr
    exact ⟨_, getElem?_finish hx _, .broken (by rw [e]; rfl) (record_finish ..)⟩
  · exact ⟨_, getElem?_moveTo hx _, .asked e (record_moveTo ..)⟩

/-- Every step of the task of a statement is one of its strides, whatever log its node works
with. -/
theorem stride_of_step (hn : x.node < f.nodes.length) (hx : f.tasks[t]? = some x)
    (hs : x.point.isStatement = true) (hg : f.step t = some g) : f.Strides t x g := by
  by_cases asks : x.point.asksLog = true
  · rw [step, hx] at hg
    cases e : x.point with
    | submit st a u =>
      simp only [e, Option.some.injEq] at hg
      exact hg ▸ strides_submit hn hx e
    | review st a =>
      simp only [e, Option.some.injEq] at hg
      exact hg ▸ strides_review hx e
    | _ =>
      rw [e] at hs asks
      first
        | exact absurd hs Bool.false_ne_true
        | exact absurd asks Bool.false_ne_true
  · have silent : x.point.asksLog = false := by simpa using asks
    have linked : x.point.asksLog = true → (f.node x.node).link.log?.isSome :=
      fun h => absurd h asks
    have offers : x.point.offer? = none := by
      cases e : x.point with
      | submit st a u =>
        rw [e] at silent
        cases silent
      | commit u =>
        rw [e] at hs
        cases hs
      | _ => rfl
    obtain ⟨k, hk, hc⟩ := effects_of_step_of_log hn linked hx hg
    obtain ⟨p, hp, turn⟩ := turn_of_step_of_log hn linked hx hs hg
    exact ⟨p, hp, .turn silent turn ((record_of_core hc).trans (record_of_effect hs offers hk))⟩

/-! ## The strides from one point -/

lemma Stride.of_turn (h : f.Stride g x p) (silent : x.point.asksLog = false) : f.Turn g x p := by
  cases h with
  | turn _ turn _ => exact turn
  | taken e _ =>
    rw [e] at silent
    cases silent
  | refused e _ =>
    rw [e] at silent
    cases silent
  | asked e _ =>
    rw [e] at silent
    cases silent
  | broken asks _ =>
    rw [asks] at silent
    cases silent

/-- An offer is accepted, or refused, or cannot be made. -/
lemma Stride.of_submit (h : f.Stride g x p) (e : x.point = .submit st a u) :
    p = .await u.version .saved ∨ p = .review st a ∨
      ∃ fault, p = .ended (.failed (.log fault)) := by
  cases h with
  | turn silent _ _ =>
    rw [e] at silent
    cases silent
  | taken e' _ =>
    cases e.symm.trans e'
    exact .inl rfl
  | refused e' _ =>
    cases e.symm.trans e'
    exact .inr (.inl rfl)
  | asked e' _ => cases e.symm.trans e'
  | broken _ _ => exact .inr (.inr ⟨_, rfl⟩)

/-- Whoever lost waits for what the log says, or the log cannot be asked. -/
lemma Stride.of_review (h : f.Stride g x p) (e : x.point = .review st a) :
    (∃ v, p = .await v (.retry st a)) ∨ ∃ fault, p = .ended (.failed (.log fault)) := by
  cases h with
  | turn silent _ _ =>
    rw [e] at silent
    cases silent
  | taken e' _ => cases e.symm.trans e'
  | refused e' _ => cases e.symm.trans e'
  | asked e' _ =>
    cases e.symm.trans e'
    exact .inl ⟨_, rfl⟩
  | broken _ _ => exact .inr ⟨_, rfl⟩

/-- A step of a statement changes what is committed or registered only if its update is accepted. -/
lemma Stride.record (h : f.Stride g x p) :
    g.record = f.record ∨ (x.point.offer?.isSome ∧ p.answer? = some true) := by
  cases h with
  | turn _ _ same => exact .inl same
  | taken e _ =>
    rw [e]
    exact .inr ⟨rfl, rfl⟩
  | refused _ same => exact .inl same
  | asked _ same => exact .inl same
  | broken _ same => exact .inl same

end

end Fleet

end SchemaCatalog
