import SchemaCatalog.Proofs.Fleet.Dispatch

/-!
# A version that is never marked

A dispatcher marks only versions that its node has come to. So a version that the node never comes
to is marked on request only, and its watermark stays below it unless it is (`Barred`).
-/

namespace SchemaCatalog

namespace Fleet

variable {f g : Fleet} {m : Move} {t n w : Nat} {x : Task} {p : Point}

/-- Nobody has marked a version of a node or is about to: what the dispatcher of the node sees to,
and what it has still to see to, are other versions. -/
structure Barred (f : Fleet) (n w : Nat) : Prop where
  unmarked : ¬ (f.node n).mark.Marked w
  inHand : ∀ (t : Nat) (x : Task) (z : Notice), f.tasks[t]? = some x → x.node = n →
    x.point.notice? = some z → z.version.number.val ≠ w
  queued : ∀ (d : Dispatch) (z : Notice), (f.node n).dispatch = some d → z ∈ d.queue →
    z.version.number.val ≠ w
  named : ∀ (t : Nat) (x : Task), f.tasks[t]? = some x → x.node = n →
    x.point.dispatches = true → ∃ d, (f.node n).dispatch = some d

namespace Barred

/-- Where the dispatcher of a node is left alone nobody marks anything. -/
lemma rests (h : f.Barred n w) (hd : f.DutiesKept n g.tasks)
    (unmarked : ¬ (g.node n).mark.Marked w)
    (old : ∀ d', (g.node n).dispatch = some d' → ∃ d, (f.node n).dispatch = some d ∧
      d'.queue = d.queue)
    (new : ∀ d, (f.node n).dispatch = some d → ∃ d', (g.node n).dispatch = some d') :
    g.Barred n w where
  unmarked := unmarked
  inHand t x z hx hn hz := by
    obtain ⟨y, hy, hyn, same⟩ := hd.from_old t x hx hn (Point.dispatches_of_notice hz)
    exact h.inHand t y z hy hyn (same ▸ hz)
  queued d' z hd' hz := by
    obtain ⟨d, hd, queue⟩ := old d' hd'
    exact h.queued d z hd (queue ▸ hz)
  named t x hx hn hp := by
    obtain ⟨y, hy, hyn, same⟩ := hd.from_old t x hx hn hp
    obtain ⟨d, hd⟩ := h.named t y hy hyn (same ▸ hp)
    exact new d hd

/-- What a dispatcher is told is of a version that its node has come to. -/
lemma told {k k' : Nat} {y : History} {z : Notice} (h : f.Barred n w) (hn : Numbered f.storage.log)
    (hz : Leads f.storage.log k [z] k') (bound : k' < w)
    (node : g.node n = { f.node n with history := y }.notify z) (tasks : g.tasks = f.tasks) :
    g.Barred n w where
  unmarked := by
    rw [node, (Node.notify_fields _ z).2.1]
    exact h.unmarked
  inHand := tasks ▸ h.inHand
  queued d' z' hd' hz' := by
    rw [node] at hd'
    obtain ⟨d, hd, rfl⟩ := DispatchesOn.notified_cases hd'
    split at hz'
    · rcases List.mem_append.1 hz' with hz' | hz'
      · exact h.queued d z' hd hz'
      · have := hz.version_le hn hz'
        omega
    · exact h.queued d z' hd hz'
  named t x hx hxn hp := by
    obtain ⟨d, hd⟩ := h.named t x (tasks ▸ hx) hxn hp
    obtain ⟨d', hd', -⟩ := DispatchesOn.dispatch_notify
      (y := { f.node n with history := y }) (z := z) hd
    exact ⟨d', node ▸ hd'⟩

/-- A dispatcher that does its duty marks the version that it sees to. -/
lemma served (h : f.Barred n w) (hf : f.Frame (.step t) g) (hx : f.tasks[t]? = some x)
    (hxn : x.node = n) (hxd : x.point.dispatches = true)
    (hlen : g.tasks.length = f.tasks.length) (hy : ∃ y, g.tasks[t]? = some y ∧ y.point = p)
    (duty : ∀ d, (f.node n).dispatch = some d → ∃ d', (g.node n).dispatch = some d' ∧
      d'.task = d.task ∧ Duty x.point d (f.node n).mark p d' (g.node n).mark) :
    g.Barred n w := by
  obtain ⟨d, hd⟩ := h.named t x hx hxn hxd
  obtain ⟨d', hd', -, duty⟩ := duty d hd
  obtain ⟨y, hy, rfl⟩ := hy
  -- The other tasks stand where they stood.
  have others : ∀ s z, s ≠ t → g.tasks[s]? = some z →
      ∃ z', f.tasks[s]? = some z' ∧ z'.node = z.node ∧ z'.point = z.point := by
    intro s z ne hz
    obtain ⟨hlt, -⟩ := List.getElem?_eq_some_iff.1 hz
    obtain ⟨z', hz'⟩ : ∃ z', f.tasks[s]? = some z' :=
      ⟨_, List.getElem?_eq_getElem (hlen ▸ hlt)⟩
    obtain ⟨z'', hz'', node, same⟩ := hf.task s z' hz'
    rw [hz] at hz''
    cases hz''
    exact ⟨z', hz', node.symm, (same (.inl fun e => ne (by cases e; rfl))).symm⟩
  refine ⟨fun marked => ?_, fun s z v hz hzn hv => ?_, fun e v he hv => ?_, fun _ _ _ _ _ =>
    ⟨d', hd'⟩⟩
  · rcases duty.marked marked with old | ⟨v, hv, same⟩
    · exact h.unmarked old
    · exact h.inHand t x v hx hxn hv same
  · by_cases e : s = t
    · subst e
      rw [hy] at hz
      cases hz
      obtain ⟨v', version, hv' | hv'⟩ := duty.notice hv
      · rw [← version]
        exact h.inHand s x v' hx hxn hv'
      · rw [← version]
        exact h.queued d v' hd hv'
    · obtain ⟨z', hz', node, same⟩ := others s z e hz
      exact h.inHand s z' v hz' (node.trans hzn) (same ▸ hv)
  · rw [hd'] at he
    cases he
    exact h.queued d v hd (duty.queue hv)

/-- A node that begins has nothing to mark. -/
lemma begun (h : f.Barred n w)
    (old : ∀ (s : Nat) (y : Task), g.tasks[s]? = some y → y.node = n → y.point.dispatches = true →
      s = f.tasks.length ∨ ∃ z, f.tasks[s]? = some z ∧ z.node = n ∧ z.point = y.point)
    (new : g.tasks[f.tasks.length]? = some ⟨n, .dispatch, none⟩)
    (hd : (g.node n).dispatch = some ⟨[], true, f.tasks.length⟩)
    (mark : (g.node n).mark = (f.node n).mark) : g.Barred n w where
  unmarked := mark ▸ h.unmarked
  inHand t x z hx hn hz := by
    rcases old t x hx hn (Point.dispatches_of_notice hz) with rfl | ⟨y, hy, hyn, same⟩
    · rw [new] at hx
      cases hx
      cases hz
    · exact h.inHand t y z hy hyn (same ▸ hz)
  queued d z hd' hz := by
    rw [hd] at hd'
    cases hd'
    cases hz
  named _ _ _ _ _ := ⟨_, hd⟩

/-- What a move can do to the dispatcher of a node marks no version that the node does not come
to. -/
lemma serves (h : f.Barred n w) (hn : Numbered f.storage.log) (hf : f.Frame m g)
    (bound : ∀ k, g.Reached n k → k < w) (hs : f.Serves n m g) : g.Barred n w := by
  cases hs with
  | rests hd hk =>
    refine h.rests hd ?_ ?_ ?_
    · rw [Watermark.Marked, hk.doneUntil, hk.done]
      exact h.unmarked
    · intro d' hd'
      obtain ⟨d, hd, -, queue, -⟩ := hk.from_old hd'
      exact ⟨d, hd, queue⟩
    · intro d hd
      obtain ⟨d', hd', -⟩ := hk.to_new hd
      exact ⟨d', hd'⟩
  | told _ hk' hz node tasks _ => exact h.told hn hz (bound _ hk') node tasks
  | begins _ _ old new hd mark => exact h.begun old new hd mark
  | serves hm hx hxn hxd hlen hy _ _ duty =>
    subst hm
    exact h.served hf hx hxn hxd hlen hy duty

/-- A request that marks another version, or has the watermark fail, leaves the version alone. -/
lemma drives (h : f.Barred n w) (hd : f.Drives n m g)
    (spared : ∀ skew v, m = .request n skew (.markDone v) → v.number.val ≠ w) : g.Barred n w := by
  cases hd with
  | done hf hd node =>
    refine h.rests hd ?_ (fun d hd' => ⟨d, by rwa [node] at hd', rfl⟩)
      (fun d hd' => ⟨d, by rwa [node]⟩)
    rw [node]
    intro marked
    rcases Watermark.marked_of_finish hf marked with old | same
    · exact h.unmarked old
    · exact spared _ _ rfl same.symm
  | fail hd node =>
    refine h.rests hd ?_ (fun d hd' => ⟨d, by rwa [node] at hd', rfl⟩)
      (fun d hd' => ⟨d, by rwa [node]⟩)
    rw [node]
    exact h.unmarked

lemma congr (h : f.Barred n w) (e : g.core = f.core) : g.Barred n w := by
  obtain ⟨-, -, -, -, -, nodes, tasks⟩ := core_inj e
  have node : g.node n = f.node n := node_congr nodes n
  exact ⟨node ▸ h.unmarked, tasks ▸ h.inHand, node ▸ h.queued, node ▸ tasks ▸ h.named⟩

end Barred

lemma barred_ofClock (c : Clock) (hw : 0 < w) : (ofClock c).Barred n w where
  unmarked := by
    rintro (reached | ahead)
    · exact absurd reached (Nat.not_le.2 hw)
    · cases ahead
  inHand _ _ _ hx := by cases hx
  queued _ _ hd := by cases hd
  named _ _ hx := by cases hx

end Fleet

end SchemaCatalog
