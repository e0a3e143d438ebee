import SchemaCatalog.Proofs.Fleet.Dispatch
import SchemaCatalog.Proofs.Fleet.Feeding

/-!
# A dispatcher that misses nothing

As long as a dispatcher takes notices whenever its node is handed an update, its notices lead to the
version that the node has come to, and it ends only when there are none left (`CompleteOn`). So all
versions of the node are done when the dispatcher has ended.
-/

namespace SchemaCatalog

/-- A dispatcher at a point was told of all versions up to `k`, to which its node has come. It ends
when it has seen to all of them, unless the numbers of versions are used up. -/
structure Complete (log : List Committed) (w : Watermark Nat) (p : Point) (d : Dispatch) (k : Nat) :
    Prop where
  leads : Leads log (p.takenUp w.doneUntil.number.val) d.queue k
  ended : p.dispatches = true ∨ p = .ended .done ∧ d.queue = [] ∧ d.accepting = false ∨
    (∃ a, p = .ended (.aborted a)) ∧
      18_446_744_073_709_551_616 ≤ w.doneUntil.number.val + 2

namespace Complete

variable {log : List Committed} {w w' : Watermark Nat} {p p' : Point} {d d' : Dispatch}
  {k k' : Nat}

lemma begin (hd : w.doneUntil.number.val = 0) (t : Nat) :
    Complete log w .dispatch ⟨[], true, t⟩ 0 where
  leads := by
    rw [Point.takenUp_dispatch, hd]
    exact .nil
  ended := .inl rfl

lemma mono {log' : List Committed} (h : Complete log w p d k) (hl : log <+: log')
    (hd : w'.doneUntil = w.doneUntil) (hq : d'.queue = d.queue)
    (ha : d'.accepting = true → d.accepting = true) : Complete log' w' p d' k where
  leads := by
    rw [hd, hq]
    exact h.leads.grow hl
  ended := by
    rw [hd, hq]
    refine h.ended.imp id (.imp (fun ⟨hp, empty, closed⟩ => ⟨hp, empty, ?_⟩) id)
    exact Bool.eq_false_iff.2 fun acc => Bool.false_ne_true (closed.symm.trans (ha acc))

/-- A dispatcher that takes notices misses none. -/
lemma told {z : Notice} (h : Complete log w p d k) (hz : Leads log k [z] k')
    (acc : d.accepting = true) : Complete log w p { d with queue := d.queue ++ [z] } k' where
  leads := h.leads.append hz
  ended := by
    refine h.ended.imp id (.imp (fun ⟨_, _, closed⟩ => ?_) id)
    rw [acc] at closed
    cases closed

/-- A dispatcher that does its duty misses nothing. -/
lemma duty (h : Complete log w p d k) (ha : Agenda log w p d k) (hn : Numbered log)
    (hd : Duty p d w p' d' w') : Complete log w' p' d' k where
  leads := ha.leads hn hd h.leads
  ended := by
    cases hd with
    | quit none closed => exact .inr (.inl ⟨rfl, none, closed⟩)
    | overflow hf =>
      obtain ⟨-, ⟨⟨_, ok⟩, -⟩ | ⟨-, same, -, full⟩⟩ := ha.finish hf
      · cases ok
      · exact .inr (.inr ⟨⟨_, rfl⟩, same ▸ full⟩)
    | _ => exact .inl rfl

/-- When a dispatcher has ended all versions are done. -/
lemma doneUntil (h : Complete log w (.ended .done) d k) : w.doneUntil.number.val = k := by
  have leads := h.leads
  rcases h.ended with works | ⟨-, none, -⟩ | ⟨⟨a, aborted⟩, -⟩
  · cases works
  · rw [none] at leads
    cases leads
    rfl
  · cases aborted

end Complete

namespace Fleet

/-- The dispatcher of a node misses nothing. -/
def CompleteOn (f : Fleet) (n : Nat) : Prop :=
  ∀ (d : Dispatch) (x : Task) (k : Nat), (f.node n).dispatch = some d →
    f.tasks[d.task]? = some x → f.Reached n k →
    Complete f.storage.log (f.node n).mark x.point d k

/-- The dispatcher of a node has seen to everything and ended. -/
def Finished (f : Fleet) (n : Nat) : Prop :=
  ∀ d, (f.node n).dispatch = some d → f.outcome? d.task = some .done

section

variable {f g : Fleet} {m : Move} {t n k : Nat} {x : Task}

namespace CompleteOn

lemma undisturbed (h : f.CompleteOn n) (hd : f.DispatchesOn n) (ht : f.Tracks) (hg : g.Tracks)
    (hf : f.Frame m g) (hk : f.DutiesKept n g.tasks) (hn : NothingTold (f.node n) (g.node n)) :
    g.CompleteOn n := by
  intro d' y k hd' hy hk'
  obtain ⟨d, hdd, e, hq, ha⟩ := hn.from_old hd'
  obtain ⟨x, z, hx, hz, -, hp, -⟩ := hd.stays hf hk hdd
  rw [← e, hy] at hz
  cases hz
  rw [hp]
  exact (h d x k hdd hx (hk'.of_same ht hg hf hn.history hn.started)).mono hf.log
    hn.doneUntil hq ha

/-- A node is told of what it was handed, by a dispatcher that takes notices. -/
lemma told {k k' : Nat} {y : History} {z : Notice} (h : f.CompleteOn n) (hg : g.Tracks)
    (hf : f.Frame m g) (hk : f.Reached n k) (hk' : g.Reached n k')
    (hz : Leads f.storage.log k [z] k') (node : g.node n = { f.node n with history := y }.notify z)
    (tasks : g.tasks = f.tasks) (takes : (f.node n).TakesNotices) : g.CompleteOn n := by
  intro d' x i hd' hx hi
  obtain ⟨d, hd, acc⟩ := takes
  rw [node] at hd'
  obtain ⟨d₀, hd₀, e⟩ := DispatchesOn.notified_cases hd'
  cases hd₀.symm.trans hd
  rw [if_pos acc] at e
  subst e
  have mark : (g.node n).mark = (f.node n).mark := by
    rw [node]
    simp only [Node.notify_fields]
  rw [mark, hi.unique hg hk']
  exact ((h d x k hd (tasks ▸ hx) hk).told hz acc).mono hf.log rfl rfl id

/-- A dispatcher misses nothing in any move, as long as it takes notices whenever its node is handed
something. -/
theorem serves (h : f.CompleteOn n) (hd : f.DispatchesOn n) (ht : f.Tracks) (hg : g.Tracks)
    (hf : f.Frame m g) (takes : ∀ t, m = .step t → f.HandsTo t n → (f.node n).TakesNotices)
    (hs : f.Serves n m g) : g.CompleteOn n := by
  cases hs with
  | rests hk hn => exact h.undisturbed hd ht hg hf hk hn
  | told hk hk' hz node tasks hands =>
    obtain ⟨t, hm, hands⟩ := hands
    exact h.told hg hf hk hk' hz node tasks (takes t hm hands)
  | begins hs reached _ new hd' mark =>
    intro d y k hd'' hy hk
    obtain ⟨-, -, zero⟩ := hd.unstarted hs
    rw [hd'] at hd''
    cases hd''
    rw [new] at hy
    cases hy
    rw [hk.unique hg reached, mark]
    exact .begin zero _
  | serves hm hx hxn hxd _ hy history started duty =>
    subst hm
    intro d' z k hd' hz hk
    obtain ⟨y, hy, rfl⟩ := hy
    obtain ⟨d, hdd, rfl⟩ := hd.named _ _ hx hxn hxd
    obtain ⟨d₁, hd₁, same, duty⟩ := duty d hdd
    rw [hd'] at hd₁
    cases hd₁
    rw [same, hy] at hz
    cases hz
    have reached := hk.of_same ht hg hf history started
    exact ((h d _ k hdd hx reached).duty (hd.agenda d _ k hdd hx reached) ht.sound.numbered
      duty).mono hf.log rfl rfl id

end CompleteOn

/-- When the dispatcher of a node has ended all versions are done that the node has come to. -/
lemma Finished.doneUntil (h : f.Finished n) (hc : f.CompleteOn n) (hd : f.DispatchesOn n)
    (hk : f.Reached n k) : (f.node n).mark.doneUntil.number.val = k := by
  obtain ⟨d, hdd⟩ := hd.started hk.started
  obtain ⟨x, hx, -⟩ := hd.placed d hdd
  have ended := h d hdd
  rw [outcome?, hx, Option.bind_some] at ended
  have complete := hc d x k hdd hx hk
  rw [Task.point_of_outcome ended] at complete
  exact complete.doneUntil

/-- A node names the dispatcher that it named, which takes no notices again once it takes none, or
one that begins and takes notices. -/
lemma DispatchesOn.names (hd : f.DispatchesOn n) (hs : f.Serves n m g) {d' : Dispatch}
    (hd' : (g.node n).dispatch = some d') :
    (∃ d, (f.node n).dispatch = some d ∧ d'.task = d.task ∧
      (d'.accepting = true → d.accepting = true)) ∨
      (f.node n).started = false ∧ d'.accepting = true := by
  cases hs with
  | rests _ hn =>
    obtain ⟨d, hdd, same, -, acc⟩ := hn.from_old hd'
    exact .inl ⟨d, hdd, same, acc⟩
  | told _ _ _ node _ _ =>
    rw [node] at hd'
    obtain ⟨d, hdd, rfl⟩ := DispatchesOn.notified_cases hd'
    refine .inl ⟨d, hdd, DispatchesOn.task_notified d, fun acc => ?_⟩
    split at acc
    · assumption
    · exact acc
  | begins unstarted _ _ _ new _ =>
    rw [hd'] at new
    cases new
    exact .inr ⟨unstarted, rfl⟩
  | serves _ hx hxn hxd _ _ _ _ duty =>
    obtain ⟨d, hdd, -⟩ := hd.named _ _ hx hxn hxd
    obtain ⟨d₀, hd₀, same, duty⟩ := duty d hdd
    rw [hd'] at hd₀
    cases hd₀
    exact .inl ⟨d, hdd, same, duty.accepting ▸ id⟩

/-- A started node goes on to name the dispatcher that it has. -/
lemma DispatchesOn.names_started (hd : f.DispatchesOn n) (hs : f.Serves n m g)
    (started : (f.node n).started = true) {d' : Dispatch} (hd' : (g.node n).dispatch = some d') :
    ∃ d, (f.node n).dispatch = some d ∧ d'.task = d.task ∧
      (d'.accepting = true → d.accepting = true) := by
  rcases hd.names hs hd' with old | ⟨unstarted, -⟩
  · exact old
  · rw [started] at unstarted
    cases unstarted

lemma Finished.serves (h : f.Finished n) (hd : f.DispatchesOn n) (hf : f.Frame m g)
    (hs : f.Serves n m g) (started : (f.node n).started = true) : g.Finished n := by
  intro d' hd'
  obtain ⟨d, hdd, same, -⟩ := hd.names_started hs started hd'
  exact same ▸ hf.outcome (h d hdd)

end

end Fleet

end SchemaCatalog
