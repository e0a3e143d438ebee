import SchemaCatalog.Proofs.Fleet.Failure
import SchemaCatalog.Proofs.Fleet.Turn

/-!
# Whatever happens

Besides what a run may do, a node may work with a scripted log, which answers as it is told to,
fails where it is told to, and hands over what it likes. What tasks and nodes keep then is little,
but it is kept whatever happens (`keeps_of_befall`): the other tasks stand where they stood, nodes
keep what they have registered, and no watermark fails with a verdict unless it is told to.
-/

namespace SchemaCatalog

/-- What may happen to a fleet next: a task takes a step, anything is asked of a node, also by its
log, a node joins with any log, or the clock is another one from now on. -/
inductive Happening where
  | step (task : Nat)
  | request (node : Nat) (skew : Duration) (request : Request)
  | join (config : Config) (link : Nat → Link)
  | turnClock (clock : Clock)

namespace Happening

/-- Whether it is a step of this task. -/
def steps (t : Nat) : Happening → Bool
  | .step s => s = t
  | _ => false

/-- Whether the watermark of a node is told to fail with this error, or its log halts it so. -/
def Fails (n : Nat) (e : Error) (h : Happening) : Prop :=
  ∃ skew, h = .request n skew (.failMark e) ∨ h = .request n skew (.halt e)

/-- Whether this node is not told to fail with a verdict. -/
def sparesVerdicts (n : Nat) : Happening → Bool
  | .request k _ (.failMark e) => k ≠ n || !e.isVerdict
  | .request k _ (.halt e) => k ≠ n || !e.isVerdict
  | _ => true

lemma steps_iff {t : Nat} {h : Happening} : h.steps t = true ↔ h = .step t := by
  cases h with
  | step s => simp [steps]
  | _ => simp [steps]

lemma not_isVerdict_of_fails {n : Nat} {e : Error} {h : Happening}
    (hs : h.sparesVerdicts n = true) (hf : h.Fails n e) : e.isVerdict = false := by
  obtain ⟨skew, rfl | rfl⟩ := hf
  · simpa [sparesVerdicts] using hs
  · simpa [sparesVerdicts] using hs

lemma turnClock_ne_step {c : Clock} {t : Nat} : turnClock c ≠ .step t := by
  intro e
  cases e

/-- It as a move of a run, which it is unless it has to do with a scripted log. -/
def move : Happening → Move
  | .step t => .step t
  | .request n skew r => .request n skew r
  | .join c _ => .join c none
  | .turnClock c => .turnClock c

end Happening

namespace Fleet

/-- The fleet after what happens. -/
def befall (f : Fleet) : Happening → Fleet
  | .step t => (f.step t).getD f
  | .request n skew r => if n < f.nodes.length then (Session.start f skew n r).1 else f
  | .join c link => Session.addNode f c link
  | .turnClock c => f.setClock c

/-- What tasks and nodes keep, whatever happens. -/
structure Keeps (f : Fleet) (h : Happening) (g : Fleet) : Prop where
  task : ∀ (s : Nat) (z : Task), f.tasks[s]? = some z → ∃ y, g.tasks[s]? = some y ∧
    y.node = z.node ∧ (h ≠ .step s ∨ z.outcome?.isSome → y.point = z.point)
  fresh : ∀ (s : Nat) (y : Task), f.tasks[s]? = none → g.tasks[s]? = some y →
    y.node < g.nodes.length
  nodes : f.nodes.length ≤ g.nodes.length
  node : ∀ n, n < f.nodes.length → (f.node n).Kept (g.node n)
  joined : ∀ n, f.nodes.length ≤ n → n < g.nodes.length →
    ∃ c link, (Node.ofConfig c link).Kept (g.node n)
  failure : ∀ n e, (g.node n).mark.failure = some e →
    (f.node n).mark.failure = some e ∨ e.isVerdict = false ∨ h.Fails n e

section

variable {f g k : Fleet} {h : Happening} {t n : Nat} {x : Task} {u : Update}

lemma Keeps.refl (f : Fleet) (h : Happening) : f.Keeps h f where
  task _ z hz := ⟨z, hz, rfl, fun _ => rfl⟩
  fresh s y hs hy := by
    rw [hs] at hy
    cases hy
  nodes := Nat.le_refl _
  node _ _ := .refl _
  joined _ hle hlt := absurd hlt (Nat.not_lt.2 hle)
  failure _ _ he := .inl he

lemma Keeps.trans (hg : f.Keeps h g) (hk : g.Keeps h k) : f.Keeps h k where
  task s z hz := by
    obtain ⟨y, hy, hyn, hyp⟩ := hg.task s z hz
    obtain ⟨w, hw, hwn, hwp⟩ := hk.task s y hy
    refine ⟨w, hw, hwn.trans hyn, fun still => ?_⟩
    have same := hyp still
    rw [hwp (still.imp id fun ended => by rwa [Task.outcome?, same]), same]
  fresh s y hs hy := by
    cases hz : g.tasks[s]? with
    | none => exact hk.fresh s y hz hy
    | some z =>
      obtain ⟨y', hy', hyn, -⟩ := hk.task s z hz
      rw [hy] at hy'
      cases hy'
      rw [hyn]
      exact Nat.lt_of_lt_of_le (hg.fresh s z hs hz) hk.nodes
  nodes := Nat.le_trans hg.nodes hk.nodes
  node n hn := (hg.node n hn).trans (hk.node n (Nat.lt_of_lt_of_le hn hg.nodes))
  joined n hle hlt := by
    rcases Nat.lt_or_ge n g.nodes.length with lt | ge
    · obtain ⟨c, link, kept⟩ := hg.joined n hle lt
      exact ⟨c, link, kept.trans (hk.node n lt)⟩
    · exact hk.joined n ge hlt
  failure n e he := by
    rcases hk.failure n e he with he | plain | fails
    · exact hg.failure n e he
    · exact .inr (.inl plain)
    · exact .inr (.inr fails)

lemma Keeps.congr (hg : f.Keeps h g) (e : k.core = g.core) : f.Keeps h k := by
  obtain ⟨-, -, -, -, -, nodes, tasks⟩ := core_inj e
  refine ⟨?_, ?_, ?_, fun n hn => ?_, fun n hle hlt => ?_, fun n e he => ?_⟩
  · rw [tasks]
    exact hg.task
  · rw [tasks, nodes]
    exact hg.fresh
  · rw [nodes]
    exact hg.nodes
  · rw [node_congr nodes]
    exact hg.node n hn
  · rw [node_congr nodes]
    exact hg.joined n hle (nodes ▸ hlt)
  · rw [node_congr nodes] at he
    exact hg.failure n e he

/-! ## What runs do -/

lemma Happening.fails_of_move {skew : Duration} {e : Error}
    (hm : h.move = .request n skew (.failMark e)) : h.Fails n e := by
  cases h with
  | request m skew' r =>
    cases hm
    exact ⟨skew, .inl rfl⟩
  | _ => cases hm

/-- A change that a run can make keeps it all. -/
lemma keeps_of_changes (placed : f.Placed) (hc : f.Changes h.move g) : f.Keeps h g := by
  obtain ⟨k, hk, e⟩ := hc
  have frame := frame_of_change placed hk
  refine Keeps.congr ⟨fun s z hz => ?_, fun s y hs hy => ?_, frame.nodes, frame.node,
    fun n hle hlt => ?_, fun n e he => ?_⟩ e
  · obtain ⟨y, hy, hyn, hyp⟩ := frame.task s z hz
    refine ⟨y, hy, hyn, fun still => hyp (still.imp (fun ne hm => ne ?_) id)⟩
    cases h with
    | step t => exact congrArg Happening.step (Move.step.inj hm)
    | _ => cases hm
  · exact Nat.lt_of_lt_of_le (frame.fresh s y hs hy).1 frame.nodes
  · obtain ⟨c, link, log, e, -⟩ := frame.joined n hle hlt
    exact ⟨c, link, e ▸ .refl _⟩
  · rcases failure_of_change hk he with he | plain | ⟨skew, hm⟩
    · exact .inl he
    · exact .inr (.inl plain)
    · exact .inr (.inr (Happening.fails_of_move hm))

/-! ## One thing after another -/

/-- What else happens to tasks when nothing happens to their points. -/
lemma keeps_of_tasks (nodes : g.nodes = f.nodes)
    (task : ∀ (s : Nat) (z : Task), f.tasks[s]? = some z →
      ∃ y, g.tasks[s]? = some y ∧ y.node = z.node ∧
        (h ≠ .step s ∨ z.outcome?.isSome → y.point = z.point))
    (fresh : ∀ (s : Nat) (y : Task), f.tasks[s]? = none → g.tasks[s]? = some y →
      y.node < f.nodes.length) : f.Keeps h g where
  task := task
  fresh := by
    rw [nodes]
    exact fresh
  nodes := Nat.le_of_eq (congrArg List.length nodes.symm)
  node n _ := node_congr nodes n ▸ .refl _
  joined n hle hlt := absurd (nodes ▸ hlt) (Nat.not_lt.2 hle)
  failure n e he := .inl (by rwa [node_congr nodes] at he)

lemma keeps_setClock (c : Clock) : f.Keeps h (f.setClock c) := by
  refine keeps_of_tasks (by simp) (fun s z hz => ⟨z, by simpa using hz, rfl, fun _ => rfl⟩) ?_
  intro s y hs hy
  simp only [setClock_fields] at hy
  rw [hs] at hy
  cases hy

/-- A task moves that has not ended. -/
lemma keeps_moveTo (hx : ∀ x, f.tasks[t]? = some x → x.outcome? = none) (p : Point) :
    f.Keeps (.step t) (f.moveTo t p) := by
  refine keeps_of_tasks (by simp) (fun s z hz => ?_) (fun s y hs hy => ?_)
  · simp only [moveTo_fields, List.getElem?_modify, hz]
    by_cases e : t = s
    · subst e
      refine ⟨{ z with point := p, signal := none }, by simp, rfl, fun still => ?_⟩
      rcases still with ne | ended
      · exact absurd rfl ne
      · rw [hx z hz] at ended
        cases ended
    · exact ⟨z, by simp [e], rfl, fun _ => rfl⟩
  · simp only [moveTo_fields, List.getElem?_modify, hs] at hy
    cases hy

lemma keeps_spawn (hn : n < f.nodes.length) (p : Point) : f.Keeps h (f.spawn n p) := by
  refine keeps_of_tasks (by simp) (fun s z hz => ⟨z, ?_, rfl, fun _ => rfl⟩) (fun s y hs hy => ?_)
  · simp only [spawn_fields]
    exact getElem?_concat hz _
  · simp only [spawn_fields] at hy
    rcases concat_cases hy with hy | ⟨-, rfl⟩
    · rw [hs] at hy
      cases hy
    · exact hn

lemma keeps_tell (s : Signal) (ts : List Nat) : f.Keeps h (f.tell s ts) := by
  refine keeps_of_tasks (by simp) (fun i z hz => ?_) (fun i y hi hy => ?_)
  · obtain ⟨point, node⟩ := told_point s ts i z
    simp only [tell_fields]
    exact ⟨_, getElem?_told hz, node, fun _ => point⟩
  · simp only [tell_fields] at hy
    obtain ⟨x, hx, -⟩ := told_cases hy
    rw [hi] at hx
    cases hx

/-- A node changes and keeps what nodes keep. -/
lemma keeps_onNode {c : Node → Node} (kept : (f.node n).Kept (c (f.node n)))
    (failure : ∀ e, (c (f.node n)).mark.failure = some e →
      (f.node n).mark.failure = some e ∨ e.isVerdict = false ∨ h.Fails n e) :
    f.Keeps h (f.onNode n c) where
  task _ z hz := ⟨z, by simpa using hz, rfl, fun _ => rfl⟩
  fresh s y hs hy := by
    simp only [onNode_fields] at hy
    rw [hs] at hy
    cases hy
  nodes := by simp
  node m hm := (nodesKept_modify fun _ => kept).2 m hm
  joined m hle hlt := by
    simp only [onNode_fields, List.length_modify] at hlt
    exact absurd hlt (Nat.not_lt.2 hle)
  failure m e he := by
    rcases failure_modify he with he | ⟨rfl, he⟩
    · exact .inl he
    · exact failure e he

lemma keeps_halt (e : Error) (he : e.isVerdict = false ∨ h.Fails n e) :
    f.Keeps h (f.halt (.node n) e) := by
  have closed : f.Keeps h (f.closeDispatch n) :=
    (keeps_onNode (c := Node.closeDispatch)
      (Node.kept_of_same (.refl _) rfl rfl id rfl rfl rfl) fun _ => .inl).congr
      (core_wakeDispatcher ..)
  refine closed.trans (Keeps.trans (keeps_onNode (n := n) (c := fun x =>
    { x with mark := (((f.closeDispatch n).node n).mark.fail e).1 })
    (Node.kept_of_fail rfl rfl rfl rfl rfl rfl) fun e' he' => ?_) (keeps_tell .dropped _))
  rcases failure_fail he' with he' | rfl
  · exact .inl he'
  · exact .inr he

lemma keeps_handle {commit : Timestamp} {token : Token}
    (hg : f.handle (.node n) u commit token = .ok g) : f.Keeps h g := by
  rw [handle_node] at hg
  split at hg
  · rename_i z hz
    cases hg
    refine (keeps_onNode (Node.kept_of_handle hz) fun e he => .inl ?_).congr
      (core_wakeDispatcher ..)
    obtain ⟨history, notice, -, rfl⟩ := Node.handle_ok hz
    simpa using he
  · cases hg

lemma keeps_handleOrHalt (commit : Timestamp) (token : Token) :
    f.Keeps h (f.handleOrHalt (.node n) u commit token) := by
  unfold handleOrHalt
  split
  · rename_i hg
    exact keeps_handle hg
  · rename_i e he
    rw [handle_node] at he
    split at he
    · cases he
    · rename_i e' he'
      cases he
      obtain ⟨b, rfl⟩ := Node.handle_error he'
      exact keeps_halt _ (.inl rfl)

/-! ## Scripted logs -/

variable {s : Script}

lemma keeps_script (hl : (f.node n).link = .scripted s) (s' : Script) :
    f.Keeps h (f.onNode n fun x => { x with link := .scripted s' }) := by
  refine keeps_onNode ⟨.refl _, ?_, fun log shared => ?_, rfl, id, Nat.le_refl _, fun _ => id,
    fun _ => List.prefix_refl _⟩ fun _ => .inl
  · rw [hl]
    rfl
  · rw [hl] at shared
    cases shared

lemma keeps_appendScripted (hl : (f.node n).link = .scripted s) :
    f.Keeps h (f.appendScripted n s u).1 := by
  unfold appendScripted
  dsimp only
  split
  · exact keeps_script hl _
  · have set : f.Keeps h _ := (keeps_script hl { s with
      appended := s.appended ++ [u]
      answers := s.answers.tail
      committed := u.version }).trans (keeps_setClock f.clock.tick)
    split
    · exact set.trans (keeps_handleOrHalt _ _)
    · exact set
  · exact keeps_script hl _

lemma link_of_none (hl : (f.node n).link.log? = none) : ∃ s, (f.node n).link = .scripted s := by
  cases e : (f.node n).link with
  | scripted s => exact ⟨s, rfl⟩
  | shared log =>
    rw [e] at hl
    cases hl
  | contended log k a =>
    rw [e] at hl
    cases hl

/-- Whatever a scripted log answers, it keeps it all. -/
lemma keeps_appendLink {yes : Bool} (hl : (f.node n).link = .scripted s)
    (hg : f.appendLink n u = .ok (g, yes)) : f.Keeps h g := by
  unfold appendLink at hg
  rcases bind_ok hg with ⟨_, -, hg⟩
  rw [hl] at hg
  rw [show g = (f.appendScripted n s u).1 from (congrArg Prod.fst (Except.ok.inj hg)).symm]
  exact keeps_appendScripted hl

lemma keeps_registerLink (hl : (f.node n).link = .scripted s) (hg : f.registerLink n = .ok g) :
    f.Keeps h g := by
  unfold registerLink at hg
  rcases bind_ok hg with ⟨_, -, hg⟩
  rw [hl] at hg
  cases hg
  exact keeps_script hl _

lemma startLink_of_script (hl : (f.node n).link = .scripted s) (hg : f.startLink n = .ok g) :
    g = f := by
  unfold startLink at hg
  rcases bind_ok hg with ⟨_, -, hg⟩
  rw [hl] at hg
  cases hg
  rfl

lemma stopLink_of_script {o : Option Nat} (hl : (f.node n).link = .scripted s)
    (hg : f.stopLink n = .ok (g, o)) : g = f := by
  unfold stopLink at hg
  rcases bind_ok hg with ⟨_, -, hg⟩
  rw [hl] at hg
  cases hg
  rfl

/-- A node is started and gets a dispatcher. -/
lemma keeps_start (hn : n < f.nodes.length) (d : Dispatch) :
    f.Keeps h ((f.onNode n fun x =>
      { x with
        started := true
        history := x.history.register Catalog.initial
        dispatch := some d
        holdsHandler := true }).spawn n .dispatch) := by
  refine Keeps.trans (keeps_onNode ?_ fun _ => .inl) (keeps_spawn (by simpa using hn) _)
  exact Node.kept_of_same (History.grows_register _ _) rfl rfl (fun _ => rfl) rfl rfl rfl

/-- What is kept when nobody takes a step and nothing is asked is kept all the same. -/
lemma Keeps.quiet {c : Clock} (hg : f.Keeps (.turnClock c) g) (h : Happening) : f.Keeps h g where
  task s z hz := by
    obtain ⟨y, hy, hyn, hyp⟩ := hg.task s z hz
    exact ⟨y, hy, hyn, fun _ => hyp (.inl Happening.turnClock_ne_step)⟩
  fresh := hg.fresh
  nodes := hg.nodes
  node := hg.node
  joined := hg.joined
  failure n e he := by
    rcases hg.failure n e he with he | plain | ⟨skew, e | e⟩
    · exact .inl he
    · exact .inr (.inl plain)
    · cases e
    · cases e

/-- A task takes a step by moving after something else. -/
lemma Keeps.moveTo {c : Clock} (hg : f.Keeps (.turnClock c) g) (hx : f.tasks[t]? = some x)
    (ho : x.outcome? = none) (p : Point) : f.Keeps (.step t) (g.moveTo t p) := by
  refine (hg.quiet _).trans (keeps_moveTo (fun y hy => ?_) p)
  obtain ⟨y', hy', -, hyp⟩ := hg.task t x hx
  rw [hy] at hy'
  cases hy'
  rwa [Task.outcome?, hyp (.inl Happening.turnClock_ne_step)]

lemma Keeps.finish {c : Clock} (hg : f.Keeps (.turnClock c) g) (hx : f.tasks[t]? = some x)
    (ho : x.outcome? = none) (o : Outcome) : f.Keeps (.step t) (g.finish t o) :=
  (hg.moveTo hx ho (.ended o)).congr (core_finish ..)

/-- A step that turns to a scripted log keeps it all. -/
lemma keeps_of_scripted (hn : x.node < f.nodes.length) (hx : f.tasks[t]? = some x)
    (ho : x.outcome? = none) (asks : x.point.asksLog = true)
    (hl : (f.node x.node).link = .scripted s) (hg : f.step t = some g) :
    f.Keeps (.step t) g := by
  -- No effect describes what a scripted log answers, so the points are gone through one by one.
  have same : f.Keeps (.turnClock f.clock) f := .refl f _
  rw [step, hx] at hg
  cases hp : x.point with
  | submit st a u =>
    simp only [hp, Option.some.injEq] at hg
    subst hg
    unfold stepSubmit
    split
    · exact same.finish hx ho _
    · rename_i k hk
      exact (keeps_appendLink hl hk).moveTo (c := f.clock) hx ho _
    · rename_i k hk
      exact (keeps_appendLink hl hk).moveTo (c := f.clock) hx ho _
  | review st a =>
    simp only [hp, Option.some.injEq] at hg
    subst hg
    unfold stepReview
    split
    · exact same.finish hx ho _
    · exact same.moveTo hx ho _
  | start =>
    simp only [hp, Option.some.injEq] at hg
    subst hg
    unfold stepStart
    split
    · exact same.finish hx ho _
    · dsimp only
      have begun := keeps_start (h := .turnClock f.clock) hn ⟨[], true, f.tasks.length⟩
      split
      · exact begun.finish hx ho _
      · rename_i k hk
        refine (begun.trans (keeps_registerLink (s := s) ?_ hk)).moveTo hx ho _
        rw [node_congr (g := { f with nodes := f.nodes.modify x.node fun y => { y with
          started := true
          history := y.history.register Catalog.initial
          dispatch := some ⟨[], true, f.tasks.length⟩
          holdsHandler := true } }) (by simp), node_modify (f := f) rfl hn, if_pos rfl]
        exact hl
  | startLink =>
    simp only [hp, Option.some.injEq] at hg
    subst hg
    unfold stepStartLink
    split
    · exact same.finish hx ho _
    · rename_i k hk
      rw [startLink_of_script hl hk]
      exact same.moveTo hx ho _
  | replay =>
    simp only [hp, Option.some.injEq] at hg
    subst hg
    unfold stepReplay
    split
    · exact same.finish hx ho _
    · exact same.moveTo hx ho _
  | stop =>
    simp only [hp, Option.some.injEq] at hg
    subst hg
    unfold stepStop
    split
    · exact same.finish hx ho _
    · rename_i k u hk
      rw [stopLink_of_script hl hk]
      exact same.moveTo hx ho _
    · rename_i k hk
      rw [stopLink_of_script hl hk]
      exact same.moveTo hx ho _
  | _ =>
    rw [hp] at asks
    cases asks

/-! ## All that may happen -/

/-- A step keeps it all, whatever log its node works with. -/
lemma keeps_of_step (placed : f.Placed) (hx : f.tasks[t]? = some x) (hg : f.step t = some g) :
    f.Keeps (.step t) g := by
  have ho := outcome_of_step hx hg
  by_cases hl : x.point.asksLog = true ∧ (f.node x.node).link.log? = none
  · obtain ⟨s, hs⟩ := link_of_none hl.2
    exact keeps_of_scripted (placed t x hx) hx ho hl.1 hs hg
  · have linked : x.point.asksLog = true → (f.node x.node).link.log?.isSome := fun asks =>
      Option.isSome_iff_ne_none.2 fun none => hl ⟨asks, none⟩
    obtain ⟨k, hk, e⟩ := effects_of_step_of_log (placed t x hx) linked hx hg
    exact keeps_of_changes placed ⟨k, .step hx ho hk, e⟩

/-- Whatever happens, tasks and nodes keep that. -/
theorem keeps_of_befall (placed : f.Placed) (h : Happening) : f.Keeps h (f.befall h) := by
  cases h with
  | step t =>
    rw [befall]
    cases hg : f.step t with
    | none => exact .refl f _
    | some g =>
      cases hx : f.tasks[t]? with
      | none =>
        rw [step, hx] at hg
        cases hg
      | some x => exact keeps_of_step placed hx hg
  | request n skew r =>
    rw [befall]
    split
    · rename_i hn
      -- Parcels and halts from outside are no moves, so they are seen to by themselves.
      by_cases hr : r.isDelivery = true
      · cases r with
        | deliver u commit token =>
          rw [Session.start]
          split
          · rename_i g hg
            exact keeps_handle hg
          · exact .refl f _
        | halt e => exact keeps_halt e (.inr ⟨skew, .inr rfl⟩)
        | _ => cases hr
      · exact keeps_of_changes placed (changes_request hn (by simpa using hr))
    · exact .refl f _
  | join c link =>
    refine ⟨fun s z hz => ⟨z, hz, rfl, fun _ => rfl⟩, fun s y hs hy => ?_, ?_, fun n hn => ?_,
      fun n hle hlt => ⟨c, link f.logs.length, ?_⟩, fun n e he => ?_⟩
    · rw [show (f.befall (.join c link)).tasks = f.tasks from rfl, hs] at hy
      cases hy
    · simp [befall, Session.addNode]
    · rw [befall, node_addNode, if_neg (Nat.ne_of_lt hn)]
      exact .refl _
    · have e : n = f.nodes.length := by
        simp only [befall, Session.addNode, List.length_append, List.length_singleton] at hlt
        omega
      rw [befall, node_addNode, if_pos e]
      exact .refl _
    · rw [befall, node_addNode] at he
      split at he
      · cases he
      · exact .inl he
  | turnClock c => exact keeps_setClock c

/-- The tasks are on nodes. -/
lemma Placed.keeps (placed : f.Placed) (hg : f.Keeps h g) : g.Placed := by
  intro s y hy
  cases hz : f.tasks[s]? with
  | none => exact hg.fresh s y hz hy
  | some z =>
    obtain ⟨y', hy', hyn, -⟩ := hg.task s z hz
    rw [hy] at hy'
    cases hy'
    rw [hyn]
    exact Nat.lt_of_lt_of_le (placed s z hz) hg.nodes

end

end Fleet

end SchemaCatalog
