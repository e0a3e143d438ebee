import SchemaCatalog.Proofs.Fleet.Replay
import SchemaCatalog.Proofs.Fleet.Turn

/-!
# The account of a delivery

The storage passes what it stores on to one delivery, until it is detached, and the task of the
delivery hands it over. `Supply` lists what a move can do to this, and `supply_of_change` says that
there is nothing else. So whatever a delivery was given it has handed over or has still to hand
over, which is the log up to where the delivery was fed last (`Account`). The account stays true
whatever moves, unless the receiver fails on what is handed to it (`Account.step`).
-/

namespace SchemaCatalog

lemma Point.eq_of_delivery? {p : Point} {d : Nat} (h : p.delivery? = some d) :
    p = .deliver d := by
  cases p with
  | deliver e =>
    cases h
    rfl
  | _ => cases h

namespace Fleet

/-- What a delivery has still to hand over. -/
def queue (f : Fleet) (d : Nat) : List Stored := (f.deliveries[d]?.map Delivery.queue).getD []

/-- What a move hands over of a delivery: the front of its queue, if the move is a step of a task
that hands the delivery over. -/
def handsOver (f : Fleet) (d : Nat) : Move → List Stored
  | .step t => if f.tasks[t]?.map Task.point = some (.deliver d) then (f.queue d).take 1 else []
  | _ => []

/-- The receiver handles what a delivery hands to it next. -/
def Handles (f : Fleet) (d : Nat) (r : Receiver) (e : Stored) (g : Fleet) : Prop :=
  ∃ u, Update.decode e.bytes = .ok u ∧
    { f with deliveries := f.popped d (f.queue d).tail }.handle r u e.commit e.token = .ok g

/-- In this move the receiver of a delivery fails on what is handed to it, which ends the task of
the delivery. -/
def Fails (f : Fleet) (d : Nat) (m : Move) (g : Fleet) : Prop :=
  match m with
  | .step t => f.handsOver d (.step t) ≠ [] ∧ (g.outcome? t).isSome
  | _ => False

instance (f : Fleet) (d : Nat) (m : Move) (g : Fleet) : Decidable (f.Fails d m g) :=
  match m with
  | .step t => inferInstanceAs (Decidable (f.handsOver d (.step t) ≠ [] ∧ (g.outcome? t).isSome))
  | .request .. => inferInstanceAs (Decidable False)
  | .join .. => inferInstanceAs (Decidable False)
  | .turnClock _ => inferInstanceAs (Decidable False)

/-- A move that hands nothing over and leaves the tasks of deliveries where they stand. -/
structure HandsNothing (f : Fleet) (m : Move) (g : Fleet) : Prop where
  nothing : ∀ d, f.handsOver d m = []
  stays : ∀ (t d : Nat) (x : Task), f.tasks[t]? = some x → x.point = .deliver d →
    ∃ y, g.tasks[t]? = some y ∧ y.point = .deliver d

/-- What a move can do to the deliveries and the storage behind them. -/
inductive Supply (f : Fleet) (m : Move) (g : Fleet) : Prop where
  | rests : f.HandsNothing m g → g.storage = f.storage → g.sink = f.sink →
      g.deliveries = f.deliveries → Supply f m g
  | feeds {e : Stored} : f.HandsNothing m g →
      g.storage.entries = f.storage.entries ++ [e] → g.sink = f.sink →
      g.deliveries = f.fed e → Supply f m g
  | begins {t log : Nat} {x : Task} {y : Delivery} : f.HandsNothing m g → m = .step t →
      f.tasks[t]? = some x → f.StartsLog x log → f.logs[log]?.bind Log.receiver = some y.receiver →
      f.sink = none → g.storage = f.storage → g.sink = some f.deliveries.length →
      g.deliveries = f.deliveries ++ [y] → Supply f m g
  | detaches {t log : Nat} {x : Task} : f.HandsNothing m g → m = .step t →
      f.tasks[t]? = some x → f.StopsLog x log → g.storage = f.storage → g.sink = none →
      g.deliveries = f.detached → Supply f m g
  | delivers {t d : Nat} {x : Task} {y : Delivery} : m = .step t → f.tasks[t]? = some x →
      x.point = .deliver d → f.deliveries[d]? = some y → f.Delivers t d y g → Supply f m g

/-- Deliveries that are there still, and attached if they were. -/
def DeliveriesKept (f : Fleet) (deliveries : List Delivery) : Prop :=
  ∀ (d : Nat) (y : Delivery), f.deliveries[d]? = some y → ∃ y', deliveries[d]? = some y' ∧
    y'.receiver = y.receiver ∧ y'.attached = y.attached ∧ y'.task = y.task

/-- What a delivery was given in all, and how much of it was handed over. It is the log up to where
the delivery was fed last, and all of the log while the storage feeds the delivery. What is left is
handed over unless the delivery has ended, which it does when nothing is left and nothing can come.
A node has registered what was handed to it. -/
structure Account (f : Fleet) (d : Nat) (y : Delivery) (handed all : List Stored) : Prop where
  delivery : f.deliveries[d]? = some y
  balance : handed ++ y.queue = all
  front : all <+: f.storage.entries
  fed : f.sink = some d → y.attached = true ∧ all = f.storage.entries
  going : (∃ x, f.tasks[y.task]? = some x ∧ x.point = .deliver d) ∨
    y.queue = [] ∧ y.attached = false
  reached : ∀ n, y.receiver = .node n → ∃ k, handed.length ≤ k ∧ f.Reached n k

section

variable {f g : Fleet} {m : Move} {t n d : Nat} {x : Task} {y : Delivery} {e : Stored}
  {handed all : List Stored}

/-! ## What a move hands over -/

lemma queue_of_delivery (hy : f.deliveries[d]? = some y) : f.queue d = y.queue := by
  rw [queue, hy]
  rfl

lemma handsOver_of_deliver (hx : f.tasks[t]? = some x) (hxd : x.point = .deliver d)
    (hy : f.deliveries[d]? = some y) : f.handsOver d (.step t) = y.queue.take 1 := by
  rw [handsOver, if_pos (by rw [hx, Option.map_some, hxd]), queue_of_delivery hy]

lemma handsOver_of_ne (hx : f.tasks[t]? = some x) (hxd : x.point ≠ .deliver d) :
    f.handsOver d (.step t) = [] := by
  rw [handsOver, if_neg]
  rw [hx, Option.map_some]
  exact fun e => hxd (Option.some.inj e)

/-- Nothing is handed over of a delivery that there is not. -/
lemma handsOver_of_absent (hd : f.deliveries[d]? = none) (m : Move) : f.handsOver d m = [] := by
  cases m with
  | step t =>
    rw [handsOver, queue, hd]
    split <;> rfl
  | _ => rfl

/-- What is handed over is the front of the delivery, by a step of its task. -/
lemma mem_handsOver (he : e ∈ f.handsOver d m) : ∃ t x y rest, m = .step t ∧
    f.tasks[t]? = some x ∧ x.point = .deliver d ∧ f.deliveries[d]? = some y ∧
    y.queue = e :: rest := by
  cases hy : f.deliveries[d]? with
  | none =>
    rw [handsOver_of_absent hy] at he
    cases he
  | some y =>
    cases m with
    | step t =>
      rw [handsOver, queue_of_delivery hy] at he
      split at he
      · rename_i hp
        obtain ⟨x, hx, hxd⟩ := Option.map_eq_some_iff.1 hp
        cases hq : y.queue with
        | nil =>
          rw [hq] at he
          cases he
        | cons e' rest =>
          rw [hq, List.take_succ_cons, List.take_zero, List.mem_singleton] at he
          subst he
          exact ⟨t, x, y, rest, rfl, hx, hxd, rfl, hq⟩
      · cases he
    | _ => cases he

lemma fails_congr {k : Fleet} (e : g.core = k.core) : f.Fails d m g ↔ f.Fails d m k := by
  obtain ⟨-, -, -, -, -, -, tasks⟩ := core_inj e
  cases m with
  | step t => rw [Fails, Fails, outcome?, outcome?, tasks]
  | _ => rfl

/-- A move that is no step of a delivery hands nothing over. -/
lemma HandsNothing.of_frame (hf : f.Frame m g)
    (h : ∀ (t d : Nat) (x : Task), m = .step t → f.tasks[t]? = some x → x.point ≠ .deliver d) :
    f.HandsNothing m g where
  nothing d := by
    cases m with
    | step t =>
      cases hx : f.tasks[t]? with
      | none =>
        rw [handsOver, hx]
        rfl
      | some x => exact handsOver_of_ne hx (h t d x rfl hx)
    | _ => rfl
  stays t d x hx hxd := by
    obtain ⟨y, hy, -, point⟩ := hf.task t x hx
    exact ⟨y, hy, (point (.inl fun e => h t d x e hx hxd)).trans hxd⟩

/-- A task that has no step hands nothing over. -/
lemma HandsNothing.of_stuck (hs : f.step t = none) : f.HandsNothing (.step t) f where
  nothing d := by
    cases hx : f.tasks[t]? with
    | none =>
      rw [handsOver, hx]
      rfl
    | some x =>
      by_cases hxd : x.point = .deliver d
      · cases hy : f.deliveries[d]? with
        | none => exact handsOver_of_absent hy _
        | some y =>
          rw [handsOver_of_deliver hx hxd hy, queue_of_stuck hx hxd hy hs]
          rfl
      · exact handsOver_of_ne hx hxd
  stays _ _ x hx hxd := ⟨x, hx, hxd⟩

/-! ## Every move -/

lemma supply_of_effect (ht : f.Tracks) (hf : f.Frame (.step t) g) (hx : f.tasks[t]? = some x)
    (he : f.Effect t x g) : f.Supply (.step t) g := by
  cases hd : x.point.delivery? with
  | some d =>
    obtain ⟨y, hy, -⟩ := ht.deliverers t d x hx hd
    have hxd := Point.eq_of_delivery? hd
    exact .delivers rfl hx hxd hy (delivers_of_effect he hxd hy)
  | none =>
    have elsewhere : ∀ {d}, x.point ≠ .deliver d := by
      intro d hxd
      rw [hxd] at hd
      cases hd
    have idle : f.HandsNothing (.step t) g := .of_frame hf fun s d z e hz => by
      cases e
      rw [hx] at hz
      cases hz
      exact elsewhere
    cases he with
    | append _ _ _ _ => exact .feeds idle rfl rfl rfl
    | beginDelivery _ starts hr hs _ _ => exact .begins idle rfl hx starts hr hs rfl rfl rfl
    | detach _ stopped _ _ => exact .detaches idle rfl hx stopped rfl rfl rfl
    | hand hxd _ _ _ _ _ => exact (elsewhere hxd).elim
    | note hxd _ _ _ => exact (elsewhere hxd).elim
    | halt hxd _ _ _ _ => exact (elsewhere hxd).elim
    | haltRecorder hxd _ _ _ => exact (elsewhere hxd).elim
    | endDelivery hxd _ => exact (elsewhere hxd).elim
    | _ => exact .rests idle rfl rfl rfl

/-- What a move does to deliveries. -/
theorem supply_of_change (hp : f.Plain) (ht : f.Tracks) (hc : f.Change m g) : f.Supply m g := by
  have hf := frame_of_change hp.placed hc
  have idle : m.isStep = false → f.HandsNothing m g := fun hm => .of_frame hf fun t d x e => by
    rw [e] at hm
    cases hm
  cases hc with
  | step hx _ he => exact supply_of_effect ht hf hx he
  | stuck hs => exact .rests (.of_stuck hs) rfl rfl rfl
  | join hm _ => exact .rests (idle hm) rfl rfl rfl
  | _ => exact .rests (idle rfl) rfl rfl rfl

/-! ## What becomes of a delivery -/

lemma getElem?_fed (hy : f.deliveries[d]? = some y) (e : Stored) :
    (f.fed e)[d]? = some (if f.sink = some d ∧ f.outcome? y.task = none then
      { y with queue := y.queue ++ [e] } else y) := by
  unfold fed
  split
  · rename_i hs
    rw [hy, if_neg (by rw [hs]; exact fun h => nomatch h.1)]
  · rename_i i hs
    by_cases hi : i = d
    · subst hi
      simp only [hs, hy, true_and]
      cases f.outcome? y.task with
      | none => simp [hy]
      | some o => simp [hy]
    · have ne : f.sink ≠ some d := by
        rw [hs]
        exact fun h => hi (Option.some.inj h)
      rw [if_neg fun h => ne h.1]
      split
      · exact hy
      · split
        · exact hy
        · rw [List.getElem?_modify_ne _ _ hi, hy]

lemma getElem?_detached (hy : f.deliveries[d]? = some y) :
    f.detached[d]? = some (if f.sink = some d then { y with attached := false } else y) := by
  unfold detached
  split
  · rename_i hs
    rw [hy, if_neg (by rw [hs]; exact nofun)]
  · rename_i i hs
    rw [List.getElem?_modify, hy, hs]
    by_cases hi : i = d
    · simp [hi]
    · simp [hi]

lemma getElem?_popped (hy : f.deliveries[d]? = some y) (rest : List Stored) :
    (f.popped d rest)[d]? = some { y with queue := rest } := by
  rw [popped, List.getElem?_modify, hy]
  simp

lemma getElem?_popped_ne {i : Nat} (ne : i ≠ d) (rest : List Stored) :
    (f.popped i rest)[d]? = f.deliveries[d]? :=
  List.getElem?_modify_ne _ _ ne

lemma length_fed (e : Stored) : (f.fed e).length = f.deliveries.length := by
  unfold fed
  split
  · rfl
  · split
    · rfl
    · split
      · rfl
      · exact List.length_modify ..

lemma length_detached : f.detached.length = f.deliveries.length := by
  unfold detached
  split
  · rfl
  · exact List.length_modify ..

lemma Delivers.length_deliveries (h : f.Delivers t d y g) :
    g.deliveries.length = f.deliveries.length := by
  cases h with
  | quit => rfl
  | _ => exact List.length_modify ..

lemma deliveriesKept_refl : f.DeliveriesKept f.deliveries :=
  fun _ y hy => ⟨y, hy, rfl, rfl, rfl⟩

lemma deliveriesKept_fed (e : Stored) : f.DeliveriesKept (f.fed e) := by
  intro i y hy
  refine ⟨_, getElem?_fed hy e, ?_⟩
  split
  · exact ⟨rfl, rfl, rfl⟩
  · exact ⟨rfl, rfl, rfl⟩

lemma deliveriesKept_popped (d : Nat) (rest : List Stored) :
    f.DeliveriesKept (f.popped d rest) := by
  intro i y hy
  by_cases e : d = i
  · subst e
    exact ⟨_, getElem?_popped hy rest, rfl, rfl, rfl⟩
  · exact ⟨y, (getElem?_popped_ne e rest).trans hy, rfl, rfl, rfl⟩

lemma Delivers.deliveriesKept {d : Nat} {y : Delivery} (h : f.Delivers t d y g) :
    f.DeliveriesKept g.deliveries := by
  cases h with
  | hand _ _ _ => exact deliveriesKept_popped _ _
  | note _ _ => exact deliveriesKept_popped _ _
  | halt _ _ _ => exact deliveriesKept_popped _ _
  | haltRecorder _ _ => exact deliveriesKept_popped _ _
  | quit _ _ => exact deliveriesKept_refl

/-- A step of a delivery leaves the storage and the other deliveries alone. -/
lemma Delivers.fields (h : f.Delivers t d y g) : g.storage = f.storage ∧ g.sink = f.sink ∧
    ∀ i, i ≠ d → g.deliveries[i]? = f.deliveries[i]? := by
  cases h with
  | hand _ _ _ => exact ⟨rfl, rfl, fun _ ne => getElem?_popped_ne (Ne.symm ne) _⟩
  | note _ _ => exact ⟨rfl, rfl, fun _ ne => getElem?_popped_ne (Ne.symm ne) _⟩
  | halt _ _ _ => exact ⟨rfl, rfl, fun _ ne => getElem?_popped_ne (Ne.symm ne) _⟩
  | haltRecorder _ _ => exact ⟨rfl, rfl, fun _ ne => getElem?_popped_ne (Ne.symm ne) _⟩
  | quit _ _ => exact ⟨rfl, rfl, fun _ _ => rfl⟩

/-- A receiver that is halted ends the delivery. -/
lemma outcome_of_halt (hx : f.tasks[t]? = some x) (r : Receiver) (err : Error) (o : Outcome) :
    ((f.halt r err).finish t o).outcome? t = some o := by
  have task : ∃ z, (f.halt r err).tasks[t]? = some z := by
    cases r with
    | node n =>
      obtain ⟨-, -, -, -, -, -, tasks⟩ := core_inj (core_halt f n err)
      rw [tasks]
      exact ⟨_, getElem?_told hx⟩
    | recorder name failAt => exact ⟨x, hx⟩
  obtain ⟨z, hz⟩ := task
  exact outcome?_finish hz o

/-- A receiver handles what is handed to it, or the delivery ends. -/
lemma handles_of_step {rest : List Stored} (hx : f.tasks[t]? = some x)
    (hxd : x.point = .deliver d) (hy : f.deliveries[d]? = some y) (hq : y.queue = e :: rest)
    (hg : f.step t = some g) (live : g.outcome? t = none) : f.Handles d y.receiver e g := by
  have tail : (f.queue d).tail = rest := by
    rw [queue_of_delivery hy, hq]
    rfl
  rw [step, hx] at hg
  simp only [hxd, stepDeliver, hy, hq] at hg
  generalize hk : ({ f with
    deliveries := f.deliveries.modify d fun y => { y with queue := rest } } : Fleet) = k at hg
  have halted : ∀ err, some ((k.halt y.receiver err).finish t .done) = some g → False := by
    intro err he
    cases he
    rw [outcome_of_halt (x := x) (by rw [← hk]; exact hx)] at live
    cases live
  split at hg
  · exact (halted _ hg).elim
  · rename_i u hu
    split at hg
    · rename_i k' hk'
      cases hg
      refine ⟨u, hu, ?_⟩
      rw [tail, popped, hk]
      exact hk'
    · exact (halted _ hg).elim

/-! ## Keeping the account -/

namespace Account

/-- A delivery that the storage feeds has not ended. -/
lemma live (h : f.Account d y handed all) (hs : f.sink = some d) :
    ∃ x, f.tasks[y.task]? = some x ∧ x.point = .deliver d := by
  rcases h.going with going | ⟨-, detached⟩
  · exact going
  · rw [(h.fed hs).1] at detached
    cases detached

lemma reached_of_advances (h : f.Account d y handed all) (adv : f.Advances g) (n : Nat)
    (hn : y.receiver = .node n) : ∃ k, handed.length ≤ k ∧ g.Reached n k := by
  obtain ⟨k, le, hk⟩ := h.reached n hn
  obtain ⟨k', hk', hr⟩ := adv n k hk
  exact ⟨k', Nat.le_trans le hk', hr⟩

/-- A delivery that is not fed and hands nothing over has the account that it had, also when it is
detached. -/
lemma undisturbed {y' : Delivery} (h : f.Account d y handed all) (hf : f.Frame m g)
    (adv : f.Advances g) (delivery : g.deliveries[d]? = some y')
    (receiver : y'.receiver = y.receiver) (queue : y'.queue = y.queue) (task : y'.task = y.task)
    (detached : y.attached = false → y'.attached = false)
    (fed : g.sink = some d → f.sink = some d ∧ y'.attached = y.attached ∧
      g.storage.entries = f.storage.entries)
    (stays : ∀ x, f.tasks[y.task]? = some x → x.point = .deliver d →
      ∃ z, g.tasks[y.task]? = some z ∧ z.point = .deliver d) :
    g.Account d y' handed all where
  delivery := delivery
  balance := queue ▸ h.balance
  front := h.front.trans hf.stored
  fed hs := by
    obtain ⟨was, same, entries⟩ := fed hs
    rw [same, entries]
    exact h.fed was
  going := by
    rw [task, queue]
    rcases h.going with ⟨x, hx, hxd⟩ | ⟨empty, was⟩
    · exact .inl (stays x hx hxd)
    · exact .inr ⟨empty, detached was⟩
  reached n hn := h.reached_of_advances adv n (receiver ▸ hn)

/-- The front of a delivery is handed over. -/
lemma popped {rest : List Stored} (h : f.Account d y handed all) (hq : y.queue = e :: rest)
    (storage : g.storage = f.storage) (sink : g.sink = f.sink) (tasks : g.tasks = f.tasks)
    (deliveries : g.deliveries = f.popped d rest)
    (going : ∃ x, f.tasks[y.task]? = some x ∧ x.point = .deliver d)
    (reached : ∀ n, y.receiver = .node n →
      ∃ k, (handed ++ [e]).length ≤ k ∧ g.Reached n k) :
    g.Account d { y with queue := rest } (handed ++ [e]) all where
  delivery := deliveries ▸ getElem?_popped h.delivery rest
  balance := by
    rw [← h.balance, hq, List.append_assoc]
    rfl
  front := storage ▸ h.front
  fed hs := by
    rw [storage]
    exact h.fed (sink ▸ hs)
  going := .inl (tasks ▸ going)
  reached := reached

/-- What was handed to a node goes on where it was, and the front is the next update of the log. -/
lemma reached_hand {j k : Nat} {rest : List Stored} {z : Committed}
    (h : f.Account d y handed all) (ht : f.Tracks) (hq : y.queue = e :: rest)
    (w : f.Front d n j k e rest z) : j = handed.length := by
  have next : all[handed.length]? = some e := by
    rw [← h.balance, hq, List.getElem?_append_right (Nat.le_refl _), Nat.sub_self]
    rfl
  obtain ⟨z', hz, he⟩ := ht.sound.entry (getElem?_grow h.front next)
  exact (w.eq_of_stored ht hz he).1

/-- A step of the delivery hands the front over, or ends the delivery when nothing is left. -/
lemma delivers (h : f.Account d y handed all) (ht : f.Tracks) (adv : f.Advances g)
    (hx : f.tasks[t]? = some x) (hxd : x.point = .deliver d) (hd : f.Delivers t d y g)
    (fine : ¬ f.Fails d (.step t) g) : ∃ y', y'.receiver = y.receiver ∧
      g.Account d y' (handed ++ f.handsOver d (.step t)) all := by
  have hands := handsOver_of_deliver hx hxd h.delivery
  obtain rfl := ht.task_of_delivery hx hxd h.delivery
  -- The receiver has not failed, so that the task goes on while something is left.
  have fails : y.queue ≠ [] → (g.outcome? y.task).isSome → False := by
    refine fun hq ho => fine ⟨?_, ho⟩
    rw [hands]
    exact fun none => hq ((List.take_eq_nil_iff.1 none).resolve_left Nat.one_ne_zero)
  cases hd with
  | @hand i e rest z hq hr hz =>
    rw [hands, hq, List.take_succ_cons, List.take_zero]
    refine ⟨{ y with queue := rest }, rfl, h.popped hq rfl rfl rfl rfl ⟨x, hx, hxd⟩ fun n hn => ?_⟩
    rw [hr] at hn
    cases hn
    have live : x.outcome? = none := by rw [Task.outcome?, hxd]
    obtain ⟨j, k, u, w⟩ := ht.front hx live hxd h.delivery hq hr
    obtain rfl := h.reached_hand ht hq w
    refine ⟨_, ?_, w.reached_hand ht hz rfl (List.length_modify ..) ?_⟩
    · rw [List.length_append]
      exact Nat.le_max_right ..
    · rw [node_modify (f := f) rfl w.reached.lt, if_pos rfl]
  | @note e rest name failAt hq hr =>
    rw [hands, hq, List.take_succ_cons, List.take_zero]
    refine ⟨{ y with queue := rest }, rfl, h.popped hq rfl rfl rfl rfl ⟨x, hx, hxd⟩ fun n hn => ?_⟩
    rw [hr] at hn
    cases hn
  | halt hq _ _ =>
    refine (fails (by rw [hq]; exact List.cons_ne_nil _ _) ?_).elim
    rw [outcome?_moveTo (getElem?_told hx) rfl]
    rfl
  | haltRecorder hq _ =>
    refine (fails (by rw [hq]; exact List.cons_ne_nil _ _) ?_).elim
    rw [outcome?_moveTo hx rfl]
    rfl
  | quit hq detached =>
    rw [hands, hq, List.take_nil, List.append_nil]
    exact ⟨y, rfl, h.delivery, h.balance, h.front, h.fed, .inr ⟨hq, detached⟩,
      h.reached_of_advances adv⟩

/-- A step of another delivery is none of the task of this one. -/
lemma delivers_other {i : Nat} {z : Delivery} (h : f.Account d y handed all)
    (hf : f.Frame (.step t) g) (adv : f.Advances g) (hx : f.tasks[t]? = some x)
    (hxd : x.point = .deliver i) (ne : i ≠ d) (hd : f.Delivers t i z g) :
    f.handsOver d (.step t) = [] ∧ g.Account d y handed all := by
  obtain ⟨storage, sink, others⟩ := hd.fields
  have other : x.point ≠ .deliver d := by
    rw [hxd]
    exact fun same => ne (Point.deliver.inj same)
  refine ⟨handsOver_of_ne hx other, h.undisturbed hf adv (others d (Ne.symm ne) ▸ h.delivery)
    rfl rfl rfl id (fun hs => ⟨sink ▸ hs, rfl, by rw [storage]⟩) fun w hw hwd => ?_⟩
  obtain ⟨w', hw', -, point⟩ := hf.task y.task w hw
  refine ⟨w', hw', (point (.inl fun same => ?_)).trans hwd⟩
  cases same
  rw [hx] at hw
  cases hw
  exact other hwd

/-- A delivery gets what the storage passes on. -/
lemma feeds (h : f.Account d y handed all) (idle : f.HandsNothing m g) (adv : f.Advances g)
    (entries : g.storage.entries = f.storage.entries ++ [e]) (hs : f.sink = some d)
    (delivery : g.deliveries[d]? = some { y with queue := y.queue ++ [e] }) :
    g.Account d { y with queue := y.queue ++ [e] } handed g.storage.entries where
  delivery := delivery
  balance := by rw [entries, ← (h.fed hs).2, ← h.balance, List.append_assoc]
  front := List.prefix_refl _
  fed _ := ⟨(h.fed hs).1, rfl⟩
  going := by
    obtain ⟨x, hx, hxd⟩ := h.live hs
    exact .inl (idle.stays _ d x hx hxd)
  reached := h.reached_of_advances adv

/-- What a delivery was given in all after a move: all that is stored if the storage fed it, and
what it was given before otherwise. Whatever it hands over in the move comes to what it handed
over. -/
theorem step (h : f.Account d y handed all) (hf : f.Frame m g) (ht : f.Tracks) (adv : f.Advances g)
    (hs : f.Supply m g) (fine : ¬ f.Fails d m g) : ∃ y', y'.receiver = y.receiver ∧
      g.Account d y' (handed ++ f.handsOver d m)
        (if f.sink = some d then g.storage.entries else all) := by
  -- Where nothing is stored, both say the same of a delivery that is fed.
  have given : g.storage = f.storage →
      (if f.sink = some d then g.storage.entries else all) = all := by
    intro storage
    split
    · rename_i fed
      rw [storage, (h.fed fed).2]
    · rfl
  obtain ⟨lt, -⟩ := List.getElem?_eq_some_iff.1 h.delivery
  cases hs with
  | rests idle storage sink deliveries =>
    rw [idle.nothing, List.append_nil, given storage]
    exact ⟨y, rfl, h.undisturbed hf adv (deliveries ▸ h.delivery) rfl rfl rfl id
      (fun hs => ⟨sink ▸ hs, rfl, by rw [storage]⟩) (idle.stays _ d)⟩
  | @feeds e idle entries sink deliveries =>
    have delivery := getElem?_fed h.delivery e
    rw [← deliveries] at delivery
    rw [idle.nothing, List.append_nil]
    by_cases fed : f.sink = some d
    · obtain ⟨x, hx, hxd⟩ := h.live fed
      have live : f.outcome? y.task = none := by
        rw [outcome?, hx, Option.bind_some, Task.outcome?, hxd]
      rw [if_pos ⟨fed, live⟩] at delivery
      rw [if_pos fed]
      exact ⟨{ y with queue := y.queue ++ [e] }, rfl,
        h.feeds idle adv entries fed delivery⟩
    · rw [if_neg fun e => fed e.1] at delivery
      rw [if_neg fed]
      exact ⟨y, rfl, h.undisturbed hf adv delivery rfl rfl rfl id
        (fun hs => absurd (sink ▸ hs) fed) (idle.stays _ d)⟩
  | begins idle _ _ _ _ free storage sink deliveries =>
    rw [idle.nothing, List.append_nil, given storage]
    refine ⟨y, rfl, h.undisturbed hf adv ?_ rfl rfl rfl id (fun hs => ?_) (idle.stays _ d)⟩
    · rw [deliveries]
      exact getElem?_concat h.delivery _
    · rw [sink] at hs
      cases hs
      exact absurd lt (Nat.lt_irrefl _)
  | detaches idle _ _ _ storage sink deliveries =>
    have delivery := getElem?_detached h.delivery
    rw [← deliveries] at delivery
    rw [idle.nothing, List.append_nil, given storage]
    have none : g.sink ≠ some d := by
      rw [sink]
      exact (Option.some_ne_none d).symm
    by_cases fed : f.sink = some d
    · rw [if_pos fed] at delivery
      exact ⟨{ y with attached := false }, rfl, h.undisturbed hf adv delivery rfl rfl rfl
        (fun _ => rfl) (fun hs => absurd hs none) (idle.stays _ d)⟩
    · rw [if_neg fed] at delivery
      exact ⟨y, rfl, h.undisturbed hf adv delivery rfl rfl rfl id
        (fun hs => absurd hs none) (idle.stays _ d)⟩
  | @delivers t i x z hm hx hxd hz hd =>
    subst hm
    rw [given hd.fields.1]
    by_cases e : i = d
    · subst e
      rw [h.delivery] at hz
      cases hz
      exact h.delivers ht adv hx hxd hd fine
    · obtain ⟨nothing, account⟩ := h.delivers_other hf adv hx hxd e hd
      rw [nothing, List.append_nil]
      exact ⟨y, rfl, account⟩

end Account

/-! ## What becomes of the deliveries that are there -/

namespace Supply

/-- Every delivery stays, with its receiver and its task. -/
lemma stays (hs : f.Supply m g) (hy : f.deliveries[d]? = some y) :
    ∃ y', g.deliveries[d]? = some y' ∧ y'.receiver = y.receiver ∧ y'.task = y.task := by
  have kept : f.DeliveriesKept g.deliveries →
      ∃ y', g.deliveries[d]? = some y' ∧ y'.receiver = y.receiver ∧ y'.task = y.task := by
    intro kept
    obtain ⟨y', hy', receiver, -, task⟩ := kept d y hy
    exact ⟨y', hy', receiver, task⟩
  cases hs with
  | rests _ _ _ deliveries => exact kept (deliveries ▸ deliveriesKept_refl)
  | feeds _ _ _ deliveries => exact kept (deliveries ▸ deliveriesKept_fed _)
  | begins _ _ _ _ _ _ _ _ deliveries => exact ⟨y, deliveries ▸ getElem?_concat hy _, rfl, rfl⟩
  | detaches _ _ _ _ _ _ deliveries =>
    refine ⟨_, deliveries ▸ getElem?_detached hy, ?_⟩
    split
    · exact ⟨rfl, rfl⟩
    · exact ⟨rfl, rfl⟩
  | delivers _ _ _ _ hd => exact kept hd.deliveriesKept

/-- The storage goes on to feed a delivery unless a log is stopped, whichever that is. -/
lemma sink_stays (hs : f.Supply m g) (fed : f.sink = some d)
    (unstopped : ∀ (t log : Nat) (x : Task), m = .step t → f.tasks[t]? = some x →
      ¬ f.StopsLog x log) : g.sink = some d := by
  cases hs with
  | rests _ _ sink _ => exact sink.trans fed
  | feeds _ _ sink _ => exact sink.trans fed
  | begins _ _ _ _ _ free _ _ _ =>
    rw [fed] at free
    cases free
  | detaches _ hm hx stopped _ _ _ => exact (unstopped _ _ _ hm hx stopped).elim
  | delivers _ _ _ _ hd => exact hd.fields.2.1.trans fed

/-- A delivery that is not fed is never fed again. -/
lemma sink_gone (hs : f.Supply m g) (hy : f.deliveries[d]? = some y) (gone : f.sink ≠ some d) :
    g.sink ≠ some d := by
  obtain ⟨lt, -⟩ := List.getElem?_eq_some_iff.1 hy
  cases hs with
  | rests _ _ sink _ => exact sink ▸ gone
  | feeds _ _ sink _ => exact sink ▸ gone
  | begins _ _ _ _ _ _ _ sink _ =>
    rw [sink]
    exact fun e => Nat.ne_of_gt lt (Option.some.inj e)
  | detaches _ _ _ _ _ sink _ =>
    rw [sink]
    exact (Option.some_ne_none d).symm
  | delivers _ _ _ _ hd => exact hd.fields.2.1 ▸ gone

end Supply

/-! ## Logs that are started and stopped -/

/-- Whichever log is stopped, the storage feeds no delivery any more. -/
lemma step_stopsLog {log : Nat} (hx : f.tasks[t]? = some x) (hs : f.StopsLog x log) :
    ∃ g, f.step t = some g ∧ g.sink = none ∧ g.storage = f.storage := by
  obtain ⟨-, storage, sink, -⟩ := core_inj (core_stopLog f log)
  rw [step, hx]
  rcases hs with hp | ⟨hp, hl⟩
  · simp only [hp]
    refine ⟨_, rfl, ?_⟩
    unfold stepStopLog
    split
    · rename_i k u hk
      rw [hk] at storage sink
      exact ⟨by simpa using sink, by simpa using storage⟩
    · rename_i k hk
      rw [hk] at storage sink
      exact ⟨by simpa using sink, by simpa using storage⟩
  · simp only [hp]
    refine ⟨_, rfl, ?_⟩
    rw [stepStop, stopLink_of_log hl]
    split
    · rename_i hk
      cases hk
    · rename_i k u hk
      rw [Except.ok.inj hk] at storage sink
      exact ⟨by simpa using sink, by simpa using storage⟩
    · rename_i k hk
      rw [Except.ok.inj hk] at storage sink
      exact ⟨by simpa using sink, by simpa using storage⟩

/-- A log with a receiver is started if the storage feeds no delivery. -/
lemma step_startsLog {log : Nat} {r : Receiver} (hx : f.tasks[t]? = some x)
    (hs : f.StartsLog x log) (hr : f.logs[log]?.bind Log.receiver = some r) (free : f.sink = none) :
    ∃ g p, f.step t = some g ∧ g.core = ((f.beginDelivery log x.node r).moveTo t p).core := by
  have started : f.startLog log x.node = .ok (f.beginDelivery log x.node r) := by
    rw [startLog, hr, free]
  rw [step, hx]
  rcases hs with hp | ⟨hp, hl⟩
  · simp only [hp, stepStartLog, started]
    exact ⟨_, _, rfl, core_finish ..⟩
  · simp only [hp, stepStartLink, startLink_of_log hl, started]
    exact ⟨_, _, rfl, rfl⟩

/-- A delivery that begins has all that is stored still to hand over. -/
lemma account_begins {log : Nat} {r : Receiver} {p : Point} (hx : f.tasks[t]? = some x)
    (hg : g.Tracks) (e : g.core = ((f.beginDelivery log n r).moveTo t p).core) :
    g.Account f.deliveries.length ⟨r, f.storage.entries, true, f.tasks.length⟩ []
      g.storage.entries := by
  obtain ⟨-, storage, sink, -, deliveries, -, tasks⟩ := core_inj e
  have entries : g.storage.entries = f.storage.entries := by
    rw [storage]
    rfl
  have delivery : g.deliveries[f.deliveries.length]? =
      some ⟨r, f.storage.entries, true, f.tasks.length⟩ := by
    rw [deliveries]
    exact List.getElem?_concat_length
  obtain ⟨lt, -⟩ := List.getElem?_eq_some_iff.1 hx
  have task : g.tasks[f.tasks.length]? = some ⟨n, .deliver f.deliveries.length, none⟩ := by
    rw [tasks]
    refine (List.getElem?_modify_ne _ _ (Nat.ne_of_lt lt)).trans ?_
    exact List.getElem?_concat_length
  have live : g.outcome? f.tasks.length = none := by
    rw [outcome?, task]
    rfl
  refine ⟨delivery, entries.symm, List.prefix_refl _, fun _ => ⟨rfl, rfl⟩, .inl ⟨_, task, rfl⟩,
    fun i hi => ?_⟩
  obtain ⟨j, -, -, -, reached⟩ := hg.deliveries _ _ delivery live
  obtain ⟨k, -, hk⟩ := reached i hi
  exact ⟨k, Nat.zero_le _, hk⟩

end

end Fleet

end SchemaCatalog
