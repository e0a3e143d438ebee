import Mathlib.Data.Nat.Find
import SchemaCatalog.Proofs.Fleet.Calling
import SchemaCatalog.Proofs.Run.Stopping

/-!
# Compare and set, and delivery exactly once

An update that is offered to the storage is accepted exactly if its version is the next one, and is
then stored behind the others; otherwise nothing changes. The receiver of a log that was started is
handed the stored updates in order, each once, whenever they were stored. If it fails on one it is
halted with that error, and is handed nothing any more (`Run.exactly_once`).
-/

namespace SchemaCatalog

namespace Fleet

/-- Whether the log of a task's node passes on to the storage what the task offers. -/
def PassesOn (f : Fleet) (x : Task) : Prop :=
  (∃ u, x.point = .commit u) ∨
    ∀ log rejections attempts, (f.node x.node).link ≠ .contended log (rejections + 1) attempts

/-- The receiver of a delivery fails on what is handed to it. It is halted with the error, and the
task of the delivery ends. -/
def Refuses (f : Fleet) (t d : Nat) (r : Receiver) (e : Stored) (err : Error) (g : Fleet) : Prop :=
  ∃ u, Update.decode e.bytes = .ok u ∧
    { f with deliveries := f.popped d (f.queue d).tail }.handle r u e.commit e.token =
      .error err ∧
    g = ({ f with deliveries := f.popped d (f.queue d).tail }.halt r err).finish t .done

section

variable {f g : Fleet} {t d n : Nat} {x : Task} {y : Delivery} {e : Stored} {rest : List Stored}
  {u : Update}

/-! ## Offers -/

lemma appendLink_of_passesOn {log : Nat} (hl : (f.node n).link.log? = some log)
    (hp : ∀ log k a, (f.node n).link ≠ .contended log (k + 1) a) :
    ∃ nodes, f.appendLink n u = .ok ({ f with nodes }.commit u) := by
  rw [appendLink, linkFault_of_log hl]
  rcases link_of_log hl with e | ⟨k, a, e⟩
  · rw [e]
    exact ⟨f.nodes, rfl⟩
  · cases k with
    | zero =>
      rw [e]
      exact ⟨_, rfl⟩
    | succ k => exact absurd e (hp log k a)

/-- The step of a task that offers an update to the storage answers whether it is the next one. -/
lemma step_offer (hp : f.Plain) (hx : f.tasks[t]? = some x) (ho : x.point.offer? = some u)
    (pass : f.PassesOn x) : ∃ g y, f.step t = some g ∧ g.tasks[t]? = some y ∧
      ((∃ acc : f.storage.accepts u, y.point.answer? = some true ∧
        g.storage = f.storage.append u f.clock.tick.current acc) ∨
      (¬ f.storage.accepts u ∧ y.point.answer? = some false ∧ g.storage = f.storage)) := by
  obtain ⟨log, hl⟩ := Option.isSome_iff_exists.1 (hp.linked x.node)
  -- The task goes on as it does in every step, whatever has become of the storage.
  have moved : ∀ (k : Fleet) (p : Point), k.tasks = f.tasks →
      (k.moveTo t p).tasks[t]? = some { x with point := p, signal := none } := by
    intro k p hk
    simp only [moveTo_fields, hk]
    rw [List.getElem?_modify, hx]
    simp
  have finished : ∀ (k : Fleet) (o : Outcome), k.tasks = f.tasks →
      (k.finish t o).tasks[t]? = some { x with point := .ended o, signal := none } := by
    intro k o hk
    rw [(core_inj (core_finish k t o)).2.2.2.2.2.2]
    exact moved k _ hk
  cases hp : x.point with
  | submit st a w =>
    rw [hp] at ho
    cases ho
    have next : f.step t = some (f.stepSubmit t x.node st a u) := by
      rw [step, hx]
      simp only [hp]
    have passesOn := pass.resolve_left (by
      rintro ⟨w, hw⟩
      rw [hp] at hw
      cases hw)
    obtain ⟨nodes, append⟩ := appendLink_of_passesOn (u := u) hl passesOn
    rw [next, stepSubmit, append]
    by_cases acc : f.storage.accepts u
    · obtain ⟨k, hk, hc⟩ := commit_of_accepts nodes acc
      obtain ⟨-, storage, -, -, -, -, tasks⟩ := core_inj hc
      rw [hk]
      exact ⟨_, _, rfl, moved k _ tasks, .inl ⟨acc, rfl, storage⟩⟩
    · rw [commit_of_not_accepts (f := { f with nodes }) acc]
      exact ⟨_, _, rfl, moved _ _ rfl, .inr ⟨acc, rfl, rfl⟩⟩
  | commit w =>
    rw [hp] at ho
    cases ho
    have next : f.step t = some (f.stepCommit t u) := by
      rw [step, hx]
      simp only [hp]
    rw [next, stepCommit]
    by_cases acc : f.storage.accepts u
    · obtain ⟨k, hk, hc⟩ := commit_of_accepts f.nodes acc
      obtain ⟨-, storage, -, -, -, -, tasks⟩ := core_inj hc
      rw [hk]
      exact ⟨_, _, rfl, finished k _ tasks, .inl ⟨acc, rfl, by simpa using storage⟩⟩
    · rw [commit_of_not_accepts acc]
      exact ⟨_, _, rfl, finished f _ rfl, .inr ⟨acc, rfl, by simp⟩⟩
  | _ =>
    rw [hp] at ho
    cases ho

/-! ## Failing receivers -/

/-- A receiver that handles an update ends no task. -/
lemma tasks_of_handle {r : Receiver} {commit : Timestamp} {token : Token}
    (h : f.handle r u commit token = .ok g) : g.tasks = f.tasks := by
  cases r with
  | node n =>
    rw [handle_node] at h
    split at h
    · cases h
      exact (core_inj (core_wakeDispatcher ..)).2.2.2.2.2.2
    · cases h
  | recorder name failAt =>
    cases failAt with
    | none =>
      cases h
      rfl
    | some v =>
      dsimp only [handle] at h
      split at h
      · cases h
      · cases h
        rfl

/-- A delivery that ends with an update in front ends since its receiver fails on that. -/
lemma refuses_of_step (hx : f.tasks[t]? = some x) (hxd : x.point = .deliver d)
    (hy : f.deliveries[d]? = some y) (hq : y.queue = e :: rest)
    (hu : Update.decode e.bytes = .ok u) (hg : f.step t = some g)
    (ended : (g.outcome? t).isSome) : ∃ err, f.Refuses t d y.receiver e err g := by
  have tail : (f.queue d).tail = rest := by
    rw [queue_of_delivery hy, hq]
    rfl
  have live : f.outcome? t = none := by
    rw [outcome?, hx, Option.bind_some, Task.outcome?, hxd]
  rw [step, hx] at hg
  simp only [hxd, stepDeliver, hy, hq, hu] at hg
  split at hg
  · rename_i k hk
    cases hg
    rw [outcome?, tasks_of_handle hk] at ended
    rw [outcome?] at live
    rw [live] at ended
    cases ended
  · rename_i err herr
    cases hg
    refine ⟨err, u, hu, ?_, ?_⟩
    · rw [tail]
      exact herr
    · rw [tail]
      rfl

/-- Where there is no other delivery, what is noted down in a step is what its receiver makes of
what is handed to it. -/
lemma noted_of_sole {r : Receiver} (hr : ∀ y, f.deliveries[d]? = some y → y.receiver = r)
    (sole : ∀ i, i ≠ d → f.deliveries[i]? = none) :
    f.noted t = (f.handsOver d (.step t)).flatMap r.notes := by
  cases hx : f.tasks[t]? with
  | none =>
    rw [noted, handsOver, hx]
    rfl
  | some x =>
    by_cases hxd : x.point = .deliver d
    · rw [noted, hx, Option.map_some, hxd]
      dsimp only
      rw [notesOf]
      cases hy : f.deliveries[d]? with
      | none =>
        rw [handsOver_of_absent hy]
        rfl
      | some y => rw [handsOver_of_deliver hx hxd hy, ← hr y hy]
    · rw [handsOver_of_ne hx hxd, noted, hx, Option.map_some]
      split
      · rename_i i hi
        have ne : i ≠ d := by
          rintro rfl
          exact hxd (Option.some.inj hi)
        rw [notesOf, sole i ne]
        rfl
      · rfl

end

end Fleet

namespace Run

variable {r : Run} {s i j v d log t : Nat} {h : Receiver} {y : Delivery} {e : Stored}

lemma entries_grow (hij : i ≤ j) : (r.fleet i).storage.entries <+: (r.fleet j).storage.entries := by
  rw [(r.tracks i).sound.entries, (r.tracks j).sound.entries]
  exact (r.log_grows hij).map _

/-- What is stored was appended, with the time of the clock then and its version as token. -/
lemma stored_appended (he : (r.fleet i).storage.entries[v]? = some e) :
    ∃ j t u, j < i ∧ r.Appends j t u ∧ u.version.number.val = v + 1 ∧
      e = Storage.stored u (r.fleet j).clock.tick.current ∧ Update.decode e.bytes = .ok u := by
  have sound := (r.tracks i).sound
  obtain ⟨x, hx, rfl⟩ := sound.entry he
  obtain ⟨j, t, hj, ha, length⟩ := appended hx
  have entry := ha.entry hj
  rw [length, hx] at entry
  refine ⟨j, t, x.update, hj, ha, sound.numbered v x hx, ?_,
    Committed.decode_stored (sound.fits x (List.mem_of_getElem? hx))⟩
  rw [Committed.stored, Option.some.inj entry]

/-- Once a receiver has failed nothing is handed over of the delivery any more. -/
lemma Fails.nothing (hf : r.Fails i d) (hij : i < j) :
    (r.fleet j).handsOver d (r.moves j) = [] := by
  rw [List.eq_nil_iff_forall_not_mem]
  intro e he
  obtain ⟨t, x, y, rest, hm, hx, hxd, hy, -⟩ := Fleet.mem_handsOver he
  cases hm' : r.moves i with
  | step s =>
    rw [Run.Fails, hm'] at hf
    obtain ⟨hands, ended⟩ := hf
    obtain ⟨e', he'⟩ := List.exists_mem_of_ne_nil _ hands
    obtain ⟨s', z, w, rest', hs, hz, hzd, hw, -⟩ := Fleet.mem_handsOver he'
    cases hs
    -- The task that hands the delivery over is the same at both moments, and has ended.
    obtain ⟨w', hw', -, same⟩ := delivery_stays (Nat.le_of_lt hij) hw
    rw [hy] at hw'
    cases hw'
    rw [(r.tracks j).task_of_delivery hx hxd hy, (r.tracks i).task_of_delivery hz hzd hw] at same
    subst same
    obtain ⟨o, ho⟩ := Option.isSome_iff_exists.1 ended
    have stays := r.outcome (show i + 1 ≤ j from hij) ho
    rw [Fleet.outcome?, hx, Option.bind_some, Task.outcome?, hxd] at stays
    cases stays
  | _ =>
    rw [Run.Fails, hm'] at hf
    exact hf.elim

lemma Fails.handed (hf : r.Fails i d) (hij : i < j) : r.handed d j = r.handed d (i + 1) := by
  induction hij with
  | refl => rfl
  | @step j hij ih => rw [Run.handed, hf.nothing hij, List.append_nil, ih]

/-- At every moment the receiver was handed a prefix of what is stored. -/
lemma Begins.handed_prefix (hb : r.Begins s log d h) (i : Nat) :
    r.handed d i <+: (r.fleet i).storage.entries := by
  -- Until it fails the receiver was handed the front of what it is given, which is stored.
  have begun : ∀ i, s < i → (∀ j < i, ¬ r.Fails j d) → ∃ y, (r.fleet i).deliveries[d]? = some y ∧
      r.handed d i ++ y.queue <+: (r.fleet i).storage.entries := by
    intro i hi fine
    obtain ⟨c, hc⟩ := exists_fedUntil hi
    obtain ⟨y, -, account, -⟩ := hb.account hc fine
    refine ⟨y, account.delivery, ?_⟩
    rw [account.balance]
    exact account.front
  rcases Nat.lt_or_ge s i with hi | hi
  · by_cases failed : ∃ j, j < i ∧ r.Fails j d
    · -- What is handed over in the first failure is the front of what was left.
      obtain ⟨hj, hf⟩ := Nat.find_spec failed
      have first : ∀ k < Nat.find failed, ¬ r.Fails k d := fun k hk hk' =>
        Nat.find_min failed hk ⟨Nat.lt_trans hk hj, hk'⟩
      generalize Nat.find failed = j at hj hf first
      rw [hf.handed hj, Run.handed]
      have hsj : s < j := by
        refine Nat.lt_of_not_le fun hjs => ?_
        cases hm : r.moves j with
        | step t =>
          rw [Run.Fails, hm] at hf
          exact hf.1 (Fleet.handsOver_of_absent (absent_before hjs hb.absent) _)
        | _ =>
          rw [Run.Fails, hm] at hf
          exact hf.elim
      obtain ⟨y, hy, front⟩ := begun j hsj first
      refine List.IsPrefix.trans ?_ (front.trans (entries_grow (Nat.le_of_lt hj)))
      rw [List.prefix_append_right_inj]
      cases he : (r.fleet j).handsOver d (r.moves j) with
      | nil => exact List.nil_prefix
      | cons e l =>
        have mem : e ∈ (r.fleet j).handsOver d (r.moves j) := by
          rw [he]
          exact List.mem_cons_self ..
        obtain ⟨t, x, z, rest, hm, hx, hxd, hz, -⟩ := Fleet.mem_handsOver mem
        rw [hy] at hz
        cases hz
        rw [← he, hm, Fleet.handsOver_of_deliver hx hxd hy]
        exact List.take_prefix 1 _
    · obtain ⟨y, -, front⟩ := begun i hi fun j hj hf => failed ⟨j, hj, hf⟩
      exact (List.prefix_append _ _).trans front
  · rw [handed_before (absent_before hi hb.absent)]
    exact List.nil_prefix

/-- What is handed over the receiver handles, or it fails on that. -/
lemma Begins.hands (hb : r.Begins s log d h) (he : e ∈ (r.fleet i).handsOver d (r.moves i)) :
    (¬ r.Fails i d ∧ (r.fleet i).Handles d h e (r.fleet (i + 1))) ∨
      (r.Fails i d ∧ ∃ t err, r.moves i = .step t ∧
        (r.fleet i).Refuses t d h e err (r.fleet (i + 1))) := by
  obtain ⟨t, x, y, rest, hm, hx, hxd, hy, hq⟩ := Fleet.mem_handsOver he
  have hi : s < i := by
    refine Nat.lt_of_not_le fun hi => ?_
    rw [absent_before hi hb.absent] at hy
    cases hy
  obtain ⟨z, hz, receiver⟩ := hb.delivery_of_lt hi
  rw [hy] at hz
  cases hz
  obtain ⟨g, hg⟩ := Fleet.step_of_front hx hxd hy hq
  have next : (r.fleet i).step t = some (r.fleet (i + 1)) := by
    rcases r.step_cases hm with ⟨none, -⟩ | some
    · rw [hg] at none
      cases none
    · exact some
  -- The receiver fails exactly if the task of the delivery has ended with this step.
  have fails : r.Fails i d ↔ ((r.fleet (i + 1)).outcome? t).isSome := by
    rw [Run.Fails, hm]
    exact and_iff_right (List.ne_nil_of_mem (hm ▸ he))
  rw [← receiver]
  cases ho : (r.fleet (i + 1)).outcome? t with
  | none =>
    refine .inl ⟨?_, Fleet.handles_of_step hx hxd hy hq next ho⟩
    rw [fails, ho]
    exact Bool.false_ne_true
  | some o =>
    obtain ⟨k, w, hw, rfl⟩ := (r.tracks i).taken_up ⟨x, d, y, rest, hx, hxd, hy, hq⟩
    have decode := Committed.decode_stored ((r.tracks i).sound.fits w (List.mem_of_getElem? hw))
    have ended : ((r.fleet (i + 1)).outcome? t).isSome := by
      rw [ho]
      rfl
    obtain ⟨err, refuses⟩ := Fleet.refuses_of_step hx hxd hy hq decode next ended
    exact .inr ⟨fails.2 ended, t, err, hm, refuses⟩

/-- Where there is one delivery, the notes of recorders are those of its receiver on what was handed
over. -/
lemma receipts_of_sole (sole : ∀ k, k ≠ d → (r.fleet i).deliveries[k]? = none)
    (hr : ∀ y, (r.fleet i).deliveries[d]? = some y → y.receiver = h) :
    (r.fleet i).receipts = (r.handed d i).flatMap h.notes := by
  induction i with
  | zero => rfl
  | succ i ih =>
    have sole' := fun k hk => absent_before (Nat.le_succ i) (sole k hk)
    have hr' : ∀ y, (r.fleet i).deliveries[d]? = some y → y.receiver = h := by
      intro y hy
      obtain ⟨z, hz, receiver, -⟩ := delivery_stays (Nat.le_succ i) hy
      exact receiver.symm.trans (hr z hz)
    rw [handed, List.flatMap_append, ← ih sole' hr', fleet_succ]
    rcases Fleet.receipts_after (r.fleet i) (r.moves i) with ⟨t, hm, receipts⟩ | ⟨hm, receipts⟩
    · rw [receipts, hm, Fleet.noted_of_sole hr' sole']
    · rw [receipts]
      cases hm' : r.moves i with
      | step t =>
        rw [hm'] at hm
        cases hm
      | _ => exact (List.append_nil _).symm

/-- The storage is compare and set. What is offered to it is accepted exactly if its version is the
number of the stored updates plus one, and is then stored behind them with the time of the clock;
otherwise nothing is stored, and nothing else ever changes the storage. The receiver of a log that
was started with success is at every moment handed a prefix of what is stored, whenever that was
stored: each is the update that was appended as that version, with the time of its commit and its
version as token. Whatever is handed over the receiver handles; or it fails, is halted with the
error, and nothing is handed over any more. When the task of the delivery has no step, no log was
stopped and the receiver did not fail, all that is stored was handed over. Where there is no other
delivery, a recorder has noted down just that. -/
theorem exactly_once (r : Run) :
    (∀ i t x u, r.moves i = .step t → (r.fleet i).tasks[t]? = some x → x.point.offer? = some u →
      (r.fleet i).PassesOn x → ∃ y, (r.fleet (i + 1)).tasks[t]? = some y ∧
        ((u.version.number.val = (r.fleet i).storage.entries.length + 1 ∧
          y.point.answer? = some true ∧ (r.fleet (i + 1)).storage.entries =
            (r.fleet i).storage.entries ++ [Storage.stored u (r.fleet i).clock.tick.current]) ∨
        (u.version.number.val ≠ (r.fleet i).storage.entries.length + 1 ∧
          y.point.answer? = some false ∧ (r.fleet (i + 1)).storage = (r.fleet i).storage))) ∧
    (∀ i, (r.fleet (i + 1)).storage = (r.fleet i).storage ∨ ∃ t u, r.Appends i t u) ∧
    ∀ s log d h, r.Begins s log d h →
      (∀ i, r.handed d i <+: (r.fleet i).storage.entries) ∧
      (∀ i v e, (r.handed d i)[v]? = some e → ∃ j t u, j < i ∧ r.Appends j t u ∧
        u.version.number.val = v + 1 ∧ e = Storage.stored u (r.fleet j).clock.tick.current ∧
        Update.decode e.bytes = .ok u ∧ e.token.number = u.version.number) ∧
      (∀ i e, e ∈ (r.fleet i).handsOver d (r.moves i) →
        (¬ r.Fails i d ∧ (r.fleet i).Handles d h e (r.fleet (i + 1))) ∨
        (r.Fails i d ∧ ∃ t err, r.moves i = .step t ∧
          (r.fleet i).Refuses t d h e err (r.fleet (i + 1)) ∧
          ∀ j, i < j → r.handed d j = r.handed d (i + 1))) ∧
      (∀ i y, s < i → (r.fleet i).deliveries[d]? = some y → (r.fleet i).step y.task = none →
        r.NoStop s i → (∀ j < i, ¬ r.Fails j d) →
        r.handed d i = (r.fleet i).storage.entries) ∧
      ∀ i, s < i → (r.fleet i).deliveries.length = 1 →
        (r.fleet i).receipts = (r.handed d i).flatMap h.notes := by
  refine ⟨?_, r.growth, fun s log d h hb => ⟨hb.handed_prefix, ?_, ?_, ?_, ?_⟩⟩
  · intro i t x u hm hx ho pass
    obtain ⟨g, y, hg, hy, answer⟩ := Fleet.step_offer (r.plain i) hx ho pass
    have next : r.fleet (i + 1) = g := by
      rw [fleet_succ, hm, Fleet.after, hg]
      rfl
    rw [next]
    refine ⟨y, hy, ?_⟩
    rcases answer with ⟨acc, yes, storage⟩ | ⟨acc, no, storage⟩
    · refine .inl ⟨acc, yes, ?_⟩
      rw [storage]
      rfl
    · exact .inr ⟨acc, no, storage⟩
  · intro i v e he
    obtain ⟨j, t, u, hj, ha, version, rfl, decode⟩ :=
      stored_appended (getElem?_grow (hb.handed_prefix i) he)
    exact ⟨j, t, u, hj, ha, version, rfl, decode, rfl⟩
  · intro i e he
    rcases hb.hands he with handles | ⟨fails, t, err, hm, refuses⟩
    · exact .inl handles
    · exact .inr ⟨fails, t, err, hm, refuses, fun j => fails.handed⟩
  · intro i y hi hy stuck unstopped fine
    obtain ⟨z, -, account, -⟩ := hb.fed hi unstopped fine
    -- What was handed over and what is left make up what is stored, and nothing is left.
    have same := account.delivery
    rw [hy] at same
    cases same
    have balance := account.balance
    rwa [account.drained stuck, List.append_nil] at balance
  · intro i hi one
    obtain ⟨y, hy, receiver⟩ := hb.delivery_of_lt hi
    obtain ⟨lt, -⟩ := List.getElem?_eq_some_iff.1 hy
    refine receipts_of_sole (fun k hk => List.getElem?_eq_none (by omega)) fun z hz => ?_
    rw [hy] at hz
    cases hz
    exact receiver

/-- A recorder that fails on version 2. -/
def recorder : Receiver := .recorder "recorder" (some (⟨2⟩, .log .noHandler))

/-- A log is started between the commits of versions 1 and 2, on the second of which its receiver
fails. Then version 1 is offered again, and version 3 is committed. -/
def recorded : Run :=
  ofMoves Clock.unset
    [.join Config.unset none,
      .request 0 .zero (.register 0 "recorder" (some (⟨2⟩, .log .noHandler))),
      .request 0 .zero (.commit (blank ⟨1⟩)), .step 0, .request 0 .zero (.startLog 0), .step 1,
      .step 2, .request 0 .zero (.commit (blank ⟨2⟩)), .step 3, .step 2,
      .request 0 .zero (.commit (blank ⟨1⟩)), .step 4, .request 0 .zero (.commit (blank ⟨3⟩)),
      .step 5]
    (by decide +kernel)

lemma recorded_begins : recorded.Begins 5 0 0 recorder where
  starts := ⟨1, ⟨0, .startLog 0, none⟩, rfl, by decide, .inl rfl⟩
  receiver := by decide
  free := by decide
  delivery := by decide

theorem exactly_once_recorded :
    (recorded.fleet 12).storage = (recorded.fleet 11).storage ∧
      recorded.handed 0 7 = (recorded.fleet 7).storage.entries ∧
      (recorded.Fails 9 0 ∧ recorded.handed 0 14 = recorded.handed 0 10) ∧
      (recorded.fleet 14).storage.entries.length = 3 ∧
      recorded.handed 0 14 <+: (recorded.fleet 14).storage.entries ∧
      (recorded.fleet 14).receipts =
        [.update "recorder" (blank ⟨1⟩) ⟨65537⟩ ⟨1⟩, .halt "recorder" (.log .noHandler)] := by
  obtain ⟨set, -, delivery⟩ := exactly_once recorded
  obtain ⟨front, -, hands, idle, receipts⟩ := delivery 5 0 0 recorder recorded_begins
  refine ⟨?_, ?_, ?_, by decide +kernel, front 14, ?_⟩
  · obtain ⟨y, -, ⟨next, -⟩ | ⟨-, -, same⟩⟩ := set 11 4 ⟨0, .commit (blank ⟨1⟩), none⟩ (blank ⟨1⟩)
      rfl (by decide +kernel) rfl (.inl ⟨_, rfl⟩)
    · exact absurd next (by decide +kernel)
    · exact same
  · have unstopped : recorded.NoStop 5 7 := noStop_of_unasked fun j _ =>
      moves_ofMoves (P := fun m => m.stops = false) (by decide) rfl j
    exact idle 7 ⟨recorder, [], true, 2⟩ (by decide) (by decide +kernel) (by decide +kernel)
      unstopped (by decide +kernel)
  · have fails : recorded.Fails 9 0 := by decide +kernel
    obtain ⟨e, he⟩ : ∃ e, e ∈ (recorded.fleet 9).handsOver 0 (recorded.moves 9) :=
      List.exists_mem_of_ne_nil _ fails.1
    rcases hands 9 e he with ⟨fine, -⟩ | ⟨-, t, err, -, -, nothing⟩
    · exact absurd fails fine
    · exact ⟨fails, nothing 14 (by decide)⟩
  · rw [receipts 14 (by decide) (by decide +kernel)]
    decide +kernel

end Run

end SchemaCatalog
