import SchemaCatalog.Proofs.Run.Account
import SchemaCatalog.Proofs.Run.Halt
import SchemaCatalog.Proofs.Run.Quiescence

/-!
# Stopping a log that is not running

The storage feeds one delivery at a time, and whichever of its logs is stopped takes that delivery
away, also a log whose start was refused because the storage was attached. So the log that is
started has its receiver handed just what was appended before any log was stopped, in the order of
the versions, and of the statements of its node those come to an end that were accepted before
(`Run.handed_until_stop`).
-/

namespace SchemaCatalog

namespace Fleet

/-- A node is handed what this delivery has, and nothing else. -/
def Sole (f : Fleet) (n d : Nat) : Prop :=
  ∀ (i : Nat) (y : Delivery), f.deliveries[i]? = some y → y.receiver = .node n → i = d

/-- What is handed to a node is of its only delivery. -/
lemma HandsTo.length_handsOver {f : Fleet} {t n d : Nat} (h : f.HandsTo t n) (sole : f.Sole n d) :
    (f.handsOver d (.step t)).length = 1 := by
  obtain ⟨x, i, y, hx, hxd, hy, hr, hq⟩ := h
  obtain rfl := sole i y hy hr
  rw [handsOver_of_deliver hx hxd hy, List.length_take]
  exact Nat.min_eq_left (List.length_pos_iff.2 hq)

end Fleet

namespace Run

variable {r : Run} {s i j c d log n k t : Nat} {h : Receiver} {u : Update}

/-- Where nobody asked to stop anything no log is stopped. -/
lemma noStop_of_unasked (hq : ∀ j < i, (r.moves j).stops = false) : r.NoStop s i := by
  rintro j log - hj ⟨t, x, -, hx, hs⟩
  have still := unstopped (fun k hk => hq k (Nat.lt_trans hk hj)) t x hx
  rw [hs.stops] at still
  cases still

/-! ## How far a node comes -/

lemma sole_before (hij : i ≤ j) (sole : (r.fleet j).Sole n d) : (r.fleet i).Sole n d := by
  intro i' y hy hr
  obtain ⟨y', hy', hr', -⟩ := delivery_stays hij hy
  exact sole i' y' hy' (hr'.trans hr)

/-- A node that has one delivery does not get ahead of what that delivery handed over. -/
lemma reached_le (hm : ∀ i, (r.moves i).sparesMarkOf n = true) (sole : (r.fleet i).Sole n d)
    (hk : (r.fleet i).Reached n k) : k ≤ (r.handed d i).length := by
  induction i generalizing k with
  | zero => exact absurd hk.lt (Nat.not_lt_zero n)
  | succ i ih =>
    have before := sole_before (Nat.le_succ i) sole
    have grows : (r.handed d i).length ≤ (r.handed d (i + 1)).length := by
      rw [handed, List.length_append]
      exact Nat.le_add_right _ _
    cases r.serves hm i with
    | rests _ told =>
      exact Nat.le_trans (ih before (hk.of_same (r.tracks i) (r.tracks (i + 1)) (r.frame i)
        told.history told.started)) grows
    | @told k₀ k₁ _ _ old new leads _ _ hands =>
      -- What is handed over takes the node one version further at most.
      obtain ⟨t, move, hands⟩ := hands
      rw [hk.unique (r.tracks (i + 1)) new, handed, List.length_append, move,
        hands.length_handsOver before]
      exact Nat.le_trans leads.le_add (Nat.succ_le_succ (ih before old))
    | begins _ start _ _ _ _ =>
      rw [hk.unique (r.tracks (i + 1)) start]
      exact Nat.zero_le _
    | serves _ _ _ _ _ _ history started _ =>
      exact Nat.le_trans (ih before (hk.of_same (r.tracks i) (r.tracks (i + 1)) (r.frame i)
        history started)) grows

/-! ## What is done on a node -/

/-- What was given to a delivery is done on its node once all of it is handed over. -/
lemma given_le_done {y : Delivery} (hm : ∀ i, (r.moves i).sparesMarkOf n = true)
    (still : r.Still i n) (hy : y.receiver = .node n) (empty : y.queue = [])
    (account : (r.fleet i).Account d y (r.handed d i) (r.fleet c).storage.entries) :
    (r.fleet c).storage.log.length ≤ ((r.fleet i).node n).mark.doneUntil.number.val := by
  obtain ⟨k, le, hk⟩ := account.reached n hy
  rw [still.done hm hk, (r.tracks c).sound.length, ← account.balance, empty, List.append_nil]
  exact le

/-- Nothing else is done on a node that has no other delivery. -/
lemma done_le_given {y : Delivery} (hm : ∀ i, (r.moves i).sparesMarkOf n = true)
    (still : r.Still i n) (hy : y.receiver = .node n) (sole : (r.fleet i).Sole n d)
    (account : (r.fleet i).Account d y (r.handed d i) (r.fleet c).storage.entries) :
    ((r.fleet i).node n).mark.doneUntil.number.val ≤ (r.fleet c).storage.log.length := by
  obtain ⟨k, -, hk⟩ := account.reached n hy
  rw [still.done hm hk, (r.tracks c).sound.length, ← account.balance, List.length_append]
  exact Nat.le_trans (reached_le hm sole hk) (Nat.le_add_right _ _)

/-- A log is started with success and its receiver does not fail on what is handed to it. The
storage feeds it until a log is stopped, whichever of the logs that is. What the receiver was
handed, and what is left, comes in the order of the versions from the first on, and an update that
was appended is among it if and only if no log was stopped before. Whatever is handed over the
receiver handles, and nothing is left when the task that hands it over has no step. If the receiver
is a node that is healthy then and none of its tasks can go on, each of its statements that was
accepted before a log was stopped has returned its version or sleeps until that version is active
on every node. Each one that was accepted later waits for its version, which was not handed to the
node, if the node has no other delivery. -/
theorem handed_until_stop (r : Run) {s i log d : Nat} {h : Receiver} (hb : r.Begins s log d h)
    (hi : s < i) (fine : ∀ j < i, ¬ r.Fails j d) :
    ∃ y, (r.fleet i).deliveries[d]? = some y ∧ y.receiver = h ∧
      ((r.fleet i).sink = some d ↔ r.NoStop s i) ∧
      r.handed d i ++ y.queue <+: (r.fleet i).storage.entries ∧
      (∀ (k : Nat) (e : Stored), (r.handed d i ++ y.queue)[k]? = some e →
        ∃ u, Update.decode e.bytes = .ok u ∧ u.version.number.val = k + 1) ∧
      (∀ a t u, r.Appends a t u → a < i →
        ((∃ e ∈ r.handed d i ++ y.queue, Update.decode e.bytes = .ok u) ↔ r.NoStop s a)) ∧
      (∀ j < i, ∀ e ∈ (r.fleet j).handsOver d (r.moves j),
        (r.fleet j).Handles d h e (r.fleet (j + 1))) ∧
      ((r.fleet i).step y.task = none → y.queue = [] ∧
        ∀ n, h = .node n → (∀ j, (r.moves j).sparesMarkOf n = true) → r.Still i n →
          ((r.fleet i).node n).mark.failure = none →
          ∀ b a t st u, r.Starts b n st t → r.Accepts a t st u → a < i →
            (r.NoStop s a → (r.fleet i).outcome? t = some (.version u.version) ∨
              (r.fleet i).SleepsFor t n u.version) ∧
            (¬ r.NoStop s a → (r.fleet i).Sole n d →
              ∃ x, (r.fleet i).tasks[t]? = some x ∧ x.point = .awaiting u.version .saved ∧
                x.signal = none)) := by
  -- The delivery is fed until `c`, and what it was given in all is what was stored then.
  obtain ⟨c, hc⟩ := exists_fedUntil hi
  obtain ⟨y, receiver, account, sink⟩ := hb.account hc fine
  refine ⟨y, account.delivery, receiver, sink.trans hc.noStop_end.symm, ?_, ?_, ?_, ?_, ?_⟩
  · rw [account.balance]
    exact account.front
  · intro k e he
    rw [account.balance] at he
    have sound := (r.tracks c).sound
    obtain ⟨w, hw, rfl⟩ := sound.entry he
    exact ⟨w.update, Committed.decode_stored (sound.fits w (List.mem_of_getElem? hw)),
      sound.numbered k w hw⟩
  · intro a t u ha hai
    rw [account.balance, ha.mem_iff, hc.noStop_iff ha hai]
  · exact fun j hj e he => hb.handles (fun k hk => fine k (Nat.lt_of_le_of_lt hk hj)) he
  · intro stuck
    have empty := account.drained stuck
    refine ⟨empty, fun n hn spares still healthy b a t st u hs ha hai => ?_⟩
    have hy := receiver.trans hn
    obtain ⟨x, hx, rfl, course⟩ := ha.course spares hs hai
    -- Whether the version is done is whether it was stored by then.
    have rests := course.rests (r.waiting i) hx healthy (still.stuck t x hx rfl)
    rw [hc.noStop_iff ha.appends hai, ← ha.appends.version_le_iff]
    constructor
    · -- The version was given, so the node is done with it and the statement has come to its end.
      intro given
      have done := given_le_done spares still hy empty account
      rcases rests with ⟨-, ended⟩ | ⟨late, -⟩
      · exact ended
      · exact absurd (Nat.le_trans given done) late
    · -- The version was not given, and the node can be done with no other than it was given.
      intro missed sole
      have done := done_le_given spares still hy sole account
      rcases rests with ⟨le, -⟩ | ⟨-, waits, untold⟩
      · exact absurd (Nat.le_trans le done) missed
      · exact ⟨x, hx, waits, untold⟩

lemma repartitioned_begins : repartitioned.Begins 3 0 0 (.node 0) where
  starts := ⟨0, ⟨0, .startLink, none⟩, rfl, by decide, .inr ⟨rfl, by decide⟩⟩
  receiver := by decide
  free := by decide
  delivery := by decide

/-- Two nodes have each a log of one storage. The first is started. The start of the second is
refused, as the storage is attached, and the second is stopped. Then a statement is carried out on
the first. -/
def displaced : Run :=
  ofMoves Clock.unset
    [.join Config.unset none, .join Config.unset none, .request 0 .zero .start, .step 0, .step 0,
      .step 0, .step 0, .request 1 .zero .start, .step 3, .step 3, .request 1 .zero .stop, .step 5,
      .step 5, .step 4, .step 5, .step 5, .request 0 .zero (.execute repartition), .step 6,
      .step 6, .step 6, .step 2]
    (by decide +kernel)

lemma displaced_begins : displaced.Begins 4 0 0 (.node 0) where
  starts := ⟨0, ⟨0, .startLink, none⟩, rfl, by decide, .inr ⟨rfl, by decide⟩⟩
  receiver := by decide
  free := by decide
  delivery := by decide

lemma displaced_stops : displaced.StopsLog 11 1 :=
  ⟨5, ⟨1, .stop, none⟩, rfl, by decide, .inr ⟨rfl, by decide⟩⟩

lemma displaced_starts : displaced.Starts 16 0 repartition 6 where
  move := ⟨.zero, rfl⟩
  node := by decide
  task := by decide

lemma displaced_accepts : displaced.Accepts 18 6 repartition repartition.update :=
  .of_points (a := 1) rfl (by decide) (by decide)

lemma displaced_quiescent : (displaced.fleet 21).Quiescent := by decide

lemma displaced_still : displaced.Still 21 0 where
  takes := ⟨⟨[], true, 1⟩, by decide, rfl⟩
  answered := Fleet.not_gathers (by decide) 0
  stuck t _ _ _ := displaced_quiescent t
  room := by decide

/-- A log is started and not stopped. The start of another log of the storage is refused, and that
log is stopped. From then on nothing that is appended is handed to the receiver of the log that was
started, so that the statement of its node that appends it never ends. -/
theorem displaced_starves :
    displaced.Begins 4 0 0 (.node 0) ∧
      (displaced.fleet 10).outcome? 3 = some (.aborted (.failed (.log .attachedElsewhere))) ∧
      displaced.StopsLog 11 1 ∧ (∀ i < 21, ¬ displaced.StopsLog i 0) ∧
      (displaced.fleet 21).logs[0]?.map Log.delivery = some (some 0) ∧
      displaced.Appends 18 6 repartition.update ∧ displaced.handed 0 21 = [] ∧
      (displaced.fleet 21).Quiescent ∧
      (displaced.fleet 21).tasks[6]?.map Task.point = some (.awaiting ⟨1⟩ .saved) := by
  have running : ∀ i < 21, ∀ x ∈ (displaced.fleet i).tasks, ¬ (displaced.fleet i).StopsLog x 0 := by
    decide +kernel
  refine ⟨displaced_begins, by decide +kernel, displaced_stops, ?_, by decide +kernel,
    displaced_accepts.appends, by decide +kernel, displaced_quiescent, by decide +kernel⟩
  rintro i hi ⟨t, x, -, hx, hs⟩
  exact running i hi x (List.mem_of_getElem? hx) hs

theorem handed_until_stop_displaced :
    ((∃ e ∈ repartitioned.handed 0 18, Update.decode e.bytes = .ok repartition.update) ∧
        (repartitioned.fleet 18).SleepsFor 3 0 ⟨1⟩) ∧
      (¬ ∃ e ∈ displaced.handed 0 21, Update.decode e.bytes = .ok repartition.update) ∧
      ∃ x, (displaced.fleet 21).tasks[6]? = some x ∧ x.point = .awaiting ⟨1⟩ .saved := by
  constructor
  · have spares : ∀ i, (repartitioned.moves i).sparesMarkOf 0 = true :=
      moves_ofMoves (P := fun m => m.sparesMarkOf 0 = true) (by decide) rfl
    have unstopped : repartitioned.NoStop 3 8 := noStop_of_unasked fun j _ =>
      moves_ofMoves (P := fun m => m.stops = false) (by decide) rfl j
    obtain ⟨y, -, -, -, -, -, given, -, rest⟩ := handed_until_stop repartitioned (i := 18)
      repartitioned_begins (by decide) (by decide +kernel)
    obtain ⟨empty, statements⟩ := rest (repartitioned_quiescent _)
    obtain ⟨ended, -⟩ := statements 0 rfl spares repartitioned_atRest.still (by decide +kernel)
      6 8 3 repartition repartition.update repartitioned_starts repartitioned_accepts (by decide)
    rw [empty, List.append_nil] at given
    refine ⟨(given 8 3 _ repartitioned_accepts.appends (by decide)).2 unstopped, ?_⟩
    rcases ended unstopped with ended | sleeps
    · have running : (repartitioned.fleet 18).outcome? 3 = none := by decide +kernel
      rw [running] at ended
      cases ended
    · exact sleeps
  · have spares : ∀ i, (displaced.moves i).sparesMarkOf 0 = true :=
      moves_ofMoves (P := fun m => m.sparesMarkOf 0 = true) (by decide) rfl
    have stopped : ¬ displaced.NoStop 4 18 := fun unstopped =>
      unstopped 11 1 (by decide) (by decide) displaced_stops
    have sole : (displaced.fleet 21).Sole 0 0 := by
      intro i y hy _
      have one : (displaced.fleet 21).deliveries.length = 1 := by decide +kernel
      obtain ⟨lt, -⟩ := List.getElem?_eq_some_iff.1 hy
      omega
    obtain ⟨y, -, -, -, -, -, given, -, rest⟩ := handed_until_stop displaced (i := 21)
      displaced_begins (by decide) (by decide +kernel)
    obtain ⟨empty, statements⟩ := rest (displaced_quiescent _)
    obtain ⟨-, waits⟩ := statements 0 rfl spares displaced_still (by decide +kernel)
      16 18 6 repartition repartition.update displaced_starts displaced_accepts (by decide)
    rw [empty, List.append_nil] at given
    obtain ⟨x, hx, waits, -⟩ := waits stopped sole
    refine ⟨fun handed => stopped ?_, x, hx, waits⟩
    exact (given 18 6 _ displaced_accepts.appends (by decide)).1 handed

end Run

end SchemaCatalog
