import SchemaCatalog.Proofs.Fleet.Replay

/-!
# Every moment of a run

What one move keeps, a run keeps from its beginning on. The lemmas here carry the frame of a move
and the invariant that nodes follow the log through a run, and say that the log only grows.
-/

namespace SchemaCatalog.Run

open Fleet

variable (r : Run)

lemma plain (i : Nat) : (r.fleet i).Plain := by
  induction i with
  | zero => exact plain_ofClock r.clock
  | succ i ih =>
    obtain ⟨k, hk, e⟩ := change_of_move ih (r.moves i)
    exact ih.frame ((frame_of_change ih.placed hk).congr e)

lemma change (i : Nat) : (r.fleet i).Changes (r.moves i) (r.fleet (i + 1)) :=
  change_of_move (r.plain i) (r.moves i)

/-- A task that is to take a step has none, and nothing happens, or takes it. -/
lemma step_cases {i t : Nat} (hm : r.moves i = .step t) :
    (r.fleet i).step t = none ∧ r.fleet (i + 1) = r.fleet i ∨
      (r.fleet i).step t = some (r.fleet (i + 1)) := by
  rw [fleet_succ, hm, Fleet.after]
  cases (r.fleet i).step t with
  | none => exact .inl ⟨rfl, rfl⟩
  | some g => exact .inr rfl

lemma fleet_of_step {i t : Nat} {g : Fleet} (hm : r.moves i = .step t)
    (hg : (r.fleet i).step t = some g) : r.fleet (i + 1) = g := by
  rw [fleet_succ, hm, Fleet.after, hg]
  rfl

/-- What is asked to start or stop something begins as a new task. -/
lemma errand_begins {i n : Nat} {skew : Duration} {q : Request} {p : Point}
    (hm : r.moves i = .request n skew q) (hn : n < (r.fleet i).nodes.length)
    (hq : q.errand? = some p) :
    (r.fleet (i + 1)).tasks[(r.fleet i).tasks.length]? = some ⟨n, p, none⟩ := by
  have spawn : r.fleet (i + 1) = (r.fleet i).spawn n p := by
    rw [fleet_succ, hm]
    cases q with
    | start =>
      cases hq
      exact if_pos ⟨hn, rfl⟩
    | stop =>
      cases hq
      exact if_pos ⟨hn, rfl⟩
    | startLog log =>
      cases hq
      exact if_pos ⟨hn, rfl⟩
    | stopLog log =>
      cases hq
      exact if_pos ⟨hn, rfl⟩
    | _ => cases hq
  rw [spawn]
  exact Fleet.getElem?_spawn ..

lemma frame (i : Nat) : (r.fleet i).Frame (r.moves i) (r.fleet (i + 1)) := by
  obtain ⟨k, hk, e⟩ := r.change i
  exact (frame_of_change (r.plain i).placed hk).congr e

/-- A task stays where it is, or takes the step that it has. -/
lemma rests_or_steps {i t : Nat} {x : Task} (hx : (r.fleet i).tasks[t]? = some x) :
    (∃ y, (r.fleet (i + 1)).tasks[t]? = some y ∧ y.node = x.node ∧ y.point = x.point) ∧
        (r.moves i = .step t → (r.fleet i).step t = none) ∨
      r.moves i = .step t ∧ (r.fleet i).step t = some (r.fleet (i + 1)) := by
  by_cases hm : r.moves i = .step t
  · rcases r.step_cases hm with ⟨none, same⟩ | some
    · exact .inl ⟨⟨x, by rw [same, hx], rfl, rfl⟩, fun _ => none⟩
    · exact .inr ⟨hm, some⟩
  · obtain ⟨y, hy, node, same⟩ := (r.frame i).task t x hx
    exact .inl ⟨⟨y, hy, node, same (.inl hm)⟩, fun e => absurd e hm⟩

lemma tracks_step {i : Nat} (h : (r.fleet i).Tracks) :
    (r.fleet (i + 1)).Tracks ∧ (r.fleet i).Advances (r.fleet (i + 1)) := by
  obtain ⟨k, hk, e⟩ := r.change i
  obtain ⟨ht, ha⟩ := tracks_of_change (r.plain i) h (r.fits i) hk
  obtain ⟨ht', ha'⟩ := ht.congr e
  exact ⟨ht', ha.trans ha'⟩

/-- At every moment the nodes follow the log. -/
theorem tracks (i : Nat) : (r.fleet i).Tracks := by
  induction i with
  | zero => exact tracks_ofClock r.clock
  | succ i ih => exact (r.tracks_step ih).1

/-- What holds at the beginning, is decided by the core, and is preserved by every change that a
move makes to it, holds at every moment. -/
theorem invariant {P : Fleet → Prop} (start : P (ofClock r.clock))
    (congr : ∀ {f g : Fleet}, f.Tracks → P f → g.core = f.core → P g)
    (change : ∀ {i : Nat} {k : Fleet}, P (r.fleet i) → (r.fleet i).Change (r.moves i) k → P k)
    (i : Nat) : P (r.fleet i) := by
  induction i with
  | zero => exact start
  | succ i ih =>
    obtain ⟨k, hk, e⟩ := r.change i
    obtain ⟨ht, -⟩ := tracks_of_change (r.plain i) (r.tracks i) (r.fits i) hk
    exact congr ht (change ih hk) e

/-- No node falls back. -/
lemma advances {i j : Nat} (h : i ≤ j) : (r.fleet i).Advances (r.fleet j) := by
  induction h with
  | refl => exact fun n k hk => ⟨k, Nat.le_refl k, hk⟩
  | @step j _ ih => exact ih.trans (r.tracks_step (r.tracks j)).2

lemma nodes_le {i j : Nat} (h : i ≤ j) : (r.fleet i).nodes.length ≤ (r.fleet j).nodes.length := by
  induction h with
  | refl => exact Nat.le_refl _
  | @step j _ ih => exact Nat.le_trans ih (r.frame j).nodes

/-- A task stays on its node for good. -/
lemma task_stays {i j t : Nat} (h : i ≤ j) {x : Task} (hx : (r.fleet i).tasks[t]? = some x) :
    ∃ y, (r.fleet j).tasks[t]? = some y ∧ y.node = x.node := by
  induction h with
  | refl => exact ⟨x, hx, rfl⟩
  | @step j _ ih =>
    obtain ⟨y, hy, hyn⟩ := ih
    obtain ⟨z, hz, hzn, -⟩ := (r.frame j).task t y hy
    exact ⟨z, hz, hzn.trans hyn⟩

/-- A task that is none yet at some moment is one only later. -/
lemma lt_of_task {i j t : Nat} {x : Task} (fresh : (r.fleet i).tasks.length ≤ t)
    (hx : (r.fleet j).tasks[t]? = some x) : i < j := by
  refine Nat.lt_of_not_le fun hj => ?_
  obtain ⟨y, hy, -⟩ := r.task_stays hj hx
  obtain ⟨lt, -⟩ := List.getElem?_eq_some_iff.1 hy
  exact Nat.not_lt.2 fresh lt

/-- What a node keeps in a move it keeps for good. -/
lemma kept {i j n : Nat} (h : i ≤ j) (hn : n < (r.fleet i).nodes.length) :
    ((r.fleet i).node n).Kept ((r.fleet j).node n) := by
  induction h with
  | refl => exact .refl _
  | @step j hij ih => exact ih.trans ((r.frame j).node n (Nat.lt_of_lt_of_le hn (r.nodes_le hij)))

/-- What was ever committed stays in the log. -/
lemma log_grows {i j : Nat} (h : i ≤ j) : (r.fleet i).storage.log <+: (r.fleet j).storage.log := by
  induction h with
  | refl => exact List.prefix_refl _
  | @step j _ ih => exact ih.trans (r.frame j).log

/-- A task that has ended leaves behind what it left behind. -/
lemma outcome {i j t : Nat} (h : i ≤ j) {o : Outcome} (ho : (r.fleet i).outcome? t = some o) :
    (r.fleet j).outcome? t = some o := by
  induction h with
  | refl => exact ho
  | @step j _ ih => exact (r.frame j).outcome ih

/-! ## Runs that come to rest -/

/-- A move that changes nothing. -/
def rest : Move := .request 0 Duration.zero .peek

lemma after_rest (f : Fleet) : f.after rest = f := by
  rw [rest, Fleet.after]
  split <;> rfl

lemma getD_rest {l : List Move} {i : Nat} (h : l.length ≤ i) : l.getD i rest = rest := by
  rw [List.getD_eq_getElem?_getD, List.getElem?_eq_none h]
  rfl

lemma trace_getD (f : Fleet) (l : List Move) (i : Nat) :
    f.trace (fun i => l.getD i rest) (l.length + i) =
      f.trace (fun i => l.getD i rest) l.length := by
  induction i with
  | zero => rfl
  | succ i ih =>
    rw [← Nat.add_assoc, Fleet.trace, ih, getD_rest (Nat.le_add_right ..)]
    exact after_rest _

/-- Whether all updates that are offered while these moves are made fit. -/
def OffersFit (f : Fleet) (l : List Move) : Prop :=
  ∀ i < l.length + 1, ∀ x ∈ (f.trace (fun i => l.getD i rest) i).tasks,
    ∀ u ∈ x.point.offer?, u.Fits

instance (f : Fleet) (l : List Move) : Decidable (OffersFit f l) :=
  inferInstanceAs (Decidable (∀ i < l.length + 1,
    ∀ x ∈ (f.trace (fun i => l.getD i rest) i).tasks, ∀ u ∈ x.point.offer?, u.Fits))

/-- The run that makes these moves and then comes to rest. -/
def ofMoves (c : Clock) (l : List Move) (h : OffersFit (Fleet.ofClock c) l) : Run where
  clock := c
  moves i := l.getD i rest
  fits i t x u hx hu := by
    have hx := List.mem_of_getElem? hx
    rcases Nat.lt_or_ge i (l.length + 1) with hi | hi
    · exact h i hi x hx u hu
    · obtain ⟨k, rfl⟩ := Nat.exists_eq_add_of_le (Nat.le_of_lt hi)
      rw [trace_getD] at hx
      exact h l.length (Nat.lt_succ_self _) x hx u hu

/-- What holds of all moves that are made and of the one that changes nothing holds of all. -/
lemma moves_ofMoves {P : Move → Prop} {c : Clock} {l : List Move}
    {h : OffersFit (Fleet.ofClock c) l} (hl : ∀ m ∈ l, P m) (hr : P rest) (i : Nat) :
    P ((ofMoves c l h).moves i) := by
  show P (l.getD i rest)
  rw [List.getD_eq_getElem?_getD]
  cases hm : l[i]? with
  | none => exact hr
  | some m => exact hl m (List.mem_of_getElem? hm)

lemma moves_of_le {c : Clock} {l : List Move} {h : OffersFit (Fleet.ofClock c) l} {i : Nat}
    (hi : l.length ≤ i) : (ofMoves c l h).moves i = rest :=
  getD_rest hi

/-- All moments of such a run are among the first, up to the one where it comes to rest. -/
lemma fleet_ofMoves {P : Fleet → Prop} {c : Clock} {l : List Move}
    {h : OffersFit (Fleet.ofClock c) l} (hl : ∀ i < l.length + 1, P ((ofMoves c l h).fleet i))
    (i : Nat) : P ((ofMoves c l h).fleet i) := by
  rcases Nat.lt_or_ge i (l.length + 1) with hi | hi
  · exact hl i hi
  · obtain ⟨k, rfl⟩ := Nat.exists_eq_add_of_le (Nat.le_of_lt hi)
    rw [show (ofMoves c l h).fleet (l.length + k) = (ofMoves c l h).fleet l.length from
      trace_getD ..]
    exact hl l.length (Nat.lt_succ_self _)

/-- A statement: the default zone gets three partitions. -/
def repartition : Statement := .alterZone Zone.defaultName ⟨some 3, none, none, none, none, none⟩

/-- The update of the statement, on the initial catalog. -/
def repartition.update : Update :=
  ⟨⟨1⟩, Duration.zero, [.alterZone { Zone.ofName 1 Zone.defaultName with partitions := 3 }]⟩

/-- An update without entries. -/
def blank (v : Version) : Update := ⟨v, Duration.zero, []⟩

/-- A node is started and carries the statement out while its clock is moved ahead. -/
def repartitioned : Run :=
  ofMoves Clock.unset
    [.join Config.unset none, .request 0 .zero .start, .step 0, .step 0, .step 0, .step 0,
      .request 0 .zero (.execute repartition), .step 3, .step 3, .step 3, .step 2, .step 1, .step 1,
      .step 1, .step 1, .step 3, .step 3, .step 3,
      .request 0 .zero (.advance (Duration.ofMillis 9)), .step 3]
    (by decide +kernel)

/-- A node is started and refuses to drop the default zone. -/
def spared : Run :=
  ofMoves Clock.unset
    [.join Config.unset none, .request 0 .zero .start, .step 0, .step 0, .step 0, .step 0,
      .request 0 .zero (.execute (.dropZone Zone.defaultName)), .step 3]
    (by decide +kernel)

end SchemaCatalog.Run
