import SchemaCatalog.Proofs.Fleet.Dispatch
import SchemaCatalog.Proofs.Fleet.Waiting
import SchemaCatalog.Proofs.Run.Calls
import SchemaCatalog.Proofs.Run.Serial

/-!
# What a statement guarantees when it returns

A statement returns its version once that is done on its node and the clock has passed its
activation by the greatest skew. By then the listeners of the node have been called for it and for
all versions before it, and whoever asks for the catalog at the current time, on a clock that is
behind by no more than the skew, gets that version or a later one.
-/

namespace SchemaCatalog

lemma Timestamp.everywhere_val (a : Timestamp) (skew : Duration) :
    (a.everywhere skew).raw.val =
      min (a.raw.val + skew.wholeMillis * Timestamp.ticksPerMilli) Timestamp.cap :=
  a.add_val skew

namespace Fleet

variable {f g : Fleet} {m : Move} {t n : Nat} {x : Task}

lemma clock_of_effect (he : f.Effect t x g) : f.clock.current ≤ g.clock.current := by
  cases he with
  | still _ _ _ hc _ => exact hc
  | append => exact le_tick f.clock
  | _ => exact Nat.le_refl _

/-- A clock that is kept never goes back. -/
lemma clock_of_change (hm : m.keepsClock = true) (hc : f.Change m g) :
    f.clock.current ≤ g.clock.current := by
  cases hc with
  | step _ _ he => exact clock_of_effect he
  | still hc _ => exact hc
  | turn => cases hm
  | _ => exact Nat.le_refl _

/-- The catalog of a version is active on a node, and on every node whose clock is behind by no more
than the skew; the listeners of the node have been called for it and for the versions before it. -/
structure Active (f : Fleet) (n : Nat) (v : Version) (c : Catalog) : Prop where
  registered : (f.node n).history.catalog? v = some c
  done : v ≤ (f.node n).mark.doneUntil
  announced : ∀ w, w ≤ v → ¬ f.Owes n w
  reached : min (c.activation.raw.val + (f.node n).skew.wholeMillis * Timestamp.ticksPerMilli)
    Timestamp.cap ≤ f.clock.current.raw.val
  current : ∃ d, (f.node n).history.catalogAt f.clock.current = .ok d ∧ v ≤ d.version
  behind : c.activation.raw.val + (f.node n).skew.wholeMillis * Timestamp.ticksPerMilli <
      18_446_744_073_709_551_616 →
    ∀ τ : Timestamp, f.clock.current.raw.val ≤
      τ.raw.val + (f.node n).skew.wholeMillis * Timestamp.ticksPerMilli →
      ∃ d, (f.node n).history.catalogAt τ = .ok d ∧ v ≤ d.version

/-- From the activation of a version on the node finds it or a later one. -/
lemma Tracks.catalogAt (h : f.Tracks) {v : Version} {c : Catalog}
    (hc : (f.node n).history.catalog? v = some c) {τ : Timestamp} (hτ : c.activation ≤ τ) :
    ∃ d, (f.node n).history.catalogAt τ = .ok d ∧ v ≤ d.version := by
  obtain ⟨k, hk⟩ := h.reached hc
  obtain ⟨d, hat, active⟩ := hk.follows.activeAt h.sound.numbered τ
  exact ⟨d, hat, active.greatest v c hc hτ⟩

/-- A version that is done is active once the clock has passed its activation by the skew. -/
lemma active_of_clock (h : f.Tracks) (hd : f.DispatchesOn n) {v : Version} {c : Catalog}
    (hc : (f.node n).history.catalog? v = some c) (done : v ≤ (f.node n).mark.doneUntil)
    (clock : c.activation.everywhere (f.node n).skew ≤ f.clock.current) : f.Active n v c := by
  have reached := (Timestamp.le_def _ _).1 clock
  rw [Timestamp.everywhere_val] at reached
  have cap := c.activation.raw.isLt
  refine ⟨hc, done, fun w hw => hd.not_owes h (Nat.le_trans hw done), reached, ?_, ?_⟩
  · refine h.catalogAt hc ?_
    rw [Timestamp.le_def]
    rw [Timestamp.cap] at reached
    omega
  · intro hlt τ hτ
    refine h.catalogAt hc ?_
    rw [Timestamp.le_def]
    rw [Timestamp.cap] at reached
    omega

/-! ## From the acceptance to the return -/

/-- Where the task of a statement stands that was accepted as a version, and what holds there. -/
inductive Settling (f : Fleet) (n : Nat) (v : Version) : Point → Prop where
  | await : Settling f n v (.await v .saved)
  | awaiting : Settling f n v (.awaiting v .saved)
  | confirm : v ≤ (f.node n).mark.doneUntil → Settling f n v (.confirm v)
  | readClock {c : Catalog} :
      v ≤ (f.node n).mark.doneUntil → (f.node n).history.catalog? v = some c →
      Settling f n v (.readClock (c.activation.everywhere (f.node n).skew) (.version v))
  | sleep {c : Catalog} :
      v ≤ (f.node n).mark.doneUntil → (f.node n).history.catalog? v = some c →
      Settling f n v (.sleep (c.activation.everywhere (f.node n).skew) (.version v))
  | returned {c : Catalog} :
      v ≤ (f.node n).mark.doneUntil → (f.node n).history.catalog? v = some c →
      c.activation.everywhere (f.node n).skew ≤ f.clock.current →
      Settling f n v (.ended (.version v))
  | failed {a : Abort} : Settling f n v (.ended (.aborted a))

/-- What only grows from one fleet to another on a node. -/
structure Later (f g : Fleet) (n : Nat) : Prop where
  kept : (f.node n).Kept (g.node n)
  registered : ∀ (v : Version) (c : Catalog), (f.node n).history.catalog? v = some c →
    (g.node n).history.catalog? v = some c
  clock : f.clock.current ≤ g.clock.current

lemma Settling.later {v : Version} {p : Point} (h : f.Settling n v p) (hl : f.Later g n) :
    g.Settling n v p := by
  have done : ∀ {w : Version}, w ≤ (f.node n).mark.doneUntil → w ≤ (g.node n).mark.doneUntil :=
    fun hw => Nat.le_trans hw hl.kept.doneUntil
  cases h with
  | await => exact .await
  | awaiting => exact .awaiting
  | confirm hv => exact .confirm (done hv)
  | readClock hv hc =>
    rw [← hl.kept.skew]
    exact .readClock (done hv) (hl.registered _ _ hc)
  | sleep hv hc =>
    rw [← hl.kept.skew]
    exact .sleep (done hv) (hl.registered _ _ hc)
  | returned hv hc ht =>
    rw [← hl.kept.skew] at ht
    exact .returned (done hv) (hl.registered _ _ hc) (Nat.le_trans ht hl.clock)
  | failed => exact .failed

/-- A turn takes the task on towards its return, and finds what is promised by then. -/
lemma Settling.turn {v : Version} {p : Point} (h : f.Settling x.node v x.point) (hw : f.Waiting)
    (hx : f.tasks[t]? = some x) (hl : f.Later g x.node) (hturn : f.Turn g x p) :
    g.Settling x.node v p := by
  have done : ∀ {w : Version}, w ≤ (f.node x.node).mark.doneUntil →
      w ≤ (g.node x.node).mark.doneUntil :=
    fun hw => Nat.le_trans hw hl.kept.doneUntil
  have skew := hl.kept.skew
  -- First the turns that the task can take, then those that begin where it never stands.
  cases hturn with
  | ready e hv =>
    rw [e] at h
    cases h
    exact .confirm (done hv)
  | released e hs =>
    -- Whoever is told so is told by a watermark that has come to the version.
    have released := hw.released t x _ _ hx e hs
    rw [e] at h
    cases h
    exact .confirm (done released)
  | waiting e _ _ =>
    rw [e] at h
    cases h
    exact .awaiting
  | denied e _ _ => exact .failed
  | dropped e _ => exact .failed
  | found e hc =>
    rw [e] at h
    cases h with
    | confirm hv =>
      rw [← skew]
      exact .readClock (done hv) (hl.registered _ _ hc)
  | missing e _ => exact .failed
  | due e ht =>
    rw [e] at h
    cases h with
    | readClock hv hc =>
      rw [← skew] at ht
      exact .returned (done hv) (hl.registered _ _ hc) ht
  | early e =>
    rw [e] at h
    cases h with
    | readClock hv hc =>
      rw [← skew]
      exact .sleep (done hv) (hl.registered _ _ hc)
  | woken e ht =>
    rw [e] at h
    cases h with
    | sleep hv hc =>
      rw [← skew] at ht
      exact .returned (done hv) (hl.registered _ _ hc) ht
  | unready e _ => exact .failed
  | refused e _ _ => exact .failed
  | exhausted e => exact .failed
  | vacuous e _ _ =>
    rw [e] at h
    cases h
  | unchanged e _ _ =>
    rw [e] at h
    cases h
  | drafted e _ _ _ _ =>
    rw [e] at h
    cases h
  | accepted _ e _ =>
    rw [e] at h
    cases h
  | rejected e _ =>
    rw [e] at h
    cases h
  | reviewed e =>
    rw [e] at h
    cases h

end Fleet

namespace Run

variable {r : Run} {s n t i j : Nat} {st : Statement}

lemma waiting (r : Run) (i : Nat) : (r.fleet i).Waiting := by
  apply r.invariant (Fleet.waiting_ofClock r.clock) (fun _ h e => h.congr e)
  intro i k ih hk
  exact Fleet.waiting_of_change (r.plain i) (r.tracks i) ih hk

lemma serves (r : Run) (hm : ∀ i, (r.moves i).sparesMarkOf n = true) (i : Nat) :
    (r.fleet i).Serves n (r.moves i) (r.fleet (i + 1)) := by
  obtain ⟨k, hk, e⟩ := r.change i
  exact (Fleet.serves_of_change (r.plain i) (r.tracks i) (hm i) hk).congr e

lemma dispatches (r : Run) (hm : ∀ i, (r.moves i).sparesMarkOf n = true) (i : Nat) :
    (r.fleet i).DispatchesOn n := by
  induction i with
  | zero => exact Fleet.dispatchesOn_ofClock r.clock n
  | succ i ih => exact ih.serves (r.tracks i) (r.tracks (i + 1)) (r.frame i) (r.serves hm i)

lemma later (r : Run) (hc : ∀ i, (r.moves i).keepsClock = true) (i : Nat)
    (hn : n < (r.fleet i).nodes.length) : (r.fleet i).Later (r.fleet (i + 1)) n where
  kept := r.kept (Nat.le_succ i) hn
  registered _ _ := r.catalog_stays (Nat.le_succ i)
  clock := by
    obtain ⟨k, hk, e⟩ := r.change i
    rw [(Fleet.core_inj e).1]
    exact Fleet.clock_of_change (hc i) hk

/-- What holds of the task of a statement that is accepted, and is preserved while it stays where it
is and by each of its turns, holds at every later moment. -/
lemma Accepts.induction {u : Update} (h : r.Accepts j t st u) (hs : r.Starts s n st t)
    {P : Nat → Point → Prop} (base : P (j + 1) (.await u.version .saved))
    (stay : ∀ i p, n < (r.fleet i).nodes.length → P i p → P (i + 1) p)
    (turn : ∀ i y p, n < (r.fleet i).nodes.length → (r.fleet i).tasks[t]? = some y → y.node = n →
      P i y.point → (r.fleet i).Turn (r.fleet (i + 1)) y p → P (i + 1) p) (hi : j < i) :
    ∃ x, (r.fleet i).tasks[t]? = some x ∧ x.node = n ∧ P i x.point := by
  obtain ⟨y, hy, point⟩ := h.accepted
  have hsj := hs.lt_of_task hy
  obtain ⟨y', hy', rfl, hof, -⟩ := hs.drafted hsj
  cases hy.symm.trans hy'
  have node : ∀ i, j < i → y.node < (r.fleet i).nodes.length :=
    fun i hi => Nat.lt_of_lt_of_le hs.node (r.nodes_le (by omega))
  obtain ⟨x, hx, hxn, -, hp⟩ := carried hy hof (point ▸ base)
    (fun i p hi _ => stay i p (node i hi))
    (fun i x p hi hx hxn _ => turn i x p (node i hi) hx hxn) hi
  exact ⟨x, hx, hxn, hp⟩

/-- The task of an accepted statement is on its way to return the version. -/
lemma Accepts.settling {u : Update} (h : r.Accepts j t st u)
    (hc : ∀ i, (r.moves i).keepsClock = true) (hs : r.Starts s n st t) (hi : j < i) :
    ∃ x, (r.fleet i).tasks[t]? = some x ∧ (r.fleet i).Settling n u.version x.point := by
  obtain ⟨x, hx, -, hp⟩ := h.induction hs (P := fun i p => (r.fleet i).Settling n u.version p)
    .await (fun i p node hp => hp.later (r.later hc i node))
    (fun i x p node hx hxn hp hturn => by
      subst hxn
      exact hp.turn (r.waiting i) hx (r.later hc i node) hturn) hi
  exact ⟨x, hx, hp⟩

/-- The snapshot of an accepted version is the one before it with the entries applied. -/
lemma Accepts.snapshot {u : Update} (h : r.Accepts j t st u) (hi : j < i) {c : Catalog}
    (hc : ((r.fleet i).node n).history.catalog? u.version = some c) :
    ∃ b d, SchemaCatalog.snapshot (r.fleet j).storage.log (r.fleet j).storage.log.length = .ok b ∧
      b.applyEntries u.entries = .ok d ∧ c = d.stamp u.version
        (Committed.activation ⟨u, (r.fleet j).clock.tick.current⟩ b.activation) := by
  obtain ⟨b, hb, -, hv, -⟩ := h.serial
  obtain ⟨-, hs⟩ := (r.tracks i).snapshot hc
  rw [hv, h.appends.snapshot hb hi] at hs
  obtain ⟨d, hd, e⟩ := Committed.successor_ok hs
  exact ⟨b, d, hb, hd, e⟩

/-- The calls that the dispatcher of a node made for versions up to this one had all been seen to
end before this moment. -/
def CallsOver (r : Run) (i n : Nat) (v : Version) : Prop :=
  ∀ (j t : Nat) (event : Event) (w : Version) (rest : List Event) (names : List String),
    j ≤ i → w ≤ v → (r.fleet j).Gathers n t event (.dispatch w rest) names →
    ∃ m, j ≤ m ∧ m < i ∧ r.moves m = .step t ∧
      (r.fleet m).CallsEnd t event (.dispatch w rest) names

/-- A node that owes no calls is not among any. -/
lemma callsOver {v : Version} (owed : ∀ w, w ≤ v → ¬ (r.fleet i).Owes n w) :
    r.CallsOver i n v := by
  intro j t event w rest names hj hw h
  rcases gathers_or_end h hj with ⟨x, calls, hx, hn, hp, -⟩ | ended
  · have notice : x.point.notice? = some ⟨w, event :: rest⟩ := by
      rw [hp]
      rfl
    exact absurd ⟨_, rfl, List.cons_ne_nil _ _, .inl ⟨t, x, hx, hn, notice⟩⟩ (owed w hw)
  · exact ended

/-- What a statement guarantees that was accepted as a version and returns, where only its node
marks versions on that node and the clock is kept. It returns that version. The snapshot of the
version is the one before it with the entries of the statement applied, which is registered; the
node is done with the version, owes no calls to listeners for it or any version before it, and all
that it made have ended; and its clock has passed the activation by the skew. So the node finds that
version or a later one at the current time, and at every time that is behind by no more than the
skew. -/
theorem active_of_returned (r : Run) {s n t j i : Nat}
    (hm : ∀ i, (r.moves i).sparesMarkOf n = true) (hc : ∀ i, (r.moves i).keepsClock = true)
    {st : Statement} {u : Update} {w : Version} (hs : r.Starts s n st t) (ha : r.Accepts j t st u)
    (ho : (r.fleet i).outcome? t = some (.version w)) :
    w = u.version ∧ ∃ b d, snapshot (r.fleet j).storage.log (r.fleet j).storage.log.length = .ok b ∧
      b.applyEntries u.entries = .ok d ∧
      (r.fleet i).Active n u.version (d.stamp u.version
        (Committed.activation ⟨u, (r.fleet j).clock.tick.current⟩ b.activation)) ∧
      r.CallsOver i n u.version := by
  -- What has ended makes no offer, so the statement was accepted before.
  have hji : j < i := by
    rcases Nat.lt_or_ge j i with hlt | hge
    · exact hlt
    · obtain ⟨x, a, hx, hp⟩ := ha.offered
      have ended := r.outcome hge ho
      rw [Fleet.outcome?, hx, Option.bind_some, Task.outcome?, hp] at ended
      cases ended
  obtain ⟨x, hx, hp⟩ := ha.settling hc hs hji
  rw [Fleet.outcome?, hx, Option.bind_some] at ho
  rw [Task.point_of_outcome ho] at hp
  cases hp with
  | returned done registered clock =>
    obtain ⟨b, d, hb, hd, rfl⟩ := ha.snapshot hji registered
    have active := Fleet.active_of_clock (r.tracks i) (r.dispatches hm i) registered done clock
    exact ⟨rfl, b, d, hb, hd, active, callsOver active.announced⟩

theorem active_of_returned_repartitioned :
    (repartitioned.fleet 20).outcome? 3 = some (.version ⟨1⟩) ∧
      (∃ c, (repartitioned.fleet 20).Active 0 ⟨1⟩ c) ∧ repartitioned.CallsOver 20 0 ⟨1⟩ := by
  have spares : ∀ i, (repartitioned.moves i).sparesMarkOf 0 = true :=
    moves_ofMoves (P := fun m => m.sparesMarkOf 0 = true) (by decide) rfl
  have keeps : ∀ i, (repartitioned.moves i).keepsClock = true :=
    moves_ofMoves (P := fun m => m.keepsClock = true) (by decide) rfl
  have returned : (repartitioned.fleet 20).outcome? 3 = some (.version ⟨1⟩) := by decide +kernel
  obtain ⟨-, b, d, -, -, active, ended⟩ := active_of_returned repartitioned spares keeps
    repartitioned_starts repartitioned_accepts returned
  exact ⟨returned, ⟨_, active⟩, ended⟩

end Run

end SchemaCatalog
