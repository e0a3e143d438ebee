import SchemaCatalog.Proofs.Activation
import SchemaCatalog.Proofs.Run.Growth
import SchemaCatalog.Proofs.Run.Reading
import SchemaCatalog.Proofs.Run.Success

/-!
# Activation in a run

On every node the registered versions become active as early as their updates allow, whatever the
delays and whichever clocks the commits were timed by (`Run.activations_earliest`).

While the clock is kept, a commit is later than all that was read from the clock before it, and a
version is active no earlier than its commit. So what a node that has registered all that is
committed answers about a time that has come, it answers for good (`Run.catalogAt_repeatable`).
-/

namespace SchemaCatalog

/-- A clock that stands at a time which is not the end of time goes beyond it with the next
reading. -/
lemma Clock.lt_tick {c : Clock} {t : Timestamp} (ht : t < Timestamp.greatest) (h : t ≤ c.current) :
    t < c.tick.current := by
  have ht : t.raw.val < 18_446_744_073_709_551_615 := ht
  rw [Timestamp.le_def] at h
  rw [Timestamp.lt_def, tick, Timestamp.tick, Word64.val_capped]
  omega

namespace Run

variable {r : Run} {i j n : Nat} {t : Timestamp}

/-- Activation times keep the order of versions. In every run, whatever is committed with whatever
delays and by whichever clocks, the registered versions of a node become active one after another
and none before its update is due, and no times with these two properties are earlier anywhere. The
same holds of a handler that is handed any updates at all, with any times of commit, in any order
and however often. -/
theorem activations_earliest (r : Run) :
    (∀ i n, ((r.fleet i).node n).history.Earliest (r.fleet i).storage.log) ∧
      ∀ xs : List (Committed × Token),
        (History.Intake.started.handAll xs).history.Earliest
          (History.Intake.started.handAll xs).log := by
  constructor
  · intro i n
    have ht := r.tracks i
    refine .of_registered fun v c hc => ?_
    obtain ⟨k, hk⟩ := ht.reached hc
    exact hk.follows.earliest ht.sound.numbered
  · intro xs
    have h := History.Intake.sound_started.handAll xs
    exact h.follows.earliest h.numbered

/-- An update that is due half a second after its commit. -/
def delayed : Update := ⟨⟨1⟩, Duration.ofMillis 500, []⟩

/-- A node is started and handed two updates. The clock is turned back before the second of them is
committed, which is to be active without delay. -/
def rewound : Run :=
  ofMoves Clock.unset
    [.join Config.unset none, .request 0 .zero .start, .step 0, .step 0, .step 0, .step 0,
      .turnClock (Clock.atMillis 1000), .request 0 .zero (.commit delayed), .step 3,
      .turnClock Clock.unset, .request 0 .zero (.commit (blank ⟨2⟩)), .step 4, .step 2, .step 2]
    (by decide +kernel)

/-- The second version becomes active after the first one, half a second after its own update was
due. -/
theorem activations_earliest_rewound :
    ∃ c d, ((rewound.fleet 14).node 0).history.catalog? ⟨1⟩ = some c ∧
      ((rewound.fleet 14).node 0).history.catalog? ⟨2⟩ = some d ∧
      c.activation.Precedes d.activation ∧
      ∃ x ∈ (rewound.fleet 14).storage.log, x.update.version = ⟨2⟩ ∧ x.due < c.activation := by
  obtain ⟨nodes, -⟩ := activations_earliest rewound
  have one : (((rewound.fleet 14).node 0).history.catalog? ⟨1⟩).isSome := by decide +kernel
  have two : (((rewound.fleet 14).node 0).history.catalog? ⟨2⟩).isSome := by decide +kernel
  obtain ⟨c, hc⟩ := Option.isSome_iff_exists.1 one
  obtain ⟨d, hd⟩ := Option.isSome_iff_exists.1 two
  have entries : (rewound.fleet 14).storage.log =
      [⟨delayed, ⟨65536001⟩⟩, ⟨blank ⟨2⟩, ⟨65537⟩⟩] := by decide +kernel
  have due : (⟨delayed, ⟨65536001⟩⟩ : Committed).due ≤ c.activation := by
    refine (nodes 14 0).due _ ?_ c hc
    rw [entries]
    exact List.mem_cons_self
  refine ⟨c, d, hc, hd, (nodes 14 0).ordered _ _ c d hc hd (by decide), ⟨blank ⟨2⟩, ⟨65537⟩⟩, ?_,
    rfl, Nat.lt_of_lt_of_le (by decide +kernel) due⟩
  rw [entries]
  exact List.mem_cons_of_mem _ List.mem_cons_self

/-! ## Repeatable reads -/

/-- A clock that is kept never goes back. -/
lemma clock_le (hij : i ≤ j) (hc : ∀ m, i ≤ m → m < j → (r.moves m).keepsClock = true) :
    (r.fleet i).clock.current ≤ (r.fleet j).clock.current := by
  induction hij with
  | refl => exact Nat.le_refl _
  | @step j hij ih =>
    obtain ⟨k, hk, e⟩ := r.change j
    have step := Fleet.clock_of_change (hc j hij (Nat.lt_succ_self j)) hk
    rw [← (Fleet.core_inj e).1] at step
    exact Nat.le_trans (ih fun m hm hmj => hc m hm (Nat.lt_succ_of_lt hmj)) step

/-- What is committed once a time has come, by a clock that is kept, is due after that time. -/
lemma due_after (hc : ∀ m, i ≤ m → m < j → (r.moves m).keepsClock = true)
    (ht : t < Timestamp.greatest) (now : t ≤ (r.fleet i).clock.current) {v : Nat} {x : Committed}
    (hx : (r.fleet j).storage.log[v]? = some x) (new : (r.fleet i).storage.log.length ≤ v) :
    t < x.due := by
  obtain ⟨m, t', hmj, ha, rfl⟩ := appended hx
  have him : i ≤ m := by
    refine Nat.le_of_not_lt fun hmi => ?_
    have grown := (r.log_grows (show m + 1 ≤ i from hmi)).length_le
    have length := ha.length_succ
    omega
  have entry := ha.entry hmj
  rw [hx] at entry
  have commit : x.commit = (r.fleet m).clock.tick.current :=
    congrArg Committed.commit (Option.some.inj entry)
  have come := r.clock_le him fun m' h h' => hc m' h (Nat.lt_trans h' hmj)
  have late := Clock.lt_tick ht (Nat.le_trans now come)
  rw [← commit] at late
  exact Nat.lt_of_lt_of_le late x.commit_le_due

/-- Reading at a time is repeatable. At a moment at which a node has registered every update that is
committed, and for every time that the clock has reached and that is not the end of time, the node
answers with a catalog, and it answers with the same one at every later moment, whatever statements,
writers and movements of the clock there are in between, as long as the clock is not exchanged. -/
theorem catalogAt_repeatable (r : Run) {i j n : Nat} {t : Timestamp} (hij : i ≤ j)
    (hc : ∀ m, i ≤ m → m < j → (r.moves m).keepsClock = true)
    (registered : ∀ v, v ≤ (r.fleet i).storage.committed →
      (((r.fleet i).node n).history.catalog? v).isSome)
    (ht : t < Timestamp.greatest) (now : t ≤ (r.fleet i).clock.current) :
    ∃ c, ((r.fleet i).node n).history.catalogAt t = .ok c ∧
      ((r.fleet j).node n).history.catalogAt t = .ok c := by
  have tracks := r.tracks i
  obtain ⟨a, ha⟩ := Option.isSome_iff_exists.1 (registered _ (Nat.le_refl _))
  obtain ⟨k, hk⟩ := tracks.reached ha
  obtain ⟨k', -, hk'⟩ := r.advances hij n k hk
  -- The node has reached the end of the log, so that what it registers later is committed later.
  have all : (r.fleet i).storage.log.length ≤ k := by
    rw [← tracks.sound.committed]
    exact ((hk.catalog? tracks _ a).1 ha).1
  obtain ⟨c, hat, active⟩ := hk.follows.activeAt tracks.sound.numbered t
  obtain ⟨d, hat', active'⟩ := hk'.follows.activeAt (r.tracks j).sound.numbered t
  rcases activeAt_before hij active active' with rfl | new
  · exact ⟨c, hat, hat'⟩
  · -- A catalog that was registered since is not active by then.
    have beyond : k < d.version.number.val := by
      refine Nat.lt_of_not_le fun le => ?_
      obtain ⟨e, he, -⟩ := hk.snapshot tracks le
      rw [(hk.catalog? tracks _ e).2 ⟨le, he⟩] at new
      cases new
    obtain ⟨v, hv⟩ : ∃ v, d.version.number.val = v + 1 :=
      Nat.exists_eq_succ_of_ne_zero (Nat.ne_zero_of_lt beyond)
    obtain ⟨x, hx, -⟩ :=
      hk'.follows.committed (r.tracks j).sound.numbered active'.registered hv
    obtain ⟨-, hd⟩ := (hk'.catalog? (r.tracks j) _ d).1 active'.registered
    rw [hv] at hd
    have later := due_after hc ht now hx (by omega)
    have due := due_le_activation hx hd
    exact absurd (Nat.lt_of_lt_of_le later (Nat.le_trans due active'.active)) (Nat.lt_irrefl _)

/-- The node goes on to answer with the initial catalog about the time at which it had registered
nothing else, after a statement was committed and has returned. -/
theorem catalogAt_repeatable_repartitioned :
    (repartitioned.fleet 20).outcome? 3 = some (.version ⟨1⟩) ∧
    ∃ c, ((repartitioned.fleet 8).node 0).history.catalogAt
        (repartitioned.fleet 8).clock.current = .ok c ∧
      ((repartitioned.fleet 20).node 0).history.catalogAt
        (repartitioned.fleet 8).clock.current = .ok c := by
  refine ⟨by decide +kernel, ?_⟩
  refine catalogAt_repeatable repartitioned (i := 8) (j := 20) (n := 0) (by decide)
    (fun m _ _ => moves_ofMoves (P := fun m => m.keepsClock = true) (by decide) rfl m) ?_
    (by decide +kernel) (Nat.le_refl _)
  intro v hv
  have nothing : (repartitioned.fleet 8).storage.committed = Version.initial := by decide +kernel
  rw [nothing] at hv
  obtain rfl : v = Version.initial := Version.ext_val (Nat.le_zero.1 hv)
  decide +kernel

end Run

end SchemaCatalog
