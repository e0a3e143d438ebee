import SchemaCatalog.Proofs.Run.Shutdown

/-!
# Stops that overlap

A stop that finds the storage detached by another one does not wait for the delivery to end, and one
that finds the handler given up does not wait for the dispatcher. So it may drop those who wait, and
return, while updates are still to be handed over that were stored before the storage was detached
(`Run.crossed_drops`). Where no stop goes on past a task that has still something to do, any number
of overlapping stops is as good as one (`Run.overlapping_stops`).
-/

namespace SchemaCatalog.Run

open Fleet

/-- Stops that overlap are as good as one, however many there are and however they interleave with
all other tasks, as long as none overtakes another one. The node was started with success, is
managed alone and never halted. When a stop returns the storage has been detached. All versions that
were stored when it was first detached are registered then, and their events were handed over in
calls that have ended; the same holds when none of the tasks of the node can go on and no calls are
pending, whether or not a stop has returned. A statement that was accepted as one of these versions
ends with its version and with nothing else. When a stop has returned it does not wait any more
without having been released, and then, or when the node is at rest, it can go on until it has
returned or sleeps until the version is active on every node. -/
theorem overlapping_stops (r : Run) {n s b : Nat} (hr : r.Managed n s b)
    (orderly : ∀ i, ¬ (r.fleet i).Overtakes n (r.moves i)) :
    (∀ i, r.Stopped i n → ∃ c, c < i ∧ r.Detaches c) ∧
    ∀ c, r.Detaches c →
      (∀ i, r.Stopped i n ∨ c < i ∧ r.Idle i n →
        r.Settled i n (r.fleet c).storage.log.length) ∧
      ∀ q t a st u, r.Starts q n st t → r.Accepts a t st u →
        u.version.number.val ≤ (r.fleet c).storage.log.length →
        (∀ i o, (r.fleet i).outcome? t = some o → o = .version u.version) ∧
        (∀ i x v p, r.Stopped i n → (r.fleet i).tasks[t]? = some x → x.point = .awaiting v p →
          x.signal = some .released) ∧
        ∀ i, r.Stopped i n ∨ c < i ∧ r.Idle i n → (r.fleet i).step t = none →
          (r.fleet i).outcome? t = some (.version u.version) ∨
            (r.fleet i).SleepsFor t n u.version := by
  have ho := hr.orderly orderly
  refine ⟨fun i stopped => ?_, fun c hc => ⟨fun i hi => (hr.settled ho hc hi).2, ?_⟩⟩
  · obtain ⟨e, he⟩ := stopped.failed
    exact hr.exists_detaches_of_failure (ho i) he
  · intro q t a st u hs ha hk
    exact ⟨fun i o ended => hr.returns ho hc hs ha hk ended,
      fun i x v p stopped hx hp => hr.told ho hc hs ha hk stopped hx hp,
      fun i => hr.rests ho hc hs ha hk⟩

/-- A node is started and a statement is accepted. Then two stops are asked for. The first detaches
the storage and waits for the delivery, the second comes when the delivery has ended and waits for
the dispatcher, and the first one returns before it. -/
def overlapped : Run :=
  ofMoves Clock.unset
    [.join Config.unset none, .request 0 .zero .start, .step 0, .step 0, .step 0, .step 0,
      .request 0 .zero (.execute repartition), .step 3, .step 3, .step 3,
      .request 0 .zero .stop, .request 0 .zero .stop, .step 4, .step 2, .step 2, .step 5, .step 5,
      .step 4, .step 1, .step 1, .step 1, .step 1, .step 1, .step 4, .step 4, .step 5, .step 5,
      .step 3, .step 3, .step 3, .request 0 .zero (.advance (Duration.ofMillis 9)), .step 3]
    (by decide +kernel)

lemma overlapped_managed : overlapped.Managed 0 1 6 :=
  managed_ofMoves (by decide) (by decide) ⟨.zero, rfl⟩ (by decide)
    (by decide) (by decide)

lemma overlapped_orderly (i : Nat) : ¬ (overlapped.fleet i).Overtakes 0 (overlapped.moves i) := by
  have first : ∀ i < 32, ¬ (overlapped.fleet i).Overtakes 0 (overlapped.moves i) := by
    decide
  rcases Nat.lt_or_ge i 32 with hi | hi
  · exact first i hi
  · rw [overlapped, moves_of_le hi]
    exact id

lemma overlapped_detaches : overlapped.Detaches 12 :=
  overlapped_managed.detaches_of_sink (by decide) (by decide) (by decide)

lemma overlapped_stopped : overlapped.Stopped 25 0 :=
  ⟨10, 4, ⟨⟨.zero, rfl⟩, by decide, by decide⟩, by decide⟩

theorem overlapping_stops_overlapped :
    overlapped.Settled 25 0 1 ∧ (overlapped.fleet 32).outcome? 3 = some (.version ⟨1⟩) := by
  obtain ⟨-, stops⟩ := overlapping_stops overlapped overlapped_managed overlapped_orderly
  obtain ⟨settled, statements⟩ := stops 12 overlapped_detaches
  have stored : (overlapped.fleet 12).storage.log.length = 1 := by decide +kernel
  obtain ⟨returns, -, -⟩ := statements 6 3 8 repartition repartition.update
    ⟨⟨.zero, rfl⟩, by decide +kernel, by decide +kernel⟩
    (.of_points (a := 1) rfl (by decide +kernel) (by decide +kernel)) (by decide +kernel)
  have ended : ((overlapped.fleet 32).outcome? 3).isSome := by decide +kernel
  obtain ⟨o, ho⟩ := Option.isSome_iff_exists.1 ended
  exact ⟨stored ▸ settled 25 (.inl overlapped_stopped), returns 32 o ho ▸ ho⟩

/-- The same, where the second stop goes on while the update is still to be handed over. -/
def crossed : Run :=
  ofMoves Clock.unset
    [.join Config.unset none, .request 0 .zero .start, .step 0, .step 0, .step 0, .step 0,
      .request 0 .zero (.execute repartition), .step 3, .step 3, .step 3,
      .request 0 .zero .stop, .request 0 .zero .stop, .step 4, .step 5, .step 5, .step 1, .step 5,
      .step 5, .step 3, .step 2, .step 2, .step 4, .step 4, .step 4]
    (by decide +kernel)

lemma crossed_managed : crossed.Managed 0 1 6 :=
  managed_ofMoves (by decide) (by decide) ⟨.zero, rfl⟩ (by decide)
    (by decide) (by decide)

lemma crossed_detaches : crossed.Detaches 12 :=
  crossed_managed.detaches_of_sink (by decide) (by decide) (by decide)

/-- An update is stored when the storage is detached, and the statement that offered it waits for
its version. The second stop returns although the update is not registered, and the statement is
dropped then, so that it ends as stopped. The events of the update are never handed over. -/
theorem crossed_drops :
    crossed.Managed 0 1 6 ∧ crossed.Detaches 12 ∧
      (crossed.fleet 12).storage.log.length = 1 ∧
      crossed.Starts 6 0 repartition 3 ∧ crossed.Accepts 8 3 repartition repartition.update ∧
      crossed.Stopped 18 0 ∧ ¬ crossed.Settled 18 0 1 ∧
      (crossed.fleet 19).outcome? 3 = some (.failed .stopped) ∧
      (crossed.fleet 24).Quiescent ∧ ¬ crossed.Settled 24 0 1 :=
  ⟨crossed_managed, crossed_detaches, by decide +kernel,
    ⟨⟨.zero, rfl⟩, by decide +kernel, by decide +kernel⟩,
    .of_points (a := 1) rfl (by decide +kernel) (by decide +kernel),
    ⟨11, 5, ⟨⟨.zero, rfl⟩, by decide +kernel, by decide +kernel⟩, by decide +kernel⟩,
    fun settled => absurd settled.done (by decide +kernel), by decide +kernel, by decide +kernel,
    fun settled => absurd settled.done (by decide +kernel)⟩

end SchemaCatalog.Run
