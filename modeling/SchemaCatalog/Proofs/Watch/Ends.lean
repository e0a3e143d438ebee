import Mathlib.Data.Set.Card
import SchemaCatalog.Proofs.Watch.Fate

/-!
# Waits end once and as they should

A wait that begins when its version is done succeeds at once, and otherwise one that begins after a
failure fails at once. Any other wait pends until the first use that decides it, and nothing decides
it anew (`Ends`). The watermark lists those who wait and nobody else, for versions that it has not
reached; a version that is done releases them version by version, in the order in which they came
(`Lists`).
-/

namespace SchemaCatalog.Watch

/-- What becomes of a wait for a version that begins at a moment. -/
structure Ends (k : Watch) (i t : Nat) (v : Version) : Prop where
  once : ∀ j w, k.Begins j t w → j = i ∧ w = v
  ready : v ≤ (k.mark i).doneUntil → ∀ j, i < j → (k.fleet j).outcome? t = some .done
  refused : ¬ v ≤ (k.mark i).doneUntil → ∀ e, k.FailsFirst i e →
    ∀ j, i < j → (k.fleet j).outcome? t = some (.failed e)
  pending : ¬ v ≤ (k.mark i).doneUntil → ¬ k.Fails i →
    ∀ j, i < j → (k.verdict? j t = none ↔ ∀ m, i < m → m < j → ¬ k.Frees m v)
  released : ¬ v ≤ (k.mark i).doneUntil → ¬ k.Fails i →
    ∀ m, i < m → (∀ l, i < l → l < m → ¬ k.Frees l v) → v ≤ (k.mark (m + 1)).doneUntil →
      ∀ j, m < j → k.verdict? j t = some .done
  dropped : ¬ v ≤ (k.mark i).doneUntil → ¬ k.Fails i →
    ∀ m, i < m → (∀ l, i < l → l < m → ¬ k.Frees l v) → ∀ e, k.uses m = .fail e →
      k.FailsFirst (m + 1) e ∧ ∀ j, m < j → k.verdict? j t = some (.failed e)

/-- A wait is for an earlier version than another one, or for the same and began earlier. -/
def Precedes (k : Watch) (s t : Nat) : Prop :=
  ∃ a v b w, k.Begins a s v ∧ k.Begins b t w ∧ (v < w ∨ v = w ∧ a < b)

/-- Whom a watermark lists at a moment, and whom the next use releases. -/
structure Lists (k : Watch) (i : Nat) : Prop where
  pending : Set.encard {t | ∃ v, k.Pends i t v} = (k.mark i).pending
  listed : ∀ (v : Version) (t : Nat),
    (∃ ts, (k.mark i).waiters.get? v.number.val = some ts ∧ t ∈ ts) ↔ k.Pends i t v
  beyond : ∀ n ts, (k.mark i).waiters.get? n = some ts → (k.mark i).doneUntil.number.val < n
  failed : k.Fails i → (k.mark i).waiters = NatMap.empty
  releases : ∀ v, k.uses i = .finish v → ∃ ts : List Nat,
    k.fleet (i + 1) =
        ((k.fleet i).onNode 0 fun x => { x with mark := k.mark (i + 1) }).tell .released ts ∧
      (∀ t, t ∈ ts ↔ ∃ w, k.Pends i t w ∧ w ≤ (k.mark (i + 1)).doneUntil) ∧
      ts.Pairwise k.Precedes

variable {k : Watch} {i j t : Nat} {v : Version}

/-! ## Ends -/

lemma doneUntil_of_fail {e : Error} (h : k.uses i = .fail e) :
    (k.mark (i + 1)).doneUntil = (k.mark i).doneUntil := by
  have turns := k.turns i
  rw [h] at turns
  generalize (k.fleet (i + 1)).tasks = l', k.mark (i + 1) = w' at turns
  cases turns
  rfl

lemma Begins.ends (h : k.Begins i t v) : k.Ends i t v := by
  obtain ⟨ready, refused, -⟩ := h.begun
  -- Whoever is held at a moment at which the next use decides.
  have decides : ¬ v ≤ (k.mark i).doneUntil → ¬ k.Fails i → ∀ m, i < m →
      (∀ l, i < l → l < m → ¬ k.Frees l v) → Held (k.fleet m).tasks t v :=
    fun hv hf m hm free => pends_iff.1 ⟨i, hm, h, hv, hf, free⟩
  refine ⟨fun j w h' => ?_, fun hv j hj => ?_, fun hv e he j hj => ?_, fun hv hf j hj => ?_,
    fun hv hf m hm free reached j hj => ?_, fun hv hf m hm free e he => ?_⟩
  · obtain ⟨rfl, rfl⟩ := h.unique h'
    exact ⟨rfl, rfl⟩
  · exact outcome_of_le (ready hv) hj
  · exact outcome_of_le (refused hv e ((k.failure_some i e).2 he)) hj
  · constructor
    · intro undecided
      rcases h.fate hj with held | ⟨o, settled⟩
      · obtain ⟨i', -, h', -, -, free⟩ := pends_iff.2 held
        obtain ⟨rfl, -⟩ := h.unique h'
        exact free
      · cases undecided.symm.trans (verdict_of_settled settled)
    · exact fun free => verdict_of_held (decides hv hf j hj free)
  · rcases (decides hv hf m hm free).turns (k.waiting m) (k.waiting (m + 1)) (k.turns m) with
      held | ⟨-, settled⟩ | ⟨e, he, settled⟩
    · exact absurd reached (held.beyond (k.waiting (m + 1))).1
    · exact verdict_of_settled (settled_of_le settled hj)
    · rw [doneUntil_of_fail he] at reached
      exact absurd reached ((decides hv hf m hm free).beyond (k.waiting m)).1
  · have held := decides hv hf m hm free
    have first := (k.failure_none m).1 (held.beyond (k.waiting m)).2
    refine ⟨⟨m, Nat.lt_succ_self m, he, first⟩, fun j hj => ?_⟩
    rcases held.turns (k.waiting m) (k.waiting (m + 1)) (k.turns m) with
      held | ⟨reached, -⟩ | ⟨e', he', settled⟩
    · have failure := (held.beyond (k.waiting (m + 1))).2
      exact absurd ⟨m, Nat.lt_succ_self m, e, he⟩ ((k.failure_none (m + 1)).1 failure)
    · rw [doneUntil_of_fail he] at reached
      exact absurd reached (held.beyond (k.waiting m)).1
    · cases he.symm.trans he'
      exact verdict_of_settled (settled_of_le settled hj)

/-! ## Lists -/

/-- Whoever is listed under a number waits for the version of that number. -/
lemma pends_of_listed {n : Nat} {ts : List Nat} (h : (k.mark i).waiters.get? n = some ts)
    (ht : t ∈ ts) : ∃ v, k.Pends i t v ∧ v.number.val = n := by
  obtain ⟨v, q, hx, rfl⟩ := (k.waiting i).sole_listed h ht
  obtain ⟨-, bare⟩ := (k.alone i).2 t _ hx
  cases bare
  exact ⟨v, pends_iff.2 hx, rfl⟩

lemma listed_iff : (∃ ts, (k.mark i).waiters.get? v.number.val = some ts ∧ t ∈ ts) ↔
    k.Pends i t v := by
  constructor
  · rintro ⟨ts, hts, ht⟩
    obtain ⟨w, hw, e⟩ := pends_of_listed hts ht
    exact Version.ext_val e ▸ hw
  · exact fun h => (pends_iff.1 h).listed (k.waiting i)

/-- Whoever waits for a version stands behind those who came for it before. -/
lemma pairwise_listed (k : Watch) (i n : Nat) (ts : List Nat)
    (h : (k.mark i).waiters.get? n = some ts) : ts.Pairwise k.Precedes := by
  induction i generalizing n ts with
  | zero => cases h
  | succ i ih =>
    have turns := k.turns i
    have begins : ∀ t x v, k.uses i = .goOn t → (k.fleet i).tasks[t]? = some x →
        x.point = .await v .bare → k.Begins i t v := fun t x v hu hx hp => ⟨hu, x, hx, hp⟩
    generalize k.uses i = u, (k.fleet (i + 1)).tasks = l', k.mark (i + 1) = w' at turns begins h
    cases turns with
    | finish hf => exact ih n ts (Watermark.finish_waiters hf h)
    | overflow hf => exact ih n ts (Watermark.finish_waiters hf h)
    | fail => cases h
    | @enqueue t x v hx hp _ _ =>
      rw [Watermark.enqueue, NatMap.get?_insert] at h
      split at h
      · cases h
        have here := begins t x v rfl hx hp
        rw [List.pairwise_append]
        cases hg : (k.mark i).waiters.get? v.number.val with
        | none => exact ⟨.nil, List.pairwise_singleton .., fun s hs => by cases hs⟩
        | some old =>
          refine ⟨ih _ old hg, List.pairwise_singleton .., fun s hs t' ht' => ?_⟩
          cases List.mem_singleton.1 ht'
          obtain ⟨v', ⟨a, ha, begun, -⟩, e⟩ := pends_of_listed hg hs
          exact ⟨a, v', i, v, begun, here, .inr ⟨Version.ext_val e, ha⟩⟩
      · exact ih n ts h
    | _ => exact ih n ts h

/-- Those who wait for smaller versions come before those who wait for greater ones. -/
lemma pairwise_waiting (k : Watch) (i : Nat) (p : Nat → Bool) :
    ((k.mark i).waiters.filterKeys p).values.flatten.Pairwise k.Precedes := by
  refine NatMap.pairwise_flatten (fun n ts h => ?_) fun m n ss ts hm hn lt s hs t ht => ?_
  · exact k.pairwise_listed i n ts (NatMap.get?_filterKeys.1 h).1
  · obtain ⟨v, ⟨a, -, first, -⟩, rfl⟩ := pends_of_listed (NatMap.get?_filterKeys.1 hm).1 hs
    obtain ⟨w, ⟨b, -, second, -⟩, rfl⟩ := pends_of_listed (NatMap.get?_filterKeys.1 hn).1 ht
    exact ⟨a, v, b, w, first, second, .inl lt⟩

lemma not_precedes_self : ¬ k.Precedes t t := by
  rintro ⟨a, v, b, w, first, second, lt⟩
  obtain ⟨rfl, rfl⟩ := first.unique second
  rcases lt with lt | ⟨-, lt⟩
  · exact Nat.lt_irrefl _ lt
  · exact Nat.lt_irrefl _ lt

lemma mem_waitingUpTo {n : Nat} : t ∈ (k.mark i).waitingUpTo n ↔
    ∃ v, k.Pends i t v ∧ v.number.val ≤ n := by
  rw [Watermark.waitingUpTo, List.mem_flatten]
  constructor
  · rintro ⟨ts, hts, ht⟩
    obtain ⟨m, hm⟩ := NatMap.mem_values.1 hts
    obtain ⟨hm, le⟩ := NatMap.get?_filterKeys.1 hm
    obtain ⟨v, hv, rfl⟩ := pends_of_listed hm ht
    exact ⟨v, hv, of_decide_eq_true le⟩
  · rintro ⟨v, hv, le⟩
    obtain ⟨ts, hts, ht⟩ := listed_iff.2 hv
    exact ⟨ts, NatMap.mem_values.2 ⟨_, NatMap.get?_filterKeys.2 ⟨hts, decide_eq_true le⟩⟩, ht⟩

/-- As many are listed as there are who wait. -/
lemma encard_pends (k : Watch) (i : Nat) :
    Set.encard {t | ∃ v, k.Pends i t v} = (k.mark i).pending := by
  have all : (k.mark i).waiters.filterKeys (fun _ => true) = (k.mark i).waiters := by
    rw [NatMap.filterKeys]
    simp
  have ordered := k.pairwise_waiting i fun _ => true
  rw [all] at ordered
  have nodup : (k.mark i).waiters.values.flatten.Nodup :=
    ordered.imp fun {s t} precedes => by
      rintro rfl
      exact not_precedes_self precedes
  have same : {t | ∃ v, k.Pends i t v} = ↑(k.mark i).waiters.values.flatten.toFinset := by
    ext t
    rw [Set.mem_ofPred_eq, Finset.mem_coe, List.mem_toFinset, List.mem_flatten]
    constructor
    · rintro ⟨v, hv⟩
      obtain ⟨ts, hts, ht⟩ := listed_iff.2 hv
      exact ⟨ts, NatMap.mem_values.2 ⟨_, hts⟩, ht⟩
    · rintro ⟨ts, hts, ht⟩
      obtain ⟨n, hn⟩ := NatMap.mem_values.1 hts
      obtain ⟨v, hv, -⟩ := pends_of_listed hn ht
      exact ⟨v, hv⟩
  rw [same, Set.encard_coe_eq_coe_finsetCard, List.toFinset_card_of_nodup nodup]
  rfl

lemma lists (k : Watch) (i : Nat) : k.Lists i where
  pending := k.encard_pends i
  listed _ _ := listed_iff
  beyond _ _ h := (k.beyond h).1
  failed h := by
    refine NatMap.eq_empty fun n ts hn => ?_
    exact (k.failure_none i).1 (k.beyond hn).2 h
  releases v hv := by
    refine ⟨(k.mark i).waitingUpTo (k.mark (i + 1)).doneUntil.number.val, ?_,
      fun t => mem_waitingUpTo, k.pairwise_waiting i _⟩
    have fits : 0 < (k.fleet i).nodes.length := by
      rw [(k.alone i).1]
      exact Nat.one_pos
    have finished := k.finish_eq hv
    rw [fleet_succ, hv]
    rw [mark] at finished
    rw [Use.move, Fleet.after, if_pos ⟨fits, rfl⟩, Session.start, Fleet.finishVersion, finished]
    rfl

/-- Every wait ends once and as it should, and the watermark lists those who wait as it should. -/
theorem waits_end (k : Watch) :
    (∀ i t v, k.Begins i t v → k.Ends i t v) ∧ ∀ i, k.Lists i :=
  ⟨fun _ _ _ => Begins.ends, k.lists⟩

/-- Some wait for two versions, of which the later one is done first, one waits for a version that
is never done, and one for the first version. -/
def crowded : Watch :=
  .ofUses ⟨0⟩ [.wait ⟨2⟩, .wait ⟨1⟩, .wait ⟨2⟩, .wait ⟨5⟩, .wait ⟨0⟩, .goOn 2, .goOn 1, .goOn 0,
    .goOn 3, .finish ⟨2⟩, .finish ⟨1⟩, .fail .stopped, .goOn 4, .fail (.log .noHandler)] (by decide)

theorem waits_end_crowded :
    (crowded.Ends 5 2 ⟨2⟩ ∧ crowded.verdict? 10 2 = none ∧ crowded.verdict? 11 2 = some .done) ∧
      (crowded.Ends 8 3 ⟨5⟩ ∧ crowded.verdict? 11 3 = none ∧
        crowded.verdict? 14 3 = some (.failed .stopped)) ∧
      (crowded.Ends 12 4 ⟨0⟩ ∧ (crowded.fleet 13).outcome? 4 = some .done) ∧
      crowded.Lists 10 ∧ (crowded.mark 10).pending = 4 ∧ (crowded.mark 11).pending = 1 := by
  obtain ⟨ends, lists⟩ := waits_end crowded
  refine ⟨⟨ends 5 2 ⟨2⟩ ⟨rfl, _, rfl, rfl⟩, ?_, ?_⟩, ⟨ends 8 3 ⟨5⟩ ⟨rfl, _, rfl, rfl⟩, ?_, ?_⟩,
    ⟨ends 12 4 ⟨0⟩ ⟨rfl, _, rfl, rfl⟩, ?_⟩, lists 10, ?_, ?_⟩
  all_goals decide +kernel

end SchemaCatalog.Watch
