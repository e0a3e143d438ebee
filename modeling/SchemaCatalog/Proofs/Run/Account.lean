import SchemaCatalog.Proofs.Fleet.Account
import SchemaCatalog.Proofs.Run.Appends

/-!
# What a log was handed

A log whose start succeeds begins a delivery. From then on the delivery is fed until some log of the
storage is stopped, whichever that is: what its receiver was handed, and what is left, is the log up
to that moment (`Run.Begins.account`). So of the updates that are appended later those are handed to
the receiver before which no log was stopped (`FedUntil.noStop_iff`, `Appends.mem_iff`).
-/

namespace SchemaCatalog

namespace Fleet.Account

variable {f g : Fleet} {d : Nat} {y : Delivery} {handed all : List Stored}

lemma congr (h : f.Account d y handed all) (e : g.core = f.core) : g.Account d y handed all := by
  obtain ⟨-, storage, sink, -, deliveries, nodes, tasks⟩ := core_inj e
  refine ⟨deliveries ▸ h.delivery, h.balance, storage ▸ h.front, fun hs => ?_, tasks ▸ h.going,
    fun n hn => ?_⟩
  · rw [storage]
    exact h.fed (sink ▸ hs)
  · obtain ⟨k, le, hk⟩ := h.reached n hn
    exact ⟨k, le, hk.congr storage (Nat.le_of_eq (congrArg List.length nodes.symm))
      (by rw [node_congr nodes]) (by rw [node_congr nodes])⟩

/-- Nothing is left of a delivery whose task has no step. -/
lemma drained (h : f.Account d y handed all) (stuck : f.step y.task = none) : y.queue = [] := by
  rcases h.going with ⟨x, hx, hxd⟩ | ⟨empty, -⟩
  · exact queue_of_stuck hx hxd h.delivery stuck
  · exact empty

end Fleet.Account

namespace Run

/-- What was handed over of a delivery before a moment. -/
def handed (r : Run) (d : Nat) : Nat → List Stored
  | 0 => []
  | i + 1 => r.handed d i ++ (r.fleet i).handsOver d (r.moves i)

/-- At this moment the receiver of a delivery fails on what is handed to it. -/
def Fails (r : Run) (i d : Nat) : Prop := (r.fleet i).Fails d (r.moves i) (r.fleet (i + 1))

instance (r : Run) (i d : Nat) : Decidable (r.Fails i d) :=
  inferInstanceAs (Decidable ((r.fleet i).Fails d (r.moves i) (r.fleet (i + 1))))

/-- At this moment a log is stopped. -/
def StopsLog (r : Run) (i log : Nat) : Prop :=
  ∃ t x, r.moves i = .step t ∧ (r.fleet i).tasks[t]? = some x ∧ (r.fleet i).StopsLog x log

/-- Between two moments no log is stopped. -/
def NoStop (r : Run) (s i : Nat) : Prop := ∀ j log, s < j → j < i → ¬ r.StopsLog j log

/-- At this moment a log is started with success, which begins a delivery to its receiver: the log
has a receiver, and the storage feeds no delivery. -/
structure Begins (r : Run) (s log d : Nat) (h : Receiver) : Prop where
  starts : ∃ t x, r.moves s = .step t ∧ (r.fleet s).tasks[t]? = some x ∧
    (r.fleet s).StartsLog x log
  receiver : (r.fleet s).logs[log]?.bind Log.receiver = some h
  free : (r.fleet s).sink = none
  delivery : d = (r.fleet s).deliveries.length

/-- Until `c` no log is stopped after `s`, and at `c` one is unless it is the moment `i`. -/
structure FedUntil (r : Run) (s c i : Nat) : Prop where
  after : s < c
  le : c ≤ i
  unstopped : r.NoStop s c
  last : c = i ∨ ∃ log, r.StopsLog c log

variable {r : Run} {s i j c d log t : Nat} {h : Receiver} {y : Delivery} {e : Stored} {u : Update}
  {handed all : List Stored}

/-! ## One move -/

lemma supply (r : Run) (i : Nat) : ∃ k, (r.fleet i).Change (r.moves i) k ∧
    (r.fleet i).Supply (r.moves i) k ∧ (r.fleet (i + 1)).core = k.core := by
  obtain ⟨k, hk, e⟩ := r.change i
  exact ⟨k, hk, Fleet.supply_of_change (r.plain i) (r.tracks i) hk, e⟩

lemma account_succ (ha : (r.fleet i).Account d y handed all) (fine : ¬ r.Fails i d) :
    ∃ y', y'.receiver = y.receiver ∧
      (r.fleet (i + 1)).Account d y' (handed ++ (r.fleet i).handsOver d (r.moves i))
        (if (r.fleet i).sink = some d then (r.fleet (i + 1)).storage.entries else all) := by
  obtain ⟨k, hk, supply, e⟩ := r.supply i
  obtain ⟨-, storage, -, -, -, -, tasks⟩ := Fleet.core_inj e
  obtain ⟨-, adv⟩ := Fleet.tracks_of_change (r.plain i) (r.tracks i) (r.fits i) hk
  have frame := Fleet.frame_of_change (r.plain i).placed hk
  have fine' : ¬ (r.fleet i).Fails d (r.moves i) k := by
    rwa [Run.Fails, Fleet.fails_congr e] at fine
  obtain ⟨y', receiver, account⟩ := ha.step frame (r.tracks i) adv supply fine'
  rw [storage]
  exact ⟨y', receiver, account.congr e⟩

lemma sink_succ (fed : (r.fleet i).sink = some d) (unstopped : ∀ log, ¬ r.StopsLog i log) :
    (r.fleet (i + 1)).sink = some d := by
  obtain ⟨k, -, supply, e⟩ := r.supply i
  rw [(Fleet.core_inj e).2.2.1]
  exact supply.sink_stays fed fun t log x hm hx hs => unstopped log ⟨t, x, hm, hx, hs⟩

lemma sink_gone_succ (hy : (r.fleet i).deliveries[d]? = some y)
    (gone : (r.fleet i).sink ≠ some d) : (r.fleet (i + 1)).sink ≠ some d := by
  obtain ⟨k, -, supply, e⟩ := r.supply i
  rw [(Fleet.core_inj e).2.2.1]
  exact supply.sink_gone hy gone

/-- Every delivery stays, with its receiver and its task. -/
lemma delivery_stays (hij : i ≤ j) (hy : (r.fleet i).deliveries[d]? = some y) :
    ∃ y', (r.fleet j).deliveries[d]? = some y' ∧ y'.receiver = y.receiver ∧ y'.task = y.task := by
  induction hij with
  | refl => exact ⟨y, hy, rfl, rfl⟩
  | @step j _ ih =>
    obtain ⟨z, hz, hr, ht⟩ := ih
    obtain ⟨k, -, supply, e⟩ := r.supply j
    obtain ⟨z', hz', hr', ht'⟩ := supply.stays hz
    exact ⟨z', (Fleet.core_inj e).2.2.2.2.1 ▸ hz', hr'.trans hr, ht'.trans ht⟩

/-- When a log is stopped the storage feeds nobody any more. -/
lemma StopsLog.sink (hs : r.StopsLog i log) : (r.fleet (i + 1)).sink = none ∧
    (r.fleet (i + 1)).storage = (r.fleet i).storage := by
  obtain ⟨t, x, hm, hx, hs⟩ := hs
  obtain ⟨g, hg, sink, storage⟩ := Fleet.step_stopsLog hx hs
  rw [r.fleet_of_step hm hg]
  exact ⟨sink, storage⟩

lemma Appends.not_stopsLog (ha : r.Appends i t u) : ¬ r.StopsLog i log := by
  rintro ⟨t', x, hm, hx, hs⟩
  obtain ⟨z, hz, stores⟩ := ha.stores
  have move := ha.move
  rw [hm] at move
  cases move
  rw [hx] at hz
  cases hz
  have offer := stores.offer
  rcases hs with hp | ⟨hp, -⟩
  · rw [hp] at offer
    cases offer
  · rw [hp] at offer
    cases offer

/-! ## Until a log is stopped -/

lemma exists_fedUntil (hi : s < i) : ∃ c, r.FedUntil s c i := by
  induction hi with
  | refl => exact ⟨s + 1, Nat.lt_succ_self s, Nat.le_refl _, fun j _ hj hs => by omega, .inl rfl⟩
  | @step i hi ih =>
    obtain ⟨c, after, le, unstopped, last⟩ := ih
    by_cases stopped : ∃ log, r.StopsLog c log
    · exact ⟨c, after, Nat.le_succ_of_le le, unstopped, .inr stopped⟩
    · obtain rfl := last.resolve_right stopped
      refine ⟨c + 1, Nat.lt_succ_of_lt after, Nat.le_refl _, fun j log hj hjc => ?_, .inl rfl⟩
      rcases Nat.lt_succ_iff_lt_or_eq.1 hjc with hlt | rfl
      · exact unstopped j log hj hlt
      · exact fun hs => stopped ⟨log, hs⟩

/-- A delivery that has not begun had not begun before. -/
lemma absent_before (hij : i ≤ j) (hd : (r.fleet j).deliveries[d]? = none) :
    (r.fleet i).deliveries[d]? = none := by
  cases hy : (r.fleet i).deliveries[d]? with
  | none => rfl
  | some y =>
    obtain ⟨y', hy', -⟩ := delivery_stays hij hy
    rw [hd] at hy'
    cases hy'

/-- Nothing was handed over of a delivery that has not begun. -/
lemma handed_before (hd : (r.fleet i).deliveries[d]? = none) : r.handed d i = [] := by
  induction i with
  | zero => rfl
  | succ i ih =>
    have absent := absent_before (Nat.le_succ i) hd
    rw [Run.handed, ih absent, Fleet.handsOver_of_absent absent]
    rfl

lemma Begins.absent (hb : r.Begins s log d h) : (r.fleet s).deliveries[d]? = none := by
  rw [hb.delivery]
  exact List.getElem?_eq_none (Nat.le_refl _)

/-- When a delivery has begun all that is stored is still to be handed over. -/
lemma Begins.first (hb : r.Begins s log d h) : ∃ y, y.receiver = h ∧
    (r.fleet (s + 1)).Account d y (r.handed d (s + 1)) (r.fleet (s + 1)).storage.entries ∧
    (r.fleet (s + 1)).sink = some d := by
  obtain ⟨t, x, hm, hx, hs⟩ := hb.starts
  obtain ⟨g, p, hg, e⟩ := Fleet.step_startsLog hx hs hb.receiver hb.free
  have next := r.fleet_of_step hm hg
  have nothing : r.handed d (s + 1) = [] := by
    rw [Run.handed, handed_before hb.absent, Fleet.handsOver_of_absent hb.absent]
    rfl
  rw [← next] at e
  have account := Fleet.account_begins hx (r.tracks (s + 1)) e
  rw [← hb.delivery, ← nothing] at account
  refine ⟨_, rfl, account, ?_⟩
  rw [(Fleet.core_inj e).2.2.1, hb.delivery]
  rfl

lemma Begins.delivery_of_lt (hb : r.Begins s log d h) (hi : s < i) :
    ∃ y, (r.fleet i).deliveries[d]? = some y ∧ y.receiver = h := by
  obtain ⟨y, hy, account, -⟩ := hb.first
  obtain ⟨z, hz, receiver, -⟩ := delivery_stays (show s + 1 ≤ i from hi) account.delivery
  exact ⟨z, hz, receiver.trans hy⟩

/-- While no log is stopped the delivery is fed. -/
lemma Begins.fed (hb : r.Begins s log d h) (hi : s < i) (unstopped : r.NoStop s i)
    (fine : ∀ j < i, ¬ r.Fails j d) : ∃ y, y.receiver = h ∧
    (r.fleet i).Account d y (r.handed d i) (r.fleet i).storage.entries ∧
    (r.fleet i).sink = some d := by
  induction hi with
  | refl => exact hb.first
  | @step i hi ih =>
    obtain ⟨y, hy, account, sink⟩ := ih (fun j log hj hji => unstopped j log hj (by omega))
      fun j hj => fine j (Nat.lt_succ_of_lt hj)
    obtain ⟨y', hr, account'⟩ := account_succ account (fine i (Nat.lt_succ_self i))
    rw [if_pos sink] at account'
    exact ⟨y', hr.trans hy, account', sink_succ sink fun log =>
      unstopped i log hi (Nat.lt_succ_self i)⟩

/-- A delivery that is not fed any more was given in all what it was given. -/
lemma account_stays (hij : i ≤ j) (hy : y.receiver = h)
    (account : (r.fleet i).Account d y (r.handed d i) all) (gone : (r.fleet i).sink ≠ some d)
    (fine : ∀ k < j, ¬ r.Fails k d) : ∃ y', y'.receiver = h ∧
    (r.fleet j).Account d y' (r.handed d j) all ∧ (r.fleet j).sink ≠ some d := by
  induction hij with
  | refl => exact ⟨y, hy, account, gone⟩
  | @step j _ ih =>
    obtain ⟨z, hz, account, gone⟩ := ih fun k hk => fine k (Nat.lt_succ_of_lt hk)
    obtain ⟨z', hr, account'⟩ := account_succ account (fine j (Nat.lt_succ_self j))
    rw [if_neg gone] at account'
    exact ⟨z', hr.trans hz, account', sink_gone_succ account.delivery gone⟩

/-- What a delivery was given in all is what was stored when it was fed last. -/
theorem Begins.account (hb : r.Begins s log d h) (hc : r.FedUntil s c i)
    (fine : ∀ j < i, ¬ r.Fails j d) : ∃ y, y.receiver = h ∧
    (r.fleet i).Account d y (r.handed d i) (r.fleet c).storage.entries ∧
    ((r.fleet i).sink = some d ↔ c = i) := by
  obtain ⟨y, hy, account, sink⟩ := hb.fed hc.after hc.unstopped fun j hj =>
    fine j (Nat.lt_of_lt_of_le hj hc.le)
  rcases Nat.lt_or_eq_of_le hc.le with lt | rfl
  · obtain ⟨log, hs⟩ := hc.last.resolve_left (Nat.ne_of_lt lt)
    -- The step that stops the log stores nothing, and is the last one to find the delivery fed.
    obtain ⟨sink', storage⟩ := hs.sink
    obtain ⟨y', hr, account'⟩ := account_succ account (fine c lt)
    rw [if_pos sink, storage] at account'
    obtain ⟨z, hz, account'', gone⟩ := account_stays (Nat.succ_le_of_lt lt) (hr.trans hy) account'
      (by rw [sink']; exact (Option.some_ne_none d).symm) fine
    exact ⟨z, hz, account'', iff_of_false gone (Nat.ne_of_lt lt)⟩
  · exact ⟨y, hy, account, iff_of_true sink rfl⟩

/-! ## Which updates are handed over -/

/-- No log is stopped until a moment if the delivery is fed until then. -/
lemma FedUntil.noStop_end (hc : r.FedUntil s c i) : r.NoStop s i ↔ c = i := by
  constructor
  · intro unstopped
    rcases Nat.lt_or_eq_of_le hc.le with lt | e
    · obtain ⟨log, hs⟩ := hc.last.resolve_left (Nat.ne_of_lt lt)
      exact absurd hs (unstopped c log hc.after lt)
    · exact e
  · rintro rfl
    exact hc.unstopped

/-- No log is stopped until an update is appended if the delivery is fed then. -/
lemma FedUntil.noStop_iff (hc : r.FedUntil s c i) (ha : r.Appends j t u) (hj : j < i) :
    r.NoStop s j ↔ j < c := by
  constructor
  · intro unstopped
    rcases Nat.lt_trichotomy j c with lt | rfl | lt
    · exact lt
    · rcases hc.last with rfl | ⟨log, hs⟩
      · exact absurd hj (Nat.lt_irrefl _)
      · exact absurd hs ha.not_stopsLog
    · rcases hc.last with rfl | ⟨log, hs⟩
      · exact absurd (Nat.lt_trans lt hj) (Nat.lt_irrefl _)
      · exact absurd hs (unstopped c log hc.after lt)
  · exact fun lt k log hk hkj => hc.unstopped k log hk (Nat.lt_trans hkj lt)

/-- An update is among what is stored at a moment if it was appended before. -/
lemma Appends.mem_iff (ha : r.Appends j t u) :
    (∃ e ∈ (r.fleet c).storage.entries, Update.decode e.bytes = .ok u) ↔ j < c := by
  have sound := (r.tracks c).sound
  constructor
  · rintro ⟨e, he, read⟩
    obtain ⟨k, hk⟩ := List.getElem?_of_mem he
    obtain ⟨x, hx, rfl⟩ := sound.entry hk
    rw [Committed.decode_stored (sound.fits x (List.mem_of_getElem? hx))] at read
    cases read
    obtain ⟨lt, -⟩ := List.getElem?_eq_some_iff.1 hx
    rw [← ha.version_le_iff, sound.numbered k x hx]
    exact lt
  · intro lt
    have entry := ha.entry lt
    refine ⟨_, ?_, Committed.decode_stored (sound.fits _ (List.mem_of_getElem? entry))⟩
    rw [sound.entries]
    exact List.mem_map_of_mem (List.mem_of_getElem? entry)

/-- What the receiver of a delivery is handed it handles, while it does not fail. -/
lemma Begins.handles (hb : r.Begins s log d h) (fine : ∀ j ≤ i, ¬ r.Fails j d)
    (he : e ∈ (r.fleet i).handsOver d (r.moves i)) :
    (r.fleet i).Handles d h e (r.fleet (i + 1)) := by
  obtain ⟨t, x, z, rest, hm, hx, hxd, hz, hq⟩ := Fleet.mem_handsOver he
  have hi : s < i := by
    refine Nat.lt_of_not_le fun hi => ?_
    rw [absent_before hi hb.absent] at hz
    cases hz
  obtain ⟨c, hc⟩ := exists_fedUntil hi
  obtain ⟨y, rfl, account, -⟩ := hb.account hc fun j hj => fine j (Nat.le_of_lt hj)
  rw [account.delivery] at hz
  cases hz
  have live : (r.fleet (i + 1)).outcome? t = none := by
    cases ho : (r.fleet (i + 1)).outcome? t with
    | none => rfl
    | some o =>
      refine absurd ?_ (fine i (Nat.le_refl i))
      rw [Run.Fails, hm]
      exact ⟨List.ne_nil_of_mem (hm ▸ he), by rw [ho]; rfl⟩
  obtain ⟨g, hg⟩ := Fleet.step_of_front hx hxd account.delivery hq
  rcases r.step_cases hm with ⟨none, -⟩ | some
  · rw [hg] at none
    cases none
  · exact Fleet.handles_of_step hx hxd account.delivery hq some live

end Run

end SchemaCatalog
