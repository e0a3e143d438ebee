import SchemaCatalog.Proofs.Fleet.Frame
import SchemaCatalog.Proofs.History

/-!
# Nodes follow the log

What a delivery has still to hand over is a stretch of the log that begins no later than where its
node stands. So a node is handed each update of the log in order, some of them again, and its
history follows the log, whoever appended to the log, when the node was started and what its clock
showed.
-/

namespace SchemaCatalog

/-- The delivery that a task at this point hands over. -/
def Point.delivery? : Point → Option Nat
  | .deliver d => some d
  | _ => none

lemma Point.delivery?_of_isFree {p : Point} (h : p.isFree = true) : p.delivery? = none := by
  cases p with
  | deliver d => cases h
  | _ => rfl

namespace Fleet

/-- A started node has the snapshots of the log up to a version. -/
structure Reached (f : Fleet) (n k : Nat) : Prop where
  lt : n < f.nodes.length
  started : (f.node n).started = true
  follows : (f.node n).history.Follows f.storage.log k

/-- What a delivery has still to hand over is a stretch of the log that begins where its node stands
or before. While the storage feeds the delivery, the stretch goes on to the end of the log. -/
def Stretch (f : Fleet) (d : Nat) (y : Delivery) : Prop :=
  ∃ j, j ≤ f.storage.entries.length ∧ y.queue <+: f.storage.entries.drop j ∧
    (f.sink = some d → y.queue = f.storage.entries.drop j) ∧
    ∀ n, y.receiver = .node n → ∃ k, j ≤ k ∧ f.Reached n k

/-- The nodes follow the log. -/
structure Tracks (f : Fleet) : Prop where
  sound : f.storage.Sound
  started : ∀ n, n < f.nodes.length → (f.node n).started = true → ∃ k, f.Reached n k
  unstarted : ∀ n, n < f.nodes.length → (f.node n).started = false →
    (f.node n).history = History.empty
  receivers : ∀ (l n : Nat) (lg : Log), f.logs[l]? = some lg → lg.receiver = some (.node n) →
    n < f.nodes.length ∧ (f.node n).started = true
  deliverers : ∀ (t d : Nat) (x : Task), f.tasks[t]? = some x → x.point.delivery? = some d →
    ∃ y, f.deliveries[d]? = some y ∧ y.task = t
  deliveries : ∀ (d : Nat) (y : Delivery), f.deliveries[d]? = some y → f.outcome? y.task = none →
    f.Stretch d y

/-- The versions that nodes have reached in one fleet they have reached in the other. -/
def Advances (f g : Fleet) : Prop := ∀ n k, f.Reached n k → ∃ k', k ≤ k' ∧ g.Reached n k'

/-! ## Moves that hand nothing over -/

/-- The part of a delivery that only handing over and feeding change. -/
def carried (y : Delivery) : Receiver × List Stored × Nat := (y.receiver, y.queue, y.task)

/-- Two fleets between which no update is stored or handed over. -/
structure Quiet (f g : Fleet) : Prop where
  storage : g.storage = f.storage
  sink : ∀ d, g.sink = some d → f.sink = some d
  receivers : ∀ (l n : Nat) (lg : Log), g.logs[l]? = some lg → lg.receiver = some (.node n) →
    ∃ (i : Nat) (lg' : Log), f.logs[i]? = some lg' ∧ lg'.receiver = some (.node n)
  deliverers : ∀ (t d : Nat) (x : Task), g.tasks[t]? = some x → x.point.delivery? = some d →
    ∃ z, f.tasks[t]? = some z ∧ z.point.delivery? = some d
  deliveries : g.deliveries.map carried = f.deliveries.map carried
  node : ∀ n, n < f.nodes.length →
    (g.node n).history = (f.node n).history ∧ (g.node n).started = (f.node n).started

section

variable {f g : Fleet} {m : Move} {t n k : Nat}

/-- What is registered depends on the history and the log alone. -/
lemma Reached.congr (h : f.Reached n k) (hs : g.storage = f.storage)
    (hn : f.nodes.length ≤ g.nodes.length) (hh : (g.node n).history = (f.node n).history)
    (hst : (g.node n).started = (f.node n).started) : g.Reached n k where
  lt := Nat.lt_of_lt_of_le h.lt hn
  started := hst.trans h.started
  follows := by
    rw [hh, hs]
    exact h.follows

lemma Quiet.reached (q : f.Quiet g) (hf : f.Frame m g) (h : f.Reached n k) : g.Reached n k :=
  h.congr q.storage hf.nodes (q.node n h.lt).1 (q.node n h.lt).2

lemma Quiet.advances (q : f.Quiet g) (hf : f.Frame m g) : f.Advances g :=
  fun _ k h => ⟨k, Nat.le_refl k, q.reached hf h⟩

/-- A stretch goes on to be one as long as no node falls back. -/
lemma Stretch.mono {d : Nat} {y : Delivery} (h : f.Stretch d y) (hs : g.storage = f.storage)
    (hk : g.sink = some d → f.sink = some d) (adv : f.Advances g) : g.Stretch d y := by
  obtain ⟨j, hj, hq, hsink, hn⟩ := h
  refine ⟨j, hs ▸ hj, hs ▸ hq, fun e => ?_, fun n hr => ?_⟩
  · rw [hs]
    exact hsink (hk e)
  · obtain ⟨k, hjk, hk⟩ := hn n hr
    obtain ⟨k', hkk, hk'⟩ := adv n k hk
    exact ⟨k', Nat.le_trans hjk hkk, hk'⟩

lemma getElem?_of_carried {l l' : List Delivery} (e : l'.map carried = l.map carried) {d : Nat}
    {y : Delivery} (h : l'[d]? = some y) : ∃ z, l[d]? = some z ∧ carried z = carried y := by
  have e' := congrArg (fun l => l[d]?) e
  simp only [List.getElem?_map, h, Option.map_some] at e'
  cases hz : l[d]? with
  | none =>
    rw [hz] at e'
    cases e'
  | some z =>
    rw [hz] at e'
    exact ⟨z, rfl, (Option.some.inj e').symm⟩

/-- Where nothing is handed over, nodes go on to follow the log. -/
lemma Tracks.quiet (h : f.Tracks) (hf : f.Frame m g) (q : f.Quiet g) : g.Tracks where
  sound := by
    rw [q.storage]
    exact h.sound
  started n hn hs := by
    by_cases hlt : n < f.nodes.length
    · rw [(q.node n hlt).2] at hs
      obtain ⟨k, hk⟩ := h.started n hlt hs
      exact ⟨k, q.reached hf hk⟩
    · -- A node that has just joined is not started.
      obtain ⟨c, link, -, e, -⟩ := hf.joined n (Nat.not_lt.1 hlt) hn
      rw [e] at hs
      cases hs
  unstarted n hn hs := by
    by_cases hlt : n < f.nodes.length
    · rw [(q.node n hlt).2] at hs
      rw [(q.node n hlt).1]
      exact h.unstarted n hlt hs
    · obtain ⟨c, link, -, e, -⟩ := hf.joined n (Nat.not_lt.1 hlt) hn
      rw [e]
      rfl
  receivers l n lg hl hr := by
    obtain ⟨i, lg', hi, hr'⟩ := q.receivers l n lg hl hr
    obtain ⟨hn, hs⟩ := h.receivers i n lg' hi hr'
    exact ⟨Nat.lt_of_lt_of_le hn hf.nodes, (q.node n hn).2.trans hs⟩
  deliverers t d x hx hd := by
    obtain ⟨z, hz, hzd⟩ := q.deliverers t d x hx hd
    obtain ⟨y, hy, ht⟩ := h.deliverers t d z hz hzd
    obtain ⟨y', hy', e⟩ := getElem?_of_carried q.deliveries.symm hy
    have e' : y'.task = y.task := congrArg (fun c => c.2.2) e
    exact ⟨y', hy', e'.trans ht⟩
  deliveries d y hy ho := by
    obtain ⟨z, hz, e⟩ := getElem?_of_carried q.deliveries hy
    have er : z.receiver = y.receiver := congrArg (fun c => c.1) e
    have eq : z.queue = y.queue := congrArg (fun c => c.2.1) e
    have et : z.task = y.task := congrArg (fun c => c.2.2) e
    have live : f.outcome? z.task = none := et ▸ hf.live ho
    have w := (h.deliveries d z hz live).mono q.storage (q.sink d) (q.advances hf)
    rw [Stretch, er, eq] at w
    exact w

/-- Tasks that hand over what they handed over. -/
def DeliverersFrom (f : Fleet) (tasks : List Task) : Prop :=
  ∀ (s d : Nat) (x : Task), tasks[s]? = some x → x.point.delivery? = some d →
    ∃ z, f.tasks[s]? = some z ∧ z.point.delivery? = some d

lemma deliverersFrom_refl : f.DeliverersFrom f.tasks := fun _ _ x hx hd => ⟨x, hx, hd⟩

lemma deliverersFrom_modify {l : List Task} {p : Point} (hp : p.delivery? = none)
    (h : f.DeliverersFrom l) :
    f.DeliverersFrom (l.modify t fun x => { x with point := p, signal := none }) := by
  intro s d x hx hd
  rcases modify_cases hx with ⟨-, z, -, rfl⟩ | ⟨-, hx⟩
  · rw [hp] at hd
    cases hd
  · exact h s d x hx hd

lemma deliverersFrom_told (s : Signal) (ts : List Nat) :
    f.DeliverersFrom (f.tasks.mapIdx (told s ts)) := by
  intro i d x hx hd
  obtain ⟨z, hz, rfl⟩ := told_cases hx
  rw [(told_point s ts i z).1] at hd
  exact ⟨z, hz, hd⟩

lemma deliverersFrom_append {p : Point} (hp : p.delivery? = none) :
    f.DeliverersFrom (f.tasks ++ [⟨n, p, none⟩]) := by
  intro s d x hx hd
  rcases concat_cases hx with hx | ⟨-, rfl⟩
  · exact ⟨x, hx, hd⟩
  · rw [hp] at hd
    cases hd

/-- Nodes that are started as before and have registered what they had. -/
def SameHistories (f : Fleet) (nodes : List Node) : Prop :=
  nodes.length = f.nodes.length ∧ ∀ n,
    ({ f with nodes := nodes }.node n).history = (f.node n).history ∧
      ({ f with nodes := nodes }.node n).started = (f.node n).started

lemma sameHistories_refl : f.SameHistories f.nodes := ⟨rfl, fun _ => ⟨rfl, rfl⟩⟩

lemma sameHistories_alike {nodes : List Node} (h : f.Alike nodes) : f.SameHistories nodes :=
  ⟨h.1, fun n => ⟨(h.2 n).history, (h.2 n).started⟩⟩

lemma sameHistories_modify {k : Node → Node} (hh : ∀ y, (k y).history = y.history)
    (hs : ∀ y, (k y).started = y.started) : f.SameHistories (f.nodes.modify n k) :=
  ⟨by simp, fun j => ⟨proj_modify (f := f) rfl Node.history hh j,
    proj_modify (f := f) rfl Node.started hs j⟩⟩

lemma quiet_of (hs : g.storage = f.storage) (hk : g.sink = f.sink) (hl : g.logs = f.logs)
    (hd : g.deliveries = f.deliveries) (ht : f.DeliverersFrom g.tasks)
    (hn : f.SameHistories g.nodes) : f.Quiet g where
  storage := hs
  sink d h := by rwa [hk] at h
  receivers l n lg h hr := ⟨l, lg, by rwa [hl] at h, hr⟩
  deliverers := ht
  deliveries := by rw [hd]
  node n _ := hn.2 n

/-! ## Storing an update -/

lemma Reached.grow (h : f.Reached n k) (hl : f.storage.log <+: g.storage.log)
    (hn : f.nodes.length ≤ g.nodes.length) (hh : (g.node n).history = (f.node n).history)
    (hst : (g.node n).started = (f.node n).started) : g.Reached n k where
  lt := Nat.lt_of_lt_of_le h.lt hn
  started := hst.trans h.started
  follows := by
    rw [hh]
    exact h.follows.grow hl

lemma fed_cases {e : Stored} {d : Nat} {y : Delivery} (h : (f.fed e)[d]? = some y) :
    ∃ z, f.deliveries[d]? = some z ∧ y.receiver = z.receiver ∧ y.task = z.task ∧
      ((y.queue = z.queue ∧ (f.sink = some d → f.outcome? z.task ≠ none)) ∨
        (f.sink = some d ∧ y.queue = z.queue ++ [e])) := by
  unfold fed at h
  split at h
  · rename_i hs
    exact ⟨y, h, rfl, rfl, .inl ⟨rfl, by rw [hs]; exact nofun⟩⟩
  · rename_i i hs
    split at h
    · rename_i hi
      refine ⟨y, h, rfl, rfl, .inl ⟨rfl, ?_⟩⟩
      rw [hs]
      rintro ⟨⟩
      rw [h] at hi
      cases hi
    · rename_i x hx
      split at h
      · rename_i ho
        refine ⟨y, h, rfl, rfl, .inl ⟨rfl, ?_⟩⟩
        rw [hs]
        rintro ⟨⟩
        rw [h] at hx
        cases hx
        exact Option.isSome_iff_ne_none.1 ho
      · rcases modify_cases h with ⟨rfl, z, hz, rfl⟩ | ⟨e, h⟩
        · exact ⟨z, hz, rfl, rfl, .inr ⟨hs, rfl⟩⟩
        · refine ⟨y, h, rfl, rfl, .inl ⟨rfl, ?_⟩⟩
          rw [hs]
          rintro ⟨⟩
          exact absurd rfl e

lemma task_fed {e : Stored} {d : Nat} {z : Delivery} (h : f.deliveries[d]? = some z) :
    ∃ y, (f.fed e)[d]? = some y ∧ y.task = z.task := by
  unfold fed
  split
  · exact ⟨z, h, rfl⟩
  · split
    · exact ⟨z, h, rfl⟩
    · split
      · exact ⟨z, h, rfl⟩
      · rw [List.getElem?_modify, h]
        split
        · exact ⟨_, rfl, rfl⟩
        · exact ⟨z, rfl, rfl⟩

/-- An update that is stored follows those that deliveries have still to hand over. -/
lemma tracks_append {u : Update} {c : Timestamp} (h : f.Tracks) (hf : f.Frame m g) (hu : u.Fits)
    (acc : f.storage.accepts u) (hs : g.storage = f.storage.append u c acc)
    (hk : g.sink = f.sink) (hl : g.logs = f.logs) (hd : g.deliveries = f.fed (Storage.stored u c))
    (ht : f.DeliverersFrom g.tasks) (hn : f.SameHistories g.nodes) :
    g.Tracks ∧ f.Advances g := by
  have entries : g.storage.entries = f.storage.entries ++ [Storage.stored u c] := by rw [hs]; rfl
  have log : f.storage.log <+: g.storage.log := by
    rw [hs, Storage.log_append _ _ acc hu]
    exact List.prefix_append ..
  have reached : ∀ n k, f.Reached n k → g.Reached n k :=
    fun n k hr => hr.grow log hf.nodes (hn.2 n).1 (hn.2 n).2
  refine ⟨⟨?sound, ?started, ?unstarted, ?receivers, ?deliverers, ?deliveries⟩,
    fun n k hr => ⟨k, Nat.le_refl k, reached n k hr⟩⟩
  case sound =>
    rw [hs]
    exact h.sound.append c acc hu
  case started =>
    intro n hlt hst
    obtain ⟨k, hr⟩ := h.started n (hn.1 ▸ hlt) ((hn.2 n).2 ▸ hst)
    exact ⟨k, reached n k hr⟩
  case unstarted =>
    intro n hlt hst
    exact (hn.2 n).1.trans (h.unstarted n (hn.1 ▸ hlt) ((hn.2 n).2 ▸ hst))
  case receivers =>
    intro l n lg hlg hr
    obtain ⟨hlt, hst⟩ := h.receivers l n lg (hl ▸ hlg) hr
    exact ⟨hn.1 ▸ hlt, (hn.2 n).2.trans hst⟩
  case deliverers =>
    intro s d x hx hxd
    obtain ⟨z, hz, hzd⟩ := ht s d x hx hxd
    obtain ⟨y, hy, hyt⟩ := h.deliverers s d z hz hzd
    obtain ⟨y', hy', e⟩ := task_fed (e := Storage.stored u c) hy
    exact ⟨y', hd ▸ hy', e.trans hyt⟩
  case deliveries =>
    intro d y hy ho
    obtain ⟨z, hz, hr, hyt, hq⟩ := fed_cases (hd ▸ hy)
    have live : f.outcome? z.task = none := hf.live (hyt ▸ ho)
    obtain ⟨j, hj, hpre, hsink, hnode⟩ := h.deliveries d z hz live
    have drop : g.storage.entries.drop j = f.storage.entries.drop j ++ [Storage.stored u c] := by
      rw [entries, List.drop_append_of_le_length hj]
    refine ⟨j, ?_, ?_, ?_, ?_⟩
    · rw [entries, List.length_append]
      omega
    · rw [drop]
      -- Only the delivery that the storage feeds is sure to get the update, and it is at the end.
      rcases hq with ⟨hq, -⟩ | ⟨hs, hq⟩
      · rw [hq]
        exact hpre.trans (List.prefix_append ..)
      · have same : y.queue = f.storage.entries.drop j ++ [Storage.stored u c] := by
          rw [hq, hsink hs]
        exact same ▸ List.prefix_refl _
    · intro hs
      rw [hk] at hs
      rcases hq with ⟨-, hne⟩ | ⟨-, hq⟩
      · exact absurd live (hne hs)
      · rw [hq, drop, hsink hs]
    · intro n hrn
      rw [hr] at hrn
      obtain ⟨k, hjk, hk⟩ := hnode n hrn
      exact ⟨k, hjk, reached n k hk⟩

end

end Fleet

end SchemaCatalog
