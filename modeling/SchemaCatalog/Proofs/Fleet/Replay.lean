import SchemaCatalog.Proofs.Fleet.Handing

/-!
# Nodes follow the log through every move

Whatever move comes next, a node that is started and follows the log goes on to follow it, and it
never falls back.
-/

namespace SchemaCatalog

namespace Fleet

section

variable {f g : Fleet} {m : Move} {t n k : Nat}

/-! ## Starting, and beginning and ending deliveries -/

/-- A node that is started has the initial catalog, and is the receiver of a log at most. -/
lemma tracks_start {p : Point} {l : List Log} (h : f.Tracks)
    (hf : f.Frame m g) (hn : n < f.nodes.length) (hst : (f.node n).started = false)
    (hl : l = f.logs ∨ ∃ i lg, f.logs[i]? = some lg ∧ lg.receiver = none ∧
      l = f.logs.modify i fun lg => { lg with receiver := some (.node n) })
    (hp : p.delivery? = none) {y : Node → Node}
    (hy : ∀ z, (y z).started = true ∧ (y z).history = z.history.register Catalog.initial)
    (hg : g = { (((f.onNode n y).spawn n .dispatch).moveTo t p) with logs := l }) :
    g.Tracks ∧ f.Advances g := by
  have hs : g.storage = f.storage := by rw [hg]; rfl
  have hlen : g.nodes.length = f.nodes.length := by simp [hg]
  have node : ∀ i, g.node i = if i = n then y (f.node n) else f.node i :=
    node_modify (f := f) (g := g) (k := y) (by rw [hg]; rfl) hn
  -- The node has the initial catalog only, so it has reached the beginning of the log.
  have reached : g.Reached n 0 := by
    refine ⟨hlen ▸ hn, ?_, ?_⟩
    · rw [node, if_pos rfl]
      exact (hy _).1
    · rw [node, if_pos rfl, (hy _).2, h.unstarted n hn hst]
      exact History.follows_initial _
  -- Every node that had reached something was started before, and is another one.
  have old : ∀ i k, f.Reached i k → g.Reached i k := by
    intro i k hk
    have ne : i ≠ n := by
      rintro rfl
      rw [hk.started] at hst
      cases hst
    have same : g.node i = f.node i := by rw [node, if_neg ne]
    exact hk.congr hs hf.nodes (by rw [same]) (by rw [same])
  have adv : f.Advances g := fun i k hk => ⟨k, Nat.le_refl _, old i k hk⟩
  refine ⟨⟨hs ▸ h.sound, ?started, ?unstarted, ?receivers, ?deliverers, ?deliveries⟩, adv⟩
  case started =>
    intro i hi his
    by_cases e : i = n
    · exact ⟨0, e ▸ reached⟩
    · rw [node, if_neg e] at his
      obtain ⟨k, hk⟩ := h.started i (hlen ▸ hi) his
      exact ⟨k, old i k hk⟩
  case unstarted =>
    intro i hi his
    by_cases e : i = n
    · rw [node, if_pos e, (hy _).1] at his
      cases his
    · rw [node, if_neg e] at his ⊢
      exact h.unstarted i (hlen ▸ hi) his
  case receivers =>
    have known : ∀ (j i : Nat) (lg : Log), f.logs[j]? = some lg → lg.receiver = some (.node i) →
        i < g.nodes.length ∧ (g.node i).started = true := by
      intro j i lg hj hr
      obtain ⟨hi, his⟩ := h.receivers j i lg hj hr
      refine ⟨hlen ▸ hi, ?_⟩
      rw [node]
      split
      · exact (hy _).1
      · exact his
    have logs : g.logs = l := by rw [hg]
    intro j i lg hj hr
    rw [logs] at hj
    rcases hl with rfl | ⟨a, lg', ha, -, rfl⟩
    · exact known j i lg hj hr
    · rcases modify_cases hj with ⟨rfl, lg, -, rfl⟩ | ⟨-, hj⟩
      · cases hr
        exact ⟨reached.lt, reached.started⟩
      · exact known j i lg hj hr
  case deliverers =>
    intro s d z hz hd
    have tasks : f.DeliverersFrom g.tasks := by
      rw [hg]
      exact deliverersFrom_modify hp (deliverersFrom_append rfl)
    obtain ⟨z', hz', hd'⟩ := tasks s d z hz hd
    obtain ⟨y, hy, hyt⟩ := h.deliverers s d z' hz' hd'
    exact ⟨y, by rw [hg]; exact hy, hyt⟩
  case deliveries =>
    intro d z hz ho
    have hz' : f.deliveries[d]? = some z := by rw [hg] at hz; exact hz
    have sink : g.sink = f.sink := by rw [hg]; rfl
    exact (h.deliveries d z hz' (hf.live ho)).mono hs (fun e => sink ▸ e) adv

/-- A delivery that begins has the whole log to hand over. -/
lemma tracks_beginDelivery {l : Nat} {r : Receiver} {p : Point} (h : f.Tracks)
    (hr : f.logs[l]?.bind Log.receiver = some r) (hp : p.delivery? = none)
    (hf : f.Frame m ((f.beginDelivery l n r).moveTo t p)) :
    ((f.beginDelivery l n r).moveTo t p).Tracks ∧
      f.Advances ((f.beginDelivery l n r).moveTo t p) := by
  generalize hg : (f.beginDelivery l n r).moveTo t p = g at hf ⊢
  have hs : g.storage = f.storage := by rw [← hg]; rfl
  have node : ∀ i, g.node i = f.node i := by
    intro i
    rw [← hg]
    rfl
  have hlen : g.nodes.length = f.nodes.length := by rw [← hg]; rfl
  have hd : g.deliveries = f.deliveries ++ [⟨r, f.storage.entries, true, f.tasks.length⟩] := by
    rw [← hg]
    rfl
  have tasks : g.tasks =
      (f.tasks ++ [(⟨n, .deliver f.deliveries.length, none⟩ : Task)]).modify t
        fun x => { x with point := p, signal := none } := by
    rw [← hg]
    rfl
  have receivers : ∀ (j i : Nat) (lg : Log), g.logs[j]? = some lg → lg.receiver = some (.node i) →
      i < f.nodes.length ∧ (f.node i).started = true := by
    intro j i lg hj hri
    have logs : g.logs =
        f.logs.modify l fun lg => { lg with delivery := some f.deliveries.length } := by
      rw [← hg]
      rfl
    rw [logs] at hj
    rcases modify_cases hj with ⟨-, lg', hlg', rfl⟩ | ⟨-, hj⟩
    · exact h.receivers j i lg' hlg' hri
    · exact h.receivers j i lg hj hri
  -- No history changes, so each node stays where it is.
  have adv : f.Advances g := fun i k hk =>
    ⟨k, Nat.le_refl k, hk.congr hs hf.nodes (by rw [node]) (by rw [node])⟩
  refine ⟨⟨hs ▸ h.sound, ?started, ?unstarted, ?receivers, ?deliverers, ?deliveries⟩, adv⟩
  case started =>
    intro i hi his
    obtain ⟨k, hk⟩ := h.started i (hlen ▸ hi) (node i ▸ his)
    obtain ⟨k', -, hk'⟩ := adv i k hk
    exact ⟨k', hk'⟩
  case unstarted =>
    intro i hi his
    rw [node] at his ⊢
    exact h.unstarted i (hlen ▸ hi) his
  case receivers =>
    intro j i lg hj hri
    rw [hlen, node]
    exact receivers j i lg hj hri
  case deliverers =>
    intro s d x hx hxd
    rw [tasks] at hx
    rcases modify_cases hx with ⟨-, z, -, rfl⟩ | ⟨-, hx⟩
    · rw [hp] at hxd
      cases hxd
    · rcases concat_cases hx with hx | ⟨e, rfl⟩
      · obtain ⟨y, hy, hyt⟩ := h.deliverers s d x hx hxd
        exact ⟨y, hd ▸ getElem?_concat hy _, hyt⟩
      · cases hxd
        exact ⟨_, by rw [hd, List.getElem?_concat_length], e.symm⟩
  case deliveries =>
    intro d y hy ho
    rw [hd] at hy
    rcases concat_cases hy with hy | ⟨-, rfl⟩
    · refine (h.deliveries d y hy (hf.live ho)).mono hs (fun e => ?_) adv
      have sink : g.sink = some f.deliveries.length := by rw [← hg]; rfl
      rw [sink] at e
      cases e
      obtain ⟨hlt, -⟩ := List.getElem?_eq_some_iff.1 hy
      exact absurd hlt (Nat.lt_irrefl _)
    · -- The new delivery begins at the first update, which no node stands before.
      refine ⟨0, Nat.zero_le _, ?_, fun _ => ?_, fun i hi => ?_⟩
      · rw [hs]
        exact List.prefix_refl _
      · rw [hs]
        rfl
      · obtain ⟨lg, hlg, hlgr⟩ := Option.bind_eq_some_iff.1 hr
        have hlgi : lg.receiver = some (.node i) := hlgr.trans (congrArg some hi)
        obtain ⟨hlt, hst⟩ := h.receivers l i lg hlg hlgi
        obtain ⟨k, hk⟩ := h.started i hlt hst
        obtain ⟨k', -, hk'⟩ := adv i k hk
        exact ⟨k', Nat.zero_le _, hk'⟩

/-- A storage that is detached feeds no delivery any more. -/
lemma quiet_detach {l : Nat} {p : Point} (hp : p.delivery? = none) :
    f.Quiet { f.moveTo t p with
      sink := none
      deliveries := f.detached
      logs := f.logs.modify l fun lg => { lg with delivery := none } } where
  storage := rfl
  sink := nofun
  receivers j n lg hj hr := by
    rcases modify_cases hj with ⟨-, lg', hlg', rfl⟩ | ⟨-, hj⟩
    · exact ⟨j, lg', hlg', hr⟩
    · exact ⟨j, lg, hj, hr⟩
  deliverers := deliverersFrom_modify hp deliverersFrom_refl
  deliveries := by
    unfold detached
    split
    · rfl
    · apply List.ext_getElem?
      intro i
      rw [List.getElem?_map, List.getElem?_map, List.getElem?_modify, Option.map_eq_map,
        Option.map_map]
      congr 1
      funext y
      simp only [Function.comp_apply]
      split <;> rfl
  node _ _ := ⟨rfl, rfl⟩

/-! ## Every move -/

lemma Tracks.of_quiet (h : f.Tracks) (hf : f.Frame m g) (q : f.Quiet g) : g.Tracks ∧ f.Advances g :=
  ⟨h.quiet hf q, q.advances hf⟩

lemma tracks_of_effect {x : Task} (hp : f.Plain) (h : f.Tracks)
    (fits : ∀ u, x.point.offer? = some u → u.Fits) (hx : f.tasks[t]? = some x)
    (ho : x.outcome? = none) (he : f.Effect t x g) : g.Tracks ∧ f.Advances g := by
  have hf := frame_of_effect (hp.placed t x hx) hx ho he
  have hn := hp.placed t x hx
  -- A start, an append and what a delivery hands over are seen to by themselves. All other effects
  -- are quiet: they leave histories, storage and deliveries as they were.
  cases he with
  | idle _ => exact h.of_quiet hf (quiet_of rfl rfl rfl rfl deliverersFrom_refl sameHistories_refl)
  | still _ hfree _ _ ha =>
    exact h.of_quiet hf (quiet_of rfl rfl rfl rfl
      (deliverersFrom_modify (Point.delivery?_of_isFree hfree) deliverersFrom_refl)
      (sameHistories_alike ha))
  | draft _ _ _ _ _ =>
    exact h.of_quiet hf (quiet_of rfl rfl rfl rfl
      (deliverersFrom_modify rfl deliverersFrom_refl) sameHistories_refl)
  | @append _ p _ acc hu hpt ha =>
    have hd : p.delivery? = none := by
      rcases hpt with rfl | rfl
      · rfl
      · rfl
    exact tracks_append h hf (fits _ hu) acc rfl rfl rfl rfl
      (deliverersFrom_modify hd deliverersFrom_refl) (sameHistories_alike ha)
  | enqueue _ _ =>
    exact h.of_quiet hf (quiet_of rfl rfl rfl rfl
      (deliverersFrom_modify rfl deliverersFrom_refl)
      (sameHistories_modify (fun _ => rfl) fun _ => rfl))
  | start _ hst hfree _ hl =>
    exact tracks_start h hf hn hst hl (Point.delivery?_of_isFree hfree) (fun _ => ⟨rfl, rfl⟩) rfl
  | beginDelivery _ _ hr _ hfree _ =>
    exact tracks_beginDelivery h hr (Point.delivery?_of_isFree hfree) hf
  | detach _ _ hfree _ => exact h.of_quiet hf (quiet_detach (Point.delivery?_of_isFree hfree))
  | release _ hfree _ =>
    exact h.of_quiet hf (quiet_of rfl rfl rfl rfl
      (deliverersFrom_modify (Point.delivery?_of_isFree hfree) deliverersFrom_refl)
      (sameHistories_modify (fun _ => rfl) fun _ => rfl))
  | closeMark _ =>
    exact h.of_quiet hf (quiet_of rfl rfl rfl rfl
      (deliverersFrom_modify rfl (deliverersFrom_told _ _))
      (sameHistories_modify (fun _ => rfl) fun _ => rfl))
  | hand hxd hy hq hu hr hz =>
    refine tracks_hand h hf hx ho hxd hy hq hr ?_
    rw [handed, hu]
    exact hz
  | note hxd hy hq hr =>
    exact ⟨tracks_note h hf hx ho hxd hy hq hr,
      fun i k hk => ⟨k, Nat.le_refl k, hk.congr rfl (Nat.le_refl _) rfl rfl⟩⟩
  | @halt _ n _ _ _ err hxd hy _ _ _ =>
    exact tracks_halt h hf rfl rfl rfl rfl hx hxd hy
      (deliverersFrom_modify rfl (deliverersFrom_told _ _))
      (sameHistories_modify (fun _ => rfl) fun _ => rfl) (outcome?_moveTo (getElem?_told hx) rfl)
  | haltRecorder hxd hy _ _ =>
    exact tracks_halt h hf rfl rfl rfl rfl hx hxd hy
      (deliverersFrom_modify rfl deliverersFrom_refl) sameHistories_refl (outcome?_moveTo hx rfl)
  | endDelivery _ _ =>
    exact h.of_quiet hf (quiet_of rfl rfl rfl rfl
      (deliverersFrom_modify rfl deliverersFrom_refl) sameHistories_refl)
  | takeNotice _ _ _ =>
    exact h.of_quiet hf (quiet_of rfl rfl rfl rfl
      (deliverersFrom_modify rfl deliverersFrom_refl)
      (sameHistories_modify (fun _ => rfl) fun _ => rfl))
  | endDispatch _ _ =>
    exact h.of_quiet hf (quiet_of rfl rfl rfl rfl
      (deliverersFrom_modify rfl deliverersFrom_refl) sameHistories_refl)
  | call _ =>
    exact h.of_quiet hf (quiet_of rfl rfl rfl rfl
      (deliverersFrom_modify rfl deliverersFrom_refl) sameHistories_refl)
  | wait _ =>
    exact h.of_quiet hf (quiet_of rfl rfl rfl rfl
      (deliverersFrom_modify rfl deliverersFrom_refl) sameHistories_refl)
  | called _ ha =>
    exact h.of_quiet hf (quiet_of rfl rfl rfl rfl
      (deliverersFrom_modify rfl deliverersFrom_refl) (sameHistories_alike ha))
  | done _ _ =>
    exact h.of_quiet hf (quiet_of rfl rfl rfl rfl
      (deliverersFrom_modify rfl (deliverersFrom_told _ _))
      (sameHistories_modify (fun _ => rfl) fun _ => rfl))
  | overflow _ _ =>
    exact h.of_quiet hf (quiet_of rfl rfl rfl rfl
      (deliverersFrom_modify rfl deliverersFrom_refl)
      (sameHistories_modify (fun _ => rfl) fun _ => rfl))

/-- A recorder that becomes the receiver of a log is no node. -/
lemma quiet_register {l : Nat} {name : String} {failAt : Option (Version × Error)} :
    f.Quiet { f with logs := f.logs.modify l fun l =>
      { l with receiver := some (.recorder name failAt) } } where
  storage := rfl
  sink _ h := h
  receivers j n lg hj hr := by
    rcases modify_cases hj with ⟨-, lg', -, rfl⟩ | ⟨-, hj⟩
    · cases hr
    · exact ⟨j, lg, hj, hr⟩
  deliverers := deliverersFrom_refl
  deliveries := rfl
  node _ _ := ⟨rfl, rfl⟩

/-- A node that joins is not started, and nobody has anything to hand over to it. -/
lemma quiet_join {c : Config} {link : Nat → Link} : f.Quiet (Session.addNode f c link) where
  storage := rfl
  sink _ h := h
  receivers j n lg hj hr := by
    have logs : (Session.addNode f c link).logs = f.logs ++ [(⟨none, none⟩ : Log)] := rfl
    rw [logs] at hj
    rcases concat_cases hj with hj | ⟨-, rfl⟩
    · exact ⟨j, lg, hj, hr⟩
    · cases hr
  deliverers := deliverersFrom_refl
  deliveries := rfl
  node n hn := by
    rw [node_addNode, if_neg (Nat.ne_of_lt hn)]
    exact ⟨rfl, rfl⟩

/-- Nodes go on to follow the log whatever move comes next, and none falls back. -/
theorem tracks_of_change (hp : f.Plain) (h : f.Tracks)
    (fits : ∀ (t : Nat) (x : Task) (u : Update),
      f.tasks[t]? = some x → x.point.offer? = some u → u.Fits)
    (hc : f.Change m g) : g.Tracks ∧ f.Advances g := by
  have hf := frame_of_change hp.placed hc
  cases hc with
  | step hx ho he => exact tracks_of_effect hp h (fun u => fits _ _ u hx) hx ho he
  | stuck _ =>
    exact h.of_quiet hf (quiet_of rfl rfl rfl rfl deliverersFrom_refl sameHistories_refl)
  | still _ ha =>
    exact h.of_quiet hf (quiet_of rfl rfl rfl rfl deliverersFrom_refl (sameHistories_alike ha))
  | turn => exact h.of_quiet hf (quiet_of rfl rfl rfl rfl deliverersFrom_refl sameHistories_refl)
  | spawn _ hfree _ =>
    exact h.of_quiet hf (quiet_of rfl rfl rfl rfl
      (deliverersFrom_append (Point.delivery?_of_isFree hfree)) sameHistories_refl)
  | register _ _ => exact h.of_quiet hf quiet_register
  | join _ _ => exact h.of_quiet hf quiet_join
  | markDone _ _ =>
    exact h.of_quiet hf (quiet_of rfl rfl rfl rfl (deliverersFrom_told _ _)
      (sameHistories_modify (fun _ => rfl) fun _ => rfl))
  | overflow _ _ =>
    exact h.of_quiet hf (quiet_of rfl rfl rfl rfl deliverersFrom_refl
      (sameHistories_modify (fun _ => rfl) fun _ => rfl))
  | failMark _ =>
    exact h.of_quiet hf (quiet_of rfl rfl rfl rfl (deliverersFrom_told _ _)
      (sameHistories_modify (fun _ => rfl) fun _ => rfl))

lemma Advances.trans {k : Fleet} (h : f.Advances g) (h' : g.Advances k) : f.Advances k := by
  intro n v hv
  obtain ⟨v', hle, hv'⟩ := h n v hv
  obtain ⟨v'', hle', hv''⟩ := h' n v' hv'
  exact ⟨v'', Nat.le_trans hle hle', hv''⟩

/-- Nodes follow the log in fleets that keep the same. -/
lemma Tracks.congr (h : f.Tracks) (e : g.core = f.core) : g.Tracks ∧ f.Advances g := by
  obtain ⟨-, storage, sink, logs, deliveries, nodes, tasks⟩ := core_inj e
  refine h.of_quiet (m := .step 0) (frame_of_core e) (quiet_of storage sink logs deliveries ?_ ?_)
  · rw [tasks]
    exact deliverersFrom_refl
  · rw [nodes]
    exact sameHistories_refl

lemma tracks_ofClock (c : Clock) : (ofClock c).Tracks where
  sound := Storage.sound_empty
  started _ h := absurd h (Nat.not_lt_zero _)
  unstarted _ h := absurd h (Nat.not_lt_zero _)
  receivers _ _ _ h := nomatch h
  deliverers _ _ _ h := nomatch h
  deliveries _ _ h := nomatch h

end

end Fleet

end SchemaCatalog
