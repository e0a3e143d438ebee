import SchemaCatalog.Proofs.Fleet.Effect

/-!
# Every step is an effect

What a step does to the core of a fleet is one of its effects, for each point at which a task can
stand (`effects_of_step`).
-/

namespace SchemaCatalog

namespace Fleet

/-! ## The log of a node -/

section

variable {f : Fleet} {n log : Nat}

lemma linkFault_of_log (h : (f.node n).link.log? = some log) (call : LogCall) :
    f.linkFault n call = .ok () := by
  unfold linkFault
  split
  · rename_i s e
    rw [e] at h
    cases h
  · rfl

lemma link_of_log (h : (f.node n).link.log? = some log) :
    (f.node n).link = .shared log ∨ ∃ k a, (f.node n).link = .contended log k a := by
  cases e : (f.node n).link with
  | shared l =>
    rw [e] at h
    cases h
    exact .inl rfl
  | contended l k a =>
    rw [e] at h
    cases h
    exact .inr ⟨k, a, rfl⟩
  | scripted s =>
    rw [e] at h
    cases h

lemma registerLink_of_log {l : Nat} (h : (f.node n).link.log? = some l) :
    f.registerLink n = f.register l (.node n) := by
  rw [registerLink, linkFault_of_log h]
  rcases link_of_log h with e | ⟨k, a, e⟩
  all_goals
    rw [e]
    rfl

lemma startLink_of_log (h : (f.node n).link.log? = some log) :
    f.startLink n = f.startLog log n := by
  rw [startLink, linkFault_of_log h]
  rcases link_of_log h with e | ⟨k, a, e⟩
  all_goals
    rw [e]
    rfl

lemma stopLink_of_log (h : (f.node n).link.log? = some log) :
    f.stopLink n = .ok (f.stopLog log) := by
  rw [stopLink, linkFault_of_log h]
  rcases link_of_log h with e | ⟨k, a, e⟩
  all_goals
    rw [e]
    rfl

lemma committedOf_of_log (h : (f.node n).link.log? = some log) :
    f.committedOf n = .ok f.storage.committed := by
  rw [committedOf, linkFault_of_log h]
  rcases link_of_log h with e | ⟨k, a, e⟩
  all_goals
    rw [e]
    rfl

/-- The log of a node refuses an update by itself, which one that refuses nothing by itself does
not, or offers it to the storage. Besides it may count the attempt. -/
lemma appendLink_of_log (hn : n < f.nodes.length) (h : (f.node n).link.log? = some log)
    (u : Update) :
    ∃ nodes, f.Alike nodes ∧ ((∀ l, (f.node n).link ≠ .shared l) ∧
        f.appendLink n u = .ok ({ f with nodes }, false) ∨
      f.appendLink n u = .ok ({ f with nodes }.commit u)) := by
  rw [appendLink, linkFault_of_log h]
  rcases link_of_log h with e | ⟨k, a, e⟩
  · rw [e]
    exact ⟨f.nodes, f.alike_refl, .inr rfl⟩
  · have alike : ∀ j, (f.node n).Alike { f.node n with link := .contended log j (a + 1) } :=
      fun j => ⟨rfl, rfl, by rw [e]; rfl, fun _ h => (by rw [e] at h; cases h), rfl, rfl, rfl, rfl,
        fun _ => List.prefix_refl _⟩
    rw [e]
    cases k with
    | zero => exact ⟨_, f.alike_modify hn (alike 0), .inr rfl⟩
    | succ k => exact ⟨_, f.alike_modify hn (alike k), .inl ⟨nofun, rfl⟩⟩

end

/-! ## Waking and failing on a node -/

@[simp] lemma core_wakeDispatcher (f : Fleet) (n : Nat) : (f.wakeDispatcher n).core = f.core := by
  unfold wakeDispatcher
  split
  · split
    · exact core_wake ..
    · rfl
  · rfl

/-! ## Steps and effects -/

section

variable {f g : Fleet} {t : Nat} {x : Task}

/-- A step is an effect on the core. -/
def Effects (f : Fleet) (t : Nat) (x : Task) (g : Fleet) : Prop :=
  ∃ k, f.Effect t x k ∧ g.core = k.core

/-- A step that moves its task between free points and does nothing else. -/
lemma effects_moveTo {p : Point} (hx : x.isFree) (hp : p.isFree = true)
    (ho : p.Continues f.storage.committed x.point) :
    f.Effects t x (f.moveTo t p) :=
  ⟨_, .still hx hp ho (Nat.le_refl _) f.alike_refl, rfl⟩

lemma effects_finish (hx : x.isFree) (o : Outcome) : f.Effects t x (f.finish t o) :=
  ⟨_, .still hx rfl (.of_isIdle rfl) (Nat.le_refl _) f.alike_refl, core_finish ..⟩

lemma Effects.congr {k : Fleet} (h : f.Effects t x g) (e : k.core = g.core) : f.Effects t x k := by
  obtain ⟨j, he, hj⟩ := h
  exact ⟨j, he, e.trans hj⟩

lemma isFree_of_point {p : Point} (e : x.point = p) (h : p.isFree = true) : x.isFree :=
  .inl (by rw [e]; exact h)

lemma effects_afterVersion {v : Version} {q : Purpose} (hx : x.isFree)
    (e : x.point = .await v q ∨ x.point = .awaiting v q) :
    f.Effects t x (f.afterVersion t v q) := by
  cases q with
  | saved => exact effects_moveTo hx rfl (.of_isIdle rfl)
  | retry st a =>
    simp only [afterVersion]
    split
    · refine effects_moveTo hx rfl (.of_statement rfl ?_ rfl rfl rfl)
      rcases e with e | e
      · rw [e]
        rfl
      · rw [e]
        rfl
    · exact effects_finish hx _
  | started => exact effects_finish hx _
  | bare => exact effects_finish hx _

lemma effects_draft {st : Statement} {a : Nat} (e : x.point = .draft st a) :
    f.Effects t x (f.stepDraft t x.node st a) := by
  have hx := isFree_of_point e rfl
  unfold stepDraft
  split
  · exact effects_finish hx _
  · rename_i c hc
    split
    · exact effects_finish hx _
    · split
      · exact effects_finish hx _
      · exact effects_moveTo hx rfl (.of_isIdle rfl)
      · rename_i es hne hes
        split
        · exact effects_finish hx _
        · rename_i v hv
          exact ⟨_, .draft e hc hes hne hv, rfl⟩

lemma fed_congr (hs : g.sink = f.sink) (hd : g.deliveries = f.deliveries) (ht : g.tasks = f.tasks)
    (e : Stored) : g.fed e = f.fed e := by
  cases f
  cases g
  simp only at hs hd ht
  subst hs hd ht
  rfl

@[simp] lemma core_feed (f : Fleet) (e : Stored) :
    (f.feed e).core = { f with deliveries := f.fed e }.core := by
  unfold feed
  split
  · rename_i hs
    have fed : f.fed e = f.deliveries := by simp only [fed, hs]
    rw [fed]
  · rename_i d hs
    split
    · rename_i hd
      have fed : f.fed e = f.deliveries := by simp only [fed, hs, hd]
      rw [fed]
    · rename_i x hd
      split
      · rename_i ended
        have fed : f.fed e = f.deliveries := by simp only [fed, hs, hd, if_pos ended]
        rw [fed]
      · rename_i live
        have fed : f.fed e = f.deliveries.modify d fun y => { y with queue := y.queue ++ [e] } := by
          simp only [fed, hs, hd, if_neg live]
        rw [core_wake, fed]

/-- An accepted update is stored and passed on, whatever of its node changed before. -/
lemma commit_of_accepts (nodes : List Node) {u : Update} (h : f.storage.accepts u) :
    ∃ k, { f with nodes }.commit u = (k, true) ∧ k.core = { f with
      clock := f.clock.tick
      storage := f.storage.append u f.clock.tick.current h
      nodes := nodes
      deliveries := f.fed (Storage.stored u f.clock.tick.current) }.core := by
  refine ⟨_, dif_pos h, ?_⟩
  rw [core_feed]
  apply core_ext
  case deliveries => exact fed_congr (by simp) (by simp) (by simp) _
  all_goals simp

lemma commit_of_not_accepts {u : Update} (h : ¬ f.storage.accepts u) :
    f.commit u = (f, false) :=
  dif_neg h

lemma effects_append {u : Update} {p : Point} {nodes : List Node} {k : Fleet}
    (h : f.storage.accepts u) (ho : x.point.offer? = some u)
    (hp : p = .await u.version .saved ∨ p = .ended (.accepted true)) (ha : f.Alike nodes)
    (hk : k.core = { f with
      clock := f.clock.tick
      storage := f.storage.append u f.clock.tick.current h
      nodes := nodes
      deliveries := f.fed (Storage.stored u f.clock.tick.current) }.core) :
    f.Effects t x (k.moveTo t p) :=
  ⟨_, .append h ho hp ha, core_moveTo hk t p⟩

lemma effects_submit {log : Nat} (hl : (f.node x.node).link.log? = some log)
    (hn : x.node < f.nodes.length) {st : Statement} {a : Nat} {u : Update}
    (e : x.point = .submit st a u) : f.Effects t x (f.stepSubmit t x.node st a u) := by
  have hx := isFree_of_point e rfl
  obtain ⟨nodes, ha, ⟨-, h⟩ | h⟩ := appendLink_of_log hn hl u
  · rw [stepSubmit, h]
    exact ⟨_, .still hx rfl (.of_statement rfl (by rw [e]; rfl) rfl rfl rfl) (Nat.le_refl _) ha,
      rfl⟩
  · rw [stepSubmit, h]
    by_cases acc : f.storage.accepts u
    · obtain ⟨k, hk, hc⟩ := commit_of_accepts nodes acc
      rw [hk]
      exact effects_append acc (by rw [e]; rfl) (.inl rfl) ha hc
    · rw [commit_of_not_accepts (f := { f with nodes }) acc]
      exact ⟨_, .still hx rfl (.of_statement rfl (by rw [e]; rfl) rfl rfl rfl) (Nat.le_refl _) ha,
        rfl⟩

lemma effects_commit {u : Update} (e : x.point = .commit u) :
    f.Effects t x (f.stepCommit t u) := by
  have hx := isFree_of_point e rfl
  rw [stepCommit]
  by_cases acc : f.storage.accepts u
  · obtain ⟨k, hk, hc⟩ := commit_of_accepts f.nodes acc
    rw [hk]
    have h := effects_append (t := t) acc (by rw [e]; rfl) (.inr rfl) f.alike_refl hc
    exact h.congr (core_finish ..)
  · rw [commit_of_not_accepts acc]
    exact effects_finish hx _

lemma effects_await {v : Version} {q : Purpose} (e : x.point = .await v q) :
    f.Effects t x (f.stepAwait t x.node v q) := by
  have hx := isFree_of_point e rfl
  unfold stepAwait
  split
  · exact effects_afterVersion hx (.inl e)
  · exact effects_finish hx _
  · rename_i hw
    exact ⟨_, .enqueue e hw, rfl⟩

lemma effects_awaiting {v : Version} {q : Purpose} (e : x.point = .awaiting v q)
    (h : f.stepAwaiting t x.node v q x.signal = some g) : f.Effects t x g := by
  cases hs : x.signal with
  | none =>
    rw [hs] at h
    cases h
  | some s =>
    have hx : x.isFree := .inr ⟨v, q, s, e, hs⟩
    rw [hs] at h
    cases s with
    | released =>
      cases h
      exact effects_afterVersion hx (.inr e)
    | dropped =>
      cases h
      exact effects_finish hx _

lemma effects_confirm {v : Version} (hx : x.isFree) :
    f.Effects t x (f.stepConfirm t x.node v) := by
  unfold stepConfirm
  split
  · exact effects_finish hx _
  · exact effects_moveTo hx rfl (.of_isIdle rfl)

/-- A clock that was read is not behind. -/
lemma le_tick (c : Clock) : c.current ≤ c.tick.current := by
  rw [Timestamp.le_def, Clock.tick, Timestamp.tick, Word64.val_capped]
  omega

lemma effects_readClock {target : Timestamp} {o : Outcome} (hx : x.isFree) :
    f.Effects t x (f.stepReadClock t target o) := by
  unfold stepReadClock
  dsimp only
  split
  · refine ⟨_, .still (p := .ended o) hx rfl (.of_isIdle rfl) (le_tick _) f.alike_refl, ?_⟩
    refine (core_finish ..).trans ?_
    exact core_moveTo (core_setClock ..) t _
  · refine ⟨_, .still (p := .sleep target o) hx rfl (.of_isIdle rfl) (le_tick _) f.alike_refl, ?_⟩
    exact core_moveTo (core_setClock ..) t _

lemma effects_start {log : Nat} (hl : (f.node x.node).link.log? = some log)
    (hn : x.node < f.nodes.length) (e : x.point = .start) :
    f.Effects t x (f.stepStart t x.node) := by
  have hx := isFree_of_point e rfl
  unfold stepStart
  split
  · exact effects_finish hx _
  · rename_i hs
    have hs : (f.node x.node).started = false := by simpa using hs
    dsimp only
    rw [registerLink_of_log (l := log)]
    · unfold register
      split
      · rename_i err herr
        split at herr
        · refine ⟨_, .start (p := .ended (.failed err)) (k := f.logs) e hs rfl (.of_isIdle rfl)
            (.inl rfl), ?_⟩
          exact core_finish ..
        · cases herr
      · rename_i k hk
        split at hk
        · cases hk
        · rename_i hr
          cases hk
          cases hg : f.logs[log]? with
          | none =>
            refine ⟨_, .start (p := .startLink) (k := f.logs) e hs rfl
              (.of_starts (by rw [e]; rfl) rfl rfl rfl rfl) (.inl rfl), ?_⟩
            apply core_ext
            case logs => simp [List.modify_eq_self (List.getElem?_eq_none_iff.1 hg)]
            all_goals simp
          | some lg =>
            refine ⟨_, .start (p := .startLink) e hs rfl
              (.of_starts (by rw [e]; rfl) rfl rfl rfl rfl) (.inr ⟨log, lg, hg, ?_, rfl⟩), ?_⟩
            · simpa [hg] using hr
            · rfl
    · rw [node_congr (g := { f with nodes := f.nodes.modify x.node fun y => { y with
          started := true
          history := y.history.register Catalog.initial
          dispatch := some ⟨[], true, f.tasks.length⟩
          holdsHandler := true } }) (by simp), node_modify (f := f) rfl hn, if_pos rfl]
      exact hl

lemma effects_startLog {log : Nat} {k : Fleet} (hx : x.point.isFree = true)
    (hl : f.StartsLog x log) (h : f.startLog log x.node = .ok k) {p : Point} (hp : p.isFree = true)
    (ho : p.Continues f.storage.committed x.point) :
    f.Effects t x (k.moveTo t p) := by
  unfold startLog at h
  split at h
  · cases h
  · rename_i r hr
    split at h
    · cases h
    · rename_i hs
      cases h
      exact ⟨_, .beginDelivery hx hl hr hs hp ho, rfl⟩

lemma effects_startLink {log : Nat} (hl : (f.node x.node).link.log? = some log)
    (e : x.point = .startLink) : f.Effects t x (f.stepStartLink t x.node) := by
  rw [stepStartLink, startLink_of_log hl]
  split
  · exact effects_finish (isFree_of_point e rfl) _
  · rename_i k hk
    exact effects_startLog (by rw [e]; rfl) (.inr ⟨e, hl⟩) hk rfl (.of_isIdle rfl)

@[simp] lemma core_detach (f : Fleet) :
    f.detach.core = { f with sink := none, deliveries := f.detached }.core := by
  cases hs : f.sink with
  | none =>
    have e : f.detached = f.deliveries := by simp [detached, hs]
    have e' : f.detach = f := by simp [detach, hs]
    rw [e, e']
    apply core_ext <;> simp [hs]
  | some d =>
    have e : f.detached = f.deliveries.modify d fun x => { x with attached := false } := by
      simp [detached, hs]
    rw [e, detach, hs]
    dsimp only
    split
    · exact core_wake ..
    · rfl

lemma core_stopLog (f : Fleet) (log : Nat) :
    (f.stopLog log).1.core = { f with
      sink := none
      deliveries := f.detached
      logs := f.logs.modify log fun l => { l with delivery := none } }.core := by
  have e := congrArg (fun k : Fleet =>
    { k with logs := f.logs.modify log fun l => { l with delivery := none } }.core) (core_detach f)
  exact e

lemma effects_stopLog {l : Nat} {p : Point} (hx : x.point.isFree = true)
    (hs : f.StopsLog x l) (hp : p.isFree = true)
    (ho : p.Continues f.storage.committed x.point) :
    f.Effects t x ((f.stopLog l).1.moveTo t p) :=
  ⟨_, .detach hx hs hp ho, core_moveTo (core_stopLog f l) t p⟩

lemma effects_stop {log : Nat} (hl : (f.node x.node).link.log? = some log)
    (e : x.point = .stop) : f.Effects t x (f.stepStop t x.node) := by
  have hx : x.point.isFree = true := by rw [e]; rfl
  have hs : x.point.stops = true := by rw [e]; rfl
  have stopped : f.StopsLog x log := .inr ⟨e, hl⟩
  rw [stepStop, stopLink_of_log hl]
  cases ho : (f.stopLog log).2 with
  | none =>
    have h : f.stopLog log = ((f.stopLog log).1, none) := by rw [← ho]
    rw [h]
    exact effects_stopLog hx stopped rfl (.of_stops hs rfl rfl rfl rfl)
  | some u =>
    have h : f.stopLog log = ((f.stopLog log).1, some u) := by rw [← ho]
    rw [h]
    exact effects_stopLog hx stopped rfl (.of_stops hs rfl rfl rfl rfl)

lemma effects_releaseHandler (e : x.point = .releaseHandler) :
    f.Effects t x (f.stepReleaseHandler t x.node) := by
  have hs : x.point.stops = true := by rw [e]; rfl
  unfold stepReleaseHandler
  split
  · refine ⟨_, .release e rfl (.of_stops hs rfl rfl rfl rfl), core_moveTo ?_ t _⟩
    refine (core_wakeDispatcher ..).trans ?_
    apply core_ext <;> simp [List.modify_modify_eq]
    rfl
  · exact effects_moveTo (isFree_of_point e rfl) rfl (.of_stops hs rfl rfl rfl rfl)

lemma core_failMark (f : Fleet) (n : Nat) (e : Error) :
    (f.failMark n e).core = { f with
      nodes := f.nodes.modify n fun y => { y with mark := ((f.node n).mark.fail e).1 }
      tasks := f.tasks.mapIdx (told .dropped ((f.node n).mark.fail e).2) }.core := by
  unfold failMark
  apply core_ext <;> simp

/-- A node that lets nobody wait any more has its watermark fail, and drops those who wait. -/
lemma core_stepCloseMark (f : Fleet) (t n : Nat) :
    (f.stepCloseMark t n).core = ({ f with
      nodes := f.nodes.modify n fun y => { y with mark := ((f.node n).mark.fail .stopped).1 }
      tasks := f.tasks.mapIdx (told .dropped ((f.node n).mark.fail .stopped).2)
    }.moveTo t (.ended .done)).core :=
  (core_finish ..).trans (core_moveTo (core_failMark ..) t _)

lemma effects_closeMark (e : x.point = .closeMark) : f.Effects t x (f.stepCloseMark t x.node) :=
  ⟨_, .closeMark e, core_stepCloseMark ..⟩

lemma effects_join {u : Nat} {after : AfterJoin} (e : x.point = .join u after)
    (h : f.stepJoin t u after = some g) : f.Effects t x g := by
  have hx := isFree_of_point e rfl
  have hs : x.point.stops = true := by rw [e]; rfl
  unfold stepJoin at h
  split at h
  · cases h
  · cases h
    exact effects_finish hx _
  · cases h
    exact effects_moveTo hx rfl (.of_stops hs rfl rfl rfl rfl)
  · cases h
    exact effects_finish hx _
  · cases h
    exact effects_moveTo hx rfl (.of_stops hs rfl rfl rfl rfl)

/-- A halted node takes no notices any more, and its watermark has failed. -/
lemma core_halt (f : Fleet) (n : Nat) (e : Error) :
    (f.halt (.node n) e).core = { f with
      nodes := f.nodes.modify n fun z => { z.closeDispatch with mark := ((f.node n).mark.fail e).1 }
      tasks := f.tasks.mapIdx (told .dropped ((f.node n).mark.fail e).2) }.core := by
  have hw := core_wakeDispatcher (f.onNode n Node.closeDispatch) n
  have hm : ((f.closeDispatch n).node n).mark = (f.node n).mark := by
    have e1 : (f.closeDispatch n).nodes = f.nodes.modify n Node.closeDispatch :=
      congrArg Fleet.nodes hw
    exact proj_modify e1 Node.mark (fun _ => rfl) n
  have e2 := core_failMark (f.closeDispatch n) n e
  rw [hm] at e2
  refine e2.trans ?_
  have e3 := congrArg (fun k : Fleet => { k with
      nodes := k.nodes.modify n fun y => { y with mark := ((f.node n).mark.fail e).1 }
      tasks := k.tasks.mapIdx (told .dropped ((f.node n).mark.fail e).2) }.core) hw
  refine Eq.trans (b := _) ?_ (e3.trans ?_)
  · rfl
  · apply core_ext
    case nodes =>
      rw [show (f.onNode n Node.closeDispatch).core.nodes = f.nodes.modify n Node.closeDispatch
        from rfl, List.modify_modify_eq]
      rfl
    all_goals rfl

lemma handle_node {n : Nat} {u : Update} {c : Timestamp} {k : Token} :
    f.handle (.node n) u c k = match (f.node n).handle u c k with
      | .ok z => .ok ((f.onNode n fun _ => z).wakeDispatcher n)
      | .error e => .error e :=
  rfl

lemma effects_deliver {d : Nat} (e : x.point = .deliver d) (h : f.stepDeliver t d = some g) :
    f.Effects t x g := by
  unfold stepDeliver at h
  split at h
  · rename_i hd
    cases h
    refine ⟨_, .endDelivery e fun y hy => ?_, core_finish ..⟩
    rw [hd] at hy
    cases hy
  · rename_i y hy
    split at h
    · rename_i hq
      split at h
      · cases h
      · rename_i ha
        cases h
        refine ⟨_, .endDelivery e fun z hz => ?_, core_finish ..⟩
        rw [hy] at hz
        cases hz
        exact ⟨hq, by simpa using ha⟩
    · rename_i s rest hq
      -- The front leaves the queue first, whatever the receiver then makes of it.
      generalize hk : ({ f with
        deliveries := f.deliveries.modify d fun y => { y with queue := rest } } : Fleet) = k at h
      have hc : k.core = { f with deliveries := f.popped d rest }.core := by rw [← hk]; rfl
      dsimp only at h
      cases hr : y.receiver with
      | node n =>
        have hn : k.node n = f.node n := by rw [← hk]; rfl
        rw [hr] at h
        have halt : ∀ err, (Update.decode s.bytes >>= fun u =>
            (f.node n).handle u s.commit s.token) = .error err →
            f.Effects t x ((k.halt (.node n) err).finish t .done) := by
          intro err herr
          refine ⟨_, .halt e hy hq hr herr, (core_finish ..).trans (core_moveTo ?_ t _)⟩
          rw [core_halt, hn, ← hk]
          rfl
        split at h
        · rename_i err herr
          cases h
          exact halt err (by rw [herr]; rfl)
        · rename_i u hu
          rw [handle_node, hn] at h
          cases hz : (f.node n).handle u s.commit s.token with
          | ok z =>
            rw [hz] at h
            cases h
            refine ⟨_, .hand e hy hq hu hr hz, (core_wakeDispatcher ..).trans ?_⟩
            rw [← hk]
            rfl
          | error err =>
            rw [hz] at h
            cases h
            exact halt err (by rw [hu]; exact hz)
      | recorder name failAt =>
        rw [hr] at h
        have note : ∀ rs, f.Effects t x { k with receipts := rs } :=
          fun rs => ⟨_, .note e hy hq hr, hc⟩
        have halt : ∀ err, f.Effects t x ((k.halt (.recorder name failAt) err).finish t .done) :=
          fun err => ⟨_, .haltRecorder e hy hq hr, (core_finish ..).trans (core_moveTo hc t _)⟩
        split at h
        · cases h
          exact halt _
        · rename_i u hu
          cases failAt with
          | none =>
            cases h
            exact note _
          | some va =>
            obtain ⟨v, err⟩ := va
            simp only [handle] at h
            split at h
            · rename_i k' hk'
              split at hk'
              · cases hk'
              · cases hk'
                cases h
                exact note _
            · cases h
              exact halt _

lemma effects_dispatch (e : x.point = .dispatch) (h : f.stepDispatch t x.node = some g) :
    f.Effects t x g := by
  unfold stepDispatch at h
  split at h
  · rename_i hd
    cases h
    refine ⟨_, .endDispatch e fun d hd' => ?_, core_finish ..⟩
    rw [hd] at hd'
    cases hd'
  · rename_i d hd
    split at h
    · rename_i hq
      split at h
      · cases h
      · rename_i ha
        cases h
        refine ⟨_, .endDispatch e fun d' hd' => ?_, core_finish ..⟩
        rw [hd] at hd'
        cases hd'
        exact ⟨hq, by simpa using ha⟩
    · rename_i notice rest hq
      cases h
      exact ⟨_, .takeNotice e hd hq, rfl⟩

/-- A task that waits cannot go on if and only if it was told nothing yet. -/
lemma stuck_awaiting_iff {v : Version} {q : Purpose} (hx : f.tasks[t]? = some x)
    (hp : x.point = .awaiting v q) : f.step t = none ↔ x.signal = none := by
  simp only [step, hx, hp]
  cases x.signal with
  | none => simp [stepAwaiting]
  | some s => cases s <;> simp [stepAwaiting]

/-- A dispatcher cannot go on if and only if it has no notices left and takes more of them. -/
lemma stuck_dispatch_iff (hx : f.tasks[t]? = some x) (hp : x.point = .dispatch) :
    f.step t = none ↔
      ∃ d, (f.node x.node).dispatch = some d ∧ d.queue = [] ∧ d.accepting = true := by
  simp only [step, hx, hp, stepDispatch]
  cases hd : (f.node x.node).dispatch with
  | none => simp
  | some d =>
    cases hq : d.queue with
    | nil => simp [hq]
    | cons notice rest => simp [hq]

/-! ## Publishing -/

lemma core_publish (f : Fleet) (t n : Nat) (event : Event) (after : AfterCalls) :
    ∃ calls, (f.publish t n event after).core = (f.moveTo t (.gather event calls after)).core :=
  ⟨_, core_moveTo (core_beginCalls ..) t _⟩

lemma effects_announce {v : Version} {events : List Event} (e : x.point = .announce v events) :
    f.Effects t x (f.stepAnnounce t x.node v events) := by
  cases events with
  | cons event rest =>
    obtain ⟨calls, hc⟩ := core_publish f t x.node event (.dispatch v rest)
    exact ⟨_, .call e, hc⟩
  | nil =>
    cases hm : (f.node x.node).mark.finish v with
    | mk mark r =>
      cases r with
      | ok released =>
        rw [stepAnnounce, finishVersion, hm]
        refine ⟨_, .done e hm, core_moveTo ?_ t _⟩
        apply core_ext <;> simp
      | error a =>
        rw [stepAnnounce, finishVersion, hm]
        exact ⟨_, .overflow e hm, core_finish ..⟩

lemma effects_publish {event : Event} (e : x.point = .publish event) :
    f.Effects t x (f.publish t x.node event .report) := by
  obtain ⟨calls, hc⟩ := core_publish f t x.node event .report
  exact (effects_moveTo (isFree_of_point e rfl) rfl (.of_isIdle rfl)).congr hc

/-- Nodes after a change of the publisher of one to which the same listen. -/
lemma alike_publisher (f : Fleet) (n : Nat) {k : Publisher → Publisher}
    (h : (k (f.node n).publisher).registrations = (f.node n).publisher.registrations) :
    f.Alike (f.nodes.modify n fun y => { y with publisher := k y.publisher }) := by
  by_cases hn : n < f.nodes.length
  · refine f.alike_modify hn ⟨rfl, rfl, rfl, fun _ => id, rfl, rfl, rfl, rfl, fun type => ?_⟩
    have same : (k (f.node n).publisher).listenersOf type =
        (f.node n).publisher.listenersOf type := by
      rw [Publisher.listenersOf, Publisher.listenersOf, h]
    exact same ▸ List.prefix_refl _
  · rw [List.modify_eq_self (Nat.not_lt.1 hn)]
    exact f.alike_refl

/-- Who listens does not depend on what failed. -/
lemma registrations_record (q : Publisher) (fs : List FailedDelivery) :
    (fs.foldl Publisher.record q).registrations = q.registrations := by
  induction fs generalizing q with
  | nil => rfl
  | cons e fs ih => exact ih (q.record e)

lemma core_recordAll {k : Fleet} (hk : k.core = f.core) (n : Nat) (fs : List FailedDelivery) :
    (k.recordAll n fs).core = { f with nodes := f.nodes.modify n fun y =>
      { y with publisher := fs.foldl Publisher.record y.publisher } }.core := by
  have e := core_onNode hk n fun y =>
    { y with publisher := fs.foldl Publisher.record y.publisher }
  exact e

/-- A step that records failed deliveries and moves its task between free points. -/
lemma effects_recordAll {k : Fleet} {p : Point} (hk : k.core = f.core) (hx : x.isFree)
    (hp : p.isFree = true) (ho : p.Continues f.storage.committed x.point)
    (fs : List FailedDelivery) :
    f.Effects t x ((k.recordAll x.node fs).moveTo t p) :=
  ⟨_, .still hx hp ho (Nat.le_refl _)
      (f.alike_publisher x.node (k := fun q => fs.foldl Publisher.record q)
        (registrations_record _ fs)),
    core_moveTo (core_recordAll hk x.node fs) t p⟩

lemma effects_gather {event : Event} {calls : List Call} {after : AfterCalls}
    (e : x.point = .gather event calls after)
    (h : f.stepGather t x.node event calls after = some g) : f.Effects t x g := by
  unfold stepGather at h
  split at h
  · cases h
  · dsimp only at h
    have hc := core_resumeCalls f t calls
    split at h
    · cases after with
      | report =>
        cases h
        exact (effects_recordAll hc (isFree_of_point e rfl) rfl (.of_isIdle rfl) _).congr
          (core_finish ..)
      | dispatch v rest =>
        cases h
        have ha := f.alike_publisher x.node
          (k := fun q => (failedCalls event (f.resumeCalls t calls).2).foldl Publisher.record q)
          (registrations_record _ _)
        exact ⟨_, .called e ha, core_moveTo (core_recordAll hc ..) t _⟩
    · cases h
      cases after with
      | report =>
        exact (effects_moveTo (isFree_of_point e rfl) rfl (.of_isIdle rfl)).congr
          (core_moveTo hc t _)
      | dispatch v rest =>
        exact ⟨_, .wait e, core_moveTo hc t _⟩

lemma effects_afterRedelivery {k : Fleet} (hk : k.core = f.core) (hx : x.isFree)
    (current : FailedDelivery) (pending : List FailedDelivery) (delivered : Nat) (r : CallResult) :
    f.Effects t x (k.afterRedelivery t x.node current pending delivered r) := by
  cases r with
  | delivered => exact (effects_moveTo hx rfl (.of_isIdle rfl)).congr (core_moveTo hk t _)
  | failed reason => exact effects_recordAll hk hx rfl (.of_isIdle rfl) _

lemma effects_redeliverRest {pending : List FailedDelivery} {delivered : Nat} (hx : x.isFree) :
    f.Effects t x (f.stepRedeliverRest t x.node delivered pending) := by
  cases pending with
  | nil => exact effects_finish hx _
  | cons current pending =>
    have hc := core_beginCall f t current.event current.listener
    rw [stepRedeliverRest]
    split
    · rename_i k r hk
      rw [hk] at hc
      exact effects_afterRedelivery hc hx ..
    · rename_i k hk
      rw [hk] at hc
      exact (effects_moveTo hx rfl (.of_isIdle rfl)).congr (core_moveTo hc t _)

lemma effects_redelivering {current : FailedDelivery} {pending : List FailedDelivery}
    {delivered : Nat} (hx : x.isFree)
    (h : f.stepRedelivering t x.node current pending delivered = some g) : f.Effects t x g := by
  have hc := core_attemptCall f t current.listener
  unfold stepRedelivering at h
  split at h
  · cases h
  · split at h
    · rename_i k r hk
      rw [hk] at hc
      cases h
      exact effects_afterRedelivery hc hx ..
    · rename_i k hk
      rw [hk] at hc
      cases h
      exact ⟨f, .idle hx, hc⟩

lemma effects_redeliver (hx : x.isFree) : f.Effects t x (f.stepRedeliver t x.node) :=
  ⟨_, .still hx rfl (.of_isIdle rfl) (Nat.le_refl _)
      (f.alike_publisher x.node (k := fun _ => (f.node x.node).publisher.drain.1) rfl), rfl⟩

/-- What a step does is an effect on what the fleet keeps, if the log of the node that it turns to
is one over the shared storage. -/
theorem effects_of_step_of_log (hn : x.node < f.nodes.length)
    (linked : x.point.asksLog = true → (f.node x.node).link.log?.isSome)
    (ht : f.tasks[t]? = some x) (h : f.step t = some g) : f.Effects t x g := by
  have log : ∀ {p : Point}, x.point = p → p.asksLog = true →
      ∃ log, (f.node x.node).link.log? = some log := by
    intro p e asks
    rw [← e] at asks
    exact Option.isSome_iff_exists.1 (linked asks)
  unfold step at h
  rw [ht] at h
  dsimp only at h
  have free : ∀ {p : Point}, x.point = p → p.isFree = true → x.isFree := isFree_of_point
  cases e : x.point with
  | draft st a =>
    rw [e] at h
    cases h
    exact effects_draft e
  | submit st a u =>
    rw [e] at h
    cases h
    obtain ⟨log, hl⟩ := log e rfl
    exact effects_submit hl hn e
  | review st a =>
    rw [e] at h
    cases h
    obtain ⟨log, hl⟩ := log e rfl
    rw [stepReview, committedOf_of_log hl]
    exact effects_moveTo (free e rfl) rfl
      ⟨rfl, .inr (by rw [e]; rfl), fun _ h => (Option.some.inj h).symm, nofun, nofun⟩
  | await v q =>
    rw [e] at h
    cases h
    exact effects_await e
  | awaiting v q =>
    rw [e] at h
    exact effects_awaiting e h
  | confirm v =>
    rw [e] at h
    cases h
    exact effects_confirm (free e rfl)
  | readClock target o =>
    rw [e] at h
    cases h
    exact effects_readClock (free e rfl)
  | sleep target o =>
    rw [e] at h
    simp only [stepSleep, Option.ite_none_right_eq_some, Option.some.injEq] at h
    obtain ⟨_, rfl⟩ := h
    exact effects_finish (free e rfl) _
  | start =>
    rw [e] at h
    cases h
    obtain ⟨log, hl⟩ := log e rfl
    exact effects_start hl hn e
  | startLink =>
    rw [e] at h
    cases h
    obtain ⟨log, hl⟩ := log e rfl
    exact effects_startLink hl e
  | replay =>
    rw [e] at h
    cases h
    obtain ⟨log, hl⟩ := log e rfl
    rw [stepReplay, committedOf_of_log hl]
    exact effects_moveTo (free e rfl) rfl
      ⟨rfl, .inl rfl, fun _ h => (Option.some.inj h).symm, nofun, nofun⟩
  | stop =>
    rw [e] at h
    cases h
    obtain ⟨log, hl⟩ := log e rfl
    exact effects_stop hl e
  | releaseHandler =>
    rw [e] at h
    cases h
    exact effects_releaseHandler e
  | closeMark =>
    rw [e] at h
    cases h
    exact effects_closeMark e
  | join u after =>
    rw [e] at h
    exact effects_join e h
  | deliver d =>
    rw [e] at h
    exact effects_deliver e h
  | dispatch =>
    rw [e] at h
    exact effects_dispatch e h
  | announce v events =>
    rw [e] at h
    cases h
    exact effects_announce e
  | publish event =>
    rw [e] at h
    cases h
    exact effects_publish e
  | gather event calls after =>
    rw [e] at h
    exact effects_gather e h
  | redeliver =>
    rw [e] at h
    cases h
    exact effects_redeliver (free e rfl)
  | redeliverRest pending delivered =>
    rw [e] at h
    cases h
    exact effects_redeliverRest (free e rfl)
  | redelivering current pending delivered =>
    rw [e] at h
    exact effects_redelivering (free e rfl) h
  | startLog log =>
    rw [e] at h
    cases h
    unfold stepStartLog
    split
    · exact effects_finish (free e rfl) _
    · rename_i k hk
      have hs := effects_startLog (t := t) (p := .ended .done) (by rw [e]; rfl) (.inl e) hk rfl
        (.of_isIdle rfl)
      exact hs.congr (core_finish ..)
  | stopLog log =>
    rw [e] at h
    cases h
    have hx : x.point.isFree = true := by rw [e]; rfl
    have stops : x.point.stops = true := by rw [e]; rfl
    have stopped : f.StopsLog x log := .inl e
    unfold stepStopLog
    split
    · rename_i k u hk
      have hs := effects_stopLog (t := t) (p := .join u .finish) hx stopped rfl
        (.of_stops stops rfl rfl rfl rfl)
      rwa [hk] at hs
    · rename_i k hk
      have hs := effects_stopLog (t := t) (p := .ended .done) hx stopped rfl (.of_isIdle rfl)
      rw [hk] at hs
      exact hs.congr (core_finish ..)
  | commit u =>
    rw [e] at h
    cases h
    exact effects_commit e
  | committed =>
    rw [e] at h
    cases h
    exact effects_finish (free e rfl) _
  | ended o =>
    rw [e] at h
    cases h

/-- What a step does is an effect on what the fleet keeps. -/
theorem effects_of_step (hp : f.Plain) (ht : f.tasks[t]? = some x) (h : f.step t = some g) :
    f.Effects t x g :=
  effects_of_step_of_log (hp.placed t x ht) (fun _ => hp.linked x.node) ht h

end

end Fleet

end SchemaCatalog
