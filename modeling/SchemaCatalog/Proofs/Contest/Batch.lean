import SchemaCatalog.Proofs.Contest.Rounds
import SchemaCatalog.Proofs.Run.Quiescence

/-!
# Statements that are started together

Where nothing is under way on a node, all that is stored is done on it and nobody waits, whatever
happened before (`Run.service`). So statements that are started on it together and run first come,
first served come to one version each, in their order, after as many refusals as there are others
before them, and those that have too many others before them give up (`Run.contenders_in_order`).
-/

namespace SchemaCatalog

/-- Whether a task at this point is under way no more: it has ended, or waits for what is handed to
it. -/
def Point.isResting : Point → Bool
  | .deliver _ => true
  | .dispatch => true
  | .ended _ => true
  | _ => false

lemma Point.notice_of_isResting {p : Point} (h : p.isResting = true) : p.notice? = none := by
  cases p with
  | announce v events => cases h
  | gather event calls after => cases h
  | _ => rfl

lemma Point.timed_of_isResting {p : Point} (h : p.isResting = true) : Fleet.isTimed p = false := by
  cases p with
  | join t after => cases h
  | sleep target o => cases h
  | _ => rfl

lemma Point.dispatch_of_isResting {p : Point} (h : p.isResting = true)
    (works : p.dispatches = true) : p = .dispatch := by
  cases p with
  | dispatch => rfl
  | deliver d => cases works
  | ended o => cases works
  | _ => cases h

lemma Statement.fruitful_iff {st : Statement} {c : Catalog} :
    (st.isVacuous = false ∧ ∃ es ∈ (st.entries c).toOption, es ≠ [] ∧
      (c.applyEntries es).toOption.isSome = true) ↔ st.Fruitful c := by
  refine and_congr_right fun _ => exists_congr fun es => ?_
  cases st.entries c with
  | error a => simp [Except.toOption]
  | ok es' =>
    cases c.applyEntries es with
    | error e => simp [Except.toOption]
    | ok d => simp [Except.toOption]

instance (st : Statement) (c : Catalog) : Decidable (st.Fruitful c) :=
  decidable_of_iff _ Statement.fruitful_iff

namespace Fleet

/-- A node with a log of its own over the storage, which feeds it. The node was not halted, nothing
is under way, and none of those who listen to the node is at a gate. -/
structure Idle (f : Fleet) (n : Nat) : Prop where
  attended : f.Attended n
  shared : ∃ log, (f.node n).link = .shared log
  unhalted : (f.node n).mark.failure = none
  resting : ∀ x ∈ f.tasks, x.point.isResting = true
  stuck : f.Quiescent
  ungated : ∀ p ∈ (f.node n).publisher.registrations, (f.listener p.2).mode ≠ .gate

/-- The fleet in which these statements are started together on a node, once whoever was left in
line has had a turn. -/
def contend (f : Fleet) (skew : Duration) (n : Nat) (sts : List Statement) : Fleet :=
  (Session.startAll (f.run f.ready.length) skew (sts.map fun st => (n, .execute st))).1

/-- The tasks of statements that are started together. -/
def contenders (f : Fleet) (sts : List Statement) : List (Nat × Statement) :=
  (sts.zipIdx f.tasks.length).map fun x => (x.2, x.1)

section

variable {f : Fleet} {n t : Nat} {sts : List Statement} {skew : Duration}

/-- Who is in line does not matter to a task that rests. -/
lemma step_ready (resting : ∀ x ∈ f.tasks, x.point.isResting = true) (stuck : f.step t = none)
    (ready : List Nat) : ({ f with ready } : Fleet).step t = none := by
  cases hx : f.tasks[t]? with
  | none => simp only [step, hx]
  | some x =>
    have rests := resting x (List.mem_of_getElem? hx)
    cases hp : x.point with
    | ended o => simp only [step, hx, hp]
    | dispatch =>
      obtain ⟨d, hd, queue, accepting⟩ := (stuck_dispatch_iff hx hp).1 stuck
      exact (stuck_dispatch_iff (f := { f with ready }) hx hp).2 ⟨d, hd, queue, accepting⟩
    | deliver d =>
      obtain ⟨y, hy, queue, attached⟩ := (stuck_deliver_iff hx hp).1 stuck
      exact (stuck_deliver_iff (f := { f with ready }) hx hp).2 ⟨y, hy, queue, attached⟩
    | _ =>
      rw [hp] at rests
      cases rests

/-- Where nobody can go on, those in line leave it and nothing else happens. -/
lemma run_of_stuck (resting : ∀ x ∈ f.tasks, x.point.isResting = true) (stuck : f.Quiescent) :
    f.run f.ready.length = { f with ready := [] } := by
  generalize hr : f.ready = l
  induction l generalizing f with
  | nil =>
    have same : { f with ready := [] } = f := by rw [← hr]
    rw [same]
    rfl
  | cons t rest ih =>
    have turn : f.turn = some { f with ready := rest } := by
      rw [Fleet.turn, hr]
      simp only [stuck t]
    rw [List.length_cons, run, turn]
    exact ih resting (fun u => step_ready resting (stuck u) rest) rfl

lemma startAll_execute (f : Fleet) (skew : Duration) (n : Nat) (sts : List Statement) :
    (Session.startAll f skew (sts.map fun st => (n, .execute st))).1 =
      { f with
        tasks := f.tasks ++ sts.map fun st => ⟨n, .draft st 1, none⟩
        ready := f.ready ++ List.range' f.tasks.length sts.length } := by
  induction sts generalizing f with
  | nil => simp [Session.startAll]
  | cons st sts ih =>
    rw [List.map_cons, Session.startAll]
    simp only [Session.start, Session.startTask, ih, spawn]
    simp [List.range'_succ]

lemma Idle.contend_eq (h : f.Idle n) : f.contend skew n sts =
    { f with
      tasks := f.tasks ++ sts.map fun st => ⟨n, .draft st 1, none⟩
      ready := List.range' f.tasks.length sts.length } := by
  rw [contend, run_of_stuck h.resting h.stuck, startAll_execute]
  rfl

lemma contenders_fst : (f.contenders sts).map Prod.fst = List.range' f.tasks.length sts.length := by
  rw [contenders, List.map_map]
  exact List.zipIdx_map_snd ..

lemma mem_contenders {l : Nat × Statement} (h : l ∈ f.contenders sts) :
    ∃ j, sts[j]? = some l.2 ∧ l.1 = f.tasks.length + j := by
  obtain ⟨⟨st, t⟩, mem, rfl⟩ := List.mem_map.1 h
  obtain ⟨le, hj⟩ := List.mem_zipIdx_iff_le_and_getElem?_sub.1 mem
  exact ⟨t - f.tasks.length, hj, (Nat.add_sub_cancel' le).symm⟩

lemma getElem?_contenders {j : Nat} {st : Statement} (h : sts[j]? = some st) :
    (f.contenders sts)[j]? = some (f.tasks.length + j, st) := by
  simp [contenders, h]

end

/-! ## Ripe fleets -/

/-- Whether an update that is offered in front fits, and a statement that is drafted there is
fruitful. -/
def isRipe (f : Fleet) : Bool :=
  match f.front? with
  | none => true
  | some x =>
    (match x.point, (f.node x.node).history.latest with
      | .draft st _, .ok c => decide (st.Fruitful c)
      | _, _ => true) && x.point.offer?.all fun u => decide u.Fits

/-- Whether whoever is in front in the next turns is ripe, and nobody is after them. -/
def ripensIn : Nat → Fleet → Bool
  | 0, f => f.isRipe && f.turn.isNone
  | k + 1, f =>
    f.isRipe &&
      match f.turn with
      | some g => ripensIn k g
      | none => true

lemma ripe_of_isRipe {f : Fleet} (h : f.isRipe = true) : f.Ripe := by
  unfold isRipe at h
  split at h
  · rename_i none
    constructor
    case fruitful =>
      intro x st a c front
      cases none.symm.trans front
    case fits =>
      intro x u front
      cases none.symm.trans front
  · rename_i x found
    obtain ⟨drafts, offers⟩ := Bool.and_eq_true_iff.1 h
    constructor
    case fruitful =>
      intro y st a c front point latest
      obtain rfl := Option.some.inj (found.symm.trans front)
      simp only [point, latest] at drafts
      exact of_decide_eq_true drafts
    case fits =>
      intro y u front offer
      obtain rfl := Option.some.inj (found.symm.trans front)
      rw [offer] at offers
      exact of_decide_eq_true offers

lemma ripens_of_ripensIn {f : Fleet} {k : Nat} (h : f.ripensIn k = true) : f.Ripens := by
  intro m
  induction k generalizing f m with
  | zero =>
    obtain ⟨ripe, rests⟩ := Bool.and_eq_true_iff.1 h
    rw [run_of_none (Option.isNone_iff_eq_none.1 rests)]
    exact ripe_of_isRipe ripe
  | succ k ih =>
    obtain ⟨ripe, later⟩ := Bool.and_eq_true_iff.1 h
    cases m with
    | zero => exact ripe_of_isRipe ripe
    | succ m =>
      cases e : f.turn with
      | none =>
        rw [run_of_none e]
        exact ripe_of_isRipe ripe
      | some g =>
        simp only [e] at later
        simp only [run, e]
        exact ih later m

end Fleet

namespace Run

variable {r : Run} {i n : Nat} {sts : List Statement}

/-- A node on which nothing is under way has come to the end of the log, all versions are done on
it, and nobody waits. -/
lemma service (hm : ∀ j, (r.moves j).sparesMarkOf n = true) (idle : (r.fleet i).Idle n)
    (room : (r.fleet i).storage.log.length + 1 < 18_446_744_073_709_551_616) :
    ∃ c : Service, c.node = n ∧ c.hander < (r.fleet i).tasks.length ∧
      c.dispatcher < (r.fleet i).tasks.length ∧ c.hander ≠ c.dispatcher ∧
      c.Shows (r.fleet i) (.settled (r.fleet i).storage.log) := by
  have ht := r.tracks i
  obtain ⟨log, link⟩ := idle.shared
  have quiet : ∀ x ∈ (r.fleet i).tasks, x.point.notice? = none := fun x hx =>
    Point.notice_of_isResting (idle.resting x hx)
  have still : r.Still i n :=
    ⟨idle.attended.takes, Fleet.not_gathers quiet n, fun t _ _ _ => idle.stuck t, room⟩
  have reached := reached_of_feeds idle.attended.feeds still.stuck
  have done := still.done hm reached
  -- The dispatcher waits for a notice, and there is none.
  obtain ⟨d, hd, accepting⟩ := idle.attended.takes
  have dispatches := r.dispatches hm i
  obtain ⟨x, hx, hxn, -⟩ := dispatches.placed d hd
  have agenda := dispatches.agenda d x _ hd hx reached
  have point : x.point = .dispatch := by
    rcases agenda.alive accepting with works | ⟨lt, -⟩
    · exact Point.dispatch_of_isResting (idle.resting x (List.mem_of_getElem? hx)) works
    · rw [done] at lt
      exact absurd lt (Nat.not_succ_le_self _)
  have notices : d.queue = [] := by
    obtain ⟨d', hd', empty, -⟩ := (Fleet.stuck_dispatch_iff hx point).1 (idle.stuck d.task)
    rw [hxn, hd] at hd'
    cases hd'
    exact empty
  -- The delivery has handed all over.
  obtain ⟨e, y, z, feeding⟩ := idle.attended.feeds
  have queue := Fleet.queue_of_stuck feeding.task feeding.point feeding.delivery (idle.stuck _)
  have distinct : y.task ≠ d.task := by
    intro e
    have same := feeding.task
    rw [e, hx] at same
    obtain rfl := Option.some.inj same
    cases point.symm.trans feeding.point
  have unlisted : ∀ m l, ((r.fleet i).node n).mark.waiters.get? m = some l → l = [] := by
    intro m l hl
    rw [List.eq_nil_iff_forall_not_mem]
    intro t mem
    obtain ⟨w, v, p, hw, -, hp, -⟩ := (r.waiting i).listed n m t l hl mem
    have rests := idle.resting w (List.mem_of_getElem? hw)
    rw [hp] at rests
    cases rests
  refine ⟨⟨n, log, e, y.task, d.task, ((r.fleet i).node n).publisher.registrations⟩, rfl,
    (List.getElem?_eq_some_iff.1 feeding.task).1, (List.getElem?_eq_some_iff.1 hx).1, distinct, ?_⟩
  constructor
  case placed => exact reached.lt
  case node =>
    constructor
    case link => exact link
    case unhalted => exact idle.unhalted
    case gapless => exact agenda.marked
    case done => exact done
    case lists => exact Watermark.lists_nil unlisted
    case follows => exact reached.follows
    case dispatch =>
      obtain ⟨zs, yes, t⟩ := d
      obtain rfl : zs = [] := notices
      obtain rfl : yes = true := accepting
      exact hd
    case listeners => rfl
  case sound => exact ht.sound
  case log => rfl
  case sink => exact feeding.sink
  case delivery =>
    obtain ⟨receiver, queue', attached, t⟩ := y
    obtain rfl : receiver = .node n := feeding.receiver
    obtain rfl : queue' = [] := queue
    obtain rfl : attached = true := feeding.attached
    exact feeding.delivery
  case hander => exact ⟨z, feeding.task, feeding.node, feeding.point⟩
  case dispatcher => exact ⟨x, hx, hxn, point⟩
  case ungated => exact idle.ungated

/-- Statements that are started together contend. -/
lemma contends {c : Service} {f : Fleet} {log : List Committed} (hs : c.Shows f (.settled log))
    (hander : c.hander < f.tasks.length) (dispatcher : c.dispatcher < f.tasks.length)
    (distinct : c.hander ≠ c.dispatcher) (idle : f.Idle c.node) (skew : Duration)
    (sts : List Statement) :
    c.Steady [] (f.contend skew c.node sts) (.settled log) ∧
      c.Contends [] (f.contend skew c.node sts) (f.contenders sts) 0 := by
  rw [idle.contend_eq]
  refine ⟨⟨?_, ?_, List.not_mem_nil, List.not_mem_nil, distinct⟩, ?_⟩
  · exact hs.congr rfl rfl rfl rfl rfl (List.getElem?_append_left hander)
      (List.getElem?_append_left dispatcher)
  · refine ⟨fun t x hx _ => ?_, List.forall_mem_nil _⟩
    rcases List.mem_append.1 (List.mem_of_getElem? hx) with old | new
    · exact Point.timed_of_isResting (idle.resting x old)
    · obtain ⟨st, -, rfl⟩ := List.mem_map.1 new
      rfl
  · have later : ∀ l ∈ f.contenders sts, f.tasks.length ≤ l.1 := by
      intro l hl
      obtain ⟨j, -, e⟩ := Fleet.mem_contenders hl
      exact e ▸ Nat.le_add_right ..
    refine ⟨fun l hl => ⟨List.not_mem_nil, ?_, ?_⟩, ?_, fun l hl => .inl ⟨rfl, ?_⟩⟩
    · exact Nat.ne_of_gt (Nat.lt_of_lt_of_le hander (later l hl))
    · exact Nat.ne_of_gt (Nat.lt_of_lt_of_le dispatcher (later l hl))
    · rw [Fleet.contenders_fst]
      exact List.nodup_range'
    · obtain ⟨j, hj, e⟩ := Fleet.mem_contenders hl
      rw [e, List.getElem?_append_right (Nat.le_add_right ..), Nat.add_sub_cancel_left,
        List.getElem?_map, hj]
      rfl

/-- Let statements that ask for something that can be done be started together on a node on which
nothing is under way and whose versions nobody else marks. Run first come, first served, each of the
first ten is refused as often as there are others before it and then comes to the next version,
which it makes of the one before. The others are refused ten times and give up. -/
theorem contenders_in_order (r : Run) (hm : ∀ j, (r.moves j).sparesMarkOf n = true)
    (idle : (r.fleet i).Idle n) (skew : Duration) (sts : List Statement)
    (ripens : ((r.fleet i).contend skew n sts).Ripens)
    (room : (r.fleet i).storage.log.length + min sts.length maxAttempts + 1 <
      18_446_744_073_709_551_616) :
    ∃ m b d,
      let f := (r.fleet i).contend skew n sts
      (f.run m).turn = none ∧
      ((r.fleet i).node n).history.latest = .ok b ∧
      ((f.run m).node n).history.latest = .ok d ∧
      d.version.number.val = b.version.number.val + min sts.length maxAttempts ∧
      (f.run m).storage.committed = d.version ∧
      ∀ j st, sts[j]? = some st → (f.run m).Fares (f.answers m) b.version.number.val maxAttempts j
        ((r.fleet i).tasks.length + j) st := by
  obtain ⟨c, rfl, hander, dispatcher, distinct, shows⟩ := service hm idle (by omega)
  obtain ⟨steady, contends⟩ := contends shows hander dispatcher distinct idle skew sts
  obtain ⟨b, first⟩ := History.snapshot_of_ofLog shows.node.follows.ofLog
  have size : ((r.fleet i).contenders sts).length = sts.length := by simp [Fleet.contenders]
  obtain ⟨m, rest, rests, ends, count, fares⟩ := steady.contest_ends
    (by rw [idle.contend_eq, Fleet.contenders_fst]) contends ripens first (size ▸ room)
  obtain ⟨d, last⟩ := History.snapshot_of_ofLog ends.node.follows.ofLog
  have old : b.version.number.val = (r.fleet i).storage.log.length :=
    snapshot_version shows.sound.numbered (Nat.le_refl _) first
  have new : d.version.number.val = (r.fleet i).storage.log.length + rest.length :=
    (snapshot_version (ends.log ▸ ends.sound.numbered) (Nat.le_refl _) last).trans
      List.length_append
  have committed := ends.sound.committed
  rw [ends.log] at committed
  refine ⟨m, b, d, rests, shows.latest.trans first, ends.latest.trans last, ?_, ?_,
    fun j st hj => ?_⟩
  · rw [old, new, count, size]
  · exact Version.ext_val (committed.trans (List.length_append.trans new.symm))
  · rw [old]
    exact fares j _ (Fleet.getElem?_contenders hj)

/-- Eleven statements that give the default zone three partitions each. -/
def crowd : Fleet := (repartitioned.fleet 6).contend .zero 0 (List.replicate 11 repartition)

lemma repartitioned_idle : (repartitioned.fleet 6).Idle 0 where
  attended := ⟨⟨0, ⟨.node 0, [], true, 2⟩, ⟨0, .deliver 0, none⟩, by decide, by decide, rfl, rfl,
    by decide, rfl, rfl⟩, ⟨[], true, 1⟩, by decide, rfl⟩
  shared := ⟨0, by decide⟩
  unhalted := by decide
  resting := by decide
  stuck := by decide
  ungated := by decide

theorem contenders_in_order_crowd : ∃ m, (crowd.run m).turn = none ∧
    (crowd.run m).storage.committed = ⟨10⟩ ∧
    (∀ j < 10, Fleet.givenTo (crowd.answers m) (3 + j) = .replicate j false ++ [true]) ∧
    Fleet.givenTo (crowd.answers m) 13 = .replicate 10 false ∧
    (crowd.run m).outcome? 13 = some (.failed (.retryLimitExceeded 10)) := by
  have spares : ∀ i, (repartitioned.moves i).sparesMarkOf 0 = true :=
    moves_ofMoves (P := fun m => m.sparesMarkOf 0 = true) (by decide) rfl
  have ripens : crowd.Ripens := Fleet.ripens_of_ripensIn (k := 481) (by decide +kernel)
  obtain ⟨m, b, d, rests, first, last, grown, committed, fares⟩ :=
    contenders_in_order repartitioned spares repartitioned_idle .zero
      (List.replicate 11 repartition) ripens (by decide)
  have initial : ((repartitioned.fleet 6).node 0).history.latest = .ok Catalog.initial := rfl
  obtain rfl : Catalog.initial = b := Except.ok.inj (initial.symm.trans first)
  have tasks : (repartitioned.fleet 6).tasks.length = 3 := by decide
  rw [tasks] at fares
  have last := fares 10 repartition rfl
  refine ⟨m, rests, committed.trans (Version.ext_val grown), fun j hj => ?_, ?_⟩
  · exact ((fares j repartition (List.getElem?_replicate_of_lt (by omega))).comes hj).1
  · exact last.retires (Nat.le_refl 10)

/-- A statement: a zone is made with what is usual for zones. -/
def plainZone (name : String) : Statement := .createZone name ⟨none, none, none, none, none, none⟩

/-- A node is started, and somebody else marks the first version as done. -/
def misled : Run :=
  ofMoves Clock.unset
    [.join Config.unset none, .request 0 .zero .start, .step 0, .step 0, .step 0, .step 0,
      .request 0 .zero (.markDone ⟨1⟩)]
    (by decide +kernel)

lemma misled_idle : (misled.fleet 7).Idle 0 where
  attended := ⟨⟨0, ⟨.node 0, [], true, 2⟩, ⟨0, .deliver 0, none⟩, by decide, by decide, rfl, rfl,
    by decide, rfl, rfl⟩, ⟨[], true, 1⟩, by decide, rfl⟩
  shared := ⟨0, by decide⟩
  unhalted := by decide
  resting := by decide
  stuck := by decide
  ungated := by decide

/-- Two statements that make a zone each, on the node that was misled. -/
def rivals : Fleet := (misled.fleet 7).contend .zero 0 [plainZone "A", plainZone "B"]

/-- The first statement does not wait for the node to be handed its version, and does not find it.
The second one does not wait either, and has all its offers refused. -/
theorem rivals_fail : (misled.fleet 7).Idle 0 ∧ rivals.Ripens ∧
    ((misled.fleet 7).node 0).history.latest = .ok Catalog.initial ∧
    ∀ m, (rivals.run m).turn = none →
      (rivals.run m).outcome? 3 = some (.failed (.invariant (.unregistered ⟨1⟩))) ∧
      (rivals.run m).outcome? 4 = some (.failed (.retryLimitExceeded 10)) ∧
      ¬ (rivals.run m).Fares (rivals.answers m) 0 maxAttempts 0 3 (plainZone "A") ∧
      ¬ (rivals.run m).Fares (rivals.answers m) 0 maxAttempts 1 4 (plainZone "B") := by
  obtain ⟨ripe, rests, first, second⟩ : rivals.ripensIn 53 = true ∧
      (rivals.run 53).turn.isNone = true ∧
      (rivals.run 53).outcome? 3 = some (.failed (.invariant (.unregistered ⟨1⟩))) ∧
      (rivals.run 53).outcome? 4 = some (.failed (.retryLimitExceeded 10)) := by
    decide +kernel
  refine ⟨misled_idle, Fleet.ripens_of_ripensIn ripe, rfl, fun m hm => ?_⟩
  rw [Fleet.run_unique hm (Option.isNone_iff_eq_none.1 rests)]
  refine ⟨first, second, fun fares => ?_, fun fares => ?_⟩
  · obtain ⟨-, e, cat, -, -, -, -, come⟩ := fares.comes (by decide)
    exact come.not_failed first
  · obtain ⟨-, e, cat, -, -, -, -, come⟩ := fares.comes (by decide)
    exact come.not_failed second

end Run

end SchemaCatalog
