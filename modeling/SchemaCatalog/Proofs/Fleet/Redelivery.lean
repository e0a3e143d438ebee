import SchemaCatalog.Proofs.Fleet.Frame
import SchemaCatalog.Proofs.Snapshot

/-!
# Updates that are handed over again

A node takes an update up as a whole or not at all: if the version before it is not registered, or
one of its entries cannot be applied, nothing has happened (`Taken.unchanged`). One whose version is
registered changes nothing either, and its notice has no events. Any other one adds one catalog,
which follows a registered one. The dispatcher gets the notice behind the others, unless it takes
nothing any more; then the events of the update are lost (`unheard`). So updates that were taken up
may be handed over again, in any order and any number of times (`redelivery`).
-/

namespace SchemaCatalog

/-- An update as it is handed over, with its time of commit and its token. -/
structure Parcel where
  update : Update
  commit : Timestamp
  token : Token

/-- The request by which a node is handed a parcel. -/
def Parcel.request (p : Parcel) : Request := .deliver p.update p.commit p.token

/-- The notices that the dispatcher of a node has still to see to. -/
def Node.notices (x : Node) : List Notice := (x.dispatch.map Dispatch.queue).getD []

/-- Whether the dispatcher of a node takes notices. -/
def Node.takesNotices (x : Node) : Bool := (x.dispatch.map Dispatch.accepting).getD false

/-- A notice, if the dispatcher of the node takes it. -/
def Node.noticed (x : Node) (z : List Notice) : List Notice := if x.takesNotices then z else []

/-- Why a history does not take an update up: the version before it is not registered, or an entry
cannot be applied to what those before it have made of the catalog of that version. -/
inductive History.Fault (y : History) (u : Update) : Error → Prop where
  | orphan : u.version.prev?.bind y.catalog? = none →
      Fault y u (.invariant (.noPredecessor u.version))
  | entry {previous c : Catalog} {i : Nat} {entry : Entry} {e : Error} :
      u.version.prev?.bind y.catalog? = some previous → u.entries[i]? = some entry →
      previous.applyEntries (u.entries.take i) = .ok c → c.applyEntry entry = .error e →
      Fault y u e

/-- What comes of a parcel that a node is handed. -/
structure Taken (f : Fleet) (n : Nat) (p : Parcel) (g : Fleet) (b : Session.Begun) : Prop where
  finished : b = .finished .done ∨ ∃ e, b = .finished (.failed e)
  failed : ∀ e, b = .finished (.failed e) ↔
    (f.node n).history.catalog? p.update.version = none ∧ (f.node n).history.Fault p.update e
  unchanged : ∀ e, b = .finished (.failed e) → g = f
  known : ((f.node n).history.catalog? p.update.version).isSome →
    (g.node n).history = (f.node n).history ∧
      (g.node n).notices = (f.node n).notices ++ (f.node n).noticed [⟨p.update.version, []⟩]
  added : b = .finished .done → (f.node n).history.catalog? p.update.version = none →
    ∃ w previous c, p.update.version.prev? = some w ∧
      (f.node n).history.catalog? w = some previous ∧
      p.update.successor p.commit previous = .ok c ∧
      (∀ v, (g.node n).history.catalog? v =
        if v = p.update.version then some c else (f.node n).history.catalog? v) ∧
      (∀ t : Timestamp, (g.node n).history.byActivation.get? t.raw.val =
        if t = c.activation then some c else (f.node n).history.byActivation.get? t.raw.val) ∧
      (g.node n).notices = (f.node n).notices ++
        (f.node n).noticed [⟨p.update.version, p.update.events p.token⟩]
  apart : ∃ y : Node, g = { f with nodes := f.nodes.modify n fun _ => y, ready := g.ready } ∧
    { y with history := (f.node n).history, dispatch := (f.node n).dispatch } = f.node n ∧
    y.takesNotices = (f.node n).takesNotices

/-- Nothing comes of parcels that a node is handed but notices without events. -/
structure Neutral (f : Fleet) (n : Nat) (ps : List Parcel) (g : Fleet)
    (bs : List Session.Begun) : Prop where
  finished : bs = ps.map fun _ => .finished .done
  history : (g.node n).history = (f.node n).history
  answers : ∀ q, (g.node n).history.answer q = (f.node n).history.answer q
  mark : (g.node n).mark = (f.node n).mark
  calls : g.calls = f.calls
  notices : (g.node n).notices =
    (f.node n).notices ++ (f.node n).noticed (ps.map fun p => ⟨p.update.version, []⟩)

/-! ## Entries that cannot be applied -/

/-- Entries cannot be applied if and only if the first so many can and the next one cannot. -/
lemma Catalog.applyEntries_error_iff {es : List Entry} {c : Catalog} {e : Error} :
    c.applyEntries es = .error e ↔ ∃ i entry d, es[i]? = some entry ∧
      c.applyEntries (es.take i) = .ok d ∧ d.applyEntry entry = .error e := by
  induction es generalizing c with
  | nil => exact ⟨nofun, fun ⟨_, _, _, h, _⟩ => by rw [List.getElem?_nil] at h; cases h⟩
  | cons entry es ih =>
    constructor
    · intro h
      rcases bind_error h with h | ⟨d, hd, h⟩
      · exact ⟨0, entry, c, rfl, rfl, h⟩
      · obtain ⟨i, entry', d', hi, hd', h'⟩ := ih.1 h
        refine ⟨i + 1, entry', d', hi, ?_, h'⟩
        rw [List.take_succ_cons, applyEntries, hd]
        exact hd'
    · rintro ⟨i, entry', d, hi, hd, h⟩
      cases i with
      | zero =>
        cases hi
        cases hd
        rw [applyEntries, h]
        rfl
      | succ i =>
        rw [List.take_succ_cons, applyEntries] at hd
        rw [applyEntries]
        cases first : c.applyEntry entry with
        | error e' =>
          rw [first] at hd
          cases hd
        | ok c' =>
          rw [first] at hd
          exact ih.2 ⟨i, entry', d, hi, hd, h⟩

/-! ## Histories -/

lemma Update.version_of_successor {u : Update} {commit : Timestamp} {previous c : Catalog}
    (h : u.successor commit previous = .ok c) : c.version = u.version := by
  rw [Committed.successor_eq ⟨u, commit⟩] at h
  exact Committed.successor_version h

namespace History

variable {y z : History} {u : Update} {commit : Timestamp} {token : Token} {notice : Notice}
  {e : Error}

lemma handle_known (h : (y.catalog? u.version).isSome) :
    y.handle u commit token = .ok (y, ⟨u.version, []⟩) := by
  rw [handle, if_pos h]

lemma handle_error_iff : y.handle u commit token = .error e ↔
    y.catalog? u.version = none ∧ y.Fault u e := by
  rw [handle]
  -- A version that is registered is no fault, and otherwise the catalog before it decides.
  cases new : y.catalog? u.version with
  | some c => exact iff_of_false (fun h => by cases h) (fun h => by cases h.1)
  | none =>
    rw [if_neg (by simp)]
    cases hp : u.version.prev?.bind y.catalog? with
    | none =>
      constructor
      · intro h
        cases h
        exact ⟨rfl, .orphan hp⟩
      · rintro ⟨-, h⟩
        cases h with
        | orphan _ => rfl
        | entry hq _ _ _ => cases hp.symm.trans hq
    | some previous =>
      dsimp only
      rw [Update.successor, Update.apply]
      cases ha : previous.applyEntries u.entries with
      | error e' =>
        constructor
        · intro h
          cases h
          obtain ⟨i, entry, c, hi, hc, he⟩ := Catalog.applyEntries_error_iff.1 ha
          exact ⟨rfl, .entry hp hi hc he⟩
        · rintro ⟨-, h⟩
          cases h with
          | orphan hq => cases hp.symm.trans hq
          | entry hq hi hc he =>
            cases hp.symm.trans hq
            cases ha.symm.trans (Catalog.applyEntries_error_iff.2 ⟨_, _, _, hi, hc, he⟩)
            rfl
      | ok c =>
        constructor
        · intro h
          cases h
        · rintro ⟨-, h⟩
          cases h with
          | orphan hq => cases hp.symm.trans hq
          | entry hq hi hc he =>
            cases hp.symm.trans hq
            cases ha.symm.trans (Catalog.applyEntries_error_iff.2 ⟨_, _, _, hi, hc, he⟩)

/-- The history gets the catalog that the update makes of the one before it. -/
lemma handle_new (h : y.handle u commit token = .ok (z, notice))
    (new : y.catalog? u.version = none) :
    ∃ w previous c, u.version.prev? = some w ∧ y.catalog? w = some previous ∧
      u.successor commit previous = .ok c ∧ z = y.register c ∧
      notice = ⟨u.version, u.events token⟩ := by
  rw [handle, new, if_neg (by simp)] at h
  cases hp : u.version.prev?.bind y.catalog? with
  | none =>
    rw [hp] at h
    cases h
  | some previous =>
    obtain ⟨w, hw, hprev⟩ := Option.bind_eq_some_iff.1 hp
    rw [hp] at h
    dsimp only at h
    split at h
    · rename_i c hc
      cases h
      exact ⟨w, previous, c, hw, hprev, hc, rfl, rfl⟩
    · cases h

/-- The version of an update that was taken up is registered. -/
lemma isSome_of_handle (h : y.handle u commit token = .ok (z, notice)) :
    (z.catalog? u.version).isSome := by
  cases new : y.catalog? u.version with
  | some c =>
    have known : (y.catalog? u.version).isSome := by
      rw [new]
      rfl
    rw [handle_known known] at h
    cases h
    exact known
  | none =>
    obtain ⟨w, previous, c, -, -, hc, rfl, -⟩ := handle_new h new
    rw [catalog?_register, if_pos (Update.version_of_successor hc).symm]
    rfl

end History

/-! ## Nodes -/

namespace Node

variable {x y : Node} {p : Parcel}

lemma notify_notices (x : Node) (z : Notice) : (x.notify z).notices = x.notices ++ x.noticed [z] ∧
    (x.notify z).takesNotices = x.takesNotices := by
  unfold notify noticed notices takesNotices
  cases hd : x.dispatch with
  | none => simp [hd]
  | some d => cases ha : d.accepting <;> simp [hd, ha]

/-- A node that was handed a parcel is the same up to its history and its dispatcher. -/
lemma apart_of_handle (h : x.handle p.update p.commit p.token = .ok y) :
    { y with history := x.history, dispatch := x.dispatch } = x ∧
      y.takesNotices = x.takesNotices := by
  obtain ⟨history, notice, -, rfl⟩ := handle_ok h
  refine ⟨?_, (notify_notices _ _).2⟩
  unfold notify
  split
  · split <;> rfl
  · rfl

end Node

namespace Fleet

variable {f : Fleet} {n : Nat} {p : Parcel} {skew : Duration}

lemma wakeDispatcher_eq (f : Fleet) (n : Nat) :
    f.wakeDispatcher n = { f with ready := (f.wakeDispatcher n).ready } := by
  unfold wakeDispatcher wake
  split
  · split
    · split <;> rfl
    · rfl
  · rfl

/-- A node in the place of itself changes nothing. -/
lemma modify_node (hn : n < f.nodes.length) : f.nodes.modify n (fun _ => f.node n) = f.nodes := by
  apply List.ext_getElem?
  intro m
  rw [List.getElem?_modify]
  split
  · rename_i e
    subst e
    rw [node, List.getD_eq_getElem?_getD, List.getElem?_eq_getElem hn]
    rfl
  · exact Option.map_id' ..

/-- A parcel is taken up by its node, or nothing happens. -/
lemma start_parcel (skew : Duration) (hn : n < f.nodes.length) (p : Parcel) :
    (∃ y, (f.node n).handle p.update p.commit p.token = .ok y ∧
        (Session.start f skew n p.request).2 = .finished .done ∧
        ((Session.start f skew n p.request).1.node n) = y ∧
        (Session.start f skew n p.request).1 =
          { f with
            nodes := f.nodes.modify n fun _ => y
            ready := (Session.start f skew n p.request).1.ready }) ∨
      ∃ e, (f.node n).history.handle p.update p.commit p.token = .error e ∧
        Session.start f skew n p.request = (f, .finished (.failed e)) := by
  rw [Parcel.request, Session.start, handle_node]
  cases hh : (f.node n).handle p.update p.commit p.token with
  | ok y =>
    left
    refine ⟨y, rfl, rfl, ?_, ?_⟩
    · dsimp only [Session.carriedOut]
      rw [node_congr (core_inj (core_wakeDispatcher ..)).2.2.2.2.2.1,
        node_modify (f := f) (n := n) rfl hn, if_pos rfl]
    · exact wakeDispatcher_eq ..
  | error e =>
    right
    refine ⟨e, ?_, rfl⟩
    unfold Node.handle at hh
    split at hh
    · cases hh
    · rename_i he
      cases hh
      exact he

/-- What comes of a parcel. -/
lemma taken (skew : Duration) (hn : n < f.nodes.length) (p : Parcel) :
    Taken f n p (Session.start f skew n p.request).1 (Session.start f skew n p.request).2 := by
  rcases start_parcel skew hn p with ⟨y, hh, hb, hy, hg⟩ | ⟨e, he, hs⟩
  · obtain ⟨history, notice, handled, rfl⟩ := Node.handle_ok hh
    obtain ⟨notices, -⟩ := Node.notify_notices { f.node n with history := history } notice
    have fields := Node.notify_fields { f.node n with history := history } notice
    refine ⟨.inl hb, fun e => ⟨fun h => ?_, fun h => ?_⟩, fun e h => ?_, fun known => ?_,
      fun _ new => ?_, ⟨_, hg, Node.apart_of_handle hh⟩⟩
    · cases hb.symm.trans h
    · cases handled.symm.trans (History.handle_error_iff.2 h)
    · cases hb.symm.trans h
    · rw [History.handle_known known] at handled
      cases handled
      rw [hy]
      exact ⟨fields.1, notices⟩
    · obtain ⟨w, previous, c, hw, hprev, hc, rfl, rfl⟩ := History.handle_new handled new
      rw [hy]
      refine ⟨w, previous, c, hw, hprev, hc, fun v => ?_, fun t => ?_, notices⟩
      · rw [fields.1, History.catalog?_register, Update.version_of_successor hc]
      · rw [fields.1, History.register, NatMap.get?_insert]
        by_cases ht : t = c.activation
        · rw [if_pos ht, if_pos (by rw [ht])]
        · rw [if_neg ht, if_neg fun e => ht (Timestamp.ext_val e)]
  · rw [hs]
    have fault := History.handle_error_iff.1 he
    refine ⟨.inr ⟨e, rfl⟩, fun e' => ⟨fun h => ?_, fun h => ?_⟩, fun _ _ => rfl, fun known => ?_,
      fun hb => (by cases hb), ⟨f.node n, ?_, rfl, rfl⟩⟩
    · cases h
      exact fault
    · cases he.symm.trans (History.handle_error_iff.2 h)
      rfl
    · rw [fault.1] at known
      cases known
    · rw [modify_node hn]

/-! ## Many parcels -/

/-- A node is handed parcels one after another. -/
def handAll (f : Fleet) (skew : Duration) (n : Nat) (ps : List Parcel) :
    Fleet × List Session.Begun :=
  Session.startAll f skew (ps.map fun p => (n, p.request))

lemma handAll_cons (f : Fleet) (skew : Duration) (n : Nat) (p : Parcel) (ps : List Parcel) :
    f.handAll skew n (p :: ps) =
      (((Session.start f skew n p.request).1.handAll skew n ps).1,
        (Session.start f skew n p.request).2 ::
          ((Session.start f skew n p.request).1.handAll skew n ps).2) :=
  rfl

/-- There are as many nodes as before, and what is registered on the node stays so. -/
lemma start_parcel_grows (skew : Duration) (hn : n < f.nodes.length) (p : Parcel) :
    n < (Session.start f skew n p.request).1.nodes.length ∧
      (f.node n).history.Grows ((Session.start f skew n p.request).1.node n).history := by
  rcases start_parcel skew hn p with ⟨y, hh, -, hy, hg⟩ | ⟨e, -, hs⟩
  · obtain ⟨history, notice, handled, rfl⟩ := Node.handle_ok hh
    rw [hy, hg]
    refine ⟨by simpa using hn, ?_⟩
    rw [(Node.notify_fields _ _).1]
    exact History.grows_of_handle handled
  · rw [hs]
    exact ⟨hn, .refl _⟩

lemma handAll_grows (hn : n < f.nodes.length) (ps : List Parcel) :
    n < (f.handAll skew n ps).1.nodes.length ∧
      (f.node n).history.Grows ((f.handAll skew n ps).1.node n).history := by
  induction ps generalizing f with
  | nil => exact ⟨hn, .refl _⟩
  | cons p ps ih =>
    obtain ⟨hn', grows⟩ := start_parcel_grows skew hn p
    rw [handAll_cons]
    exact ⟨(ih hn').1, grows.trans (ih hn').2⟩

/-- The version of a parcel that was taken up is registered in the end. -/
lemma isSome_of_handAll (hn : n < f.nodes.length) {ps : List Parcel} {i : Nat}
    (hp : ps[i]? = some p) (hb : (f.handAll skew n ps).2[i]? = some (.finished .done)) :
    (((f.handAll skew n ps).1.node n).history.catalog? p.update.version).isSome := by
  induction ps generalizing f i with
  | nil =>
    rw [List.getElem?_nil] at hp
    cases hp
  | cons q ps ih =>
    obtain ⟨hn', -⟩ := start_parcel_grows skew hn q
    rw [handAll_cons] at hb ⊢
    cases i with
    | succ i => exact ih hn' hp hb
    | zero =>
      cases hp
      refine (handAll_grows hn' ps).2.registered _ ?_
      rcases start_parcel skew hn p with ⟨y, hh, -, hy, -⟩ | ⟨e, -, hs⟩
      · obtain ⟨history, notice, handled, rfl⟩ := Node.handle_ok hh
        rw [hy, (Node.notify_fields _ _).1]
        exact History.isSome_of_handle handled
      · rw [hs] at hb
        cases hb

/-- Parcels whose versions are registered come to nothing but notices without events. -/
lemma neutral_of_known (hn : n < f.nodes.length) {ps : List Parcel}
    (known : ∀ p ∈ ps, ((f.node n).history.catalog? p.update.version).isSome) :
    Neutral f n ps (f.handAll skew n ps).1 (f.handAll skew n ps).2 := by
  -- The induction is on the parcels. The first one leaves the history, so the rest are known.
  induction ps generalizing f with
  | nil =>
    refine ⟨rfl, rfl, fun _ => rfl, rfl, rfl, ?_⟩
    rw [Node.noticed, List.map_nil, ite_self, List.append_nil]
    rfl
  | cons p ps ih =>
    have here := known p (List.mem_cons_self ..)
    obtain ⟨hn', -⟩ := start_parcel_grows skew hn p
    have taken := taken skew hn p
    have done : (Session.start f skew n p.request).2 = .finished .done := by
      rcases taken.finished with done | ⟨e, failed⟩
      · exact done
      · rw [((taken.failed e).1 failed).1] at here
        cases here
    obtain ⟨history, notices⟩ := taken.known here
    obtain ⟨y, hg, same, takes⟩ := taken.apart
    have node : (Session.start f skew n p.request).1.node n = y := by
      rw [hg]
      exact (node_modify (f := f) (n := n) rfl hn n).trans (if_pos rfl)
    have rest := ih (f := (Session.start f skew n p.request).1) hn' fun q hq => by
      rw [history]
      exact known q (List.mem_cons_of_mem _ hq)
    have history' := rest.history.trans history
    rw [handAll_cons]
    refine ⟨?_, history', fun q => by rw [history'], ?_, ?_, ?_⟩
    · rw [done, rest.finished]
      rfl
    · rw [rest.mark, node]
      have mark := congrArg Node.mark same
      exact mark
    · rw [rest.calls, hg]
    · rw [rest.notices, notices, List.append_assoc]
      congr 1
      rw [Node.noticed, Node.noticed, Node.noticed, node, takes]
      split
      · rfl
      · rfl

/-- A node takes a parcel up as a whole or not at all. Parcels of versions that it has taken up come
to nothing but notices without events, in whichever order and how often they are handed over
again. -/
theorem redelivery (f : Fleet) (skew : Duration) (n : Nat) (hn : n < f.nodes.length) :
    (∀ p : Parcel,
      Taken f n p (Session.start f skew n p.request).1 (Session.start f skew n p.request).2) ∧
      ∀ ps again : List Parcel,
        (∀ p ∈ again, ∃ (q : Parcel) (i : Nat), ps[i]? = some q ∧
          (f.handAll skew n ps).2[i]? = some (.finished .done) ∧
          p.update.version = q.update.version) →
        Neutral (f.handAll skew n ps).1 n again
          ((f.handAll skew n ps).1.handAll skew n again).1
          ((f.handAll skew n ps).1.handAll skew n again).2 := by
  refine ⟨taken skew hn, fun ps again handled => ?_⟩
  refine neutral_of_known (handAll_grows hn ps).1 fun p hp => ?_
  obtain ⟨q, i, hq, hb, version⟩ := handled p hp
  rw [version]
  exact isSome_of_handAll hn hq hb

/-- A node that was just started. -/
def started : Fleet := ((Session.oneNode Clock.unset Config.unset .shared).spawn 0 .start).run 12

/-- An update to make a zone, with further entries. -/
def zoned (v : Version) (id : ObjectId) (es : List Entry) (commit : Timestamp) : Parcel :=
  ⟨⟨v, Duration.zero, .newZone (Zone.ofName id "Z") :: es⟩, commit, ⟨v.number⟩⟩

/-- Two updates, and a third one whose last entry cannot be applied. -/
def parcels : List Parcel :=
  [zoned ⟨1⟩ 2 [.takeIds 1] ⟨70_000⟩, zoned ⟨2⟩ 3 [.takeIds 1] ⟨70_001⟩,
    zoned ⟨3⟩ 4 [.dropZone 9] ⟨70_002⟩]

/-- The two are handed over again, one of them twice and all at other times. -/
def repeats : List Parcel :=
  [zoned ⟨2⟩ 3 [.takeIds 1] ⟨90_000⟩, zoned ⟨1⟩ 2 [.takeIds 1] ⟨90_001⟩,
    zoned ⟨2⟩ 3 [.takeIds 1] ⟨90_002⟩]

theorem redelivery_repeats :
    (started.handAll .zero 0 parcels).2 =
        [.finished .done, .finished .done, .finished (.failed (.invariant (.noZone 9)))] ∧
      Neutral (started.handAll .zero 0 parcels).1 0 repeats
        ((started.handAll .zero 0 parcels).1.handAll .zero 0 repeats).1
        ((started.handAll .zero 0 parcels).1.handAll .zero 0 repeats).2 := by
  have results : (started.handAll .zero 0 parcels).2 =
      [.finished .done, .finished .done, .finished (.failed (.invariant (.noZone 9)))] := by
    decide +kernel
  refine ⟨results, (redelivery started .zero 0 (by decide +kernel)).2 _ _ fun p hp => ?_⟩
  rw [results]
  rw [repeats, List.mem_cons, List.mem_cons, List.mem_singleton] at hp
  rcases hp with rfl | rfl | rfl
  · exact ⟨_, 1, rfl, rfl, rfl⟩
  · exact ⟨_, 0, rfl, rfl, rfl⟩
  · exact ⟨_, 1, rfl, rfl, rfl⟩

/-- The node was halted after it was started. -/
def halted : Fleet := started.halt (.node 0) .stopped

/-- Once its dispatcher takes nothing any more, a node takes an update up whose events nobody is
told of. -/
theorem unheard :
    (halted.handAll .zero 0 (parcels.take 1)).2 = [.finished .done] ∧
      (halted.node 0).history.catalog? ⟨1⟩ = none ∧
      (((halted.handAll .zero 0 (parcels.take 1)).1.node 0).history.catalog? ⟨1⟩).isSome ∧
      (∀ p ∈ parcels.take 1, p.update.events p.token ≠ []) ∧
      ((halted.handAll .zero 0 (parcels.take 1)).1.node 0).notices = (halted.node 0).notices := by
  decide +kernel

end Fleet

end SchemaCatalog
