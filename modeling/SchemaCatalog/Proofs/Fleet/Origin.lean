import SchemaCatalog.Proofs.Fleet.Frame
import SchemaCatalog.Proofs.Storage

/-!
# Where offers come from

A task that has a statement to get accepted, or an update of its own to offer, has had it since it
was started on request. So all that is ever appended to the storage was asked for.
-/

namespace SchemaCatalog

/-- The update that a task at this point offers on its own account. -/
def Point.commit? : Point → Option Update
  | .commit u => some u
  | _ => none

lemma Point.commit?_of_offer {p : Point} (h : p.offer? = none) : p.commit? = none := by
  cases p with
  | commit u => cases h
  | _ => rfl

lemma Point.offer?_cases {p : Point} {u : Update} (h : p.offer? = some u) :
    (∃ st a, p = .submit st a u) ∨ p = .commit u := by
  cases p with
  | submit st a v =>
    cases h
    exact .inl ⟨st, a, rfl⟩
  | commit v =>
    cases h
    exact .inr rfl
  | _ => cases h

namespace Fleet

/-- Tasks that got their statements and updates from tasks of the fleet, or from a request. They
wait for versions that tasks of the fleet waited for, or for the one that is committed now, and
stop and start what tasks of the fleet were to stop and start, or what a request asks to. -/
structure Asked (f : Fleet) (m : Move) (committed : Version) (tasks : List Task) : Prop where
  statement : ∀ (s : Nat) (y : Task) (st : Statement), tasks[s]? = some y →
    y.point.statement? = some st →
    (∃ z, f.tasks[s]? = some z ∧ z.point.statement? = some st) ∨
      ∃ n skew, m = .request n skew (.execute st) ∧ n < f.nodes.length ∧ s = f.tasks.length
  commit : ∀ (s : Nat) (y : Task) (u : Update), tasks[s]? = some y → y.point.commit? = some u →
    (∃ z, f.tasks[s]? = some z ∧ z.point.commit? = some u) ∨
      ∃ n skew, m = .request n skew (.commit u)
  target : ∀ (s : Nat) (y : Task) (v : Version), tasks[s]? = some y → y.point.target? = some v →
    (∃ z, f.tasks[s]? = some z ∧ z.point.target? = some v) ∨ v = committed
  stops : ∀ (s : Nat) (y : Task), tasks[s]? = some y → y.point.stops = true →
    (∃ z, f.tasks[s]? = some z ∧ z.point.stops = true) ∨
      ∃ skew r, m = .request y.node skew r ∧ r.errand? = some y.point ∧ s = f.tasks.length
  starts : ∀ (s : Nat) (y : Task), tasks[s]? = some y → y.point.starts = true →
    (∃ z, f.tasks[s]? = some z ∧ z.point.starts = true) ∨
      ∃ skew r, m = .request y.node skew r ∧ r.errand? = some y.point ∧ s = f.tasks.length

section

variable {f g : Fleet} {m : Move} {l : List Task} {t n : Nat} {x : Task} {c : Version}

lemma asked_refl : f.Asked m c f.tasks :=
  ⟨fun _ y _ hy hs => .inl ⟨y, hy, hs⟩, fun _ y _ hy hc => .inl ⟨y, hy, hc⟩,
    fun _ y _ hy ht => .inl ⟨y, hy, ht⟩, fun _ y hy hs => .inl ⟨y, hy, hs⟩,
    fun _ y hy hs => .inl ⟨y, hy, hs⟩⟩

/-- A task that moves keeps its statement or has none any more, goes on to wait for the same version
or waits for the committed one, and stops and starts nothing that it did not. -/
lemma asked_modify {p : Point} (h : f.Asked m c l) (hx : f.tasks[t]? = some x)
    (hs : p.statement? = none ∨ p.statement? = x.point.statement?) (hc : p.commit? = none)
    (ht : ∀ v, p.target? = some v → x.point.target? = some v ∨ v = c)
    (hp : p.stops = true → x.point.stops = true)
    (hq : p.starts = true → x.point.starts = true) :
    f.Asked m c (l.modify t fun x => { x with point := p, signal := none }) := by
  constructor
  case statement =>
    intro s y st hy hst
    rcases modify_cases hy with ⟨rfl, z, -, rfl⟩ | ⟨-, hy⟩
    · rcases hs with hs | hs
      · rw [hs] at hst
        cases hst
      · exact .inl ⟨x, hx, hs.symm.trans hst⟩
    · exact h.statement s y st hy hst
  case commit =>
    intro s y u hy hu
    rcases modify_cases hy with ⟨-, z, -, rfl⟩ | ⟨-, hy⟩
    · rw [hc] at hu
      cases hu
    · exact h.commit s y u hy hu
  case target =>
    intro s y v hy hv
    rcases modify_cases hy with ⟨rfl, z, -, rfl⟩ | ⟨-, hy⟩
    · exact (ht v hv).imp (fun hv => ⟨x, hx, hv⟩) id
    · exact h.target s y v hy hv
  case stops =>
    intro s y hy hys
    rcases modify_cases hy with ⟨rfl, z, -, rfl⟩ | ⟨-, hy⟩
    · exact .inl ⟨x, hx, hp hys⟩
    · exact h.stops s y hy hys
  case starts =>
    intro s y hy hys
    rcases modify_cases hy with ⟨rfl, z, -, rfl⟩ | ⟨-, hy⟩
    · exact .inl ⟨x, hx, hq hys⟩
    · exact h.starts s y hy hys

/-- A task that goes on from a point with what it had there. -/
lemma asked_continues {p : Point} (h : f.Asked m c l) (hx : f.tasks[t]? = some x)
    (hp : p.Continues c x.point) :
    f.Asked m c (l.modify t fun x => { x with point := p, signal := none }) :=
  asked_modify h hx hp.statement (Point.commit?_of_offer hp.offer)
    (fun v hv => .inr (hp.target v hv)) hp.stops hp.starts

/-- A task that goes where it has nothing. -/
lemma asked_idle {p : Point} (h : f.Asked m c l) (hx : f.tasks[t]? = some x)
    (hp : p.isIdle = true) :
    f.Asked m c (l.modify t fun x => { x with point := p, signal := none }) :=
  asked_continues h hx (.of_isIdle hp)

lemma asked_told (s : Signal) (ts : List Nat) : f.Asked m c (f.tasks.mapIdx (told s ts)) := by
  -- What a task is told does not move it.
  have same : ∀ {i : Nat} {y : Task}, (f.tasks.mapIdx (told s ts))[i]? = some y →
      ∃ z : Task, f.tasks[i]? = some z ∧ y.point = z.point := by
    intro i y hy
    obtain ⟨z, hz, rfl⟩ := told_cases hy
    exact ⟨z, hz, (told_point s ts i z).1⟩
  constructor
  case statement =>
    intro i y st hy hst
    obtain ⟨z, hz, e⟩ := same hy
    exact .inl ⟨z, hz, e ▸ hst⟩
  case commit =>
    intro i y u hy hu
    obtain ⟨z, hz, e⟩ := same hy
    exact .inl ⟨z, hz, e ▸ hu⟩
  case target =>
    intro i y v hy hv
    obtain ⟨z, hz, e⟩ := same hy
    exact .inl ⟨z, hz, e ▸ hv⟩
  case stops =>
    intro i y hy hs
    obtain ⟨z, hz, e⟩ := same hy
    exact .inl ⟨z, hz, e ▸ hs⟩
  case starts =>
    intro i y hy hs
    obtain ⟨z, hz, e⟩ := same hy
    exact .inl ⟨z, hz, e ▸ hs⟩

/-- A new task has what it was asked for. -/
lemma asked_append {p : Point}
    (hs : ∀ st, p.statement? = some st →
      ∃ j skew, m = .request j skew (.execute st) ∧ j < f.nodes.length)
    (hc : ∀ u, p.commit? = some u → ∃ j skew, m = .request j skew (.commit u))
    (ht : p.target? = none)
    (hp : p.stops = true ∨ p.starts = true →
      ∃ skew r, m = .request n skew r ∧ r.errand? = some p) :
    f.Asked m c (f.tasks ++ [⟨n, p, none⟩]) := by
  constructor
  case statement =>
    intro s y st hy hst
    rcases concat_cases hy with hy | ⟨e, rfl⟩
    · exact .inl ⟨y, hy, hst⟩
    · obtain ⟨j, skew, hm, hj⟩ := hs st hst
      exact .inr ⟨j, skew, hm, hj, e⟩
  case commit =>
    intro s y u hy hu
    rcases concat_cases hy with hy | ⟨-, rfl⟩
    · exact .inl ⟨y, hy, hu⟩
    · exact .inr (hc u hu)
  case target =>
    intro s y v hy hv
    rcases concat_cases hy with hy | ⟨-, rfl⟩
    · exact .inl ⟨y, hy, hv⟩
    · rw [ht] at hv
      cases hv
  case stops =>
    intro s y hy hys
    rcases concat_cases hy with hy | ⟨e, rfl⟩
    · exact .inl ⟨y, hy, hys⟩
    · obtain ⟨skew, q, hm, hq⟩ := hp (.inl hys)
      exact .inr ⟨skew, q, hm, hq, e⟩
  case starts =>
    intro s y hy hys
    rcases concat_cases hy with hy | ⟨e, rfl⟩
    · exact .inl ⟨y, hy, hys⟩
    · obtain ⟨skew, q, hm, hq⟩ := hp (.inr hys)
      exact .inr ⟨skew, q, hm, hq, e⟩

/-- A new task that has nothing. -/
lemma asked_spawn {p : Point} (h : p.isIdle = true) :
    f.Asked m c (f.tasks ++ [⟨n, p, none⟩]) := by
  have idle : p.Continues c (.ended .done) := .of_isIdle h
  have statement : p.statement? = none := idle.statement.elim id id
  refine asked_append (fun _ hs => ?_) (fun _ hc => ?_) ?_
    fun hs => hs.elim (fun hs => nomatch idle.stops hs) fun hs => nomatch idle.starts hs
  · rw [statement] at hs
    cases hs
  · rw [Point.commit?_of_offer idle.offer] at hc
    cases hc
  · simp only [Point.isIdle, Bool.and_eq_true, Option.isNone_iff_eq_none] at h
    exact h.1.1.2

/-- No step gives a task anything to offer. -/
lemma asked_of_effect {k : Fleet} (hx : f.tasks[t]? = some x) (h : f.Effect t x k) :
    f.Asked m k.storage.committed k.tasks := by
  -- Only a task that appended an update goes on to wait for a new version, the committed one. All
  -- others wait for the one they did, or for none.
  cases h with
  | idle _ => exact asked_refl
  | still _ _ hp _ _ => exact asked_continues asked_refl hx hp
  | draft hd _ _ _ _ =>
    exact asked_modify asked_refl hx (.inr (by rw [hd]; rfl)) rfl (fun _ h => nomatch h) nofun
      nofun
  | append acc _ hp _ =>
    rcases hp with rfl | rfl
    · exact asked_modify asked_refl hx (.inl rfl) rfl
        (fun _ h => .inr ((Option.some.inj h).symm.trans (Storage.committed_append _ _ acc).symm))
        nofun nofun
    · exact asked_idle asked_refl hx rfl
  | @enqueue v q hq _ =>
    have same : (Point.awaiting v q).statement? = (Point.await v q).statement? ∧
        (Point.awaiting v q).target? = (Point.await v q).target? := by
      cases q <;> exact ⟨rfl, rfl⟩
    refine asked_modify asked_refl hx (.inr ?_) rfl (fun w hw => .inl ?_) nofun nofun
    · rw [hq, same.1]
    · rw [hq, ← same.2]
      exact hw
  | start _ _ _ hp _ => exact asked_continues (asked_spawn rfl) hx hp
  | beginDelivery _ _ _ _ _ hp => exact asked_continues (asked_spawn rfl) hx hp
  | detach _ _ _ hp => exact asked_continues asked_refl hx hp
  | release _ _ hp => exact asked_continues asked_refl hx hp
  | closeMark _ => exact asked_idle (asked_told _ _) hx rfl
  | hand => exact asked_refl
  | note => exact asked_refl
  | halt => exact asked_idle (asked_told _ _) hx rfl
  | haltRecorder => exact asked_idle asked_refl hx rfl
  | endDelivery => exact asked_idle asked_refl hx rfl
  | takeNotice => exact asked_idle asked_refl hx rfl
  | endDispatch => exact asked_idle asked_refl hx rfl
  | call => exact asked_idle asked_refl hx rfl
  | wait => exact asked_idle asked_refl hx rfl
  | called => exact asked_idle asked_refl hx rfl
  | done => exact asked_idle (asked_told _ _) hx rfl
  | overflow => exact asked_idle asked_refl hx rfl

/-- The storage of `g` is that of `f` with the offer of a task, which goes on from it. -/
structure Stores (f g : Fleet) (t : Nat) (x : Task) (u : Update) : Prop where
  accepts : f.storage.accepts u
  offer : x.point.offer? = some u
  storage : g.storage = f.storage.append u f.clock.tick.current accepts
  next : ∃ y, g.tasks[t]? = some y ∧
    (y.point = .await u.version .saved ∨ y.point = .ended (.accepted true))

/-- Only an offer that is accepted changes the storage. -/
lemma storage_of_effect {k : Fleet} (hx : f.tasks[t]? = some x) (h : f.Effect t x k) :
    k.storage = f.storage ∨ ∃ u, f.Stores k t x u := by
  cases h with
  | @append u p nodes acc hu hp _ =>
    refine .inr ⟨u, acc, hu, rfl, { x with point := p, signal := none }, ?_, hp⟩
    have moved : (f.moveTo t p).tasks[t]? = some { x with point := p, signal := none } := by
      simp only [moveTo_fields, List.getElem?_modify, hx]
      simp
    exact moved
  | _ => exact .inl rfl

lemma storage_of_change {k : Fleet} (h : f.Change m k) : k.storage = f.storage ∨
    ∃ t x u, m = .step t ∧ f.tasks[t]? = some x ∧ f.Stores k t x u := by
  cases h with
  | step hx _ he =>
    rcases storage_of_effect hx he with h | ⟨u, h⟩
    · exact .inl h
    · exact .inr ⟨_, _, u, rfl, hx, h⟩
  | _ => exact .inl rfl

/-- What tasks have after a move, they had before or were just asked for. -/
theorem asked_of_change {k : Fleet} (h : f.Change m k) :
    f.Asked m k.storage.committed k.tasks := by
  cases h with
  | step hx _ he => exact asked_of_effect hx he
  | stuck _ => exact asked_refl
  | still _ _ => exact asked_refl
  | turn => exact asked_refl
  | spawn hn _ hr =>
    cases hr with
    | execute st =>
      refine asked_append (fun st' h => ?_) (fun _ h => nomatch h) rfl fun h => h.elim nofun nofun
      cases h
      exact ⟨_, _, rfl, hn⟩
    | commit u =>
      refine asked_append (fun _ h => nomatch h) (fun u' h => ?_) rfl fun h => h.elim nofun nofun
      cases h
      exact ⟨_, _, rfl⟩
    | other ho hs ht hp =>
      refine asked_append (fun _ h => ?_) (fun _ h => ?_) ht fun h => ⟨_, _, rfl, hp h⟩
      · rw [hs] at h
        cases h
      · rw [Point.commit?_of_offer ho] at h
        cases h
  | register _ _ => exact asked_refl
  | join _ _ => exact asked_refl
  | markDone _ _ => exact asked_told _ _
  | overflow _ _ => exact asked_refl
  | failMark _ => exact asked_told _ _

end

end Fleet

end SchemaCatalog
