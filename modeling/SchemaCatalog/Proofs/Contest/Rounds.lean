import SchemaCatalog.Proofs.Contest.Settling

/-!
# Rounds of a contest

Statements that contend on a node do so in rounds. In each the first one in line gets its update
stored (`Service.Steady.first`) and the others are refused (`Service.Steady.others`). When that
update is done they are all in line again in the same order, and the first one, which has come to
its version, is out (`Service.Steady.arrives`). So each statement was refused as often as there were
others before it, and those that were refused too often give up (`Service.Steady.contest`).
-/

namespace SchemaCatalog

/-- All that is stored is done, and nobody waits. -/
def View.settled (log : List Committed) : View :=
  ⟨log, log.length, log.length, [], [], .dispatch, []⟩

namespace Fleet

/-- The answers that a task got among these. -/
def givenTo (as : List (Nat × Bool)) (t : Nat) : List Bool :=
  (as.filter fun a => a.1 = t).map Prod.snd

/-- The answers of a round: the first one got its update stored and the others were refused. -/
def roundOf (t : Nat) (ts : List Nat) : List (Nat × Bool) := (t, true) :: ts.map fun u => (u, false)

/-- What has become of a statement that had `j` others before it when the latest version was `b`. If
`r` offers allow it, it was refused `j` times and then came to the next version behind those of the
others, which it makes of the one before. If they do not, all its offers were refused and it gave
up. -/
structure Fares (g : Fleet) (as : List (Nat × Bool)) (b r j t : Nat) (st : Statement) : Prop where
  comes : j < r → givenTo as t = .replicate j false ++ [true] ∧
    ∃ e cat, g.storage.log[b + j]? = some e ∧ e.update.version.number.val = b + j + 1 ∧
      snapshot g.storage.log (b + j) = .ok cat ∧ st.entries cat = .ok e.update.entries ∧
      g.Commits t e.update.version
  retires : r ≤ j → givenTo as t = .replicate r false ∧
    g.outcome? t = some (.failed (.retryLimitExceeded (Word64.capped maxAttempts)))

/-- The statement was refused so often and may go on. -/
def Poised (f : Fleet) (n t : Nat) (st : Statement) (a : Nat) : Prop :=
  (a = 0 ∧ f.tasks[t]? = some ⟨n, .draft st 1, none⟩) ∨
    ∃ v, f.tasks[t]? = some ⟨n, .awaiting v (.retry st a), some .released⟩

section

variable {f g : Fleet} {as bs : List (Nat × Bool)} {aside ts : List Nat} {n t u a b r j : Nat}
  {st : Statement} {log rest : List Committed} {e : Committed} {cat : Catalog}

lemma Poised.congr (h : f.Poised n t st a) (e : g.tasks[t]? = f.tasks[t]?) : g.Poised n t st a := by
  rcases h with ⟨first, hx⟩ | ⟨v, hx⟩
  · exact .inl ⟨first, e.trans hx⟩
  · exact .inr ⟨v, e.trans hx⟩

lemma givenTo_append : givenTo (as ++ bs) t = givenTo as t ++ givenTo bs t := by
  rw [givenTo, List.filter_append, List.map_append]
  rfl

/-- Who is not among those who were answered got no answer. -/
lemma givenTo_of_not_mem (h : t ∉ as.map Prod.fst) : givenTo as t = [] := by
  rw [givenTo, List.map_eq_nil_iff, List.filter_eq_nil_iff]
  intro a ha e
  exact h (of_decide_eq_true e ▸ List.mem_map_of_mem ha)

lemma givenTo_refusals (nodup : ts.Nodup) (mem : t ∈ ts) :
    givenTo (ts.map fun u => (u, false)) t = [false] := by
  induction ts with
  | nil => cases mem
  | cons u us ih =>
    obtain ⟨absent, nodup⟩ := List.nodup_cons.1 nodup
    rw [List.map_cons, ← List.singleton_append, givenTo_append]
    by_cases e : u = t
    · subst e
      have others : givenTo (us.map fun w => (w, false)) u = [] :=
        givenTo_of_not_mem (by simpa using absent)
      rw [others]
      simp [givenTo]
    · rw [ih nodup ((List.mem_cons.1 mem).resolve_left (Ne.symm e))]
      simp [givenTo, e]

lemma givenTo_roundOf_first (absent : t ∉ ts) : givenTo (roundOf t ts) t = [true] := by
  have others : givenTo (ts.map fun w => (w, false)) t = [] :=
    givenTo_of_not_mem (by simpa using absent)
  rw [roundOf, ← List.singleton_append, givenTo_append, others]
  simp [givenTo]

lemma givenTo_roundOf_other (nodup : (u :: ts).Nodup) (mem : t ∈ ts) :
    givenTo (roundOf u ts) t = [false] := by
  obtain ⟨absent, nodup⟩ := List.nodup_cons.1 nodup
  have ne : u ≠ t := by
    rintro rfl
    exact absent mem
  rw [roundOf, ← List.singleton_append, givenTo_append, givenTo_refusals nodup mem]
  simp [givenTo, ne]

/-! ## How one fares -/

/-- A statement that had no others before it comes to the next version, if it may make an offer. -/
lemma fares_first (more : 0 < r) (stored : g.storage.log = log ++ e :: rest)
    (version : e.update.version.number.val = log.length + 1)
    (latest : snapshot log log.length = .ok cat) (entries : st.entries cat = .ok e.update.entries)
    (come : g.Commits t e.update.version) (accepted : givenTo as t = [true])
    (silent : t ∉ bs.map Prod.fst) : g.Fares (as ++ bs) log.length r 0 t st where
  comes _ := by
    refine ⟨?_, e, cat, ?_, version, ?_, entries, come⟩
    · rw [givenTo_append, accepted, givenTo_of_not_mem silent]
      rfl
    · simp [stored]
    · rw [stored, Nat.add_zero, snapshot_append _ (Nat.le_refl _), latest]
  retires none := absurd more (Nat.not_lt.2 none)

/-- A statement that was refused once fares like one that has one fewer before it. -/
lemma Fares.succ (h : g.Fares as (b + 1) r j t st) (refused : givenTo bs t = [false]) :
    g.Fares (bs ++ as) b (r + 1) (j + 1) t st where
  comes lt := by
    obtain ⟨given, e, cat, stored, rest⟩ := h.comes (Nat.lt_of_succ_lt_succ lt)
    have place : b + (j + 1) = b + 1 + j := by omega
    rw [place]
    refine ⟨?_, e, cat, stored, rest⟩
    rw [givenTo_append, refused, given]
    rfl
  retires le := by
    obtain ⟨given, outcome⟩ := h.retires (Nat.le_of_succ_le_succ le)
    refine ⟨?_, outcome⟩
    rw [givenTo_append, refused, given]
    rfl

/-- It fares the same once those who have come to their versions have ended. -/
lemma Fares.apart (h : f.Fares as b r j t st) (calm : f.Calm aside)
    (apart : f.Apart g aside []) (storage : g.storage = f.storage) : g.Fares as b r j t st where
  comes lt := by
    obtain ⟨given, e, cat, stored, version, registered, entries, come⟩ := h.comes lt
    rw [storage]
    refine ⟨given, e, cat, stored, version, registered, entries, ?_⟩
    by_cases ht : t ∈ aside
    · exact apart.commits t ht _ come
    · exact come.congr (apart.tasks t ht List.not_mem_nil)
  retires le := by
    obtain ⟨given, outcome⟩ := h.retires le
    refine ⟨given, ?_⟩
    by_cases ht : t ∈ aside
    · obtain ⟨v, hv⟩ := calm.commits t ht
      exact absurd outcome hv.not_failed
    · rw [outcome?, apart.tasks t ht List.not_mem_nil]
      exact outcome

end

end Fleet

namespace Service

/-- These tasks do not serve the node, and each carries out its statement, which was refused so
often. -/
structure Contends (c : Service) (aside : List Nat) (f : Fleet) (ls : List (Nat × Statement))
    (a : Nat) : Prop where
  outside : ∀ l ∈ ls, c.Outside aside l.1
  nodup : (ls.map Prod.fst).Nodup
  poised : ∀ l ∈ ls, f.Poised c.node l.1 l.2 a

/-- The first one in line was answered yes and the others no. With that update stored and done it
has come to the new version and is out, and the others are in line again, refused once more. -/
structure Round (c : Service) (aside : List Nat) (f g : Fleet) (t : Nat)
    (ls : List (Nat × Statement)) (a : Nat) (log : List Committed) (e : Committed) : Prop where
  leads : f.RunsTo g (Fleet.roundOf t (ls.map Prod.fst))
  steady : c.Steady (t :: aside) g (.settled (log ++ [e]))
  line : g.line (t :: aside) = ls.map Prod.fst
  contends : c.Contends (t :: aside) g ls (a + 1)
  commits : ∀ u ∈ aside, ∀ v, f.Commits u v → g.Commits u v
  come : g.Commits t e.update.version
  version : e.update.version.number.val = log.length + 1
  latest : ∃ d, snapshot (log ++ [e]) (log.length + 1) = .ok d

section

variable {c : Service} {aside q ts : List Nat} {f g h : Fleet} {s : View} {t a : Nat}
  {st : Statement} {ls : List (Nat × Statement)} {l : Nat × Statement} {cat d : Catalog}
  {v : Version} {log : List Committed} {target : Timestamp}

lemma Contends.head (h : c.Contends aside f ((t, st) :: ls) a) :
    c.Outside aside t ∧ f.Poised c.node t st a ∧ t ∉ ls.map Prod.fst :=
  ⟨h.outside _ List.mem_cons_self, h.poised _ List.mem_cons_self, (List.nodup_cons.1 h.nodup).1⟩

lemma Contends.distinct (h : c.Contends aside f ((t, st) :: ls) a) : ∀ l ∈ ls, l.1 ∉ [t] :=
  fun _ mem e => h.head.2.2 (List.mem_singleton.1 e ▸ List.mem_map_of_mem mem)

lemma Contends.tail (h : c.Contends aside f (l :: ls) a) : c.Contends aside f ls a where
  outside l hl := h.outside l (List.mem_cons_of_mem _ hl)
  nodup := (List.nodup_cons.1 h.nodup).2
  poised l hl := h.poised l (List.mem_cons_of_mem _ hl)

/-- The first one moves, and the others are as they were. -/
lemma Contends.others (h : c.Contends aside f ((t, st) :: ls) a) (apart : f.Apart g aside [t]) :
    c.Contends aside g ls a where
  outside := h.tail.outside
  nodup := h.tail.nodup
  poised l hl := (h.tail.poised l hl).congr
    (apart.tasks l.1 (h.tail.outside l hl).aside (h.distinct l hl))

/-! ## The turn of one -/

/-- The first one in line comes to the front, and is to be drafted if it was not refused too
often. -/
lemma Steady.redrafts (hs : c.Steady aside f s) (hl : f.line aside = t :: q)
    (ht : c.Outside aside t) (poised : f.Poised c.node t st a) (more : a < maxAttempts) :
    ∃ g, c.Comes aside [t] f [] g s ∧ g.Ahead aside t q ∧
      g.tasks[t]? = some ⟨c.node, .draft st (a + 1), none⟩ := by
  obtain ⟨g, comes, ahead⟩ := hs.comes hl
  have poised := poised.congr (comes.apart.tasks t ht.aside List.not_mem_nil)
  have comes : c.Comes aside [t] f [] g s := comes.mono (List.forall_mem_nil _)
  rcases poised with ⟨rfl, hx⟩ | ⟨v, hx⟩
  · exact ⟨g, comes, ahead, hx⟩
  · have step : g.step t = some (g.moveTo t (.draft st (a + 1))) := by
      simp only [Fleet.step, hx, Fleet.stepAwaiting, Fleet.afterVersion, if_pos more]
    obtain ⟨moves, ahead, hx⟩ := comes.steady.moves ahead ht hx rfl step rfl
    exact ⟨_, comes.trans moves, ahead, hx⟩

/-- The first one in line gets its update stored. -/
lemma Steady.first (hs : c.Steady aside f s) (hl : f.line aside = t :: q) (ht : c.Outside aside t)
    (poised : f.Poised c.node t st a) (more : a < maxAttempts) (ripens : f.Ripens)
    (latest : snapshot s.log s.known = .ok cat) (all : s.known = s.log.length)
    (done : s.done = s.known) (room : s.known + 1 < 18_446_744_073_709_551_616)
    (absent : c.hander ∉ q) :
    ∃ g e, c.Comes aside [t] f [(t, true)] g { s with
        log := s.log ++ [e], handing := s.handing ++ [e.stored], waiting := s.waiting ++ [t] } ∧
      g.line aside = q ++ [c.hander] ∧
      g.tasks[t]? = some ⟨c.node, .awaiting e.update.version .saved, none⟩ ∧
      e.update.version.number.val = s.known + 1 ∧ st.entries cat = .ok e.update.entries ∧
      ∃ d, cat.applyEntries e.update.entries = .ok d := by
  obtain ⟨g, redrafts, ahead, task⟩ := hs.redrafts hl ht poised more
  obtain ⟨h, e, wins, rest⟩ := redrafts.steady.wins ahead ht (ripens.later redrafts.leads) task
    latest all done room absent
  exact ⟨h, e, redrafts.trans wins, rest⟩

/-- The others are refused in turn, and wait behind each other for the next version. -/
lemma Steady.others (hs : c.Steady aside f s) (hl : f.line aside = ls.map Prod.fst ++ q)
    (contends : c.Contends aside f ls a) (more : a < maxAttempts) (ripens : f.Ripens)
    (latest : snapshot s.log s.known = .ok cat) (all : s.known + 1 = s.log.length)
    (done : s.done = s.known) (room : s.known + 1 < 18_446_744_073_709_551_616) :
    ∃ g, c.Comes aside (ls.map Prod.fst) f ((ls.map Prod.fst).map fun u => (u, false)) g
        { s with waiting := s.waiting ++ ls.map Prod.fst } ∧
      g.line aside = q ∧ ∀ l ∈ ls, ∃ v,
        g.tasks[l.1]? = some ⟨c.node, .awaiting v (.retry l.2 (a + 1)), none⟩ := by
  induction ls generalizing f s with
  | nil =>
    have same : { s with waiting := s.waiting ++ [] } = s := by rw [List.append_nil]
    exact ⟨f, ⟨.refl f, same.symm ▸ hs, .refl ..⟩, hl, List.forall_mem_nil _⟩
  | cons l ls ih =>
    obtain ⟨t, st⟩ := l
    obtain ⟨ht, poised, absent⟩ := contends.head
    obtain ⟨g₁, redrafts, ahead, task⟩ := hs.redrafts hl ht poised more
    obtain ⟨g₂, v, loses, line, task⟩ := redrafts.steady.loses ahead ht
      (ripens.later redrafts.leads) task latest all done room
    have first : c.Comes aside [t] f [(t, false)] g₂ { s with waiting := s.waiting ++ [t] } :=
      redrafts.trans loses
    obtain ⟨g₃, others, line, tasks⟩ := ih first.steady line (contends.others first.apart)
      (ripens.later first.leads) latest all done room
    refine ⟨g₃, ?_, line, ?_⟩
    · have both := (first.mono fun u hu => List.mem_singleton.1 hu ▸ List.mem_cons_self).trans
        (others.mono fun u => List.mem_cons_of_mem t)
      rwa [List.append_assoc] at both
    · rintro l (_ | ⟨_, mem⟩)
      · exact ⟨v, (others.apart.tasks t ht.aside absent).trans task⟩
      · exact tasks l mem

/-- The first one in line, which knows that its version is done, agrees that version up. -/
lemma Steady.looksUp (hs : c.Steady aside f s) (hl : f.line aside = t :: q) (ht : c.Outside aside t)
    (hx : f.tasks[t]? = some ⟨c.node, .awaiting v .saved, some .released⟩)
    (le : v.number.val ≤ s.known) (registered : snapshot s.log v.number.val = .ok d) :
    ∃ g target, c.Comes aside [t] f [] g s ∧ g.Ahead aside t q ∧
      g.tasks[t]? = some ⟨c.node, .readClock target (.version v), none⟩ := by
  obtain ⟨g, comes, ahead⟩ := hs.comes hl
  have hx := (comes.apart.tasks t ht.aside List.not_mem_nil).trans hx
  have step : g.step t = some (g.moveTo t (.confirm v)) := by
    simp only [Fleet.step, hx, Fleet.stepAwaiting, Fleet.afterVersion]
  obtain ⟨released, ahead, hx⟩ := comes.steady.moves ahead ht hx rfl step rfl
  generalize g.moveTo t (.confirm v) = h at released ahead hx
  have shows := released.steady.shows
  have found : (h.node c.node).history.catalog? v = some d :=
    (shows.node.follows.catalog? (shows.log ▸ shows.sound.numbered) v d).2 ⟨le, registered⟩
  have step : h.step t = some (h.moveTo t
      (.readClock (d.activation.everywhere (h.node c.node).skew) (.version v))) := by
    simp only [Fleet.step, hx, Fleet.stepConfirm, found]
  obtain ⟨confirmed, ahead, hx⟩ := released.steady.moves ahead ht hx rfl step rfl
  exact ⟨_, _, (comes.mono (List.forall_mem_nil _)).trans (released.trans confirmed), ahead, hx⟩

/-- The one in front, which has found its version, comes to it and is out. -/
lemma Steady.arrives (hs : c.Steady aside f s) (ahead : f.Ahead aside t q) (ht : c.Outside aside t)
    (hx : f.tasks[t]? = some ⟨c.node, .readClock target (.version v), none⟩) (absent : t ∉ q) :
    ∃ g, f.RunsTo g [] ∧ c.Steady (t :: aside) g s ∧ g.line (t :: aside) = q ∧
      f.Apart g aside [t] ∧ g.Commits t v := by
  let k := f.setClock f.clock.tick
  have calm : k.Calm aside := hs.calm.congr (by simp [k])
  have still : k.tasks = f.tasks := by simp [k]
  -- The task ends or sleeps according to what the clock says.
  obtain ⟨p, step, hp⟩ : ∃ p, f.step t = some (k.moveTo t p) ∧
      (p = .ended (.version v) ∨ ∃ target, p = .sleep target (.version v)) := by
    by_cases time : target ≤ k.clock.current
    · refine ⟨.ended (.version v), ?_, .inl rfl⟩
      simp only [Fleet.step, hx, Fleet.stepReadClock]
      rw [if_pos time, calm.finish]
    · refine ⟨.sleep target (.version v), ?_, .inr ⟨target, rfl⟩⟩
      simp only [Fleet.step, hx, Fleet.stepReadClock]
      rw [if_neg time]
  have commits : (k.moveTo t p).Commits t v :=
    ⟨_, Fleet.getElem?_moveTo (still ▸ hx : k.tasks[t]? = _) p, hp⟩
  have apart : f.Apart (k.moveTo t p) aside [t] :=
    ((Fleet.Apart.refl f aside [t]).congr still).trans (Fleet.apart_moveTo ht.aside p)
  have front : (k.moveTo t p).Ahead aside t q :=
    (hs.calm.setClock ahead f.clock.tick).congr rfl
  refine ⟨k.moveTo t p, ahead.silent step hx rfl, ?_, front.line_cons absent, apart, commits⟩
  constructor
  case shows =>
    exact hs.shows.congr (by simp [k]) (by simp [k]) (by simp [k]) (by simp [k]) (by simp [k])
      (apart.tasks _ hs.hander fun e => ht.hander (List.mem_singleton.1 e).symm)
      (apart.tasks _ hs.dispatcher fun e => ht.dispatcher (List.mem_singleton.1 e).symm)
  case calm => exact calm.cons ht.aside commits
  case hander => exact List.not_mem_cons_of_ne_of_not_mem ht.hander.symm hs.hander
  case dispatcher => exact List.not_mem_cons_of_ne_of_not_mem ht.dispatcher.symm hs.dispatcher
  case distinct => exact hs.distinct

/-- Those who were refused too often give up. -/
lemma Steady.retires (hs : c.Steady aside f s) (hl : f.line aside = ls.map Prod.fst)
    (contends : c.Contends aside f ls a) (spent : ¬ a < maxAttempts) :
    ∃ g, c.Comes aside (ls.map Prod.fst) f [] g s ∧ g.line aside = [] ∧ ∀ l ∈ ls,
      g.outcome? l.1 = some (.failed (.retryLimitExceeded (Word64.capped maxAttempts))) := by
  -- The induction is on the line, from which the first one goes in each step.
  induction ls generalizing f with
  | nil => exact ⟨f, ⟨.refl f, hs, .refl ..⟩, hl, List.forall_mem_nil _⟩
  | cons l ls ih =>
    obtain ⟨t, st⟩ := l
    obtain ⟨ht, poised, absent⟩ := contends.head
    obtain ⟨v, hx⟩ : ∃ v,
        f.tasks[t]? = some ⟨c.node, .awaiting v (.retry st a), some .released⟩ := by
      rcases poised with ⟨rfl, -⟩ | released
      · exact absurd (by decide) spent
      · exact released
    obtain ⟨g₁, comes, ahead⟩ := hs.comes hl
    have hx := (comes.apart.tasks t ht.aside List.not_mem_nil).trans hx
    let p : Point := .ended (.failed (.retryLimitExceeded (Word64.capped maxAttempts)))
    have step : g₁.step t = some (g₁.moveTo t p) := by
      simp only [Fleet.step, hx, Fleet.stepAwaiting, Fleet.afterVersion, if_neg spent,
        comes.steady.calm.finish, p]
    obtain ⟨ends, ahead, hx⟩ := comes.steady.moves ahead ht hx rfl step rfl
    have stuck : (g₁.moveTo t p).step t = none := by
      simp only [Fleet.step, hx, p]
    obtain ⟨g₂, leaves, line, same⟩ := ends.steady.leaves ahead stuck
    have first : c.Comes aside [t] f [] g₂ s :=
      (comes.mono (List.forall_mem_nil _)).trans (ends.trans (leaves.mono (List.forall_mem_nil _)))
    obtain ⟨g₃, retires, line, outcomes⟩ := ih first.steady line (contends.others first.apart)
    refine ⟨g₃, (first.mono (by simp)).trans (retires.mono fun u => List.mem_cons_of_mem _), line,
      ?_⟩
    rintro l (_ | ⟨_, mem⟩)
    · have task : g₃.tasks[t]? = some ⟨c.node, p, none⟩ :=
        (retires.apart.tasks t ht.aside absent).trans (same ▸ hx)
      simp only [Fleet.outcome?, task, Option.bind_some, Task.outcome?, p]
    · exact outcomes l mem

/-! ## A round -/

/-- In a round the first one in line comes to the next version, which its statement makes of the
last one, and is out. The others are in line again, and were refused once more. -/
lemma Steady.round (hs : c.Steady aside f (.settled log)) (hl : f.line aside = t :: ls.map Prod.fst)
    (contends : c.Contends aside f ((t, st) :: ls) a) (more : a < maxAttempts)
    (ripens : f.Ripens) (latest : snapshot log log.length = .ok cat)
    (room : log.length + 2 < 18_446_744_073_709_551_616) :
    ∃ g e, c.Round aside f g t ls a log e ∧ st.entries cat = .ok e.update.entries := by
  obtain ⟨ht, poised, absent⟩ := contends.head
  have outside : ∀ u ∈ t :: ls.map Prod.fst, c.Outside aside u := by
    intro u mem
    obtain ⟨l, hl, rfl⟩ := List.mem_map.1 (show u ∈ ((t, st) :: ls).map Prod.fst from mem)
    exact contends.outside l hl
  have unserving : c.hander ∉ ls.map Prod.fst := fun mem =>
    (outside _ (List.mem_cons_of_mem _ mem)).hander rfl
  -- The first one gets its update stored.
  obtain ⟨g₁, e, first, line, task, version, entries, d, applied⟩ :=
    hs.first hl ht poised more ripens latest rfl rfl (Nat.lt_of_succ_lt room) unserving
  have length : (log ++ [e]).length = log.length + 1 := List.length_append
  have last : (log ++ [e])[log.length]? = some e := List.getElem?_concat_length
  have before : snapshot (log ++ [e]) log.length = .ok cat :=
    (snapshot_append [e] (Nat.le_refl _)).trans latest
  obtain ⟨d', next⟩ : ∃ d', snapshot (log ++ [e]) (log.length + 1) = .ok d' := by
    rw [snapshot_succ_ok last before, Committed.successor, applied]
    exact ⟨_, rfl⟩
  -- The others are refused.
  obtain ⟨g₂, others, line, tasks⟩ := first.steady.others line (contends.others first.apart) more
    (ripens.later first.leads) before length.symm rfl (Nat.lt_of_succ_lt room)
  have task := (others.apart.tasks t ht.aside absent).trans task
  have offers : c.Comes aside (t :: ls.map Prod.fst) f (Fleet.roundOf t (ls.map Prod.fst)) g₂
      ⟨log ++ [e], log.length, log.length, [e.stored], [], .dispatch, t :: ls.map Prod.fst⟩ :=
    (first.mono (by simp)).trans (others.mono fun u => List.mem_cons_of_mem _)
  -- The version is done, and all of them know it.
  obtain ⟨g₃, settles, line, told⟩ := offers.steady.settles line rfl rfl rfl last next rfl room
    outside contends.nodup
  -- The first one comes to its version.
  obtain ⟨g₄, target, looksUp, ahead, task⟩ := settles.steady.looksUp line ht
    (told t List.mem_cons_self _ task) (Nat.le_of_eq version) (version ▸ next)
  obtain ⟨g₅, leads, steady, line, arrives, come⟩ := looksUp.steady.arrives ahead ht task absent
  have apart := looksUp.apart.trans arrives
  refine ⟨g₅, e, ?_, entries⟩
  constructor
  case leads => exact ((offers.leads.before settles.leads).before looksUp.leads).before leads
  case steady =>
    rw [View.settled, length]
    exact steady
  case line => exact line
  case contends =>
    refine ⟨fun l hl => ?_, contends.tail.nodup, fun l hl => ?_⟩
    · obtain ⟨ha, hh, hd⟩ := contends.tail.outside l hl
      have ne : l.1 ≠ t := fun e => contends.distinct l hl (List.mem_singleton.2 e)
      exact ⟨List.not_mem_cons_of_ne_of_not_mem ne ha, hh, hd⟩
    · obtain ⟨v, hx⟩ := tasks l hl
      have released := told l.1 (List.mem_cons_of_mem _ (List.mem_map_of_mem hl)) _ hx
      have still := apart.tasks l.1 (contends.tail.outside l hl).aside (contends.distinct l hl)
      exact .inr ⟨v, still.trans released⟩
  case commits =>
    intro u hu v hv
    exact apart.commits u hu v (settles.apart.commits u hu v (offers.apart.commits u hu v hv))
  case come => exact come
  case version => exact version
  case latest => exact ⟨d', next⟩

/-! ## The whole contest -/

/-- Statements in line come to one version each, in their order, until those that are left have been
refused too often. The induction is on the line, and each round takes one off it. -/
lemma Steady.contest (hs : c.Steady aside f (.settled log)) (hl : f.line aside = ls.map Prod.fst)
    (contends : c.Contends aside f ls a) (ripens : f.Ripens)
    (latest : snapshot log log.length = .ok cat)
    (room : log.length + min ls.length (maxAttempts - a) + 1 < 18_446_744_073_709_551_616) :
    ∃ g as aside' rest, f.RunsTo g as ∧ c.Steady aside' g (.settled (log ++ rest)) ∧
      g.line aside' = [] ∧ rest.length = min ls.length (maxAttempts - a) ∧
      (∀ u ∈ aside, ∀ v, f.Commits u v → g.Commits u v) ∧
      (∀ u ∈ as.map Prod.fst, u ∈ ls.map Prod.fst) ∧
      ∀ j l, ls[j]? = some l → g.Fares as log.length (maxAttempts - a) j l.1 l.2 := by
  induction ls generalizing f aside a log cat with
  | nil =>
    refine ⟨f, [], aside, [], .refl f, ?_, hl, by simp, fun _ _ _ => id, List.forall_mem_nil _,
      fun j l hj => ?_⟩
    · rw [List.append_nil]
      exact hs
    · cases hj
  | cons l ls ih =>
    -- Another round is held, unless everybody left has made as many offers as may be made.
    by_cases more : a < maxAttempts
    · obtain ⟨t, st⟩ := l
      obtain ⟨ht, -, absent⟩ := contends.head
      have offers : maxAttempts - a = maxAttempts - (a + 1) + 1 := by omega
      rw [offers, List.length_cons, Nat.add_min_add_right] at room ⊢
      obtain ⟨g, e, round, entries⟩ := hs.round hl contends more ripens latest (by omega)
      obtain ⟨d, next⟩ := round.latest
      have length : (log ++ [e]).length = log.length + 1 := List.length_append
      obtain ⟨h, as, aside', rest, leads, steady, line, count, commits, among, fares⟩ :=
        ih round.steady round.line round.contends (ripens.later round.leads) (length ▸ next)
          (by omega)
      have whole : log ++ [e] ++ rest = log ++ e :: rest := List.append_assoc ..
      rw [whole] at steady
      have stored : h.storage.log = log ++ e :: rest := steady.shows.log
      refine ⟨h, _, aside', e :: rest, round.leads.trans leads, steady, line, ?_, ?_, ?_, ?_⟩
      · rw [List.length_cons, count]
      · exact fun u hu v hv => commits u (List.mem_cons_of_mem _ hu) v (round.commits u hu v hv)
      · intro u hu
        rw [List.map_append] at hu
        rcases List.mem_append.1 hu with hu | hu
        · simpa [Fleet.roundOf] using hu
        · exact List.mem_cons_of_mem _ (among u hu)
      · -- The first in line has come to the version of this round, and the others fare as in the
        -- rounds to come, after one more refusal.
        rintro (_ | j) l hj
        · cases hj
          exact Fleet.fares_first (Nat.succ_pos _) stored round.version latest entries
            (commits t List.mem_cons_self _ round.come) (Fleet.givenTo_roundOf_first absent)
            fun mem => absent (among t mem)
        · have hj : ls[j]? = some l := hj
          exact (length ▸ fares j l hj).succ (Fleet.givenTo_roundOf_other contends.nodup
            (List.mem_map_of_mem (List.mem_of_getElem? hj)))
    · obtain ⟨g, retires, line, outcomes⟩ := hs.retires hl contends more
      have none : maxAttempts - a = 0 := by omega
      refine ⟨g, [], aside, [], retires.leads, ?_, line, by simp [none],
        fun u hu v hv => retires.apart.commits u hu v hv, List.forall_mem_nil _, fun j k hj => ?_⟩
      · rw [List.append_nil]
        exact retires.steady
      · rw [none]
        exact ⟨fun lt => absurd lt (Nat.not_lt_zero j),
          fun _ => ⟨rfl, outcomes k (List.mem_of_getElem? hj)⟩⟩

/-- The contest ends with nobody in line. -/
lemma Steady.contest_ends (hs : c.Steady [] f (.settled log)) (hl : f.ready = ls.map Prod.fst)
    (contends : c.Contends [] f ls 0) (ripens : f.Ripens)
    (latest : snapshot log log.length = .ok cat)
    (room : log.length + min ls.length maxAttempts + 1 < 18_446_744_073_709_551_616) :
    ∃ m rest, (f.run m).turn = none ∧ c.Shows (f.run m) (.settled (log ++ rest)) ∧
      rest.length = min ls.length maxAttempts ∧
      ∀ j l, ls[j]? = some l → (f.run m).Fares (f.answers m) log.length maxAttempts j l.1 l.2 := by
  have line : f.line [] = ls.map Prod.fst := by
    rw [Fleet.line, hl]
    simp
  obtain ⟨g, as, aside, rest, leads, steady, line, count, -, -, fares⟩ :=
    hs.contest line contends ripens latest room
  obtain ⟨h, drains, rests, apart, same⟩ := steady.calm.drains line
  obtain ⟨m, rfl, rfl⟩ := leads.before drains
  have storage : (f.run m).storage = g.storage := by rw [same]
  refine ⟨m, rest, rests, ?_, count, fun j l hj => (fares j l hj).apart steady.calm apart storage⟩
  exact steady.shows.congr (by rw [same]) storage (by rw [same]) (by rw [same]) (by rw [same])
    (apart.tasks _ steady.hander List.not_mem_nil)
    (apart.tasks _ steady.dispatcher List.not_mem_nil)

end

end Service

end SchemaCatalog
