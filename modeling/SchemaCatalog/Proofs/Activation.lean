import SchemaCatalog.Proofs.History

/-!
# Activation times

A catalog becomes active when its update is due, but later than the catalog before it. So the
versions of a history become active one after another, as long as there is time left, and none
before its update is due. Whatever times have these two properties are no earlier than those of the
history, which is therefore the earliest schedule of its log (`History.Follows.earliest`).

A handler has a log whatever it is handed: it passes over what it knows and fails where a version is
missing, so that the updates it takes up are numbered without gap (`History.Intake.Sound.handAll`).
-/

namespace SchemaCatalog

/-! ## Due times -/

/-- When a committed update is due: its delay after its commit, in whole milliseconds, or at the end
of time if that comes first. -/
def Committed.due (x : Committed) : Timestamp :=
  ⟨Word64.capped
    (x.commit.raw.val + x.update.delay.wholeMillis * Timestamp.ticksPerMilli)⟩

lemma Committed.commit_le_due (x : Committed) : x.commit ≤ x.due := by
  have last := x.commit.raw.isLt
  rw [Timestamp.le_def, due, Word64.val_capped]
  omega

namespace Timestamp

variable {a b c : Timestamp}

/-- One time is before another one, unless both are the end of time. -/
def Precedes (a b : Timestamp) : Prop := a < b ∨ a = greatest ∧ b = greatest

lemma le_greatest (a : Timestamp) : a ≤ greatest := Nat.le_of_lt_succ a.raw.isLt

lemma precedes_greatest (a : Timestamp) : a.Precedes greatest := by
  rcases Nat.lt_or_ge a.raw.val greatest.raw.val with lt | ge
  · exact .inl lt
  · exact .inr ⟨eq_greatest ge, rfl⟩

/-- What is after a time that comes no earlier than `a` is no earlier than the tick after `a`. -/
lemma Precedes.tick_le (h : b.Precedes c) (hab : a ≤ b) : a.tick ≤ c := by
  rcases h with lt | ⟨-, rfl⟩
  · rw [le_def, tick, Word64.val_capped]
    exact Nat.le_trans (Nat.min_le_left _ _) (Nat.lt_of_le_of_lt hab lt)
  · exact le_greatest _

end Timestamp

/-- A catalog becomes active at the later one of two times: when its update is due, and a tick after
the catalog before it. -/
lemma Committed.activation_eq_max (x : Committed) (p : Timestamp) :
    (x.activation p).raw.val = max x.due.raw.val p.tick.raw.val := by
  rw [activation, due, Timestamp.tick]
  simp only [Word64.val_capped]
  omega

section

variable {log : List Committed} {v w : Nat} {c d : Catalog} {x : Committed}

/-- Snapshots become active one after another, as long as there is time left. -/
lemma snapshot_precedes (hw : w ≤ log.length) (hvw : v < w) (hc : snapshot log v = .ok c)
    (hd : snapshot log w = .ok d) : c.activation.Precedes d.activation := by
  rcases snapshot_activation_lt hw hvw hc hd with later | capped
  · exact .inl later
  · rw [capped]
    exact Timestamp.precedes_greatest _

/-- When a snapshot becomes active follows from the one before it. -/
lemma snapshot_activation_eq (hx : log[v]? = some x) (hc : snapshot log v = .ok c)
    (hd : snapshot log (v + 1) = .ok d) : d.activation = x.activation c.activation := by
  rw [snapshot_succ_ok hx hc] at hd
  obtain ⟨e, -, rfl⟩ := Committed.successor_ok hd
  rfl

lemma due_le_activation (hx : log[v]? = some x) (hd : snapshot log (v + 1) = .ok d) :
    x.due ≤ d.activation := by
  obtain ⟨c, hc⟩ := snapshot_pred hd
  rw [snapshot_activation_eq hx hc hd, Timestamp.le_def, Committed.activation_eq_max]
  exact Nat.le_max_left _ _

end

/-! ## Schedules -/

namespace History

/-- Times at which the versions of a history may become active: none before its update is due, and
one after another. -/
structure Schedule (y : History) (log : List Committed) (time : Version → Timestamp) : Prop where
  due : ∀ x ∈ log, (y.catalog? x.update.version).isSome → x.due ≤ time x.update.version
  rises : ∀ v w, (y.catalog? v).isSome → (y.catalog? w).isSome → v.next? = some w →
    (time v).Precedes (time w)

/-- The versions of a history become active in their order, none before its update is due, and all
as early as that allows. -/
structure Earliest (y : History) (log : List Committed) : Prop where
  ordered : ∀ v w c d, y.catalog? v = some c → y.catalog? w = some d → v < w →
    c.activation.Precedes d.activation
  committed : ∀ v c, y.catalog? v = some c → v ≠ Version.initial →
    ∃ x ∈ log, x.update.version = v
  due : ∀ x ∈ log, ∀ c, y.catalog? x.update.version = some c → x.due ≤ c.activation
  least : ∀ time, y.Schedule log time → ∀ v c, y.catalog? v = some c → c.activation ≤ time v

section

variable {log : List Committed} {y z : History} {k : Nat} {v : Version} {c : Catalog}

/-- A history that has registered nothing has no times. -/
lemma Earliest.of_registered (h : ∀ v c, y.catalog? v = some c → y.Earliest log) :
    y.Earliest log where
  ordered v w c d hc := (h v c hc).ordered v w c d hc
  committed v c hc := (h v c hc).committed v c hc
  due x hx c hc := (h _ c hc).due x hx c hc
  least time hs v c hc := (h v c hc).least time hs v c hc

/-- The update that made a registered catalog, which is not the initial one. -/
lemma Follows.committed (hn : Numbered log) (h : y.Follows log k) {u : Nat}
    (hc : y.catalog? v = some c) (hv : v.number.val = u + 1) :
    ∃ x, log[u]? = some x ∧ x.update.version = v := by
  obtain ⟨le, -⟩ := (h.catalog? hn v c).1 hc
  have lt : u < log.length := Nat.lt_of_lt_of_le (by omega) h.le
  refine ⟨log[u], List.getElem?_eq_getElem lt, Version.ext_val ?_⟩
  rw [hn u _ (List.getElem?_eq_getElem lt), hv]

/-- No schedule is ahead of the history. By induction on the version: the catalog before is active
no later than the schedule says, and the schedule goes on from there. -/
lemma Follows.least (hn : Numbered log) (h : y.Follows log k) {time : Version → Timestamp}
    (hs : y.Schedule log time) (hc : y.catalog? v = some c) : c.activation ≤ time v := by
  generalize hu : v.number.val = u
  induction u generalizing v c with
  | zero =>
    obtain ⟨-, first⟩ := (h.catalog? hn v c).1 hc
    rw [hu] at first
    cases first
    exact Nat.zero_le _
  | succ u ih =>
    obtain ⟨x, hx, rfl⟩ := h.committed hn hc hu
    obtain ⟨le, hd⟩ := (h.catalog? hn _ c).1 hc
    rw [hu] at le hd
    obtain ⟨b, hb⟩ := snapshot_pred hd
    obtain ⟨w, rfl⟩ : ∃ w : Version, w.number.val = u := ⟨⟨⟨u, by omega⟩⟩, rfl⟩
    have before : y.catalog? w = some b := (h.catalog? hn w b).2 ⟨by omega, hb⟩
    have next : w.next? = some x.update.version := by
      have hlt : w.number.val + 1 < 18_446_744_073_709_551_616 := by omega
      rw [Version.next?, Word64.ofNat?, dif_pos hlt]
      exact congrArg some (Version.ext_val hu.symm)
    have isSome : (y.catalog? x.update.version).isSome := Option.isSome_of_mem hc
    have rises := hs.rises w _ (Option.isSome_of_mem before) isSome next
    rw [snapshot_activation_eq hx hb hd, Timestamp.le_def, Committed.activation_eq_max]
    exact Nat.max_le.2 ⟨hs.due x (List.mem_of_getElem? hx) isSome, rises.tick_le (ih before rfl)⟩

/-- The registered versions become active as early as their updates allow. -/
theorem Follows.earliest (hn : Numbered log) (h : y.Follows log k) : y.Earliest log where
  ordered v w c d hc hd hvw := by
    obtain ⟨-, hc⟩ := (h.catalog? hn v c).1 hc
    obtain ⟨le, hd⟩ := (h.catalog? hn w d).1 hd
    exact snapshot_precedes (Nat.le_trans le h.le) hvw hc hd
  committed v c hc ne := by
    obtain ⟨u, hu⟩ : ∃ u, v.number.val = u + 1 :=
      Nat.exists_eq_succ_of_ne_zero fun e => ne (Version.ext_val e)
    obtain ⟨x, hx, e⟩ := h.committed hn hc hu
    exact ⟨x, List.mem_of_getElem? hx, e⟩
  due x hx c hc := by
    obtain ⟨u, hu⟩ := List.mem_iff_getElem?.1 hx
    obtain ⟨-, hd⟩ := (h.catalog? hn _ c).1 hc
    rw [hn u x hu] at hd
    exact due_le_activation hu hd
  least _ hs _ _ hc := h.least hn hs hc

/-! ## Handlers -/

/-- The history of a handler, with the updates that it took up. -/
structure Intake where
  history : History
  log : List Committed

/-- A handler that is started. -/
def Intake.started : Intake := ⟨empty.register Catalog.initial, []⟩

/-- A handler after one more update is handed to it. An update that it knows or fails on is not
taken up. -/
def Intake.hand (s : Intake) (x : Committed) (token : Token) : Intake :=
  match s.history.handle x.update x.commit token with
  | .ok (z, _) => ⟨z, if (s.history.catalog? x.update.version).isSome then s.log else s.log ++ [x]⟩
  | .error _ => s

/-- A handler after some updates are handed to it in order. -/
def Intake.handAll (s : Intake) (xs : List (Committed × Token)) : Intake :=
  xs.foldl (fun s x => s.hand x.1 x.2) s

/-- The updates that were taken up are a log, and the history has followed it to its end. -/
structure Intake.Sound (s : Intake) : Prop where
  numbered : Numbered s.log
  follows : s.history.Follows s.log s.log.length

namespace Intake.Sound

variable {s : Intake} {x : Committed} {token : Token} {notice : Notice}

/-- An update that is registered follows the latest version. -/
lemma version (h : s.Sound) (new : s.history.catalog? x.update.version = none)
    (hz : s.history.handle x.update x.commit token = .ok (z, notice)) :
    x.update.version.number.val = s.log.length + 1 := by
  rw [handle, new] at hz
  simp only [Option.isSome_none, Bool.false_eq_true, if_false] at hz
  split at hz
  · cases hz
  · rename_i previous hp
    obtain ⟨w, hw, registered⟩ := Option.bind_eq_some_iff.1 hp
    have before : x.update.version.number.val = w.number.val + 1 := by
      unfold Version.prev? at hw
      split at hw
      · cases hw
      · cases hw
        simp only
        omega
    have le := ((h.follows.catalog? h.numbered w previous).1 registered).1
    -- Had the history gone beyond the version before, it would know this one.
    obtain ⟨last, hlast⟩ := snapshot_of_ofLog h.follows.ofLog
    rcases Nat.lt_or_ge w.number.val s.log.length with lt | ge
    · have upTo : x.update.version.number.val ≤ s.log.length := by omega
      obtain ⟨d, hd⟩ := snapshot_of_le upTo hlast
      rw [(h.follows.catalog? h.numbered _ d).2 ⟨upTo, hd⟩] at new
      cases new
    · omega

/-- What is registered becomes the last update of the log. -/
lemma register (h : s.Sound) (new : s.history.catalog? x.update.version = none)
    (hz : s.history.handle x.update x.commit token = .ok (z, notice)) :
    Sound ⟨z, s.log ++ [x]⟩ := by
  have version := h.version new hz
  have numbered : Numbered (s.log ++ [x]) := by
    intro u x' hu
    rcases concat_cases hu with hu | ⟨rfl, rfl⟩
    · exact h.numbered u x' hu
    · exact version
  have grown := h.follows.grow (List.prefix_append s.log [x])
  have next := grown.handle_next numbered List.getElem?_concat_length token
  rw [hz] at next
  cases hs : snapshot (s.log ++ [x]) (s.log.length + 1) with
  | error e =>
    rw [hs] at next
    cases next
  | ok c =>
    rw [hs] at next
    cases next
    have length : (s.log ++ [x]).length = s.log.length + 1 := List.length_append
    refine ⟨numbered, ?_⟩
    rw [length]
    exact grown.register (by omega) hs

lemma hand (h : s.Sound) (x : Committed) (token : Token) : (s.hand x token).Sound := by
  unfold Intake.hand
  split
  · rename_i z notice hz
    cases known : s.history.catalog? x.update.version with
    | none => exact h.register known hz
    | some c =>
      rw [handle, known] at hz
      cases hz
      exact h
  · exact h

/-- Whatever a handler is handed, what it takes up is a log that its history follows. -/
lemma handAll (h : s.Sound) (xs : List (Committed × Token)) : (s.handAll xs).Sound := by
  induction xs generalizing s with
  | nil => exact h
  | cons x xs ih => exact ih (h.hand x.1 x.2)

end Intake.Sound

lemma Intake.sound_started : started.Sound := ⟨nofun, follows_initial []⟩

end

end History

end SchemaCatalog
