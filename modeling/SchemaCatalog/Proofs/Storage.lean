import SchemaCatalog.Proofs.Places
import SchemaCatalog.Storage
import SchemaCatalog.Proofs.Wire.RoundTrip

/-!
# The log in the storage

The storage holds bytes. What it stands for is a log of updates with the times of their commits, and
as long as only updates that fit are appended the bytes are those of the log and the versions count
its places.
-/

namespace SchemaCatalog

/-- An update with the time of its commit. -/
structure Committed where
  update : Update
  commit : Timestamp
  deriving Repr, DecidableEq

/-- A committed update as it is stored. -/
def Committed.stored (x : Committed) : Stored := Storage.stored x.update x.commit

/-- The versions of the updates in a log are their places, counted from one. -/
def Numbered (log : List Committed) : Prop :=
  ∀ (i : Nat) (x : Committed), log[i]? = some x → x.update.version.number.val = i + 1

/-- A committed update read from what is stored. -/
def Stored.committed? (e : Stored) : Option Committed :=
  match Update.decode e.bytes with
  | .ok u => some ⟨u, e.commit⟩
  | .error _ => none

/-- A committed update is decoded from what is stored. -/
lemma Committed.decode_stored {x : Committed} (h : x.update.Fits) :
    Update.decode x.stored.bytes = .ok x.update := by
  have read := Update.decode_encode h []
  rwa [List.append_nil] at read

lemma Committed.committed?_stored {x : Committed} (h : x.update.Fits) :
    x.stored.committed? = some x := by
  rw [Stored.committed?, decode_stored h]
  rfl

/-- What is stored tells which update was committed. -/
lemma Committed.eq_of_stored {x z : Committed} (hx : x.update.Fits) (hz : z.update.Fits)
    (h : x.stored = z.stored) : x = z := by
  have read := committed?_stored hx
  rw [h, committed?_stored hz] at read
  exact (Option.some.inj read).symm

namespace Storage

/-- The log that is stored. -/
def log (s : Storage) : List Committed := s.entries.filterMap Stored.committed?

/-- The storage holds nothing but the log. -/
structure Sound (s : Storage) : Prop where
  fits : ∀ x ∈ s.log, x.update.Fits
  entries : s.entries = s.log.map Committed.stored
  numbered : Numbered s.log

lemma sound_empty : empty.Sound := ⟨nofun, rfl, nofun⟩

lemma Sound.length {s : Storage} (h : s.Sound) : s.log.length = s.entries.length := by
  rw [h.entries, List.length_map]

/-- What is stored is an update of the log. -/
lemma Sound.entry {s : Storage} (h : s.Sound) {k : Nat} {e : Stored}
    (he : s.entries[k]? = some e) : ∃ x, s.log[k]? = some x ∧ e = x.stored := by
  rw [h.entries, List.getElem?_map, Option.map_eq_some_iff] at he
  obtain ⟨x, hx, rfl⟩ := he
  exact ⟨x, hx, rfl⟩

/-- What was appended last is committed. -/
lemma committed_append (s : Storage) {u : Update} (t : Timestamp) (h : s.accepts u) :
    (s.append u t h).committed = u.version := by
  refine Version.ext_val ?_
  rw [committed, append]
  simp only [List.length_append, List.length_singleton]
  exact h.symm

lemma log_append (s : Storage) {u : Update} (t : Timestamp) (h : s.accepts u) (hu : u.Fits) :
    (s.append u t h).log = s.log ++ [⟨u, t⟩] := by
  have e := Committed.committed?_stored (x := ⟨u, t⟩) hu
  rw [Committed.stored] at e
  rw [log, append, List.filterMap_append, List.filterMap_cons, e]
  rfl

lemma Sound.append {s : Storage} (hs : s.Sound) {u : Update} (t : Timestamp) (h : s.accepts u)
    (hu : u.Fits) : (s.append u t h).Sound where
  fits x hx := by
    rw [log_append s t h hu] at hx
    rcases List.mem_append.1 hx with hx | hx
    · exact hs.fits x hx
    · rw [List.mem_singleton.1 hx]
      exact hu
  entries := by
    have e : (s.append u t h).entries = s.entries ++ [stored u t] := rfl
    rw [e, log_append s t h hu, List.map_append, ← hs.entries]
    rfl
  numbered := by
    intro i x hx
    rw [log_append s t h hu] at hx
    rcases concat_cases hx with hx | ⟨rfl, rfl⟩
    · exact hs.numbered i x hx
    · have acc : u.version.number.val = s.entries.length + 1 := h
      rw [acc, hs.length]

/-- The version that the storage has committed counts the updates of the log. -/
lemma Sound.committed {s : Storage} (h : s.Sound) : s.committed.number.val = s.log.length :=
  h.length.symm

end Storage

end SchemaCatalog
