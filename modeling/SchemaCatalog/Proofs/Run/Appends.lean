import SchemaCatalog.Proofs.Run.Serial

/-!
# What is appended is what is decoded

Whatever enters the storage was appended there as the offer of a task. It is decoded again as the
update that was appended, by whoever asks the storage for its version and by every delivery that
takes it up, because the wire format loses nothing (`codec_loses_nothing`).
-/

namespace SchemaCatalog

/-- Bytes that begin with all of an update are not those of another one. -/
lemma Update.eq_of_prefix {u w : Update} (hu : u.Fits) (hw : w.Fits) (h : u.encode <+: w.encode) :
    u = w := by
  obtain ⟨s, hs⟩ := h
  have read := decode_encode hw []
  rw [List.append_nil, ← hs, decode_encode hu s] at read
  cases read
  rfl

namespace Storage.Sound

variable {s : Storage} {k : Nat}

/-- The storage decodes the update of a version as the log has it. -/
lemma update? (h : s.Sound) {x : Committed} (hx : s.log[k]? = some x) :
    s.update? x.update.version = .ok (some x.update) := by
  have number := h.numbered k x hx
  have before : x.update.version.prev? =
      some ⟨⟨x.update.version.number.val - 1, by omega⟩⟩ := by
    rw [Version.prev?, if_neg (by omega)]
  have entry : s.entries[x.update.version.number.val - 1]? = some x.stored := by
    rw [number, Nat.add_sub_cancel, h.entries, List.getElem?_map, hx]
    rfl
  rw [Storage.update?, before]
  simp only [entry, Committed.decode_stored (h.fits x (List.mem_of_getElem? hx))]
  rfl

end Storage.Sound

namespace Fleet

/-- The next thing that a task hands over. -/
def TakesUp (f : Fleet) (t : Nat) (e : Stored) : Prop :=
  ∃ x d y rest, f.tasks[t]? = some x ∧ x.point = .deliver d ∧ f.deliveries[d]? = some y ∧
    y.queue = e :: rest

lemma TakesUp.of_points {f : Fleet} {t d : Nat} {e : Stored} {rest : List Stored}
    (point : f.tasks[t]?.map Task.point = some (.deliver d))
    (queue : f.deliveries[d]?.map Delivery.queue = some (e :: rest)) : f.TakesUp t e := by
  obtain ⟨x, hx, hp⟩ := Option.map_eq_some_iff.1 point
  obtain ⟨y, hy, hq⟩ := Option.map_eq_some_iff.1 queue
  exact ⟨x, d, y, rest, hx, hp, hy, hq⟩

/-- What is taken up, by a node or a recorder, is an update of the log. -/
lemma Tracks.taken_up {f : Fleet} (h : f.Tracks) {t : Nat} {e : Stored} (he : f.TakesUp t e) :
    ∃ (k : Nat) (x : Committed), f.storage.log[k]? = some x ∧ e = x.stored := by
  obtain ⟨x, d, y, rest, hx, hxd, hy, hq⟩ := he
  have live : f.outcome? y.task = none := by
    rw [h.task_of_delivery hx hxd hy, outcome?, hx]
    simp [Task.outcome?, hxd]
  obtain ⟨j, -, stretch, -⟩ := h.deliveries d y hy live
  rw [hq] at stretch
  obtain ⟨hj, rfl, -⟩ := tail_of_drop stretch
  obtain ⟨z, hz, hs⟩ := h.sound.entry (List.getElem?_eq_getElem hj)
  exact ⟨j, z, hz, hs⟩

end Fleet

namespace Run

variable {r : Run} {i j t : Nat} {u : Update}

/-- The wire format of updates loses nothing. An update that fits is decoded from its bytes whatever
stands behind them, so updates that differ have different bytes, of which none are the front of
others. In every run the storage decodes the update of a committed version as the one that was
appended with that version, and so does every delivery that takes it up. -/
theorem codec_loses_nothing :
    (∀ u : Update, u.Fits → ∀ s, Update.decode (u.encode ++ s) = .ok u) ∧
    (∀ u w : Update, u.Fits → w.Fits → u.encode = w.encode → u = w) ∧
    (∀ u w : Update, u.Fits → w.Fits → u.encode <+: w.encode → u.encode = w.encode) ∧
    ∀ r : Run,
      (∀ i v, 0 < v.number.val → v ≤ (r.fleet i).storage.committed →
        ∃ j t u, j < i ∧ r.Appends j t u ∧ u.version = v) ∧
      (∀ j t u i, r.Appends j t u → j < i →
        (r.fleet i).storage.update? u.version = .ok (some u)) ∧
      ∀ i s e, (r.fleet i).TakesUp s e → ∃ j t u, j < i ∧ r.Appends j t u ∧
        Update.decode e.bytes = .ok u ∧ e.token.number = u.version.number := by
  refine ⟨fun u hu => Update.decode_encode hu, fun u w hu hw => Update.encode_inj hu hw, ?_,
    fun r => ⟨?_, ?_, ?_⟩⟩
  · intro u w hu hw front
    rw [Update.eq_of_prefix hu hw front]
  · intro i v pos le
    have sound := (r.tracks i).sound
    -- A committed version is the number of an entry of the log, which was appended as that.
    have lt : v.number.val - 1 < (r.fleet i).storage.log.length := by
      have := (Version.le_def _ _).1 le
      rw [sound.committed] at this
      omega
    obtain ⟨j, t, hj, ha, -⟩ := appended (List.getElem?_eq_getElem lt)
    have number := sound.numbered _ _ (List.getElem?_eq_getElem lt)
    exact ⟨j, t, _, hj, ha, Version.ext_val (by omega)⟩
  · intro j t u i ha hi
    exact (r.tracks i).sound.update? (ha.entry hi)
  · intro i s e he
    have ht := r.tracks i
    obtain ⟨k, x, hx, rfl⟩ := ht.taken_up he
    obtain ⟨j, t, hj, ha, -⟩ := appended hx
    exact ⟨j, t, x.update, hj, ha,
      Committed.decode_stored (ht.sound.fits x (List.mem_of_getElem? hx)), rfl⟩

/-- The update of the statement is decoded in front of another byte, and once it is appended as
version 1 by the storage and by the delivery of the node. -/
theorem codec_loses_nothing_repartitioned :
    Update.decode (repartition.update.encode ++ [7]) = .ok repartition.update ∧
    (repartitioned.fleet 20).storage.update? ⟨1⟩ = .ok (some repartition.update) ∧
    ∃ e, (repartitioned.fleet 10).TakesUp 2 e ∧ ∃ j t u, j < 10 ∧ repartitioned.Appends j t u ∧
      Update.decode e.bytes = .ok u ∧ e.token.number = u.version.number := by
  obtain ⟨decoded, -, -, run⟩ := codec_loses_nothing
  obtain ⟨-, updates, taken⟩ := run repartitioned
  refine ⟨decoded _ (by decide +kernel) [7],
    updates 8 3 _ 20 repartitioned_accepts.appends (by decide), ?_⟩
  have up : (repartitioned.fleet 10).TakesUp 2
      (Storage.stored repartition.update (repartitioned.fleet 8).clock.tick.current) :=
    @Fleet.TakesUp.of_points _ 2 0 _ [] (by decide +kernel) (by decide +kernel)
  exact ⟨_, up, taken 10 2 _ up⟩

end Run

end SchemaCatalog
