import Mathlib.Logic.Function.Basic
import SchemaCatalog.Proofs.Fleet.Core

/-!
# What listeners answer

What comes of calls depends on the modes of the listeners alone, each of which a call may change
(`Call.inModes`). A call waits if its listener is at the gate, and when it goes on it ends in the
mode that the listener is in then, if that is another one (`resumeCalls_inModes`). Nobody waits at
the gate of a listener that is not there (`Fleet.Gated`).
-/

namespace SchemaCatalog

/-! ## Modes -/

namespace Mode

/-- How a call ends in this mode, if it does. -/
def reply? (m : Mode) : Option CallResult := m.act?.map Prod.fst

/-- The mode after a call. -/
def next (m : Mode) : Mode := (m.act?.map Prod.snd).getD m

/-- The first of two modes, unless that is the gate. -/
def or (m later : Mode) : Mode := if m = .gate then later else m

variable {m later : Mode}

/-- A listener that is not at a gate answers, and does not come to a gate by that. -/
lemma act_ungated (h : m ≠ .gate) : ∃ r m', m.act? = some (r, m') ∧ m' ≠ .gate := by
  cases m with
  | failTimes k reason =>
    cases k with
    | zero => exact ⟨_, _, rfl, Mode.noConfusion⟩
    | succ k => exact ⟨_, _, rfl, Mode.noConfusion⟩
  | gate => exact absurd rfl h
  | _ => exact ⟨_, _, rfl, Mode.noConfusion⟩

lemma reply?_isSome : m.reply?.isSome ↔ m ≠ .gate := by
  constructor
  · rintro h rfl
    cases h
  · intro h
    obtain ⟨r, m', act, -⟩ := act_ungated h
    rw [reply?, act]
    rfl

lemma next_eq_gate : m.next = .gate ↔ m = .gate := by
  constructor
  · intro h
    by_contra ungated
    obtain ⟨r, m', act, ungated'⟩ := act_ungated ungated
    rw [next, act] at h
    exact ungated' h
  · rintro rfl
    rfl

lemma or_of_gate (h : m = .gate) (later : Mode) : m.or later = later := if_pos h

lemma or_of_ne (h : m ≠ .gate) (later : Mode) : m.or later = m := if_neg h

end Mode

/-! ## Calls in given modes -/

namespace Call

/-- Calls to listeners in this order, where each listener answers in its mode and then is in the
next one. -/
def inModes (mode : String → Mode) : List String → List Call
  | [] => []
  | name :: names =>
    ⟨name, (mode name).reply?⟩ :: inModes (Function.update mode name (mode name).next) names

variable {mode mode' : String → Mode} {names : List String}

lemma inModes_congr (h : ∀ name ∈ names, mode name = mode' name) :
    inModes mode names = inModes mode' names := by
  induction names generalizing mode mode' with
  | nil => rfl
  | cons name names ih =>
    have first := h name List.mem_cons_self
    rw [inModes, inModes, first, ih fun other mem => ?_]
    rw [Function.update_apply, Function.update_apply, h other (List.mem_cons_of_mem _ mem)]

/-- A call to a listener at the gate waits. -/
lemma inModes_waits {name : String} (mem : name ∈ names) (gate : mode name = .gate) :
    ⟨name, none⟩ ∈ inModes mode names := by
  induction names generalizing mode with
  | nil => cases mem
  | cons first names ih =>
    rw [inModes]
    rcases List.mem_cons.1 mem with rfl | mem
    · rw [gate]
      exact List.mem_cons_self
    · refine List.mem_cons_of_mem _ (ih mem ?_)
      rw [Function.update_apply]
      split
      · rename_i same
        rw [Mode.next_eq_gate, ← same, gate]
      · exact gate

/-- All calls have ended if and only if no listener is at the gate. -/
lemma inModes_ended :
    (∀ c ∈ inModes mode names, c.result.isSome) ↔ ∀ name ∈ names, mode name ≠ .gate := by
  induction names generalizing mode with
  | nil => exact iff_of_true (List.forall_mem_nil _) (List.forall_mem_nil _)
  | cons name names ih =>
    rw [inModes, List.forall_mem_cons, List.forall_mem_cons, ih, Mode.reply?_isSome]
    refine and_congr_right fun first => forall₂_congr fun other _ => not_congr ?_
    rw [Function.update_apply]
    split
    · rename_i same
      rw [Mode.next_eq_gate, same]
    · rfl

end Call

namespace Fleet

section

variable {f g : Fleet} {t : Nat} {event : Event} {name : String} {names : List String}

/-! ## Listeners -/

/-- The modes of the listeners. -/
def modes (f : Fleet) (name : String) : Mode := (f.listener name).mode

/-- The modes in which listeners have answered so far, or else answer now. -/
def heard (f : Fleet) (seen : String → Mode) (name : String) : Mode := (seen name).or (f.modes name)

/-- What is replaced is found under its name. -/
lemma lookup_replace (ls : List (String × Listener)) (name name' : String) (l : Listener) :
    (ls.map fun x => if x.1 = name then (name, l) else x).lookup name' =
      if name' = name then (ls.lookup name').map fun _ => l else ls.lookup name' := by
  induction ls with
  | nil => simp
  | cons x ls ih =>
    obtain ⟨other, k⟩ := x
    rw [List.map_cons, List.lookup_cons, List.lookup_cons, ih]
    by_cases ho : other = name
    · subst ho
      by_cases hn : name' = other
      · simp [hn]
      · simp [hn, beq_eq_false_iff_ne.2 hn]
    · by_cases hn : name' = other
      · subst hn
        simp [ho]
      · simp [ho, beq_eq_false_iff_ne.2 hn]

lemma listener_setListener (f : Fleet) (name name' : String) (l : Listener) :
    (f.setListener name l).listener name' = if name' = name then l else f.listener name' := by
  unfold setListener
  split
  · rename_i known
    rw [listener, listener, lookup_replace]
    split
    · rename_i e
      obtain ⟨k, hk⟩ := Option.isSome_iff_exists.1 known
      rw [e, hk]
      rfl
    · rfl
  · rename_i unknown
    rw [listener, listener, List.lookup_append]
    by_cases e : name' = name
    · subst e
      rw [Option.not_isSome_iff_eq_none.1 unknown]
      simp
    · simp [e, List.lookup_cons, beq_eq_false_iff_ne.2 e]

lemma modes_setListener (f : Fleet) (name : String) (l : Listener) :
    (f.setListener name l).modes = Function.update f.modes name l.mode := by
  funext name'
  rw [modes, listener_setListener, Function.update_apply]
  split
  · rfl
  · rfl

/-! ## Calls -/

lemma attemptCall_reply (f : Fleet) (t : Nat) (name : String) :
    (f.attemptCall t name).2 = (f.modes name).reply? := by
  rw [attemptCall, Mode.reply?, modes]
  cases (f.listener name).mode.act? with
  | some a => rfl
  | none =>
    dsimp only
    split
    · rfl
    · rfl

/-- After a call its listener is in the next mode. -/
lemma modes_attemptCall (f : Fleet) (t : Nat) (name : String) :
    (f.attemptCall t name).1.modes = Function.update f.modes name (f.modes name).next := by
  rw [attemptCall, Mode.next, modes]
  have same : Function.update f.modes name (f.listener name).mode = f.modes :=
    Function.update_eq_self ..
  cases act : (f.listener name).mode.act? with
  | some a => exact modes_setListener ..
  | none =>
    dsimp only [Option.map_none, Option.getD_none]
    rw [same]
    split
    · rfl
    · exact (modes_setListener ..).trans same

lemma beginCalls_inModes (f : Fleet) (t : Nat) (event : Event) (names : List String) :
    (f.beginCalls t event names).2 = Call.inModes f.modes names := by
  induction names generalizing f with
  | nil => rfl
  | cons name names ih =>
    let k : Fleet := { f with calls := f.calls ++ [⟨t, name, event⟩] }
    rw [beginCalls, Call.inModes]
    dsimp only
    rw [ih, show f.beginCall t event name = k.attemptCall t name from rfl, attemptCall_reply,
      modes_attemptCall]
    rfl

/-- Calls that waited for listeners at the gate end as these answer now, if they are not there any
more. The others have ended before. -/
lemma resumeCalls_inModes (f : Fleet) (t : Nat) (seen : String → Mode) (names : List String) :
    (f.resumeCalls t (Call.inModes seen names)).2 = Call.inModes (f.heard seen) names := by
  induction names generalizing f seen with
  | nil => rfl
  | cons name names ih =>
    rw [Call.inModes, Call.inModes, resumeCalls]
    by_cases gate : seen name = .gate
    · have stays : Function.update seen name (seen name).next = seen := by
        rw [gate]
        exact (congrArg (Function.update seen name) gate.symm).trans (Function.update_eq_self ..)
      rw [stays, heard, Mode.or_of_gate gate, gate]
      dsimp only [Mode.reply?, Mode.act?, Option.map_none]
      rw [attemptCall_reply, ih]
      refine congrArg (_ :: ·) (Call.inModes_congr fun other _ => ?_)
      rw [heard, modes_attemptCall, Function.update_apply, Function.update_apply]
      split
      · rename_i same
        rw [same, Mode.or_of_gate gate]
      · rfl
    · obtain ⟨r, reply⟩ := Option.isSome_iff_exists.1 (Mode.reply?_isSome.2 gate)
      rw [heard, Mode.or_of_ne gate, reply]
      dsimp only
      rw [ih]
      refine congrArg (_ :: ·) (Call.inModes_congr fun other _ => ?_)
      rw [heard, Function.update_apply, Function.update_apply]
      split
      · exact Mode.or_of_ne (mt Mode.next_eq_gate.1 gate) _
      · rfl

/-- Calls that have ended do not go on. -/
lemma resumeCalls_ended {calls : List Call} (h : ∀ c ∈ calls, c.result.isSome) :
    f.resumeCalls t calls = (f, calls) := by
  induction calls with
  | nil => rfl
  | cons c cs ih =>
    obtain ⟨r, hr⟩ := Option.isSome_iff_exists.1 (h c List.mem_cons_self)
    simp only [resumeCalls, hr, ih fun c hc => h c (List.mem_cons_of_mem _ hc)]

/-! ## Gates -/

/-- Whether tasks wait for no listeners but those at the gate. -/
def Gated (f : Fleet) : Prop := ∀ name, (f.listener name).waiting ≠ [] → f.modes name = .gate

lemma Gated.congr (h : f.Gated) (e : g.listeners = f.listeners) : g.Gated := by
  have same : g.listener = f.listener := by
    funext name
    rw [listener, e, listener]
  intro name
  rw [modes, same]
  exact h name

lemma Gated.setListener (h : f.Gated) {l : Listener} (hl : l.waiting ≠ [] → l.mode = .gate) :
    (f.setListener name l).Gated := by
  intro other
  rw [modes_setListener, listener_setListener, Function.update_apply]
  split
  · exact hl
  · exact h other

lemma Gated.attemptCall (h : f.Gated) : (f.attemptCall t name).1.Gated := by
  rw [Fleet.attemptCall]
  cases act : (f.listener name).mode.act? with
  | some a =>
    refine h.setListener fun waits => ?_
    rw [show (f.listener name).mode = .gate from h name waits] at act
    cases act
  | none =>
    have gate : (f.listener name).mode = .gate := by
      by_contra ungated
      obtain ⟨r, m, act', -⟩ := Mode.act_ungated ungated
      rw [act] at act'
      cases act'
    dsimp only
    split
    · exact h
    · exact h.setListener fun _ => gate

lemma Gated.beginCall (h : f.Gated) : (f.beginCall t event name).1.Gated :=
  (Gated.congr (g := { f with calls := f.calls ++ [⟨t, name, event⟩] }) h rfl).attemptCall

lemma Gated.beginCalls (h : f.Gated) : (f.beginCalls t event names).1.Gated := by
  induction names generalizing f with
  | nil => exact h
  | cons name names ih => exact ih h.beginCall

lemma Gated.resumeCalls (h : f.Gated) (calls : List Call) : (f.resumeCalls t calls).1.Gated := by
  induction calls generalizing f with
  | nil => exact h
  | cons c cs ih =>
    rw [Fleet.resumeCalls]
    split
    · exact ih h
    · exact ih h.attemptCall

/-- A task waits at no gate but one where the listener is. -/
lemma Gated.gate_of_waits (h : f.Gated) (waits : f.waitsAt t name = true) :
    f.modes name = .gate := by
  refine h name fun none => ?_
  rw [waitsAt, none] at waits
  cases waits

/-- A task that is held up waits at no gate that its listener has left. -/
lemma Gated.heard_of_heldUp (h : f.Gated) {seen : String → Mode}
    (held : f.heldUp t (Call.inModes seen names) = true) (mem : name ∈ names) :
    f.heard seen name = seen name := by
  by_cases gate : seen name = .gate
  · rw [heard, Mode.or_of_gate gate, gate]
    obtain ⟨-, all⟩ := Bool.and_eq_true_iff.1 held
    exact h.gate_of_waits (List.all_eq_true.1 all _ (Call.inModes_waits mem gate))
  · exact Mode.or_of_ne gate _

end

end Fleet

end SchemaCatalog
