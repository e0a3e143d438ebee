import SchemaCatalog.Proofs.Fleet.Calling
import SchemaCatalog.Proofs.Publishing.Step

/-!
# What happens to publishers

Besides the steps of tasks that publish events or repeat failed deliveries, only the registration of
listeners has to do with a publisher, and only that and a change of its mode with a listener
(`Fleet.airs_befall`). Every happening notes down the calls that the task begins which takes a step,
and no others (`Fleet.calls_befall`).
-/

namespace SchemaCatalog

/-- Whether a request has to do with publishers or listeners, or adds a node. -/
def Request.airs : Request → Bool
  | .listen .. => true
  | .setMode .. => true
  | .reopen _ => true
  | _ => false

/-- Who is to listen by a request, and to what. -/
def Request.registrations : Request → List (EventType × String)
  | .listen name types _ => types.map fun type => (type, name)
  | _ => []

lemma Request.registrations_eq_nil {r : Request} (h : r.airs = false) : r.registrations = [] := by
  cases r with
  | listen name types mode => cases h
  | _ => rfl

lemma Publisher.foldl_listen (name : String) (types : List EventType) (q : Publisher) :
    types.foldl (fun q type => q.listen type name) q =
      { q with registrations := q.registrations ++ types.map fun type => (type, name) } := by
  induction types generalizing q with
  | nil => rw [List.foldl_nil, List.map_nil, List.append_nil]
  | cons type types ih =>
    rw [List.foldl_cons, ih, List.map_cons, List.append_cons]
    rfl

namespace Fleet

/-- The publisher of a node after what happens, if it was this one before. -/
def revised (f : Fleet) (h : Happening) (n : Nat) (q : Publisher) : Publisher :=
  match h with
  | .step t => if f.tasks[t]?.map Task.node = some n then f.restates t q else q
  | .request m _ r =>
    if m = n then { q with registrations := q.registrations ++ r.registrations } else q
  | _ => q

/-- What happens changes publishers as it is to, adds only such as are new, and lets no other task
among its calls than the one that takes a step. -/
structure Airs (f : Fleet) (h : Happening) (g : Fleet) : Prop where
  publisher : ∀ n, n < f.nodes.length → (g.node n).publisher = f.revised h n (f.node n).publisher
  joined : ∀ n, f.nodes.length ≤ n → n < g.nodes.length →
    ∃ capacity, (g.node n).publisher = Publisher.ofCapacity capacity
  calling : ∀ (t : Nat) (y : Task), g.tasks[t]? = some y → y.point.isCalling = true →
    (∃ x, f.tasks[t]? = some x ∧ x.node = y.node ∧ x.point = y.point) ∨ h = .step t
  gated : g.Gated

section

variable {f g k : Fleet} {h : Happening} {t n : Nat} {x : Task} {r : Request}

lemma revised_request (hr : r.registrations = []) (m : Nat) (skew : Duration) (n : Nat)
    (q : Publisher) : f.revised (.request m skew r) n q = q := by
  rw [revised, hr, List.append_nil]
  exact ite_self _

lemma Mute.airs (hg : f.Mute g) (gated : f.Gated)
    (same : ∀ n, f.revised h n (f.node n).publisher = (f.node n).publisher) : f.Airs h g where
  publisher n _ := (hg.publisher n).trans (same n).symm
  joined _ hle hlt := absurd (hg.nodes ▸ hlt) (Nat.not_lt.2 hle)
  calling t y hy calling := .inl (hg.calling t y hy calling)
  gated := gated.congr hg.listeners

lemma Says.airs {change : Publisher → Publisher} {p : Point} (hg : f.Says t x change p g)
    (hx : f.tasks[t]? = some x) (same : change = f.restates t) : f.Airs (.step t) g where
  publisher n hn := by
    rw [hg.publisher n hn, revised, hx, Option.map_some, same]
    by_cases e : n = x.node
    · rw [if_pos e, if_pos (congrArg some e.symm)]
    · rw [if_neg e, if_neg fun e' => e (Option.some.inj e').symm]
  joined _ hle hlt := absurd (hg.nodes ▸ hlt) (Nat.not_lt.2 hle)
  calling s y hy _ := by
    by_cases e : s = t
    · exact .inr (e ▸ rfl)
    · exact .inl ⟨y, hg.others s e ▸ hy, rfl, rfl⟩
  gated := hg.gated

/-! ## Steps -/

/-- A step that has nothing to do with publishing, also one that the task cannot take. -/
lemma mute_befall (hx : f.tasks[t]? = some x) (hp : x.point.publishes = false) :
    f.Mute (f.befall (.step t)) := by
  rw [befall]
  cases hg : f.step t with
  | none => exact .refl f
  | some g => exact mute_step hx hp hg

lemma airs_step (gated : f.Gated) (t : Nat) : f.Airs (.step t) (f.befall (.step t)) := by
  cases hx : f.tasks[t]? with
  | none =>
    have stuck : f.step t = none := by rw [step, hx]
    rw [befall, stuck]
    refine (Mute.refl f).airs gated fun n => ?_
    rw [revised, hx]
    rfl
  | some x =>
    by_cases hp : x.point.publishes = true
    · obtain ⟨p, moved⟩ := says_of_publishes gated hx hp
      exact moved.airs hx rfl
    · rw [Bool.not_eq_true] at hp
      refine (mute_befall hx hp).airs gated fun n => ?_
      rw [revised, restates_of_mute hx hp]
      exact ite_self _

/-! ## Requests -/

lemma mute_request (f : Fleet) (skew : Duration) (n : Nat) (hr : r.airs = false) :
    f.Mute (Session.start f skew n r).1 := by
  -- Nobody comes to listen and no listener is touched, whatever else the request does.
  cases r with
  | markDone v =>
    have finish := mute_finishVersion f n v
    rw [Session.start]
    split
    · rename_i e
      rw [e] at finish
      exact finish
    · rename_i e
      rw [e] at finish
      exact finish
  | publish entry token version =>
    rw [Session.start]
    split
    · exact mute_spawn f n rfl
    · exact .refl f
  | register log recorder failAt =>
    rw [Session.start]
    split
    · rename_i h
      exact mute_register h
    · exact .refl f
  | stored v =>
    rw [Session.start]
    split
    · exact .refl f
    · exact .refl f
  | ask instant query =>
    rw [Session.start]
    split
    · exact .refl f
    · exact .refl f
  | deliver u commit token =>
    rw [Session.start]
    split
    · rename_i h
      exact mute_handle h
    · exact .refl f
  | rejectNext k =>
    refine mute_onNode ?_
    split
    · rfl
    · rfl
  | halt e => exact mute_halt f (.node n) e
  | failMark e => exact mute_failMark ..
  | setDelay d => exact mute_onNode rfl
  | now => exact mute_setClock ..
  | advance d => exact mute_setClock ..
  | setClock c => exact mute_setClock ..
  | waiterNow => exact mute_setClock ..
  | script answers => exact mute_onScript ..
  | scriptCommitted v => exact mute_onScript ..
  | breakCall call words => exact mute_onScript ..
  | healCall call => exact mute_onScript ..
  | peek => exact .refl f
  | listenerCount type => exact .refl f
  | failedDeliveries => exact .refl f
  | failureCount => exact .refl f
  | compare other v => exact .refl f
  | listen name types mode => cases hr
  | setMode name mode => cases hr
  | reopen c => cases hr
  | _ => exact mute_spawn f n rfl

/-- Whoever listens is a known listener, or a new one, at whose gate nobody waits. -/
lemma airs_listen (gated : f.Gated) (skew : Duration) (m : Nat) (name : String)
    (types : List EventType) (mode : Mode) :
    f.Airs (.request m skew (.listen name types mode)) (Session.listen f m name types mode) := by
  let k := if (f.listeners.lookup name).isSome then f else f.setListener name ⟨mode, []⟩
  have core : k.core = f.core := by
    unfold k
    split
    · rfl
    · exact core_setListener ..
  have next : k.Gated := by
    unfold k
    split
    · exact gated
    · exact gated.setListener fun none => absurd rfl none
  obtain ⟨-, -, -, -, -, nodes, tasks⟩ := core_inj core
  constructor
  case publisher =>
    intro n hn
    rw [Session.listen, node_onNode (nodes ▸ hn), node_congr nodes, revised]
    by_cases e : n = m
    · rw [if_pos e, if_pos e.symm, Publisher.foldl_listen]
      rfl
    · rw [if_neg e, if_neg (Ne.symm e)]
  case joined =>
    intro n hle hlt
    rw [Session.listen, onNode, List.length_modify, nodes] at hlt
    exact absurd hlt (Nat.not_lt.2 hle)
  case calling => exact fun t y hy _ => .inl ⟨y, tasks ▸ hy, rfl, rfl⟩
  case gated => exact next.congr rfl

/-- Those who waited at the gate of a listener whose mode is set leave it. -/
lemma airs_setMode (gated : f.Gated) (skew : Duration) (m : Nat) (name : String) (mode : Mode) :
    f.Airs (.request m skew (.setMode name mode)) (f.setMode name mode) := by
  have core : (f.setMode name mode).core = f.core :=
    (core_wakeAll ..).trans (core_setListener ..)
  obtain ⟨-, -, -, -, -, nodes, tasks⟩ := core_inj core
  constructor
  case publisher =>
    intro n _
    rw [node_congr nodes, revised_request rfl]
  case joined => exact fun n hle hlt => absurd (nodes ▸ hlt) (Nat.not_lt.2 hle)
  case calling => exact fun t y hy _ => .inl ⟨y, tasks ▸ hy, rfl, rfl⟩
  case gated =>
    have next : (f.setListener name ⟨mode, []⟩).Gated :=
      gated.setListener fun none => absurd rfl none
    exact next.congr (mute_wakeAll ..).listeners

/-- A node that joins publishes nothing yet. -/
lemma airs_addNode (gated : f.Gated) (h : Happening)
    (same : ∀ n, f.revised h n (f.node n).publisher = (f.node n).publisher) (c : Config)
    (link : Nat → Link) : f.Airs h (Session.addNode f c link) where
  publisher n hn := by rw [node_addNode, if_neg (Nat.ne_of_lt hn), same]
  joined n hle hlt := by
    rw [Session.addNode, List.length_append, List.length_singleton] at hlt
    rw [node_addNode, if_pos (by omega)]
    exact ⟨_, rfl⟩
  calling _ y hy _ := .inl ⟨y, hy, rfl, rfl⟩
  gated := gated.congr rfl

lemma airs_request (gated : f.Gated) (skew : Duration) (n : Nat) (r : Request) :
    f.Airs (.request n skew r) (Session.start f skew n r).1 := by
  by_cases hr : r.airs = true
  · cases r with
    | listen name types mode => exact airs_listen gated skew n name types mode
    | setMode name mode => exact airs_setMode gated skew n name mode
    | reopen c => exact airs_addNode gated _ (fun _ => revised_request rfl ..) c .shared
    | _ => cases hr
  · rw [Bool.not_eq_true] at hr
    exact (mute_request f skew n hr).airs gated fun _ =>
      revised_request (Request.registrations_eq_nil hr) ..

/-! ## Whatever happens -/

theorem airs_befall (gated : f.Gated) (h : Happening) : f.Airs h (f.befall h) := by
  cases h with
  | step t => exact airs_step gated t
  | request n skew r =>
    rw [befall]
    split
    · exact airs_request gated skew n r
    · rename_i absent
      refine ⟨fun m hm => ?_, fun m hle hlt => absurd hlt (Nat.not_lt.2 hle),
        fun t y hy _ => .inl ⟨y, hy, rfl, rfl⟩, gated⟩
      rw [revised, if_neg (by omega)]
  | join c link => exact airs_addNode gated _ (fun _ => rfl) c link
  | turnClock c => exact (mute_setClock f c).airs gated fun _ => rfl

/-- The calls that begin by what happens. -/
def begun (f : Fleet) : Happening → List CallRecord
  | .step t => f.begins t
  | _ => []

theorem calls_befall (f : Fleet) (h : Happening) : (f.befall h).calls = f.calls ++ f.begun h := by
  cases h with
  | step t =>
    rw [befall, begun]
    cases hg : f.step t with
    | none =>
      rw [begins_of_stuck hg, List.append_nil]
      rfl
    | some g => exact congrArg Prod.fst (notes_step hg)
  | request n skew r =>
    refine Eq.trans ?_ (List.append_nil _).symm
    rw [befall]
    split
    · by_cases hr : r.isDelivery = true
      · cases r with
        | deliver u commit token =>
          rw [Session.start]
          split
          · rename_i handled
            exact congrArg Prod.fst (notes_handle handled).1
          · rfl
        | halt e => exact congrArg Prod.fst (notes_halt f (.node n) e)
        | _ => cases hr
      · rw [Bool.not_eq_true] at hr
        exact congrArg Prod.fst (notes_request f skew n hr)
    · rfl
  | join c link => exact (List.append_nil _).symm
  | turnClock c => exact (congrArg Prod.fst (notes_setClock f c)).trans (List.append_nil _).symm

end

end Fleet

end SchemaCatalog
