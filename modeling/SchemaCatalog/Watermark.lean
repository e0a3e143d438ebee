import SchemaCatalog.NatMap
import SchemaCatalog.Error

/-!
# The watermark of finished versions

A version is done once its catalog is registered and its events are delivered. Versions may be done
in any order; the watermark passes a version once all versions below it are done too. Whoever waits
for a version is released when the watermark reaches it, or dropped when the watermark fails, which
it does for good.
-/

namespace SchemaCatalog

/-- How far the versions are done, which are done beyond that, who waits for which version in the
order of arrival, and the first failure. -/
structure Watermark (ι : Type) where
  doneUntil : Version
  done : List Nat
  waiters : NatMap (List ι)
  failure : Option Error
  deriving Repr, DecidableEq

namespace Watermark

variable {ι : Type}

/-- The watermark at a version, with nothing done beyond it. -/
def startingAt (v : Version) : Watermark ι := ⟨v, [], NatMap.empty, none⟩

/-- Follows versions that are done without gap, from `n` up, and takes them out. -/
def climb : Nat → List Nat → Nat → List Nat × Nat
  | 0, done, n => (done, n)
  | k + 1, done, n =>
    if done.contains (n + 1) then climb k (done.filter (fun m => m ≠ n + 1)) (n + 1) else (done, n)

/-- Those who wait for a version up to `n`, by version and then by arrival. -/
def waitingUpTo (w : Watermark ι) (n : Nat) : List ι :=
  (w.waiters.filterKeys (fun v => v ≤ n)).values.flatten

/-- Marks a version as done and names those who are released. The watermark cannot reach the
largest version: the versions up to it are forgotten and the watermark stays. -/
def finish (w : Watermark ι) (v : Version) : Watermark ι × Except Abort (List ι) :=
  if v ≤ w.doneUntil then (w, .ok [])
  else
    let done := if w.done.contains v.number.val then w.done else v.number.val :: w.done
    let (done, n) := climb done.length done w.doneUntil.number.val
    if n = w.doneUntil.number.val then ({ w with done }, .ok [])
    else if h : n + 1 < 18_446_744_073_709_551_616 then
      ({ w with
          doneUntil := ⟨⟨n, Nat.lt_of_succ_lt h⟩⟩
          done := done
          waiters := w.waiters.filterKeys (fun m => n < m) },
        .ok (w.waitingUpTo n))
    else ({ w with done }, .error .overflow)

/-- What is said to one who asks to wait for a version. -/
inductive Reply where
  | ready
  | refused (error : Error)
  | wait
  deriving Repr, DecidableEq

/-- What is said to one who asks to wait for a version. -/
def reply (w : Watermark ι) (v : Version) : Reply :=
  if v ≤ w.doneUntil then .ready
  else
    match w.failure with
    | some e => .refused e
    | none => .wait

/-- The watermark with one more waiting for a version. -/
def enqueue (w : Watermark ι) (v : Version) (who : ι) : Watermark ι :=
  { w with
    waiters := w.waiters.insert v.number.val ((w.waiters.get? v.number.val).getD [] ++ [who]) }

/-- Fails, unless it has failed before, and names those who are dropped. -/
def fail (w : Watermark ι) (e : Error) : Watermark ι × List ι :=
  ({ w with failure := some (w.failure.getD e), waiters := NatMap.empty },
    w.waiters.values.flatten)

/-- The error of those who were dropped. -/
def failureError (w : Watermark ι) : Error := w.failure.getD .stopped

/-- The number of those who wait. -/
def pending (w : Watermark ι) : Nat := w.waiters.values.flatten.length

end Watermark

end SchemaCatalog
