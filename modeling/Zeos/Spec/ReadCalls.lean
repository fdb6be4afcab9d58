import Zeos.Spec.Readers

/-!
In which order the calls of `sys_read` get their keys, and when the readers are woken.
-/

namespace Zeos

def Event.keysAsked : Event → Option Int
  | .read fd buf count => if ReadAccepted fd buf count then some count else none
  | _ => none

/-- The keys that have been delivered since `k`. -/
def Kernel.copiesSince (k k' : Kernel) : List UserCopy :=
  k'.copies.drop k.copies.length

namespace Readers

/-- The tasks whose calls have not come back, those first that get the CPU first. -/
def tasks (r : Readers) : List Slot :=
  (r.pending ++ r.waiting).map Reader.task

/-- Unless a woken reader is still to run, there are not keys enough for the first one that waits. -/
def NoneLost (r : Readers) : Prop :=
  r.pending = [] → ∀ a ∈ r.waiting.head?, r.buff.cirBuffLenght < a.need

instance : DecidablePred NoneLost :=
  fun r => inferInstanceAs
    (Decidable (r.pending = [] → ∀ a ∈ r.waiting.head?, r.buff.cirBuffLenght < a.need))

end Readers

/--
Whose calls of `sys_read` have not come back, in the order of the calls, and who of them has been passed
over when a key was delivered.
-/
structure Calls where
  order : List Slot
  overtaken : List Slot

namespace Calls

def boot : Calls :=
  { order := [], overtaken := [] }

def after (event : Event) (s s' : Sys) (c : Calls) : Calls :=
  let calls := if event.keysAsked.isSome then c.order ++ [s.current] else c.order
  { order := calls.filter fun t => t ∈ s'.readers.tasks
    overtaken := c.overtaken ++ (s.copiesSince s'.toKernel).flatMap fun copy =>
      c.order.takeWhile fun u => u ≠ copy.task }

end Calls

namespace Sys

def stepCalls : Input → Sys × Calls → Option (Sys × Calls) :=
  Run.ghost step fun i s s' c => c.after i.event s s'

end Sys

end Zeos
