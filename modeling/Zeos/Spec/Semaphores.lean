import Zeos.Lib.Turnstile
import Zeos.Spec.Accounts
import Zeos.Spec.RoundRobin

/-!
What a semaphore is for: it lets so many of those through who wait for it, first come first served.
-/

namespace Zeos

open Turnstile

/-- What a step does to the calls for the semaphore `n`, as seen from outside. -/
def passageAfter (n : Int) (event : Event) (s s' : Sys) (p : Passage Slot) : Passage Slot :=
  match event with
  | .semWait nSem =>
    if nSem = n then p.wait s.current (s'.current = s.current ∧ s'.eax s.current = 0) else p
  | .semSignal nSem =>
    if nSem = n then p.signal fun t => t ∈ s'.members .readyqueue else p
  | _ => p

def Sys.stepPassage (n : Int) : Input → Sys × Passage Slot → Option (Sys × Passage Slot) :=
  Run.ghost Sys.step fun i s s' p => passageAfter n i.event s s' p

end Zeos
