import Zeos.Spec.Live

/-!
Runs in which quanta are set, and the quantum that each task should have.
-/

namespace Zeos

inductive Action
  | step (i : Input)
  | setQuantum (t : Slot) (q : Int)

namespace Action

def Stays : Action → Prop
  | .step i => i.event ≠ .exit
  | .setQuantum _ _ => True

instance : DecidablePred Stays
  | .step i => inferInstanceAs (Decidable (i.event ≠ .exit))
  | .setQuantum _ _ => isTrue trivial

def SetsDefault : Action → Prop
  | .step _ => True
  | .setQuantum _ q => q = defaultQuantum

instance : DecidablePred SetsDefault
  | .step _ => isTrue trivial
  | .setQuantum _ q => inferInstanceAs (Decidable (q = defaultQuantum))

end Action

namespace Sys

def act : Action → Sys → Option Sys
  | .step i, s => s.step i
  | .setQuantum t q, s => some (s.mapKernel (Kernel.setQuantum t q))

def HasQuantum (s : Sys) : Prop :=
  1 ≤ (s.task s.current).quantum

instance decidableHasQuantum : DecidablePred HasQuantum :=
  fun s => inferInstanceAs (Decidable (1 ≤ (s.task s.current).quantum))

/-- The quantum is not used up, and the next tick does not jump over its end. -/
structure TimeSliced (s : Sys) : Prop where
  left : 1 ≤ s.qLeft
  next : s.updateSchedDataRr.qLeft = 0 ∨ 1 ≤ s.updateSchedDataRr.qLeft

end Sys

/-- The live processes, the quantum each of them should have, and to which one the last step gave the CPU. -/
structure QuantumLog where
  live : Finset Slot
  quantum : Slot → Int
  given : Option Slot

namespace QuantumLog

def boot : QuantumLog :=
  { live := liveBoot, quantum := fun _ => defaultQuantum, given := none }

-- The transitions of a task count how often it has been given a quantum.
def afterStep (event : Event) (s s' : Sys) (g : QuantumLog) : QuantumLog where
  live := liveAfter event s.toKernel s'.toKernel (firstTask .freequeue s.links) g.live
  quantum t :=
    if createdBy event s.toKernel s'.toKernel (firstTask .freequeue s.links) = some t then
      g.quantum s.current
    else g.quantum t
  given :=
    if (s'.task s'.current).estadisticas.totalTrans = (s.task s'.current).estadisticas.totalTrans then
      none
    else some s'.current

def after (a : Action) (s s' : Sys) (g : QuantumLog) : QuantumLog :=
  match a with
  | .step i => g.afterStep i.event s s'
  | .setQuantum t q => { g with quantum := fun u => if u = t then q else g.quantum u, given := none }

end QuantumLog

def Sys.actLog : Action → Sys × QuantumLog → Option (Sys × QuantumLog) :=
  Run.ghost act QuantumLog.after

/--
Each live task has the quantum that was last set for it or that it has inherited, `get_quantum` returns
it, and it is what a task gets along with the CPU.
-/
structure QuantumsKept (x : Sys × QuantumLog) : Prop where
  own : ∀ t ∈ x.2.live, (x.1.task t).quantum = x.2.quantum t
  get : ∀ t ∈ x.2.live, x.1.getQuantum t = x.2.quantum t
  given : ∀ t ∈ x.2.given, x.1.qLeft = x.2.quantum t

instance : DecidablePred QuantumsKept := fun x =>
  decidable_of_iff
    ((∀ t ∈ x.2.live, (x.1.task t).quantum = x.2.quantum t) ∧
      (∀ t ∈ x.2.live, x.1.getQuantum t = x.2.quantum t) ∧
      ∀ t ∈ x.2.given, x.1.qLeft = x.2.quantum t)
    ⟨fun h => ⟨h.1, h.2.1, h.2.2⟩, fun h => ⟨h.own, h.get, h.given⟩⟩

end Zeos
