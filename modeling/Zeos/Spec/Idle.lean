import Zeos.Spec.Accounts

/-!
What the idle task is for: it has the CPU when nobody else wants it.
-/

namespace Zeos

namespace Sys

def stepIdle : Input → Sys × Finset Slot × Bool → Option (Sys × Finset Slot × Bool) :=
  Run.ghost step fun i s s' x =>
    (liveAfter i.event s.toKernel s'.toKernel (firstTask .freequeue s.links) x.1,
      decide (s.current ≠ s.idleTask ∧ s'.current = s'.idleTask))

/-- The quantum of the idle task ends while another task is ready. -/
def PreemptsIdle (i : Input) (s : Sys) : Prop :=
  i.event = .clock ∧ s.current = s.idleTask ∧ s.qLeft = 1 ∧
    listEmpty (.head .readyqueue) s.links = false

instance (i : Input) : DecidablePred (PreemptsIdle i) :=
  fun _ => inferInstanceAs (Decidable (_ ∧ _))

end Sys

/--
The idle task is not among the ready ones, and nobody is ready when it gets the CPU.
-/
structure IdleApart (x : Sys × Finset Slot × Bool) : Prop where
  not_ready : ¬x.1.IsReady x.1.idleTask
  empty : x.2.2 = true → listEmpty (.head .readyqueue) x.1.links = true
  nobody : x.2.2 = true → ∀ t ∈ x.2.1, (x.1.task t).estado ≠ .stReady

instance : DecidablePred IdleApart :=
  fun x => decidable_of_iff
    (¬x.1.IsReady x.1.idleTask ∧ (x.2.2 = true → listEmpty (.head .readyqueue) x.1.links = true) ∧
      (x.2.2 = true → ∀ t ∈ x.2.1, (x.1.task t).estado ≠ .stReady))
    ⟨fun h => ⟨h.1, h.2.1, h.2.2⟩, fun h => ⟨h.not_ready, h.empty, h.nobody⟩⟩

end Zeos
