import Zeos.Impl.Entry
import Zeos.Impl.Kernel

/-!
What the two handlers of system calls are for.
-/

namespace Zeos

def InTable (eax : BitVec 32) : Prop :=
  0 ≤ eax.toInt ∧ eax.toInt < sysCallTable.length

instance (eax : BitVec 32) : Decidable (InTable eax) :=
  inferInstanceAs (Decidable (_ ∧ _))

/-- A handler calls exactly the entries of the table, and answers `-ENOSYS` to any other number. -/
def Dispatches (regs : Regs) (h : Handled) : Prop :=
  (h.called = if InTable regs.eax then some regs.eax.toInt else none) ∧
    (¬InTable regs.eax → h.eax = notImplemented)

def Handled.stats (h : Handled) : Stats :=
  (h.kernel.task h.kernel.current).estadisticas

/-- The two handlers give user mode the same value, and the same times to the running process. -/
def SameResult (h h' : Handled) : Prop :=
  h.eax = h'.eax ∧ h.stats.userTicks = h'.stats.userTicks ∧
    h.stats.systemTicks = h'.stats.systemTicks ∧
    h.stats.elapsedTotalTicks = h'.stats.elapsedTotalTicks

/-- No time passes from the end of `statsEntrySys` to the end of `statsLeaveSys`. -/
def NoTimeInside (r : Readings) : Prop :=
  r.statsLeaveSys = (r.statsEntrySys.2, r.statsEntrySys.2)

instance (r : Readings) : Decidable (NoTimeInside r) :=
  inferInstanceAs (Decidable (_ = _))

end Zeos
