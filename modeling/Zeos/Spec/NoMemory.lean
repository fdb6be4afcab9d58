import Zeos.Spec.Heap
import Zeos.Spec.Accounts

/-!
What a call that fails for lack of memory leaves behind.
-/

namespace Zeos

/-- `alloc_frame` has nothing to give: it only looks at every other frame. -/
def Mm.NoFreeFrame (mm : Mm) : Prop :=
  ∀ f, numPagKernel ≤ f → f < totalPages → f % 2 = 0 → mm.physMem f = .usedFrame

namespace Kernel

/-- The break, the page tables and the frame map are as before. -/
structure Undone (k k' : Kernel) : Prop where
  currentBreak : k'.currentBreak = k.currentBreak
  pagusrTable : k'.mm.pagusrTable = k.mm.pagusrTable
  physMem : k'.mm.physMem = k.mm.physMem

/-- `aux` in `sys_sbrk`: a break inside a page needs that page, too. -/
def extraPage (newBreak : Nat) : Nat :=
  if newBreak % pageSize = 0 then 0 else 1

/-- The page of the break is present, or the one after it if the new break is inside a page. -/
def BreakPagePresent (k : Kernel) (incr : Int) : Prop :=
  ∃ p, k.currentBreak / pageSize ≤ p ∧
    p ≤ k.currentBreak / pageSize + extraPage (k.breakAfter incr) ∧ (k.heapEntry p).present

def FailsAtOnce (k : Kernel) (incr : Int) : Prop :=
  totalPages < k.breakAfter incr / pageSize ∨ k.mm.NoFreeFrame ∧ k.BreakPagePresent incr

end Kernel

namespace Sys

/-- All that `sys_fork` takes from is as before, and so are the page tables of the processes. -/
structure ForkUndone (s s' : Sys) : Prop where
  freequeue : s'.members .freequeue = s.members .freequeue
  readyqueue : s'.members .readyqueue = s.members .readyqueue
  refsDIR : s'.refsDIR = s.refsDIR
  physMem : s'.mm.physMem = s.mm.physMem
  incrementalPID : s'.incrementalPID = s.incrementalPID
  pid : ∀ t, (s'.task t).pid = (s.task t).pid
  dir : ∀ t, s'.getDIR t = s.getDIR t
  position : ∀ t, s'.getDIRPosition t = s.getDIRPosition t
  tables : ∀ t, 0 ≤ (s.task t).pid → ∀ page < totalPages,
    s'.mm.pagusrTable (s.getPT t + page) = s.mm.pagusrTable (s.getPT t + page)

/--
There is no directory, and the first free PCB is not really linked: the lists do not change when it is
taken and becomes a copy of the current process, and it records the same PID and directory already.
-/
def TakesNothing (s : Sys) : Prop :=
  (∀ d, s.refsDIR d ≠ 0) ∧ ∃ new s₁, s.takeFree = some (new, s₁) ∧
    (s₁.copyTask new).members .freequeue = s.members .freequeue ∧
    (s₁.copyTask new).members .readyqueue = s.members .readyqueue ∧
    (s.task s.current).pid = (s.task new).pid ∧ s.getDIR s.current = s.getDIR new ∧
    s.getDIRPosition s.current = s.getDIRPosition new

end Sys

end Zeos
