import Mathlib.Data.Finset.Card
import Zeos.Spec.Heap

/-!
What `sys_fork` must leave alone: the memory of the parent.
-/

namespace Zeos

def Mm.freeFrames (mm : Mm) : Nat :=
  ((Finset.range totalPages).filter fun f =>
    numPagKernel ≤ f ∧ f % 2 = 0 ∧ mm.physMem f = .freeFrame).card

namespace Sys

/--
The current process is one that the kernel keeps: its directory is the one that is loaded, and is
counted, its pages are mapped to frames in use, and its PCB is not the first free one.
-/
structure KeepsParent (s : Sys) : Prop where
  cr3 : s.cr3 = s.getDIR s.current
  counted : s.refsDIR (s.getDIR s.current) ≠ 0
  used : ∀ page < totalPages, (s.heapEntry page).present →
    s.mm.physMem (s.heapEntry page).pbaseAddr = .usedFrame
  taken : firstTask .freequeue s.links ≠ some s.current

/-- The page table of the current process of `s`, and the frames it maps, are the same in `s'`. -/
structure ParentKept (s s' : Sys) : Prop where
  table : ∀ page < totalPages,
    s'.mm.pagusrTable (s.getPT s.current + page) = s.heapEntry page
  frames : ∀ page < totalPages, (s.heapEntry page).present → ∀ o < pageSize,
    s'.mm.frames (s.heapEntry page).pbaseAddr o = s.mm.frames (s.heapEntry page).pbaseAddr o

/--
If there is a PCB and a directory for a child, the parent does not use the pages after its data, as many
of them as data pages can be copied.
-/
def WindowEmpty (s : Sys) : Prop :=
  listEmpty (.head .freequeue) s.links = false → (∃ d, s.refsDIR d = 0) →
    ∀ i < min numPagData s.mm.freeFrames, s.heapEntry (pagLogInitHeap + i) = .zero

end Sys

end Zeos
