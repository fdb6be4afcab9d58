import Zeos.Spec.Heap
import Zeos.Spec.Pool

/-!
What `sys_exit` must do with the memory of a process: give back what the process has taken.
-/

namespace Zeos

def PageTableEntry.UserWritable (e : PageTableEntry) : Prop :=
  e.present ∧ e.user ∧ e.rw

instance : DecidablePred PageTableEntry.UserWritable :=
  fun e => inferInstanceAs (Decidable (e.present ∧ e.user ∧ e.rw))

namespace Kernel

def OwnPage (k : Kernel) (page : Nat) : Prop :=
  pagLogInitData ≤ page ∧ page < pagLogInitHeap ∨ HeapPage page ∧ page * pageSize < k.currentBreak

instance (k : Kernel) : DecidablePred k.OwnPage :=
  fun page => inferInstanceAs (Decidable (pagLogInitData ≤ page ∧ page < pagLogInitHeap ∨
    HeapPage page ∧ page * pageSize < k.currentBreak))

def Writable (k : Kernel) (page : Nat) : Prop :=
  page < totalPages ∧ (k.heapEntry page).UserWritable

instance (k : Kernel) : DecidablePred k.Writable :=
  fun page => inferInstanceAs (Decidable (page < totalPages ∧ (k.heapEntry page).UserWritable))

/--
What the current process can write to are data pages and pages of its heap, any of them, in frames that
`alloc_frame` has given. An entry of the data that is not in use is 0.
-/
structure HoldsFrames (k : Kernel) : Prop where
  own : ∀ page, k.Writable page → k.OwnPage page
  pool : ∀ page, k.Writable page → PoolFrame (k.heapEntry page).pbaseAddr ∧
    k.mm.physMem (k.heapEntry page).pbaseAddr = .usedFrame
  empty : ∀ p < numPagData, ¬k.Writable (pagLogInitData + p) →
    k.heapEntry (pagLogInitData + p) = .zero

def refsCurrent (k : Kernel) : Int :=
  k.refsDIR (k.getDIRPosition k.current)

/--
The frames that the current process of `k` could write to are free in `k'`, and nobody can write to them
through its page table any more. Nothing else has been freed or taken.
-/
structure GivesBack (k k' : Kernel) : Prop where
  freed : ∀ page, k.Writable page → k'.mm.physMem (k.heapEntry page).pbaseAddr = .freeFrame
  emptied : ∀ page < totalPages, ¬(k'.mm.pagusrTable (k.getPT k.current + page)).UserWritable
  kept : ∀ f, (∀ page, k.Writable page → (k.heapEntry page).pbaseAddr ≠ f) →
    k'.mm.physMem f = k.mm.physMem f

structure KeepsFrames (k k' : Kernel) : Prop where
  physMem : k'.mm.physMem = k.mm.physMem
  table : ∀ page < totalPages, k'.mm.pagusrTable (k.getPT k.current + page) = k.heapEntry page

/-- The last process with a directory gives its frames back, any other one keeps them for the rest. -/
structure ReleasesMemory (k k' : Kernel) : Prop where
  last : k.refsCurrent = 1 → GivesBack k k'
  shared : 1 < k.refsCurrent → KeepsFrames k k'

/-- The current process writes to data pages only, and not to the first frame of the pool. -/
def HoldsData (k : Kernel) : Prop :=
  ∀ page, k.Writable page → page < pagLogInitHeap ∧ (k.heapEntry page).pbaseAddr ≠ numPagKernel

end Kernel

end Zeos
