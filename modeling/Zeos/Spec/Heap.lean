import Zeos.Impl.Kernel

/-!
What `sys_sbrk` is for: the heap of a process is mapped up to its break.
-/

namespace Zeos

def HeapPage (p : Nat) : Prop :=
  pagLogInitHeap ≤ p ∧ p < totalPages

instance : DecidablePred HeapPage :=
  fun p => inferInstanceAs (Decidable (pagLogInitHeap ≤ p ∧ p < totalPages))

namespace Kernel

def heapEntry (k : Kernel) (p : Nat) : PageTableEntry :=
  k.mm.pagusrTable (k.getPT k.current + p)

def currentBreak (k : Kernel) : Nat :=
  (k.task k.current).processBreak

/-- Where the break of the current task is after a call, if that succeeds. -/
def breakAfter (k : Kernel) (incr : Int) : Nat :=
  addUnsigned k.currentBreak (clampIncr k.currentBreak incr)

def BreakInRange (k : Kernel) : Prop :=
  heapStart ≤ k.currentBreak ∧ k.currentBreak < (totalPages + 1) * pageSize

/-- The heap of the current process is mapped up to its break, to frames of its own. -/
structure HeapMapped (k : Kernel) : Prop where
  range : k.BreakInRange
  present : ∀ p, HeapPage p → ((k.heapEntry p).present ↔ p * pageSize < k.currentBreak)
  used : ∀ p, HeapPage p → (k.heapEntry p).present →
    k.mm.physMem (k.heapEntry p).pbaseAddr = .usedFrame
  distinct : ∀ p q, HeapPage p → HeapPage q → (k.heapEntry p).present → (k.heapEntry q).present →
    (k.heapEntry p).pbaseAddr = (k.heapEntry q).pbaseAddr → p = q

/-- The pages that the heap has in `k'` and did not have in `k`. -/
def NewPage (k k' : Kernel) (p : Nat) : Prop :=
  HeapPage p ∧ k.currentBreak ≤ p * pageSize ∧ p * pageSize < k'.currentBreak

/-- The heap has grown from `k` to `k'`, by new frames for new pages, and nothing else has changed. -/
structure HeapGrown (k k' : Kernel) : Prop where
  present : ∀ p, HeapPage p → ((k'.heapEntry p).present ↔ p * pageSize < k'.currentBreak)
  kept : ∀ p, HeapPage p → (k.heapEntry p).present → k'.heapEntry p = k.heapEntry p
  fresh : ∀ p, NewPage k k' p → k.mm.physMem (k'.heapEntry p).pbaseAddr = .freeFrame ∧
    k'.mm.physMem (k'.heapEntry p).pbaseAddr = .usedFrame
  distinct : ∀ p q, HeapPage p → HeapPage q → (k'.heapEntry p).present → (k'.heapEntry q).present →
    (k'.heapEntry p).pbaseAddr = (k'.heapEntry q).pbaseAddr → p = q
  physMem : ∀ f, (∀ p, NewPage k k' p → (k'.heapEntry p).pbaseAddr ≠ f) →
    k'.mm.physMem f = k.mm.physMem f
  table : ∀ i, (∀ p, NewPage k k' p → k.getPT k.current + p ≠ i) →
    k'.mm.pagusrTable i = k.mm.pagusrTable i

/-- The pages that the heap had in `k` and must not have in `k'`. -/
def DroppedPage (k k' : Kernel) (p : Nat) : Prop :=
  HeapPage p ∧ k'.currentBreak ≤ p * pageSize ∧ p * pageSize < k.currentBreak

/-- The heap has shrunk from `k` to `k'`: the pages past the break and their frames have been given back,
and nothing else has changed. -/
structure HeapShrunk (k k' : Kernel) : Prop where
  present : ∀ p, HeapPage p → ((k'.heapEntry p).present ↔ p * pageSize < k'.currentBreak)
  kept : ∀ p, HeapPage p → p * pageSize < k'.currentBreak → k'.heapEntry p = k.heapEntry p
  freed : ∀ p, DroppedPage k k' p → k'.mm.physMem (k.heapEntry p).pbaseAddr = .freeFrame
  physMem : ∀ f, (∀ p, DroppedPage k k' p → (k.heapEntry p).pbaseAddr ≠ f) →
    k'.mm.physMem f = k.mm.physMem f
  table : ∀ i, (∀ p, DroppedPage k k' p → k.getPT k.current + p ≠ i) →
    k'.mm.pagusrTable i = k.mm.pagusrTable i

end Kernel

def lowered (processBreak : Nat) (incr : Int) : Nat :=
  max heapStart (processBreak + incr).toNat

/-- No page of the heap starts between the two breaks. -/
def NoPageBetween (newBreak oldBreak : Nat) : Prop :=
  ∀ p, HeapPage p → newBreak ≤ p * pageSize → oldBreak ≤ p * pageSize

end Zeos
