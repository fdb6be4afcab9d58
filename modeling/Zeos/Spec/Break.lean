import Zeos.Lib.Run
import Zeos.Spec.Window

/-!
How far `sys_sbrk` may move a break, and which entries of the page table it may touch for that.
-/

namespace Zeos

abbrev breakLimit : Nat :=
  totalPages * pageSize

namespace Kernel

def breakWanted (k : Kernel) (incr : Int) : Int :=
  max heapStart (k.currentBreak + incr)

def pagesAsked (k : Kernel) (incr : Int) : Finset Nat :=
  (Finset.range (totalPages + 1)).filter fun p =>
    k.currentBreak / pageSize ≤ p ∧ (p * pageSize : Int) < k.breakWanted incr ∧
      (k.heapEntry p).present

def RunsOut (k : Kernel) (incr : Int) : Prop :=
  0 < incr ∧ k.mm.freeFrames < (k.pagesAsked incr).card

instance (k : Kernel) : DecidablePred k.RunsOut :=
  fun incr => inferInstanceAs (Decidable (0 < incr ∧ k.mm.freeFrames < (k.pagesAsked incr).card))

def BreakInside (k : Kernel) : Prop :=
  heapStart ≤ k.currentBreak ∧ k.currentBreak ≤ breakLimit

instance : DecidablePred BreakInside :=
  fun k => inferInstanceAs (Decidable (heapStart ≤ k.currentBreak ∧ k.currentBreak ≤ breakLimit))

/--
The call fails only if it has to, and moves the break to where it is wanted otherwise.
-/
structure MovesBreak (k : Kernel) (incr : Int) : Prop where
  fails : (k.sysSbrk incr).1 < 0 → breakLimit < k.breakWanted incr ∨ k.RunsOut incr
  moves : 0 ≤ (k.sysSbrk incr).1 → (k.sysSbrk incr).1 = k.currentBreak ∧
    (k.sysSbrk incr).2.currentBreak = k.breakWanted incr
  inside : (k.sysSbrk incr).2.BreakInside

/--
The break does not wrap around below 0, and is not wanted inside the page past the limit, unless there are
not frames enough to get there.
-/
def BreakFits (k : Kernel) (incr : Int) : Prop :=
  0 ≤ k.currentBreak + incr ∧
    (breakLimit < k.breakWanted incr →
      breakLimit + pageSize ≤ k.breakWanted incr ∨ k.RunsOut incr)

instance (k : Kernel) : DecidablePred k.BreakFits :=
  fun incr => inferInstanceAs (Decidable (0 ≤ k.currentBreak + incr ∧
    (breakLimit < k.breakWanted incr →
      breakLimit + pageSize ≤ k.breakWanted incr ∨ k.RunsOut incr)))

section Accesses

def revertAccesses (last j : Int) (fuel : Nat) : List Nat :=
  match fuel with
  | 0 => []
  | fuel + 1 => if j > last then j.toNat :: revertAccesses last (j - 1) fuel else []

def growAccesses (tp : Nat) (iPage aux : Int) (n i : Nat) (mm : Mm) : List Nat :=
  match n with
  | 0 => []
  | n + 1 =>
    i ::
      if (mm.pagusrTable (tp + i)).present then
        match mm.allocFrame with
        | (some pagF, mm) => growAccesses tp iPage aux n (i + 1) (mm.setSsPag tp i pagF)
        | (none, _) => revertAccesses (iPage + aux) i (i + 1)
      else
        growAccesses tp iPage aux n (i + 1) mm

def shrinkAccesses (last : Int) (fuel i : Nat) : List Nat :=
  match fuel with
  | 0 => []
  | fuel + 1 =>
    if (i : Int) > last then
      if i < pagLogInitHeap then [] else i :: shrinkAccesses last fuel (i - 1)
    else
      []

/-- The entries `TP[i]` of its page table that a call goes over. -/
def sbrkAccesses (incr : Int) (k : Kernel) : List Nat :=
  let clamped := clampIncr k.currentBreak incr
  let newBreak := k.breakAfter incr
  let iPage := k.currentBreak / pageSize
  let fPage := newBreak / pageSize
  let aux : Nat := if newBreak % pageSize = 0 then 0 else 1
  if fPage > totalPages then []
  else if clamped > 0 then
    growAccesses (k.getPT k.current) iPage aux (fPage + aux - iPage) iPage k.mm
  else if clamped < 0 then shrinkAccesses (fPage + aux) (iPage + 1) iPage
  else []

def AccessesHeap (k : Kernel) (incr : Int) : Prop :=
  ∀ p ∈ k.sbrkAccesses incr, HeapPage p

end Accesses

def RunsOutInside (k : Kernel) : Prop :=
  k.mm.freeFrames < ((Finset.range totalPages).filter fun p =>
    k.currentBreak / pageSize ≤ p ∧ (k.heapEntry p).present).card

instance : DecidablePred RunsOutInside :=
  fun k => inferInstanceAs (Decidable (k.mm.freeFrames < ((Finset.range totalPages).filter fun p =>
    k.currentBreak / pageSize ≤ p ∧ (k.heapEntry p).present).card))

/--
The break does not go into the page past the limit, and does not leave it for another page, unless the call
fails before it gets there.
-/
def StaysInTable (k : Kernel) (incr : Int) : Prop :=
  (0 < incr → breakLimit < k.breakWanted incr →
    breakLimit + pageSize ≤ k.breakWanted incr ∨ k.RunsOutInside) ∧
  (incr < 0 → breakLimit ≤ k.currentBreak →
    k.currentBreak + incr < 0 ∨ breakLimit - pageSize < k.breakWanted incr)

instance (k : Kernel) : DecidablePred k.StaysInTable :=
  fun incr => inferInstanceAs (Decidable ((0 < incr → breakLimit < k.breakWanted incr →
    breakLimit + pageSize ≤ k.breakWanted incr ∨ k.RunsOutInside) ∧
  (incr < 0 → breakLimit ≤ k.currentBreak →
    k.currentBreak + incr < 0 ∨ breakLimit - pageSize < k.breakWanted incr)))

end Kernel

/--
What happens to a process: a call of `sys_sbrk`, or anything that leaves its break alone.
-/
inductive HeapEvent
  | sbrk (incr : BitVec 32)
  | other (k : Kernel)

def heapStep (event : HeapEvent) (k : Kernel) : Option Kernel :=
  match event with
  | .sbrk incr => some (k.sysSbrk incr.toInt).2
  | .other k' => if k'.currentBreak = k.currentBreak then some k' else none

namespace HeapEvent

def OfCall (ok : Kernel → Int → Prop) (event : HeapEvent) (k : Kernel) : Prop :=
  match event with
  | .sbrk incr => ok k incr.toInt
  | .other _ => True

end HeapEvent

end Zeos
