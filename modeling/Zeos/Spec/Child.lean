import Zeos.Spec.Exit
import Zeos.Spec.Window

/-!
What `sys_fork` must give the child: the memory of the parent, heap included, in frames of its own.
-/

namespace Zeos

def Mm.nextFrames (n : Nat) (mm : Mm) : List Nat :=
  match n with
  | 0 => []
  | n + 1 =>
    match mm.allocFrame with
    | (some f, mm) => f :: mm.nextFrames n
    | (none, _) => []

namespace Kernel

def nextDIR (k : Kernel) : Option DirIx :=
  (List.finRange nrTasks).find? fun i => k.refsDIR i = 0

def ownByte (k : Kernel) (page o : Nat) : Byte :=
  k.mm.frames (k.heapEntry page).pbaseAddr o

def byteAfterCopy (k : Kernel) (f o : Nat) : Byte :=
  match (k.mm.nextFrames numPagData).idxOf? f with
  | some p => k.ownByte (pagLogInitData + p) o
  | none => k.mm.frames f o

/-- A page of the heap that the current process is entitled to -/
def HeapBelowBreak (k : Kernel) (page : Nat) : Prop :=
  HeapPage page ∧ page * pageSize < k.currentBreak

/--
The page table that a child gets next has an entry left over for this page, which leads to a free frame
with the bytes that the current process has there.
-/
structure LeftOver (k : Kernel) (d : DirIx) (page : Nat) : Prop where
  present : (k.mm.pagusrTable (Mm.getPT d + page)).present
  free : k.mm.physMem (k.mm.pagusrTable (Mm.getPT d + page)).pbaseAddr = .freeFrame
  bytes : ∀ o < pageSize, page * pageSize + o < k.currentBreak →
    k.byteAfterCopy (k.mm.pagusrTable (Mm.getPT d + page)).pbaseAddr o = k.ownByte page o

end Kernel

namespace Sys

/--
The child `new` reads in `s'` what the current process of `s` had, from `L_USER_START` to the break, and
its data and its heap are in frames that were free.
-/
structure CopiesParent (s s' : Sys) (new : Slot) : Prop where
  bytes : ∀ a : Addr, pagLogInitCode * pageSize ≤ a.toNat → a.toNat < s.currentBreak →
    s'.mm.load (s'.getPT new) a = s.mm.load (s.getPT s.current) a
  fresh : ∀ page, s.OwnPage page → (s'.mm.pagusrTable (s'.getPT new + page)).present ∧
    s.mm.physMem (s'.mm.pagusrTable (s'.getPT new + page)).pbaseAddr = .freeFrame

/-- A process that the kernel keeps, with its heap mapped up to the break. -/
structure ForkableParent (s : Sys) : Prop extends s.KeepsParent where
  heap : ∀ page, s.HeapBelowBreak page → (s.heapEntry page).present

end Sys

end Zeos
