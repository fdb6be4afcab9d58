import Zeos.Impl.Paging
import Zeos.Lib.Run

/-!
The tables in physical memory against the memory of `mm.c`, in which a page table is a function, and a frame has no
tables in it.
-/

namespace Zeos

def RawEntry.decode (e : BitVec 32) : PageTableEntry where
  present := present e
  rw := rw e
  user := user e
  pbaseAddr := (pbaseAddr e).toNat

namespace Layout

variable (l : Layout)

/-- There are entries of a directory or of a page table in this frame. -/
def HoldsTable (f : Nat) : Prop :=
  (l.dirPages ≤ pageSize * f ∧ pageSize * f < l.dirPages + nrTasks * pageSize) ∨
    (l.pagusrTable ≤ pageSize * f ∧ pageSize * f < l.pagusrTable + nrTasks * pageSize)

instance : DecidablePred l.HoldsTable :=
  fun _ => inferInstanceAs (Decidable (_ ∨ _))

end Layout

def Mm.Confined (mm : Mm) : Prop :=
  ∀ i < nrTasks * totalPages, (mm.pagusrTable i).present → (mm.pagusrTable i).user →
    numPagKernel ≤ (mm.pagusrTable i).pbaseAddr

namespace Paged

variable (l : Layout)

/-- The processor uses directory `d`, and its tables and frames are those of `mm`. -/
structure Represents (s : Paged) (mm : Mm) (d : DirIx) : Prop where
  physMem : s.physMem = mm.physMem
  pg : s.pg = true
  cr3 : s.cr3 = BitVec.ofNat 32 (getDIR l d)
  table : ∀ i < nrTasks * totalPages,
    RawEntry.decode (Words.read s.mem (l.pagusrTable + 4 * i)) = mm.pagusrTable i
  directory : ∀ d : DirIx, RawEntry.decode (Words.read s.mem (getDIR l d)) =
    { present := true, rw := true, user := true, pbaseAddr := l.pagusrTable / pageSize + d }
  rest : ∀ d : DirIx, ∀ j, 1 ≤ j → j < totalPages →
    RawEntry.present (Words.read s.mem (getDIR l d + 4 * j)) = false
  frames : ∀ f, ¬l.HoldsTable f → ∀ o < pageSize, s.mem (pageSize * f + o) = mm.frames f o

def frameMemory (s : Paged) : Mm :=
  { physMem := s.physMem, pagusrTable := fun _ => .zero, frames := fun f o => s.mem (pageSize * f + o) }

def EmptyDirectories (s : Paged) : Prop :=
  ∀ d : DirIx, ∀ j < totalPages, Words.read s.mem (getDIR l d + 4 * j) = 0

end Paged

/-- What the kernel does with frames and tables, and the accesses of user mode and of the kernel -/
inductive PagingOp
  | allocFrame
  | freeFrame (frame : Nat)
  | setSsPag (d : DirIx) (page frame : Nat)
  | delSsPag (d : DirIx) (page : Nat)
  | getFrame (d : DirIx) (page : Nat)
  | setUserPages (d : DirIx)
  | inheritEntry (new parent : DirIx) (page : Nat)
  | setCr3 (d : DirIx)
  | load (mode : Mode) (a : Addr)
  | store (mode : Mode) (a : Addr) (v : Byte)
  deriving DecidableEq, Repr

namespace PagingOp

/-- An operation on the tables of the processor. The list gets the numbers of frames and the bytes that are read. -/
def onPaged (l : Layout) : PagingOp → Paged × List Nat → Option (Paged × List Nat)
  | allocFrame, (s, seen) =>
    let (frame, s) := s.allocFrame
    some (s, seen ++ [Mm.pbaseOfFrame frame])
  | freeFrame frame, (s, seen) => some (s.freeFrame frame, seen)
  | setSsPag d page frame, (s, seen) => some (s.setSsPag (s.getPT l d) page frame, seen)
  | delSsPag d page, (s, seen) => some (s.delSsPag (s.getPT l d) page, seen)
  | getFrame d page, (s, seen) => some (s, seen ++ [s.getFrame (s.getPT l d) page])
  | setUserPages d, (s, seen) => some (s.setUserPages (s.getPT l d), seen)
  | inheritEntry new parent page, (s, seen) =>
    some (s.inheritEntry (s.getPT l new) (s.getPT l parent) page, seen)
  | setCr3 d, (s, seen) => some (s.setCr3 l d, seen)
  | load mode a, (s, seen) => (s.load mode a).map fun (v, s) => (s, seen ++ [v.toNat])
  | store mode a v, (s, seen) => (s.store mode a v).map fun s => (s, seen)

def onMm : PagingOp → (Mm × DirIx) × List Nat → Option ((Mm × DirIx) × List Nat)
  | allocFrame, ((mm, c), seen) =>
    let (frame, mm) := mm.allocFrame
    some ((mm, c), seen ++ [Mm.pbaseOfFrame frame])
  | freeFrame frame, ((mm, c), seen) => some ((mm.freeFrame frame, c), seen)
  | setSsPag d page frame, ((mm, c), seen) => some ((mm.setSsPag (Mm.getPT d) page frame, c), seen)
  | delSsPag d page, ((mm, c), seen) => some ((mm.delSsPag (Mm.getPT d) page, c), seen)
  | getFrame d page, ((mm, c), seen) => some ((mm, c), seen ++ [mm.getFrame (Mm.getPT d) page])
  | setUserPages d, ((mm, c), seen) => some ((mm.setUserPages (Mm.getPT d), c), seen)
  | inheritEntry new parent page, ((mm, c), seen) =>
    some ((mm.setEntry (Mm.getPT new + page) (mm.pagusrTable (Mm.getPT parent + page)), c), seen)
  | setCr3 d, ((mm, _), seen) => some ((mm, d), seen)
  | load .user a, ((mm, c), seen) => (mm.userLoad (Mm.getPT c) a).map fun v => ((mm, c), seen ++ [v.toNat])
  | load .kernel a, ((mm, c), seen) => (mm.load (Mm.getPT c) a).map fun v => ((mm, c), seen ++ [v.toNat])
  | store .user a v, ((mm, c), seen) => (mm.userStore (Mm.getPT c) a v).map fun mm => ((mm, c), seen)
  | store .kernel a v, ((mm, c), seen) => (mm.store (Mm.getPT c) a v).map fun mm => ((mm, c), seen)

/--
`set_ss_pag` is called with frames for users, and the kernel does not use its pages for accesses to the tables. There
is no condition on user mode.
-/
def Allowed (l : Layout) : PagingOp → (Mm × DirIx) × List Nat → Prop
  | setSsPag _ page frame, _ => page < totalPages ∧ numPagKernel ≤ frame ∧ frame < 2 ^ 20
  | delSsPag _ page, _ => page < totalPages
  | getFrame _ page, _ => page < totalPages
  | inheritEntry _ _ page, _ => page < totalPages
  | load .kernel a, ((mm, c), _) => ∀ e ∈ mm.entryOf (Mm.getPT c) a, ¬l.HoldsTable e.pbaseAddr
  | store .kernel a _, ((mm, c), _) => ∀ e ∈ mm.entryOf (Mm.getPT c) a, ¬l.HoldsTable e.pbaseAddr
  | _, _ => True

end PagingOp

end Zeos
