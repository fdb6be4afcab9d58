import Zeos.Impl.Types

/-!
`mm.c`: the frame map, the page tables and the memory they give access to.

`pagusr_table` is one array of `NR_TASKS * TOTAL_PAGES` entries, and a page table is known by the index
of its entry 0 in it. Directory `i` has page table `i` in its only entry (`init_dir_pages`), and nothing
writes a directory afterwards.
-/

namespace Zeos

/--
Physical memory: which frames are taken, the page tables, and the bytes of each frame.
-/
structure Mm where
  physMem : Nat → Frame
  pagusrTable : Nat → PageTableEntry
  frames : Nat → Nat → Byte

namespace PageTableEntry

def zero : PageTableEntry :=
  { present := false, rw := false, user := false, pbaseAddr := 0 }

end PageTableEntry

namespace Mm

def setEntry (mm : Mm) (i : Nat) (e : PageTableEntry) : Mm :=
  { mm with pagusrTable := fun j => if j = i then e else mm.pagusrTable j }

def setPhysMem (mm : Mm) (f : Nat) (u : Frame) : Mm :=
  { mm with physMem := fun g => if g = f then u else mm.physMem g }

def getPT (dir : DirIx) : Nat :=
  totalPages * dir

def initFrames (mm : Mm) : Mm :=
  { mm with
    physMem := fun i =>
      if i < numPagKernel then .usedFrame
      else if i < totalPages then .freeFrame
      else mm.physMem i }

/-- The loops of `init_table_pages`; page 0 stays inaccessible to comply with the NULL convention. -/
def initTablePages (mm : Mm) : Mm :=
  { mm with
    pagusrTable := fun i =>
      let page := i % totalPages
      if i < nrTasks * totalPages then
        if 1 ≤ page ∧ page < numPagKernel then
          { present := true, rw := true, user := false, pbaseAddr := page }
        else
          .zero
      else mm.pagusrTable i }

/-- `alloc_frame`; `none` is -1. -/
def allocFrame (mm : Mm) : Option Nat × Mm :=
  match go ((totalPages - numPagKernel) / 2) numPagKernel with
  | some i => (some i, mm.setPhysMem i .usedFrame)
  | none => (none, mm)
where
  -- One unit of fuel for each `i` below `TOTAL_PAGES`.
  go : Nat → Nat → Option Nat
    | 0, _ => none
    | fuel + 1, i => if mm.physMem i = .freeFrame then some i else go fuel (i + 2)

def freeFrame (mm : Mm) (frame : Nat) : Mm :=
  if frame > numPagKernel ∧ frame < totalPages then mm.setPhysMem frame .freeFrame else mm

def setSsPag (mm : Mm) (pt page frame : Nat) : Mm :=
  mm.setEntry (pt + page) { present := true, rw := true, user := true, pbaseAddr := frame }

def delSsPag (mm : Mm) (pt page : Nat) : Mm :=
  mm.setEntry (pt + page) .zero

def getFrame (mm : Mm) (pt page : Nat) : Nat :=
  (mm.pagusrTable (pt + page)).pbaseAddr

/-- `pbase_addr` has 20 bits, so the -1 of a failed `alloc_frame` is stored as this number. -/
def pbaseOfFrame (frame : Option Nat) : Nat :=
  frame.getD 0xFFFFF

def setUserPages (mm : Mm) (pt : Nat) : Mm :=
  let mm := (List.range numPagCode).foldl (fun mm pag =>
    let (newPhPag, mm) := mm.allocFrame
    mm.setEntry (pt + (pagLogInitCode + pag))
      { present := true, rw := false, user := true, pbaseAddr := pbaseOfFrame newPhPag }) mm
  (List.range numPagData).foldl (fun mm pag =>
    let (newPhPag, mm) := mm.allocFrame
    mm.setEntry (pt + (pagLogInitData + pag))
      { present := true, rw := true, user := true, pbaseAddr := pbaseOfFrame newPhPag }) mm

/--
The entry the processor finds for a linear address. A directory has no present entry but
`ENTRY_DIR_PAGES`, which covers the first `TOTAL_PAGES` pages.
-/
def entryOf (mm : Mm) (pt : Nat) (a : Addr) : Option PageTableEntry :=
  let page := a.toNat / pageSize
  if page < totalPages then
    let e := mm.pagusrTable (pt + page)
    if e.present then some e else none
  else
    none

def setByte (mm : Mm) (frame offset : Nat) (v : Byte) : Mm :=
  { mm with
    frames := fun f o => if f = frame ∧ o = offset then v else mm.frames f o }

/-- A load in kernel mode; `none` is a page fault. -/
def load (mm : Mm) (pt : Nat) (a : Addr) : Option Byte :=
  (mm.entryOf pt a).map fun e => mm.frames e.pbaseAddr (a.toNat % pageSize)

/-- A store in kernel mode, which the bit `rw` does not restrict. -/
def store (mm : Mm) (pt : Nat) (a : Addr) (v : Byte) : Option Mm :=
  (mm.entryOf pt a).map fun e => mm.setByte e.pbaseAddr (a.toNat % pageSize) v

def userLoad (mm : Mm) (pt : Nat) (a : Addr) : Option Byte :=
  (mm.entryOf pt a).bind fun e =>
    if e.user then some (mm.frames e.pbaseAddr (a.toNat % pageSize)) else none

def userStore (mm : Mm) (pt : Nat) (a : Addr) (v : Byte) : Option Mm :=
  (mm.entryOf pt a).bind fun e =>
    if e.user ∧ e.rw then some (mm.setByte e.pbaseAddr (a.toNat % pageSize) v) else none

end Mm

end Zeos
