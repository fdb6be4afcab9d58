import Zeos.Lib.Words
import Zeos.Impl.Mm

/-!
Paging as the processor sees it: the entries are words in physical memory, which set the bits of `types.h`, and each
access goes through a directory and a page table.
-/

namespace Zeos

namespace RawEntry

def present (e : BitVec 32) : Bool :=
  e.getLsbD 0

def rw (e : BitVec 32) : Bool :=
  e.getLsbD 1

def user (e : BitVec 32) : Bool :=
  e.getLsbD 2

def pbaseAddr (e : BitVec 32) : BitVec 20 :=
  e.extractLsb' 12 20

def setPresent (e : BitVec 32) : BitVec 32 :=
  e ||| 0x1

def setRw (e : BitVec 32) : BitVec 32 :=
  e ||| 0x2

def setUser (e : BitVec 32) : BitVec 32 :=
  e ||| 0x4

def setAccessed (e : BitVec 32) : BitVec 32 :=
  e ||| 0x20

def setDirty (e : BitVec 32) : BitVec 32 :=
  e ||| 0x40

def setPbaseAddr (v : Nat) (e : BitVec 32) : BitVec 32 :=
  BitVec.ofNat 20 v ++ e.extractLsb' 0 12

end RawEntry

/-- Where `dir_pages` and `pagusr_table` are: in `.data.task`, and so in whole pages of the kernel -/
structure Layout where
  dirPages : Nat
  pagusrTable : Nat
  dirPages_aligned : dirPages % pageSize = 0
  pagusrTable_aligned : pagusrTable % pageSize = 0
  dirPages_kernel : dirPages + nrTasks * pageSize ≤ numPagKernel * pageSize
  pagusrTable_kernel : pagusrTable + nrTasks * pageSize ≤ numPagKernel * pageSize
  apart : dirPages + nrTasks * pageSize ≤ pagusrTable ∨ pagusrTable + nrTasks * pageSize ≤ dirPages

/-- `phys_mem`, physical memory, and the registers for paging -/
structure Paged where
  physMem : Nat → Frame
  mem : Words.Memory
  cr3 : BitVec 32
  /-- The flag that `set_pe_flag` sets in `%cr0` -/
  pg : Bool

inductive Mode
  | user
  | kernel
  deriving DecidableEq, Repr

namespace Paged

section Tables

variable (l : Layout)

def initDirPages (s : Paged) : Paged :=
  { s with
    mem := (List.range nrTasks).foldl (fun m i =>
      Words.modify l.dirPages (totalPages * i) (fun _ =>
        RawEntry.setPresent (RawEntry.setRw (RawEntry.setUser
          (RawEntry.setPbaseAddr ((l.pagusrTable + pageSize * i) / pageSize) 0)))) m) s.mem }

def initTable (pt : Nat) (m : Words.Memory) : Words.Memory :=
  let m := Words.modifyAll pt (List.range totalPages) (fun _ _ => 0) m
  Words.modifyAll pt (List.range' 1 (numPagKernel - 1))
    (fun i e => RawEntry.setPresent (RawEntry.setRw (RawEntry.setPbaseAddr i e))) m

def initTablePages (s : Paged) : Paged :=
  { s with
    mem := (List.range nrTasks).foldl (fun m j => initTable (l.pagusrTable + pageSize * j) m) s.mem }

def frameMap (s : Paged) : Mm :=
  { physMem := s.physMem, pagusrTable := fun _ => .zero, frames := fun _ _ => 0 }

def initFrames (s : Paged) : Paged :=
  { s with physMem := s.frameMap.initFrames.physMem }

def allocFrame (s : Paged) : Option Nat × Paged :=
  let (frame, mm) := s.frameMap.allocFrame
  (frame, { s with physMem := mm.physMem })

def freeFrame (s : Paged) (frame : Nat) : Paged :=
  { s with physMem := (s.frameMap.freeFrame frame).physMem }

def getDIR (d : DirIx) : Nat :=
  l.dirPages + pageSize * d

/-- `get_PT`: the page table is where the directory says. -/
def getPT (d : DirIx) (s : Paged) : Nat :=
  pageSize * (RawEntry.pbaseAddr (Words.read s.mem (getDIR l d))).toNat

def setCr3 (d : DirIx) (s : Paged) : Paged :=
  { s with cr3 := BitVec.ofNat 32 (getDIR l d) }

end Tables

def setEntry (pt page : Nat) (e : BitVec 32) (s : Paged) : Paged :=
  { s with mem := Words.modify pt page (fun _ => e) s.mem }

def setSsPag (pt page frame : Nat) (s : Paged) : Paged :=
  s.setEntry pt page
    (RawEntry.setPresent (RawEntry.setRw (RawEntry.setUser (RawEntry.setPbaseAddr frame 0))))

def delSsPag (pt page : Nat) (s : Paged) : Paged :=
  s.setEntry pt page 0

def getFrame (pt page : Nat) (s : Paged) : Nat :=
  (RawEntry.pbaseAddr (Words.read s.mem (pt + 4 * page))).toNat

/-- `pageNew[page].entry = pageParent[page].entry`, in `sys_fork` -/
def inheritEntry (pageNew pageParent page : Nat) (s : Paged) : Paged :=
  s.setEntry pageNew page (Words.read s.mem (pageParent + 4 * page))

def setUserPages (pt : Nat) (s : Paged) : Paged :=
  let s := (List.range numPagCode).foldl (fun s pag =>
    let (newPhPag, s) := s.allocFrame
    s.setEntry pt (pagLogInitCode + pag)
      (RawEntry.setPresent (RawEntry.setUser (RawEntry.setPbaseAddr (Mm.pbaseOfFrame newPhPag) 0)))) s
  (List.range numPagData).foldl (fun s pag =>
    let (newPhPag, s) := s.allocFrame
    s.setEntry pt (pagLogInitData + pag)
      (RawEntry.setPresent (RawEntry.setRw (RawEntry.setUser
        (RawEntry.setPbaseAddr (Mm.pbaseOfFrame newPhPag) 0))))) s

def initMm (l : Layout) (d : DirIx) (s : Paged) : Paged :=
  let s := (((s.initTablePages l).initFrames).initDirPages l).setCr3 l d
  { s with pg := true }

section Processor

/-- The processor allows user mode what both entries allow, and the kernel all that is present. -/
def allows (mode : Mode) (write : Bool) (pde pte : BitVec 32) : Bool :=
  RawEntry.present pde && RawEntry.present pte &&
    match mode with
    | .kernel => true
    | .user => RawEntry.user pde && RawEntry.user pte && (!write || (RawEntry.rw pde && RawEntry.rw pte))

/-- The physical address of an access; `none` is a page fault. -/
def walk (mode : Mode) (write : Bool) (a : Addr) (s : Paged) : Option (Nat × Paged) :=
  if s.pg then
    let pdeAt := (s.cr3 &&& 0xFFFFF000).toNat + 4 * (a.toNat / (totalPages * pageSize))
    let pde := Words.read s.mem pdeAt
    let pteAt := pageSize * (RawEntry.pbaseAddr pde).toNat + 4 * (a.toNat / pageSize % totalPages)
    let pte := Words.read s.mem pteAt
    if allows mode write pde pte then
      let mem := Words.write pdeAt (RawEntry.setAccessed pde) s.mem
      let pte := RawEntry.setAccessed (Words.read mem pteAt)
      let mem := Words.write pteAt (if write then RawEntry.setDirty pte else pte) mem
      some (pageSize * (RawEntry.pbaseAddr pte).toNat + a.toNat % pageSize, { s with mem := mem })
    else
      none
  else
    some (a.toNat, s)

def load (mode : Mode) (a : Addr) (s : Paged) : Option (Byte × Paged) :=
  (s.walk mode false a).map fun (p, s) => (s.mem p, s)

def store (mode : Mode) (a : Addr) (v : Byte) (s : Paged) : Option Paged :=
  (s.walk mode true a).map fun (p, s) => { s with mem := Function.update s.mem p v }

end Processor

end Paged

end Zeos
