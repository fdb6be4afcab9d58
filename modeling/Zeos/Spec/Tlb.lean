import Zeos.Lib.Tlb
import Zeos.Spec.Window

/-!
What the processor may keep of the page table while `sys_fork` changes it. Only `set_cr3` makes it forget.
-/

namespace Zeos

namespace Mm

def translation (mm : Mm) (pt page : Nat) : Option Nat :=
  if page < totalPages ∧ (mm.pagusrTable (pt + page)).present then
    some (mm.pagusrTable (pt + page)).pbaseAddr
  else
    none

def accesses (mm : Mm) (pt : Nat) (pages : List Nat) : List (Tlb.Op Nat Nat) :=
  pages.map (.access (mm.translation pt))

end Mm

def copyPages (start dest : Addr) (size : Nat) : List Nat :=
  (List.range size).flatMap fun i =>
    [(start + BitVec.ofNat 32 i).toNat / pageSize, (dest + BitVec.ofNat 32 i).toNat / pageSize]

section Fork

-- The pages with the code and the data of the kernel itself.
variable (kernel : List Nat)

namespace Kernel

/-- What the processor does in the last `n` rounds of the loop over the data pages. -/
def inheritDataOps (pt pageNew pageParent : Nat) (n : Nat) (mm : Mm) : List (Tlb.Op Nat Nat) :=
  match n with
  | 0 => mm.accesses pt kernel
  | n + 1 =>
    let i := numPagData - (n + 1)
    mm.accesses pt kernel ++
      match mm.allocFrame with
      | (none, _) => []
      | (some frame, mm) =>
        let mm := mm.setSsPag pageNew (pagLogInitData + i) frame
        let mm := mm.setSsPag pageParent (pagLogInitData + numPagData + i) frame
        let start := BitVec.ofNat 32 ((pagLogInitData + i) * pageSize)
        let dest := BitVec.ofNat 32 ((pagLogInitData + numPagData + i) * pageSize)
        mm.accesses pt (kernel ++ copyPages start dest pageSize) ++
          match copyData start dest pageSize { mm := mm, pt := pt : Space } with
          | none => []
          | some m =>
            inheritDataOps pt pageNew pageParent n
              (m.mm.delSsPag pageParent (pagLogInitData + numPagData + i))

def inheritPagesOps (new : Slot) (k : Kernel) : List (Tlb.Op Nat Nat) :=
  let pageNew := k.getPT new
  let pageParent := k.getPT k.current
  let mm := inheritCode pageNew pageParent k.mm
  k.mm.accesses (Mm.getPT k.cr3) kernel ++
    (inheritDataOps kernel (Mm.getPT k.cr3) pageNew pageParent numPagData mm ++
      match k.inheritPages new with
      | some (true, k) => .flush :: k.mm.accesses (k.getPT k.current) kernel
      | _ => [])

end Kernel

namespace Sys

/-- What the processor does in `sys_fork`. -/
def forkOps (s : Sys) : List (Tlb.Op Nat Nat) :=
  s.mm.accesses (Mm.getPT s.cr3) kernel ++
    if listEmpty (.head .freequeue) s.links then []
    else
      match s.takeFree with
      | none => []
      | some (new, s) =>
        let s := copyTask new s
        match s.allocateDIR new with
        | none => []
        | some k => k.inheritPagesOps kernel new

/--
Whatever the processor keeps when `sys_fork` has led from `s` to `s'`, it is what the page table of the
parent says, and no frame that is free.
-/
def KeepsTranslations (s s' : Sys) (c : Set (Nat × Nat)) : Prop :=
  ∀ c', Tlb.Run (s.forkOps kernel) c c' → ∀ x ∈ c',
    s'.mm.translation (s.getPT s.current) x.1 = some x.2 ∧ s'.mm.physMem x.2 = .usedFrame

/-- There are a PCB and a directory for a child, and frames for some of its data pages only. -/
def RunsShort (s : Sys) : Prop :=
  listEmpty (.head .freequeue) s.links = false ∧ (∃ d, s.refsDIR d = 0) ∧
    0 < s.mm.freeFrames ∧ s.mm.freeFrames < numPagData

end Sys

end Fork

end Zeos
