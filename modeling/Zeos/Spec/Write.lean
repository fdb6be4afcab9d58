import Zeos.Impl.Kernel

/-!
What a process may see of memory when it prints.
-/

namespace Zeos

/--
The pages of a user process: page 0 is not there, the kernel is mapped to itself, and what lies above it
belongs to the process.
-/
structure UserTable (m : Space) : Prop where
  null : (m.mm.pagusrTable m.pt).present = false
  kernel : ∀ page, 1 ≤ page → page < numPagKernel →
    m.mm.pagusrTable (m.pt + page) = { present := true, rw := true, user := false, pbaseAddr := page }
  code : (m.mm.pagusrTable (m.pt + pagLogInitCode)).present
  user : ∀ page, pagLogInitCode ≤ page → page < totalPages →
    (m.mm.pagusrTable (m.pt + page)).present →
      (m.mm.pagusrTable (m.pt + page)).user ∧
        numPagKernel ≤ (m.mm.pagusrTable (m.pt + page)).pbaseAddr

def StackBuff (buff : Addr) : Prop :=
  pageSize ≤ buff.toNat ∧ buff.toNat + 4 ≤ numPagKernel * pageSize

instance (buff : Addr) : Decidable (StackBuff buff) :=
  inferInstanceAs (Decidable (_ ∧ _))

/-- A process in a system call, and the array of `sys_write` on its kernel stack. -/
structure Caller where
  space : Space
  buff : Addr
  table : UserTable space
  stack : StackBuff buff

/-- The second memory has the pages of the first one, and the same bytes in those of the process. -/
structure SameUserMemory (m m' : Space) : Prop where
  pt : m'.pt = m.pt
  table : ∀ page < totalPages,
    m'.mm.pagusrTable (m.pt + page) = m.mm.pagusrTable (m.pt + page)
  bytes : ∀ page < totalPages, (m.mm.pagusrTable (m.pt + page)).present →
    (m.mm.pagusrTable (m.pt + page)).user → ∀ offset,
      m'.mm.frames (m.mm.pagusrTable (m.pt + page)).pbaseAddr offset =
        m.mm.frames (m.mm.pagusrTable (m.pt + page)).pbaseAddr offset

/--
What a caller prints and gets back depends on its own memory only, and what it prints is what it finds
there.
-/
def Confined (c : Caller) (fd : Int) (buffer : Addr) (size : Int) : Prop :=
  (∀ m', SameUserMemory c.space m' →
      sysWrite c.buff fd buffer size m' = sysWrite c.buff fd buffer size c.space) ∧
    ∀ i b, (sysWrite c.buff fd buffer size c.space).console[i]? = some b →
      c.space.mm.userLoad c.space.pt (buffer + BitVec.ofNat 32 i) = some b

def KernelAddr (a : Addr) : Prop :=
  pageSize ≤ a.toNat ∧ a.toNat < numPagKernel * pageSize

instance (a : Addr) : Decidable (KernelAddr a) :=
  inferInstanceAs (Decidable (_ ∧ _))

def UserAddr (a : Addr) : Prop :=
  pagLogInitCode * pageSize ≤ a.toNat

end Zeos
