import Zeos.Impl.Devices

/-!
What `access_ok` is for: it accepts the blocks that a user may read or write, and no others.
-/

namespace Zeos

def Verify.firstPage : Verify → Nat
  | .verifyRead => pagLogInitCode
  | .verifyWrite => pagLogInitData

/-- The block does not wrap around, and all of it lies in the pages that `sys_fork` hands out. -/
structure InUserPages (type : Verify) (addr size : BitVec 32) : Prop where
  noWrap : addr.toNat + size.toNat < 2 ^ 32
  inside : ∀ i < size.toNat,
    type.firstPage ≤ (addr.toNat + i) / pageSize ∧ (addr.toNat + i) / pageSize < pagLogInitHeap

instance (type : Verify) (addr size : BitVec 32) : Decidable (InUserPages type addr size) :=
  decidable_of_iff (addr.toNat + size.toNat < 2 ^ 32 ∧ ∀ i < size.toNat,
      type.firstPage ≤ (addr.toNat + i) / pageSize ∧ (addr.toNat + i) / pageSize < pagLogInitHeap)
    ⟨fun h => ⟨h.1, h.2⟩, fun h => ⟨h.noWrap, h.inside⟩⟩

/-- The block starts in a page of the user, or in the first one of the heap, and its end wraps around
into that same page. -/
def WrapsIntoItself (addr size : BitVec 32) : Prop :=
  pagLogInitCode ≤ addr.toNat / pageSize ∧ addr.toNat / pageSize ≤ pagLogInitHeap ∧
    2 ^ 32 ≤ addr.toNat % pageSize + size.toNat

/-- The block is not empty, starts in a page of the user or later, and ends inside the first page of the
heap. -/
def EndsInHeap (addr size : BitVec 32) : Prop :=
  0 < size.toNat ∧ pagLogInitCode ≤ addr.toNat / pageSize ∧
    heapStart < addr.toNat + size.toNat ∧ addr.toNat + size.toNat < heapStart + pageSize

/-- The block is not empty, starts in the code of the user, and ends before the second page of the heap. -/
def StartsInCode (addr size : BitVec 32) : Prop :=
  0 < size.toNat ∧ pagLogInitCode ≤ addr.toNat / pageSize ∧ addr.toNat / pageSize < pagLogInitData ∧
    addr.toNat + size.toNat < heapStart + pageSize

def Misjudged (type : Verify) (addr size : BitVec 32) : Prop :=
  WrapsIntoItself addr size ∨ EndsInHeap addr size ∨ type = .verifyWrite ∧ StartsInCode addr size

def Kernel.Writes (k : Kernel) (a : Addr) : Prop :=
  ((k.mm.entryOf (k.getPT k.current) a).any fun e => e.user && e.rw) = true

instance (k : Kernel) : DecidablePred k.Writes :=
  fun _ => inferInstanceAs (Decidable (_ = true))

def Kernel.WritesBlock (k : Kernel) (addr size : BitVec 32) : Prop :=
  ∀ i < size.toNat, k.Writes (addr + BitVec.ofNat 32 i)

instance (k : Kernel) (addr size : BitVec 32) : Decidable (k.WritesBlock addr size) :=
  inferInstanceAs (Decidable (∀ i < size.toNat, k.Writes (addr + BitVec.ofNat 32 i)))

/-- The block is good as a buffer for the system calls that store to one. -/
structure Sys.AcceptsBuffer (s : Sys) (addr size : BitVec 32) : Prop where
  accessOk : accessOk .verifyWrite addr size = true
  read : 0 ≤ size.toInt → s.sysRead 0 addr size.toInt = s.sysReadKeyboard addr size.toInt
  getStats : size = Kernel.sizeofStats → ∀ pid ≥ 0, ∀ r k,
    s.sysGetStats pid addr = some (r, k) → r ≠ -eFAULT

end Zeos
