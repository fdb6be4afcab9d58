import Zeos.Impl.Bootsect
import Zeos.Impl.Kernel

/-!
`system.c`, as far as it deals with the image: where `main` finds the user program, and how it goes there.
-/

namespace Zeos

def kernelStart : Addr :=
  0x10000

def pUsrSize : Addr :=
  kernelStart + 4

def pRdtr : Addr :=
  kernelStart + 8

def phUserStart : Addr :=
  0x100000

def lUserStart : Addr :=
  0x100000

def userESP : Addr :=
  lUserStart + BitVec.ofNat 32 ((numPagCode + numPagData) * pageSize) - 16

def framesOf (mem : Bootsect.Memory) (frame offset : Nat) : Byte :=
  mem (pageSize * frame + offset)

section Main

variable {σ : Type} [ByteMem σ]

def loadDWord (p : Addr) (m : σ) : Option (BitVec 32) := do
  let b0 ← ByteMem.load m p
  let b1 ← ByteMem.load m (p + 1)
  let b2 ← ByteMem.load m (p + 2)
  let b3 ← ByteMem.load m (p + 3)
  some (b3 ++ b2 ++ b1 ++ b0)

def storeDWord (q : Addr) (v : BitVec 32) (m : σ) : Option σ := do
  let m ← ByteMem.store m q (v.extractLsb' 0 8)
  let m ← ByteMem.store m (q + 1) (v.extractLsb' 8 8)
  let m ← ByteMem.store m (q + 2) (v.extractLsb' 16 8)
  ByteMem.store m (q + 3) (v.extractLsb' 24 8)

def moveUser (m : σ) : Option σ := do
  let sysSize ← loadDWord kernelStart m
  let usrSize ← loadDWord pUsrSize m
  copyData (kernelStart + sysSize) phUserStart usrSize.toInt m

structure UserStart where
  eip : Addr
  cs : BitVec 16
  esp : Addr
  ss : BitVec 16
  deriving DecidableEq, Repr

/-- `return_gate`, which leaves `*p_rdtr` behind the stack of the user -/
def returnGate (ss : BitVec 16) (esp : Addr) (cs : BitVec 16) (eip : Addr) (m : σ)
    : Option (UserStart × σ) := do
  let rdtr ← loadDWord pRdtr m
  let m ← storeDWord (esp + 12) rdtr m
  some ({ eip := eip, cs := cs, esp := esp, ss := ss }, m)

def goToUser (m : σ) : Option (UserStart × σ) :=
  (moveUser m).bind (returnGate 0x2B userESP 0x23 lUserStart)

end Main

/-- `main`, from the memory that the loader leaves -/
def mainOf (mem : Bootsect.Memory) : Option (UserStart × Space) := do
  let s ← boot (framesOf mem)
  goToUser { mm := s.mm, pt := Mm.getPT s.cr3 : Space }

end Zeos
