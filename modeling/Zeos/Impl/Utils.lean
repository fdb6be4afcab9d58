import Zeos.Impl.Mm

/-!
`utils.c`: the block copies and the check of user pointers.
-/

namespace Zeos

/--
A memory that is read and written byte by byte. `none` is a page fault.
-/
class ByteMem (σ : Type) where
  load : σ → Addr → Option Byte
  store : σ → Addr → Byte → Option σ

/-- Memory without translation, every address of which is backed. -/
abbrev FlatMem := Addr → Byte

instance : ByteMem FlatMem where
  load m a := some (m a)
  store m a v := some fun b => if b = a then v else m b

/-- Physical memory seen through the page table `pt` from kernel mode. -/
structure Space where
  mm : Mm
  pt : Nat

instance : ByteMem Space where
  load s a := s.mm.load s.pt a
  store s a v := (s.mm.store s.pt a v).map fun mm => { s with mm := mm }

section CopyData

variable {σ : Type} [ByteMem σ]

def copyByte (p q : Addr) (m : σ) : Option σ :=
  (ByteMem.load m p).bind (ByteMem.store m q)

/-- `*q = *p` for `DWord`s: all four bytes are read before the first one is written. -/
def copyDWord (p q : Addr) (m : σ) : Option σ := do
  let b0 ← ByteMem.load m p
  let b1 ← ByteMem.load m (p + 1)
  let b2 ← ByteMem.load m (p + 2)
  let b3 ← ByteMem.load m (p + 3)
  let m ← ByteMem.store m q b0
  let m ← ByteMem.store m (q + 1) b1
  let m ← ByteMem.store m (q + 2) b2
  ByteMem.store m (q + 3) b3

def copyDWords (fuel : Nat) (p q : Addr) (size : Int) (m : σ) : Option (Addr × Addr × Int × σ) :=
  match fuel with
  | 0 => some (p, q, size, m)
  | fuel + 1 =>
    if size > 4 then
      (copyDWord p q m).bind (copyDWords fuel (p + 4) (q + 4) (size - 4))
    else
      some (p, q, size, m)

def copyBytes (fuel : Nat) (p q : Addr) (size : Int) (m : σ) : Option σ :=
  match fuel with
  | 0 => some m
  | fuel + 1 =>
    if size > 0 then
      (copyByte p q m).bind (copyBytes fuel (p + 1) (q + 1) (size - 1))
    else
      some m

/-- `copy_data`. The loops run at most `size` times, which bounds the fuel. -/
def copyData (start dest : Addr) (size : Int) (m : σ) : Option σ :=
  (copyDWords size.toNat start dest size m).bind fun (p, q, size, m) =>
    copyBytes size.toNat p q size m

/-- `copy_from_user`, whose body is that of `copy_data`; it always returns 0. -/
def copyFromUser (start dest : Addr) (size : Int) (m : σ) : Option σ :=
  copyData start dest size m

def copyToUser (start dest : Addr) (size : Int) (m : σ) : Option σ :=
  copyData start dest size m

end CopyData

inductive Verify
  | verifyRead
  | verifyWrite
  deriving DecidableEq, Repr

-- The first case of the `switch` has no `break`, so a write that fails it is tried as a read.
def accessOk (type : Verify) (addr size : BitVec 32) : Bool :=
  let addrIni := addr.toNat / pageSize
  let addrFin := (addr + size).toNat / pageSize
  if addrFin < addrIni then
    false
  else if type = .verifyWrite ∧ addrIni ≥ pagLogInitCode + numPagCode
      ∧ addrFin ≤ pagLogInitCode + numPagCode + numPagData then
    true
  else if addrIni ≥ pagLogInitCode ∧ addrFin ≤ pagLogInitCode + numPagCode + numPagData then
    true
  else
    false

end Zeos
