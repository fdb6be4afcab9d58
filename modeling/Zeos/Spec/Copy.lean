import Zeos.Lib.Loop
import Zeos.Impl.Utils
import Zeos.Spec.Console

/-!
What the block copies of `utils.c` are for, over any memory whose bytes are independent of each other.
-/

namespace Zeos

class LawfulByteMem (σ : Type) [ByteMem σ] : Prop where
  load_of_store {m m' : σ} {a : Addr} {v : Byte} (h : ByteMem.store m a v = some m') (b : Addr)
    : ByteMem.load m' b = if b = a then some v else ByteMem.load m b
  isSome_store {m : σ} {a : Addr} (h : (ByteMem.load m a).isSome) (v : Byte)
    : (ByteMem.store m a v).isSome

def Backed {σ : Type} [ByteMem σ] (base : Addr) (n : Nat) (m : σ) : Prop :=
  ∀ i < n, (ByteMem.load m (base + BitVec.ofNat 32 i)).isSome

structure CopyState (σ : Type) where
  p : Addr
  q : Addr
  size : Int
  mem : σ

section CopyData

variable {σ : Type} [ByteMem σ]

namespace CopyState

def moreDWords (s : CopyState σ) : Prop :=
  s.size > 4

def moreBytes (s : CopyState σ) : Prop :=
  s.size > 0

def dword (s : CopyState σ) : Option (CopyState σ) :=
  (copyDWord s.p s.q s.mem).map fun mem => ⟨s.p + 4, s.q + 4, s.size - 4, mem⟩

def byte (s : CopyState σ) : Option (CopyState σ) :=
  (copyByte s.p s.q s.mem).map fun mem => ⟨s.p + 1, s.q + 1, s.size - 1, mem⟩

end CopyState

/--
Both loops of `copy_data` are left because their conditions fail, and the memory is `m'` then.
-/
def CopyEnds (start dest : Addr) (size : Int) (m m' : σ) : Prop :=
  ∃ n k s s', Loop.Exits CopyState.moreDWords CopyState.dword n ⟨start, dest, size, m⟩ s ∧
    Loop.Exits CopyState.moreBytes CopyState.byte k s s' ∧ s'.mem = m'

/--
The `n` bytes from `dest` on are what those from `start` on were, and all the others are as before.
-/
structure Copies (start dest : Addr) (n : Nat) (m m' : σ) : Prop where
  copied : ∀ i < n,
    ByteMem.load m' (dest + BitVec.ofNat 32 i) = ByteMem.load m (start + BitVec.ofNat 32 i)
  kept : ∀ a, ¬InRange dest n a → ByteMem.load m' a = ByteMem.load m a

/--
Neither range wraps around, and they do not overlap unless `dest` is the lower one.
-/
structure CopyRanges (start dest : Addr) (n : Nat) : Prop where
  start_le : start.toNat + n ≤ 2 ^ 32
  dest_le : dest.toNat + n ≤ 2 ^ 32
  apart : start.toNat + n ≤ dest.toNat ∨ dest.toNat + n ≤ start.toNat ∨ dest ≤ start

end CopyData

end Zeos
