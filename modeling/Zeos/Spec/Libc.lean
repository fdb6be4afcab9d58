import Mathlib.Data.Nat.Log
import Zeos.Impl.Libc
import Zeos.Spec.Copy

/-!
What `itoa` and `strlen` are for: the decimal text of a number as a string in memory.
-/

namespace Zeos

section Strings

variable {σ : Type} [ByteMem σ]

def HoldsBytes (b : Addr) (cs : List Byte) (m : σ) : Prop :=
  ∀ i c, cs[i]? = some c → ByteMem.load m (b + BitVec.ofNat 32 i) = some c

structure HoldsString (b : Addr) (cs : List Byte) (m : σ) : Prop where
  bytes : HoldsBytes b (cs ++ [0]) m
  not_nul : (0 : Byte) ∉ cs

end Strings

def IsDigit (c : Byte) : Prop :=
  48 ≤ c.toNat ∧ c.toNat ≤ 57

def decimalValue (cs : List Byte) : Nat :=
  cs.foldl (fun n c => 10 * n + (c.toNat - 48)) 0

def decimalLength (n : Nat) : Nat :=
  Nat.log 10 n + 1

/-- The text is how `n` is written: no leading zero, but for `0` itself. -/
structure DecimalText (cs : List Byte) (n : Nat) : Prop where
  digits : ∀ c ∈ cs, IsDigit c
  leading : cs.head? = some 48 → cs = [48]
  value : decimalValue cs = n
  length : cs.length = decimalLength n

/--
`itoa` ends and has written `cs` as a string, which is the number and takes at most eleven bytes. No other
bytes are touched: the same call ends too in a memory that has only these.
-/
structure PrintsDecimal (a : Int) (b : Addr) (cs : List Byte) (m m' : FlatMem) : Prop where
  result : itoa a b m = some m'
  string : HoldsString b cs m'
  text : DecimalText cs a.toNat
  strlen : strlen b m' = some (decimalLength a.toNat)
  short : cs.length + 1 ≤ 11
  confined : itoa a b
      (⟨m⟩ : Fenced FlatMem (InRange b (cs.length + 1)) (InRange b (cs.length + 1))) = some ⟨m'⟩

end Zeos
