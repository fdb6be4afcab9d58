import Zeos.Lib.Loop
import Zeos.Impl.Utils

/-!
`libc.c`: numbers as text. An access to `b[i]` is one to the address `b + i`.
-/

namespace Zeos

structure DigitState (σ : Type) where
  a : Int
  i : Nat
  mem : σ

structure SwapState (σ : Type) where
  i1 : Nat
  mem : σ

section Libc

variable {σ : Type} [ByteMem σ]

def DigitState.digit (b : Addr) (s : DigitState σ) : Option (DigitState σ) :=
  (ByteMem.store s.mem (b + BitVec.ofNat 32 s.i) (BitVec.ofInt 8 (s.a.tmod 10 + 48))).map fun mem =>
    ⟨s.a.tdiv 10, s.i + 1, mem⟩

def SwapState.swap (b : Addr) (i : Nat) (s : SwapState σ) : Option (SwapState σ) := do
  let c ← ByteMem.load s.mem (b + BitVec.ofNat 32 s.i1)
  let d ← ByteMem.load s.mem (b + BitVec.ofNat 32 (i - s.i1 - 1))
  let m ← ByteMem.store s.mem (b + BitVec.ofNat 32 s.i1) d
  let m ← ByteMem.store m (b + BitVec.ofNat 32 (i - s.i1 - 1)) c
  some ⟨s.i1 + 1, m⟩

/-- `itoa`. Each round of the first loop makes `a` smaller, and the second one makes fewer than `i` rounds. -/
def itoa (a : Int) (b : Addr) (m : σ) : Option σ :=
  if a = 0 then do
    let m ← ByteMem.store m b 48
    ByteMem.store m (b + 1) 0
  else do
    let s ← Loop.run (fun s => s.a > 0) (DigitState.digit b) a.toNat ⟨a, 0, m⟩
    let t ← Loop.run (fun t => t.i1 < s.i / 2) (SwapState.swap b s.i) s.i ⟨0, s.mem⟩
    ByteMem.store t.mem (b + BitVec.ofNat 32 s.i) 0

def strlen.go (a : Addr) (m : σ) (fuel : Nat) (i : Nat) : Option Nat :=
  match fuel with
  | 0 => none
  | fuel + 1 =>
    (ByteMem.load m (a + BitVec.ofNat 32 i)).bind fun c =>
      if c ≠ 0 then strlen.go a m fuel (i + 1) else some i

/-- `strlen`. A loop of `2 ^ 32` rounds has seen all the memory and is never left. -/
def strlen (a : Addr) (m : σ) : Option Nat :=
  strlen.go a m (2 ^ 32) 0

end Libc

end Zeos
