import Zeos.Impl.Types

/-!
`do_div` and `get_ticks` of `utils.c`: the time stamp counter has 64 bits, and `divl` divides 64 bits by 32.
-/

namespace Zeos

def cyclesPerTick : BitVec 32 :=
  109000

/-- `divl`, which faults if there is no quotient of 32 bits. -/
def divl (high low base : BitVec 32) : Option (BitVec 32 × BitVec 32) :=
  let dividend := high.toNat * 2 ^ 32 + low.toNat
  if base = 0 ∨ 2 ^ 32 ≤ dividend / base.toNat then none
  else some (BitVec.ofNat 32 (dividend / base.toNat), BitVec.ofNat 32 (dividend % base.toNat))

/-- `do_div`: what it leaves in `n`, and its remainder -/
def doDiv (n : BitVec 64) (base : BitVec 32) : Option (BitVec 64 × BitVec 32) := do
  let low := n.extractLsb' 0 32
  let high := n.extractLsb' 32 32
  let upper := if high ≠ 0 then high % base else high
  let high := if high ≠ 0 then high / base else high
  let (low, mod) ← divl upper low base
  some (high ++ low, mod)

def getTicks (edx eax : BitVec 32) : Option Ticks := do
  let ticks : BitVec 64 := (edx.setWidth 64 <<< 32) + eax.setWidth 64
  let (ticks, _) ← doDiv ticks cyclesPerTick
  some (ticks.setWidth 32)

end Zeos
