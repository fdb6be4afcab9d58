import Zeos.Impl.Types

/-!
`cirBuffer.c`, the ring buffer between the keyboard interrupt and `sys_read`.
-/

namespace Zeos

namespace CirBuffer

def zero : CirBuffer :=
  { writePos := 0, readPos := 0, full := 0, buffer := fun _ => 0 }

def cirBuffWrite (buff : CirBuffer) (add : Byte) : CirBuffer :=
  if buff.full ≠ 0 then
    buff
  else
    let cells := fun i => if i = buff.writePos.toNat then add else buff.buffer i
    let writePos := buff.writePos + 1
    let writePos := if writePos ≥ cirBufferSize then 0 else writePos
    let full := if writePos = buff.readPos then 1 else buff.full
    { buff with buffer := cells, writePos := writePos, full := full }

-- `readPos` is not reset at the end of `buffer`, unlike `writePos`.
def cirBuffRead (buff : CirBuffer) : Byte × CirBuffer :=
  let ret := buff.buffer buff.readPos.toNat
  let readPos := buff.readPos + 1
  let full := if readPos = buff.writePos then 0 else buff.full
  (ret, { buff with readPos := readPos, full := full })

def cirBuffFull (buff : CirBuffer) : Nat :=
  buff.full

def cirBuffLenght (buff : CirBuffer) : Int :=
  if buff.writePos > buff.readPos then
    buff.writePos - buff.readPos
  else if buff.writePos = buff.readPos then
    if buff.full ≠ 0 then cirBufferSize else 0
  else
    cirBufferSize - buff.readPos + buff.writePos

end CirBuffer

end Zeos
