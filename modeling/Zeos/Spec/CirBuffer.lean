import Zeos.Lib.Fifo
import Zeos.Lib.Run
import Zeos.Impl.CirBuffer

/-!
The keyboard buffer next to the queue it should be.
-/

namespace Zeos

open Fifo

inductive BuffCall
  | write (c : Byte)
  | read
  deriving DecidableEq, Repr

/--
One call, next to the unread characters there should be afterwards. The buffer is only read while there
are some.
-/
def buffStep (call : BuffCall) (x : CirBuffer × List Byte) : Option (CirBuffer × List Byte) :=
  match call with
  | .write c => some (x.1.cirBuffWrite c, push cirBufferSize x.2 c)
  | .read => if x.2 = [] then none else some (x.1.cirBuffRead.2, x.2.tail)

/--
The buffer answers as the queue of its unread characters would, and stays inside its array.
-/
structure Agrees (x : CirBuffer × List Byte) : Prop where
  oldest : ∀ c ∈ x.2.head?, x.1.cirBuffRead.1 = c
  lenght : x.1.cirBuffLenght = x.2.length
  full : x.1.cirBuffFull ≠ 0 ↔ x.2.length = cirBufferSize
  readPos : 0 ≤ x.1.readPos ∧ x.1.readPos < cirBufferSize
  writePos : 0 ≤ x.1.writePos ∧ x.1.writePos < cirBufferSize

def ReadInside (call : BuffCall) (x : CirBuffer × List Byte) : Prop :=
  call = .read → x.2 ≠ [] → x.1.full = 0 ∧ x.1.readPos < cirBufferSize - 1

end Zeos
