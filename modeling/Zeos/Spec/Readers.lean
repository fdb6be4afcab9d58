import Zeos.Spec.Accounts
import Zeos.Spec.Model

/-!
The processes that wait for keys, as one sequence of those that have been woken and one of those that
have not, and what the keyboard and their own calls do to them until one of them takes a key: no address
that is a key is mapped, so the machine stops there.
-/

namespace Zeos

/-- A process in `sys_read_keyboard`, with its `requiredKeys` and `readKeys`. -/
structure Reader where
  task : Slot
  required : Int
  got : Int
  deriving DecidableEq, Repr

def Reader.need (a : Reader) : Int :=
  a.required - a.got

/--
The woken readers in the order in which they get the CPU, those in `keyboardqueue`, the buffer, and
whether the machine has stopped.
-/
structure Readers where
  pending : List Reader
  waiting : List Reader
  buff : CirBuffer
  stopped : Bool

namespace Readers

def Enough (r : Readers) (a : Reader) : Prop :=
  r.buff.cirBuffLenght ≥ a.need

instance (r : Readers) : DecidablePred r.Enough :=
  fun a => inferInstanceAs (Decidable (r.buff.cirBuffLenght ≥ a.need))

-- The loop that hands out the keys runs `requiredKeys` times, whatever the call has got already.
def Hands (r : Readers) (a : Reader) : Prop :=
  if r.Enough a then 0 < a.required else r.buff.cirBuffFull ≠ 0

instance (r : Readers) : DecidablePred r.Hands :=
  fun a => inferInstanceAs (Decidable (if r.Enough a then 0 < a.required else r.buff.cirBuffFull ≠ 0))

/-- The first key is taken from the buffer. -/
def stop (r : Readers) : Readers :=
  { r with buff := r.buff.cirBuffRead.2, stopped := true }

def attend (a : Reader) (r : Readers) : Readers :=
  if r.Enough a then r else { r with waiting := a :: r.waiting }

def call (t : Slot) (count : Int) (r : Readers) : Readers :=
  let a := { task := t, required := count, got := 0 }
  if r.waiting ≠ [] then { r with waiting := r.waiting ++ [a] }
  else if r.Hands a then r.stop
  else r.attend a

def resume (t : Slot) (r : Readers) : Readers :=
  match r.pending with
  | [] => r
  | a :: rest =>
    if a.task = t then if r.Hands a then r.stop else attend a { r with pending := rest } else r

/-- The first of those that wait is woken, if the buffer is full or has keys enough for it. -/
def wake (r : Readers) : Readers :=
  match r.waiting with
  | [] => r
  | a :: rest =>
    if r.buff.cirBuffFull ≠ 0 ∨ r.Enough a then
      { r with pending := r.pending ++ [a], waiting := rest }
    else r

def press (c : Byte) (r : Readers) : Readers :=
  wake { r with buff := r.buff.cirBuffWrite c }

end Readers

def ReadAccepted (fd : Int) (buf : Addr) (count : Int) : Prop :=
  buf ≠ 0 ∧ 0 ≤ count ∧ 0 ≤ checkFd fd .lectura ∧ accessOk .verifyWrite buf (BitVec.ofInt 32 count)

instance (fd : Int) (buf : Addr) (count : Int) : Decidable (ReadAccepted fd buf count) :=
  inferInstanceAs (Decidable (_ ∧ _))

/-- What an event does to the readers, when the task `t` has the CPU. -/
def Readers.after (event : Event) (t : Slot) (r : Readers) : Readers :=
  match event with
  | .read fd buf count => if ReadAccepted fd buf count then r.call t count else r
  | .keyboard entrada beyond =>
    if entrada >>> 7 = 0 then r.press (charMap.getD (entrada &&& 0x7f).toNat beyond) else r
  | .resume => r.resume t
  | _ => r

def Cont.isReading : Cont → Bool
  | .readKeyboard _ => true
  | _ => false

namespace Kernel

def isReading (k : Kernel) (t : Slot) : Bool :=
  (k.cont t).isReading

def reader (k : Kernel) (t : Slot) : Reader :=
  { task := t, required := (k.task t).requiredKeys, got := (k.task t).readKeys }

/-- The readers among the tasks that will run, and those of `keyboardqueue`. -/
def readers (k : Kernel) (runs keyboard : List Slot) : Readers :=
  { pending := (runs.filter k.isReading).map k.reader
    waiting := keyboard.map k.reader
    buff := k.keyboardBuff
    stopped := k.stopped }

end Kernel

def Sys.readers (s : Sys) : Readers :=
  s.toKernel.readers (s.current :: s.members .readyqueue) (s.members .keyboardqueue)

def Model.readers (m : Model) : Readers :=
  m.toKernel.readers (m.current :: m.seq .readyqueue) (m.seq .keyboardqueue)

end Zeos
