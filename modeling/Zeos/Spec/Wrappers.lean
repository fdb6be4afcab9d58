import Zeos.Impl.Wrappers
import Zeos.Spec.Trap

/-!
What the functions of `wrappers.S` are for: a call of one of them is a call of its routine in the kernel, with the
same arguments, and its caller gets the result, or -1 and `errno`.
-/

namespace Zeos

open Descending

inductive LibCall
  | gettime
  | writefast
  | read
  | sbrk
  | write
  | getpid
  | fork
  | exit
  | getStats
  | clone
  | semInit
  | semWait
  | semSignal
  | semDestroy
  deriving DecidableEq, Repr

namespace LibCall

def wrapper (labels : UserLabels) : LibCall → Wrapper
  | gettime => Wrappers.gettime labels
  | writefast => Wrappers.writefast labels
  | read => Wrappers.read labels
  | sbrk => Wrappers.sbrk labels
  | write => Wrappers.write labels
  | getpid => Wrappers.getpid labels
  | fork => Wrappers.fork labels
  | exit => Wrappers.exit labels
  | getStats => Wrappers.getStats labels
  | clone => Wrappers.clone labels
  | semInit => Wrappers.semInit labels
  | semWait => Wrappers.semWait labels
  | semSignal => Wrappers.semSignal labels
  | semDestroy => Wrappers.semDestroy labels

def routine : LibCall → Routine
  | gettime => .sysGettime
  | writefast => .sysWrite
  | read => .sysRead
  | sbrk => .sysSbrk
  | write => .sysWrite
  | getpid => .sysGetpid
  | fork => .sysFork
  | exit => .sysExit
  | getStats => .sysGetStats
  | clone => .sysClone
  | semInit => .sysSemInit
  | semWait => .sysSemWait
  | semSignal => .sysSemSignal
  | semDestroy => .sysSemDestroy

def parameters : LibCall → Nat
  | gettime | getpid | fork | exit => 0
  | sbrk | semWait | semSignal | semDestroy => 1
  | getStats | clone | semInit => 2
  | writefast | read | write => 3

def Fails (c : LibCall) (r : Word) : Prop :=
  c ∉ [gettime, getpid, exit] ∧ r.toInt < 0

instance (c : LibCall) (r : Word) : Decidable (c.Fails r) :=
  inferInstanceAs (Decidable (_ ∧ _))

def result (c : LibCall) (r : Word) : Word :=
  if c.Fails r then -1 else r

end LibCall

namespace Machine

def libFrame (u : Machine) : Word :=
  u.esp - 16

/--
A process calls a function of `wrappers.S`, with its return address and its arguments on a stack that is not the
kernel stack at `p`.
-/
structure CallsLib (p : Word) (u : Machine) : Prop where
  aligned : Aligned p
  esp0 : u.esp0 = kernelEsp p
  msr175 : u.msr175 = kernelEsp p
  cs : u.cs = userCS
  ss : u.ss = userDS
  apart : ∀ i < 8, page (wordAt u.libFrame i) ≠ p

/-- `errno` is neither on the kernel stack nor among the words that the function uses. -/
def ErrnoApart (labels : UserLabels) (p : Word) (u : Machine) : Prop :=
  page labels.errno ≠ p ∧ ∀ i < 5, labels.errno ≠ wordAt u.libFrame i

/--
The routine that is called at `k` has come to its end at `m`. It has kept its return address and what is above its
parameters, and the words that the function of the user has on its stack.
-/
structure RoutineEnds (c : LibCall) (p : Word) (u k m : Machine) : Prop where
  ebp : m.regs.ebp = wordAt p (savedIndex - 2)
  ret : m.mem (wordAt p (savedIndex - 1)) = k.mem (wordAt p (savedIndex - 1))
  frame : ∀ i, savedIndex + c.parameters ≤ i → i < kernelStackSize → m.mem (wordAt p i) = k.mem (wordAt p i)
  user : ∀ i < 5, m.mem (wordAt u.libFrame i) = k.mem (wordAt u.libFrame i)

/-- The C function that is called at `u` has returned `v`. -/
structure ReturnsC (u : Machine) (v : Word) (t : Machine) : Prop where
  eip : t.eip = u.mem u.esp
  esp : t.esp = u.esp + 4
  eax : t.regs.eax = v
  ebx : t.regs.ebx = u.regs.ebx
  esi : t.regs.esi = u.regs.esi
  edi : t.regs.edi = u.regs.edi
  ebp : t.regs.ebp = u.regs.ebp
  cs : t.cs = u.cs
  ss : t.ss = u.ss
  ds : t.ds = u.ds
  es : t.es = u.es
  fs : t.fs = u.fs
  gs : t.gs = u.gs

/-- At `k` the routine of the function that is called at `u` begins, with the arguments of this call. -/
structure CallsRoutine (c : LibCall) (u k : Machine) : Prop where
  number : sysCallTable[k.regs.eax.toNat]? = some c.routine
  arguments : ∀ i < c.parameters, k.mem (wordAt k.esp (i + 1)) = u.mem (wordAt u.esp (i + 1))

variable (labels : UserLabels) (kernel : Labels) (c : LibCall)

def inRoutineOf (x : Leftovers) (u : Machine) : Machine :=
  ((c.wrapper labels).enter u).enterRoutine kernel (c.wrapper labels).way x

def backFrom (x z z' : Leftovers) (r : Word) (u m : Machine) : Machine :=
  ((inRoutineOf labels kernel c x u).returnC z r m).leave (c.wrapper labels).way z'

end Machine

section NewTasks

open Machine

variable (labels : UserLabels) (kernel : Labels)

/--
The child of a call of `fork` at `u` is first switched to at `m`. If it finds the words that its parent has had on the
stack, it returns 0 to the caller, and leaves `errno` alone.
-/
def ForkReturnsInChild (u m : Machine) (y : Leftovers) : Prop :=
  ∀ z flags, (∀ i < 5, ((m.innerTaskSwitch y).retFromFork.leave .sysenter z).mem (wordAt u.libFrame i) =
      ((LibCall.fork.wrapper labels).enter u).mem (wordAt u.libFrame i)) →
    ∃ t, (LibCall.fork.wrapper labels).back flags ((m.innerTaskSwitch y).retFromFork.leave .sysenter z) = some t ∧
      ReturnsC u 0 t ∧ t.mem = ((m.innerTaskSwitch y).retFromFork.leave .sysenter z).mem

/--
The thread of a call of `clone` at `u` is first switched to at `m`. It begins with the function and the stack that
are the arguments of the call.
-/
def CloneStartsThread (u m : Machine) (y : Leftovers) : Prop :=
  ∀ z, ((m.innerTaskSwitch y).leave .sysenter z).eip = u.mem (wordAt u.esp 1) ∧
    ((m.innerTaskSwitch y).leave .sysenter z).esp = u.mem (wordAt u.esp 2)

def NewTask.libCall : NewTask → LibCall
  | fork => .fork
  | clone => .clone

def LibStartsAs (call : NewTask) (u m : Machine) (y : Leftovers) : Prop :=
  match call with
  | .fork => ForkReturnsInChild labels u m y
  | .clone => CloneStartsThread u m y

end NewTasks

end Zeos
