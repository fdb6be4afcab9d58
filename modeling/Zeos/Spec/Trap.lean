import Zeos.Impl.Trap

/-!
What the stacks that `sys_fork` and `sys_clone` make are for: the first switch to the new task brings it to
user mode, where its parent is or where the thread is to start.
-/

namespace Zeos

open Descending

abbrev savedIndex : Nat := kernelStackSize - 16

namespace Machine

def userEip (way : Way) (u : Machine) : Word :=
  (u.trap way).mem (u.trap way).esp

def userEsp (way : Way) (u : Machine) : Word :=
  match way with
  | .int80 => u.esp
  | .sysenter => u.regs.ebp

/--
User mode, at `start` with the stack `top`, and otherwise as at `u`, but for `%eax`. A return by `sysexit`
uses `%ecx` and `%edx`, and does not restore `%eflags`.
-/
structure BackInUser (m : Machine) (way : Way) (u : Machine) (start top : Word) : Prop where
  eip : m.eip = start
  esp : m.esp = top
  ebx : m.regs.ebx = u.regs.ebx
  esi : m.regs.esi = u.regs.esi
  edi : m.regs.edi = u.regs.edi
  ebp : m.regs.ebp = u.regs.ebp
  ds : m.ds = u.ds
  es : m.es = u.es
  fs : m.fs = u.fs
  gs : m.gs = u.gs
  int80 : way = .int80 → m.regs.ecx = u.regs.ecx ∧ m.regs.edx = u.regs.edx ∧ m.eflags = u.eflags ∧
    m.cs = u.cs ∧ m.ss = u.ss
  sysenter : way = .sysenter → m.regs.ecx = top ∧ m.regs.edx = start ∧ m.cs = userCS ∧ m.ss = userDS

def Returned (m : Machine) (way : Way) (u : Machine) (r : Word) : Prop :=
  m.BackInUser way u (u.userEip way) (u.userEsp way) ∧ m.regs.eax = r

end Machine

inductive NewTask
  | fork
  | clone
  deriving DecidableEq, Repr

section FirstDispatch

variable (labels : Labels) (way : Way)

def inRoutine (x x' : Leftovers) (u : Machine) : Machine :=
  (u.enterRoutine labels way x).enterC x'

def madeStack (call : NewTask) (x x' : Leftovers) (new : Word) (u : Machine) : Machine :=
  match call with
  | .fork => (inRoutine labels way x x' u).forkStack labels new
  | .clone => (inRoutine labels way x x' u).cloneStack new

/-- The stack of the task at `t`, and where it is saved, are the same in `m'`. -/
structure StackKept (t : Word) (m m' : Machine) : Prop where
  kernelEsp : m'.mem (kernelEspField t) = m.mem (kernelEspField t)
  words : ∀ i, taskStructWords ≤ i → i < kernelStackSize → m'.mem (wordAt t i) = m.mem (wordAt t i)

def SwitchesTo (t : Word) (m : Machine) : Prop :=
  ∃ b n, Aligned b ∧ b ≠ t ∧ taskStructWords ≤ n ∧ n + 2 < kernelStackSize ∧
    m.esp = wordAt b (n + 1) ∧ m.mem (wordAt b (n + 2)) = t

/--
The child at `new` of the process at `p` is first switched to at `m`. It comes to where its parent is in the
handler, with the frame of its parent, and returns 0 from the system call, as its parent returns `r`.
-/
structure ChildStarts (x x' : Leftovers) (p new : Word) (u m : Machine) (y : Leftovers) : Prop where
  fromFork : (m.innerTaskSwitch y).eip = labels.retFromFork
  eip : (m.innerTaskSwitch y).retFromFork.eip = labels.afterRoutine way
  eax : (m.innerTaskSwitch y).retFromFork.regs.eax = 0
  esp : (m.innerTaskSwitch y).retFromFork.esp = wordAt new savedIndex
  frame : ∀ i, savedIndex ≤ i → i < kernelStackSize →
    (m.innerTaskSwitch y).retFromFork.mem (wordAt new i) =
      (u.enterRoutine labels way x).mem (wordAt p i)
  returns : ∀ z, ((m.innerTaskSwitch y).retFromFork.leave way z).Returned way u 0
  parent : ∀ z z' r, (((u.enterRoutine labels way x).returnC z r
    (madeStack labels way .fork x x' new u)).leave way z').Returned way u r

/--
The thread is first switched to at `m`. It comes to the handler, and goes on in user mode at the function and
on the stack that its creator has given in `%ebx` and `%ecx`.
-/
structure ThreadStarts (new : Word) (u m : Machine) (y : Leftovers) : Prop where
  eip : (m.innerTaskSwitch y).eip = labels.afterRoutine way
  esp : (m.innerTaskSwitch y).esp = wordAt new savedIndex
  starts : ∀ z, ((m.innerTaskSwitch y).leave way z).BackInUser way u u.regs.ebx u.regs.ecx

/-- The thread starts with all registers of its creator, but for `%eax`. -/
def ThreadAsCreator (u m : Machine) (y z : Leftovers) : Prop :=
  ((m.innerTaskSwitch y).leave way z).eip = u.regs.ebx ∧
    ((m.innerTaskSwitch y).leave way z).esp = u.regs.ecx ∧
      { ((m.innerTaskSwitch y).leave way z).regs with eax := u.regs.eax } = u.regs

def StartsAs (call : NewTask) (x x' : Leftovers) (p new : Word) (u m : Machine) (y : Leftovers) : Prop :=
  match call with
  | .fork => ChildStarts labels way x x' p new u m y
  | .clone => ThreadStarts labels way new u m y

end FirstDispatch

end Zeos
