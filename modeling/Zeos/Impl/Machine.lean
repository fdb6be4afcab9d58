import Zeos.Lib.Descending
import Zeos.Impl.Entry

/-!
The registers of the processor and the words of memory, as far as the kernel stacks go. What compiled C code
leaves on its stack and in registers is not known.
-/

namespace Zeos

open Descending

abbrev kernelStackSize : Nat := 1024

/-- The words of a `union task_union` that its `struct task_struct` takes. -/
abbrev taskStructWords : Nat := 19

def kernelEsp (t : Word) : Word :=
  wordAt t kernelStackSize

def dirField (t : Word) : Word :=
  wordAt t 1

def kernelEspField (t : Word) : Word :=
  wordAt t 2

structure Labels where
  /-- In `task_switch`, after the call of `inner_task_switch` -/
  afterInner : Word
  retFromFork : Word
  /-- In `system_call_handler`, after the call through `sys_call_table` -/
  afterCall : Word
  /-- The same in `syscall_handler_sysenter` -/
  afterCallSysenter : Word

structure Machine extends Stack where
  regs : Regs
  eip : Word
  eflags : Word
  cs : BitVec 16
  ds : BitVec 16
  es : BitVec 16
  fs : BitVec 16
  gs : BitVec 16
  ss : BitVec 16
  /-- `tss.esp0` -/
  esp0 : Word
  /-- MSR 0x175, the stack pointer of `sysenter` -/
  msr175 : Word
  cr3 : Word

/-- What compiled code leaves in registers, and in the words below the stack pointer. -/
structure Leftovers where
  eax : Word
  ebx : Word
  ecx : Word
  edx : Word
  esi : Word
  edi : Word
  eflags : Word
  below : Word → Word

section Leftovers

/-- The part of a kernel stack that is not in use: below the stack pointer, above the `struct task_struct`. -/
def Below (s : Stack) (a : Word) : Prop :=
  (page s.esp).toNat + 4 * taskStructWords ≤ a.toNat ∧ a.toNat < s.esp.toNat

instance (s : Stack) : DecidablePred (Below s) :=
  fun a => inferInstanceAs (Decidable ((page s.esp).toNat + 4 * taskStructWords ≤ a.toNat ∧
    a.toNat < s.esp.toNat))

def leaveBelow (below : Word → Word) (s : Stack) : Stack :=
  { s with mem := fun a => if Below s a then below a else s.mem a }

end Leftovers

namespace Machine

section Instructions

def push (v : Word) (m : Machine) : Machine :=
  { m with toStack := m.toStack.push v }

def pushes (vs : List Word) (m : Machine) : Machine :=
  { m with toStack := m.toStack.pushes vs }

def popl (set : Word → Regs → Regs) (m : Machine) : Machine :=
  { m with regs := set (m.mem m.esp) m.regs, esp := m.esp + 4 }

def ret (m : Machine) : Machine :=
  { m with eip := m.mem m.esp, esp := m.esp + 4 }

def store (a v : Word) (m : Machine) : Machine :=
  { m with mem := Function.update m.mem a v }

def movEspEbp (m : Machine) : Machine :=
  { m with regs := { m.regs with ebp := m.esp } }

end Instructions

def current (m : Machine) : Word :=
  page m.esp

/-- In the middle of a C function with a frame pointer, any other register may have been used. -/
def insideC (x : Leftovers) (m : Machine) : Machine :=
  { m with
    toStack := leaveBelow x.below m.toStack
    eflags := x.eflags
    regs := { eax := x.eax, ebx := x.ebx, ecx := x.ecx, edx := x.edx, esi := x.esi, edi := x.edi,
              ebp := m.regs.ebp } }

/-- A call of a C function, which saves `%ebx`, `%esi`, `%edi` and `%ebp`. -/
def callC (x : Leftovers) (m : Machine) : Machine :=
  { m with
    toStack := leaveBelow x.below m.toStack
    eflags := x.eflags
    regs := { m.regs with eax := x.eax, ecx := x.ecx, edx := x.edx } }

end Machine

end Zeos
