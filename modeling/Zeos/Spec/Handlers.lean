import Zeos.Impl.Handlers
import Zeos.Spec.Switch

/-!
What the handlers of interrupts are for: the code that is interrupted does not notice it.
-/

namespace Zeos

open Descending

namespace Machine

def savedWords (u : Machine) : List Word :=
  [u.regs.ebx, u.regs.ecx, u.regs.edx, u.regs.esi, u.regs.edi, u.regs.ebp, u.regs.eax, u.ds.setWidth 32,
    u.es.setWidth 32, u.fs.setWidth 32, u.gs.setWidth 32, u.eip, u.cs.setWidth 32, u.eflags] ++
    if KernelLevel u.cs then [] else [u.esp, u.ss.setWidth 32]

/--
An interrupt at `u` goes to word `top` of the kernel stack at `p`: that is its end for a process in user mode, and
the stack pointer for the kernel.
-/
structure Interruptible (p : Word) (top : Nat) (u : Machine) : Prop where
  aligned : Aligned p
  room : taskStructWords + 18 ≤ top ∧ top ≤ kernelStackSize
  user : ¬KernelLevel u.cs → top = kernelStackSize ∧ u.esp0 = kernelEsp p
  kernel : KernelLevel u.cs → u.esp = wordAt p top ∧ u.cs = kernelCS ∧ u.ss = kernelDS

/--
The routine that is called at `k` has come to its end at `m`, perhaps after switches to other tasks and back. It has
kept its frame, and all that is above it on the stack.
-/
structure ServiceEnds (p : Word) (k m : Machine) : Prop where
  ebp : m.regs.ebp = k.esp - 4
  ss : m.ss = k.ss
  words : ∀ i < kernelStackSize, k.esp.toNat ≤ (wordAt p i).toNat → m.mem (wordAt p i) = k.mem (wordAt p i)

/-- At `t` the code that has been interrupted at `u` goes on. -/
structure GoesOn (u t : Machine) : Prop where
  regs : t.regs = u.regs
  esp : t.esp = u.esp
  eip : t.eip = u.eip
  eflags : t.eflags = u.eflags
  cs : t.cs = u.cs
  ss : t.ss = u.ss
  ds : t.ds = u.ds
  es : t.es = u.es
  fs : t.fs = u.fs
  gs : t.gs = u.gs

end Machine

end Zeos
