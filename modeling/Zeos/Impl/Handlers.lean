import Zeos.Impl.Trap

/-!
The handlers of `entry.S` for the interrupts of the clock and of the keyboard. They interrupt a process in user mode,
or the loop of `cpu_idle`, which runs in the kernel with interrupts enabled.
-/

namespace Zeos

open Descending

namespace Machine

def KernelLevel (cs : BitVec 16) : Prop :=
  cs &&& 3 = 0

instance (cs : BitVec 16) : Decidable (KernelLevel cs) :=
  inferInstanceAs (Decidable (cs &&& 3 = 0))

/-- What the processor does for an interrupt: only from user mode it changes to the kernel stack. -/
def interrupt (m : Machine) : Machine :=
  if KernelLevel m.cs then
    { m with cs := kernelCS, eflags := disableInt m.eflags }.pushes [m.eflags, m.cs.setWidth 32, m.eip]
  else
    m.int80

def iretAny (m : Machine) : Machine :=
  let cs := (m.mem (m.esp + 4)).setWidth 16
  if KernelLevel cs then
    { m with eip := m.mem m.esp, cs := cs, eflags := m.mem (m.esp + 8), esp := m.esp + 12 }
  else
    m.iret

/-- `EOI`, but for the port of the interrupt controller -/
def eoi (m : Machine) : Machine :=
  { m with regs := { m.regs with eax := m.regs.eax &&& 0xFFFFFF00 ||| 0x20 } }

end Machine

/-- A handler, by the place in it that its routine returns to -/
structure Handler where
  afterRoutine : Word

namespace Handler

def enter (handler : Handler) (x : Leftovers) (m : Machine) : Machine :=
  ((m.interrupt.saveAll.pushEax.callC x).popEax.eoi).push handler.afterRoutine

def leave (x : Leftovers) (m : Machine) : Machine :=
  (m.pushEax.callC x).popEax.restoreAll.iretAny

end Handler

structure HandlerLabels where
  afterClockRutine : Word
  afterKeyboardRutine : Word

def clockHandler (labels : HandlerLabels) : Handler where
  afterRoutine := labels.afterClockRutine

def keyboardHandler (labels : HandlerLabels) : Handler where
  afterRoutine := labels.afterKeyboardRutine

end Zeos
