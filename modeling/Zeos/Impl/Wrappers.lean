import Zeos.Impl.Trap

/-!
`wrappers.S`: the functions through which C programs make system calls. Each one goes into the kernel, and goes on
where the kernel comes back to.
-/

namespace Zeos

open Descending

structure UserLabels where
  /-- `syscall_ret` with the number of the call -/
  syscallRet : Word → Word
  returntrap : Word
  errno : Word

/-- A function of `wrappers.S`: its way into the kernel, what it does before, where it expects to come back, and
what it does from there on. What the arithmetic leaves in `%eflags` is an argument. -/
structure Wrapper where
  way : Way
  ret : Word
  enter : Machine → Machine
  finish : Word → Machine → Machine

def Wrapper.back (w : Wrapper) (flags : Word) (m : Machine) : Option Machine :=
  if m.eip = w.ret then some (w.finish flags m) else none

namespace Machine

section Instructions

def movl (set : Word → Regs → Regs) (a : Word) (m : Machine) : Machine :=
  { m with regs := set (m.mem a) m.regs }

def setEax (v : Word) (m : Machine) : Machine :=
  { m with regs := { m.regs with eax := v } }

def pushEbp (m : Machine) : Machine :=
  m.push m.regs.ebp

def popEbp (m : Machine) : Machine :=
  m.popl fun v regs => { regs with ebp := v }

def pushEbx (m : Machine) : Machine :=
  m.push m.regs.ebx

def popEbx (m : Machine) : Machine :=
  m.popl fun v regs => { regs with ebx := v }

end Instructions

def loadParameters (count : Nat) (m : Machine) : Machine :=
  let m := if 1 ≤ count then m.movl (fun v regs => { regs with ebx := v }) (m.regs.ebp + 8) else m
  let m := if 2 ≤ count then m.movl (fun v regs => { regs with ecx := v }) (m.regs.ebp + 12) else m
  if 3 ≤ count then m.movl (fun v regs => { regs with edx := v }) (m.regs.ebp + 16) else m

/-- `SYSCALL` up to `sysenter` -/
def syscallEnter (ret n : Word) (m : Machine) : Machine :=
  ((m.setEax ret).pushEax.setEax n).pushEbp.movEspEbp

/-- `SYSCALL` from its label on -/
def syscallReturn (flags : Word) (m : Machine) : Machine :=
  let m := m.popEbp
  { m with esp := m.esp + 4, eflags := flags }

def checkError (errno flags : Word) (m : Machine) : Machine :=
  let m := { m with eflags := flags }
  if (0 : Int) ≤ m.regs.eax.toInt then m
  else
    let m := m.setEax (-m.regs.eax)
    let m := { m with regs := { m.regs with ebx := errno } }
    (m.store m.regs.ebx m.regs.eax).setEax (-1)

end Machine

namespace Wrappers

variable (labels : UserLabels)

def checked (count : Nat) (n : Word) : Wrapper where
  way := .sysenter
  ret := labels.syscallRet n
  enter m := (m.pushEbp.movEspEbp.pushEbx.loadParameters count).syscallEnter (labels.syscallRet n) n
  finish flags m := ((m.syscallReturn flags).checkError labels.errno flags).popEbx.popEbp.ret

def plain (n : Word) : Wrapper where
  way := .sysenter
  ret := labels.syscallRet n
  enter m := m.pushEbp.movEspEbp.syscallEnter (labels.syscallRet n) n
  finish flags m := (m.syscallReturn flags).popEbp.ret

def gettime : Wrapper :=
  plain labels 10

def writefast : Wrapper :=
  checked labels 3 4

def read : Wrapper :=
  checked labels 3 30

def sbrk : Wrapper :=
  checked labels 1 31

def write : Wrapper where
  way := .int80
  ret := labels.returntrap
  enter m :=
    let m := (m.pushEbp.movEspEbp.pushEbx.loadParameters 3).setEax 0x04
    { m with eip := labels.returntrap }
  finish flags m :=
    let m := { m with eflags := flags }
    let m :=
      if (0 : Int) ≤ m.regs.eax.toInt then m
      else
        let m := m.setEax (-m.regs.eax)
        (m.store labels.errno m.regs.eax).setEax (-1)
    m.popEbx.popEbp.ret

def getpid : Wrapper :=
  plain labels 20

def fork : Wrapper :=
  checked labels 0 2

def exit : Wrapper :=
  plain labels 1

def getStats : Wrapper :=
  checked labels 2 35

def clone : Wrapper :=
  checked labels 2 19

def semInit : Wrapper :=
  checked labels 2 21

def semWait : Wrapper :=
  checked labels 1 22

def semSignal : Wrapper :=
  checked labels 1 23

def semDestroy : Wrapper :=
  checked labels 1 24

end Wrappers

end Zeos
