import Zeos.Impl.Switch

/-!
The two ways into a system call and back, as `entry.S` goes them on the kernel stack, and the stacks that
`sys_fork` and `sys_clone` make for new tasks. The number of the call is taken to be one of `sys_call_table`.
-/

namespace Zeos

open Descending

def kernelCS : BitVec 16 :=
  0x10

def kernelDS : BitVec 16 :=
  0x18

def userCS : BitVec 16 :=
  0x23

def userDS : BitVec 16 :=
  0x2B

inductive Way
  | int80
  | sysenter
  deriving DecidableEq, Repr

def Labels.afterRoutine (labels : Labels) (way : Way) : Word :=
  match way with
  | .int80 => labels.afterCall
  | .sysenter => labels.afterCallSysenter

namespace Machine

section Entry

def disableInt (eflags : Word) : Word :=
  eflags &&& 0xFFFFFDFF

def int80 (m : Machine) : Machine :=
  { m with esp := m.esp0, cs := kernelCS, ss := kernelDS, eflags := disableInt m.eflags }.pushes
    [m.ss.setWidth 32, m.esp, m.eflags, m.cs.setWidth 32, m.eip]

/-- What the processor does for `sysenter`, and the pushes that begin its handler. -/
def sysenter (m : Machine) : Machine :=
  let m := { m with
             esp := m.msr175, cs := kernelCS, ss := kernelDS, eflags := disableInt m.eflags }
  let m := m.pushes [userDS.setWidth 32, m.regs.ebp, m.eflags, userCS.setWidth 32]
  m.push (m.mem (m.regs.ebp + 4))

def trap (way : Way) (m : Machine) : Machine :=
  match way with
  | .int80 => m.int80
  | .sysenter => m.sysenter

def saveAll (m : Machine) : Machine :=
  let m := m.pushes
    [m.gs.setWidth 32, m.fs.setWidth 32, m.es.setWidth 32, m.ds.setWidth 32, m.regs.eax, m.regs.ebp,
      m.regs.edi, m.regs.esi, m.regs.edx, m.regs.ecx, m.regs.ebx]
  { m with regs := { m.regs with edx := kernelDS.setWidth 32 }, ds := kernelDS, es := kernelDS }

def pushEax (m : Machine) : Machine :=
  m.push m.regs.eax

def popEax (m : Machine) : Machine :=
  m.popl fun v regs => { regs with eax := v }

def enterRoutine (labels : Labels) (way : Way) (x : Leftovers) (m : Machine) : Machine :=
  let m := ((m.trap way).saveAll.pushEax.callC x).popEax
  m.push (labels.afterRoutine way)

end Entry

section Exit

def popSegment (set : BitVec 16 → Machine → Machine) (m : Machine) : Machine :=
  set ((m.mem m.esp).setWidth 16) { m with esp := m.esp + 4 }

def restoreAll (m : Machine) : Machine :=
  let m := m.popl fun v regs => { regs with ebx := v }
  let m := m.popl fun v regs => { regs with ecx := v }
  let m := m.popl fun v regs => { regs with edx := v }
  let m := m.popl fun v regs => { regs with esi := v }
  let m := m.popl fun v regs => { regs with edi := v }
  let m := m.popl fun v regs => { regs with ebp := v }
  let m := m.popEax
  let m := m.popSegment fun v m => { m with ds := v }
  let m := m.popSegment fun v m => { m with es := v }
  let m := m.popSegment fun v m => { m with fs := v }
  m.popSegment fun v m => { m with gs := v }

def iret (m : Machine) : Machine :=
  { m with
    eip := m.mem m.esp
    cs := (m.mem (m.esp + 4)).setWidth 16
    eflags := m.mem (m.esp + 8)
    esp := m.mem (m.esp + 12)
    ss := (m.mem (m.esp + 16)).setWidth 16 }

def sysexit (m : Machine) : Machine :=
  { m with
    eip := m.regs.edx
    esp := m.regs.ecx
    cs := userCS
    ss := userDS
    eflags := m.eflags ||| 0x200 }

/-- `system_call_handler` after its routine -/
def leaveInt80 (x : Leftovers) (m : Machine) : Machine :=
  let m := (m.pushEax.callC x).popEax
  let m := m.store (m.esp + 0x18) m.regs.eax
  m.restoreAll.iret

/-- `syscall_handler_sysenter` after its routine -/
def leaveSysenter (x : Leftovers) (m : Machine) : Machine :=
  let m := m.store (m.esp + 0x18) m.regs.eax
  let m := (m.pushEax.callC x).popEax
  let m := m.restoreAll
  let m := { m with regs := { m.regs with edx := m.mem m.esp } }
  let m := { m with regs := { m.regs with ecx := m.mem (m.esp + 12) } }
  m.sysexit

def leave (way : Way) (x : Leftovers) (m : Machine) : Machine :=
  match way with
  | .int80 => m.leaveInt80 x
  | .sysenter => m.leaveSysenter x

end Exit

section Routines

def enterC (x : Leftovers) (m : Machine) : Machine :=
  (m.push m.regs.ebp).movEspEbp.insideC x

def returnC (x : Leftovers) (r : Word) (m m' : Machine) : Machine :=
  let m' := { m' with esp := m'.regs.ebp, eflags := x.eflags }
  let m' := { m' with regs := { eax := r, ebx := m.regs.ebx, ecx := x.ecx, edx := x.edx,
                                esi := m.regs.esi, edi := m.regs.edi, ebp := m'.regs.ebp } }
  (m'.popl fun v regs => { regs with ebp := v }).ret

def copyUnion (new : Word) (m : Machine) : Machine :=
  { m with
    mem := fun a =>
      if (a - new).toNat < 4 * kernelStackSize then m.mem (m.current + (a - new)) else m.mem a }

/-- `(getEbp() - (int) current())/sizeof(int)` -/
def frameIndex (m : Machine) : Nat :=
  ((m.getEbp - m.current) / 4).toNat

def forkStack (labels : Labels) (new : Word) (m : Machine) : Machine :=
  let m := m.copyUnion new
  let i := m.frameIndex
  let m := m.store (wordAt new i) labels.retFromFork
  let m := m.store (wordAt new (i - 1)) 0
  m.store (kernelEspField new) (wordAt new (i - 1))

def retFromFork (m : Machine) : Machine :=
  let m := (m.push m.regs.ebp).movEspEbp
  let m := { m with regs := { m.regs with eax := 0 } }
  (m.popl fun v regs => { regs with ebp := v }).ret

/-- What `sys_clone` does to the stack of the new thread; its arguments are on the stack. -/
def cloneStack (new : Word) (m : Machine) : Machine :=
  let function := m.mem (m.regs.ebp + 8)
  let stack := m.mem (m.regs.ebp + 12)
  let m := m.copyUnion new
  let pEBP := m.frameIndex
  let m := m.store (kernelEspField new) (wordAt new pEBP)
  let m := m.store (wordAt new (kernelStackSize - 2)) stack
  m.store (wordAt new (kernelStackSize - 5)) function

end Routines

end Machine

end Zeos
