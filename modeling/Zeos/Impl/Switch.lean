import Zeos.Impl.Machine

/-!
`task_switch`, `setEsp` and `getEbp` of `entry.S`, and `inner_task_switch` of `sched.c`, as they work on the
kernel stacks.
-/

namespace Zeos

open Descending

namespace Machine

def getEbp (m : Machine) : Word :=
  m.regs.ebp

-- Its return address is on the stack that it leaves.
def setEsp (esp : Word) (m : Machine) : Machine :=
  ({ m with esp := esp }.popl fun v regs => { regs with ebp := v }).ret

/-- `inner_task_switch` for `t`, from its own frame on, up to the call of `setEsp` -/
def saveContext (x : Leftovers) (t : Word) (m : Machine) : Machine :=
  let m := { m with esp0 := kernelEsp t, msr175 := kernelEsp t }
  let m := { m with cr3 := m.mem (dirField t) }
  let m := m.insideC x
  m.store (kernelEspField m.current) m.getEbp

def innerTaskSwitch (x : Leftovers) (m : Machine) : Machine :=
  let m := (m.push m.regs.ebp).movEspEbp
  let t := m.mem (m.regs.ebp + 8)
  let m := m.saveContext x t
  m.setEsp (m.mem (kernelEspField t))

def taskSwitchEntry (labels : Labels) (m : Machine) : Machine :=
  let m := (m.push m.regs.ebp).movEspEbp
  m.pushes [m.regs.esi, m.regs.edi, m.regs.ebx, m.mem (m.regs.ebp + 8), labels.afterInner]

def taskSwitchExit (m : Machine) : Machine :=
  let m := { m with esp := m.esp + 4 }
  let m := m.popl fun v regs => { regs with ebx := v }
  let m := m.popl fun v regs => { regs with edi := v }
  let m := m.popl fun v regs => { regs with esi := v }
  let m := { m with esp := m.regs.ebp }
  let m := m.popl fun v regs => { regs with ebp := v }
  m.ret

/--
`task_switch`, with its argument and a return address on the stack, up to where the new task goes on: in
`task_switch`, which brings it to the call it has made itself, or where a stack that has been made up leads.
-/
def taskSwitch (labels : Labels) (x : Leftovers) (m : Machine) : Machine :=
  let m := (m.taskSwitchEntry labels).innerTaskSwitch x
  if m.eip = labels.afterInner then m.taskSwitchExit else m

end Machine

end Zeos
