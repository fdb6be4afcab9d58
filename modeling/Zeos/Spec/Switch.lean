import Zeos.Lib.Run
import Zeos.Impl.Switch

/-!
What `task_switch` is for: a call of it comes back when its task is switched to again, as if nothing had
happened in between.
-/

namespace Zeos

open Descending

/-- Where the `union task_union` of each task is: at pages of their own, as `.data.task` has them. -/
structure TaskArray (ι : Type) where
  addr : ι → Word
  aligned : ∀ t, Aligned (addr t)
  injective : Function.Injective addr

def taskArray (start : Word) (haligned : Aligned start) : TaskArray Slot where
  addr t := start + BitVec.ofNat 32 (4096 * t)
  aligned t := by
    unfold Aligned at *
    rw [BitVec.toNat_add, BitVec.toNat_ofNat]
    omega
  injective t u heq := by
    have ht := t.isLt
    have hu := u.isLt
    have hnat := congrArg BitVec.toNat heq
    unfold nrTasks at ht hu
    simp only [BitVec.toNat_add, BitVec.toNat_ofNat] at hnat
    exact Fin.ext (by omega)

/-- A call of `task_switch`: where it comes back to, the registers it keeps, and the words of the stack. -/
structure SwitchCall where
  ret : Word
  esp : Word
  ebp : Word
  ebx : Word
  esi : Word
  edi : Word
  words : Nat → Word

namespace Machine

def switchCall (ret : Word) (m : Machine) : SwitchCall :=
  { ret := ret, esp := m.esp, ebp := m.regs.ebp, ebx := m.regs.ebx, esi := m.regs.esi, edi := m.regs.edi,
    words := fun i => m.mem (wordAt m.current i) }

/-- The call has come back, on the stack of the task at `t`. -/
structure ComesBack (c : SwitchCall) (t : Word) (m : Machine) : Prop where
  eip : m.eip = c.ret
  esp : m.esp = c.esp
  ebp : m.regs.ebp = c.ebp
  ebx : m.regs.ebx = c.ebx
  esi : m.regs.esi = c.esi
  edi : m.regs.edi = c.edi
  words : ∀ i < kernelStackSize, c.esp.toNat ≤ (wordAt t i).toNat → m.mem (wordAt t i) = c.words i

/-- The processor enters the kernel on the stack of the task at `t`, and uses its page table. -/
structure Runs (t : Word) (m : Machine) : Prop where
  esp0 : m.esp0 = kernelEsp t
  msr175 : m.msr175 = kernelEsp t
  cr3 : m.cr3 = m.mem (dirField t)

/-- The kernel `k`, in which task `t` stands for its address, and directory `d` for `dirs d`. -/
structure Represents (tasks : TaskArray Slot) (dirs : DirIx → Word) (m : Machine) (k : Kernel) : Prop where
  current : m.current = tasks.addr k.current
  cr3 : m.cr3 = dirs k.cr3
  dir : ∀ t, m.mem (dirField (tasks.addr t)) = dirs (k.getDIR t)

end Machine

/--
The machine with the task that runs, the calls of `task_switch` that have not come back, and what the last
step was: whether it was a switch, and the call that has come back in it.
-/
structure Switching (ι : Type) where
  machine : Machine
  running : ι
  waiting : ι → Option SwitchCall
  switched : Bool
  back : Option SwitchCall

/--
What happens next: the running task computes, in user mode or in the kernel, and may make the stacks of other
tasks anew, or it calls `task_switch`.
-/
inductive SwitchEvent (ι : Type)
  | compute (m : Machine) (anew : ι → Bool)
  | switch (t : ι) (ret : Word) (x : Leftovers)

namespace Switching

variable {ι : Type}

def start (m : Machine) (t : ι) : Switching ι :=
  { machine := m, running := t, waiting := fun _ => none, switched := false, back := none }

variable [DecidableEq ι] (labels : Labels) (tasks : TaskArray ι)

def step (event : SwitchEvent ι) (s : Switching ι) : Option (Switching ι) :=
  match event with
  | .compute m anew =>
    some { machine := m, running := s.running,
           waiting := fun t => if anew t then none else s.waiting t,
           switched := false, back := none }
  | .switch t ret x =>
    let waiting := Function.update s.waiting s.running (some (s.machine.switchCall ret))
    some { machine := (s.machine.push ret).taskSwitch labels x, running := t,
           waiting := Function.update waiting t none, switched := true, back := waiting t }

/--
A task writes neither to the stacks of others, those apart that it makes anew, nor to where they are saved. It
calls `task_switch` on its own stack, with room for the call.
-/
def Disciplined (event : SwitchEvent ι) (s : Switching ι) : Prop :=
  match event with
  | .compute m anew => ∀ t ≠ s.running, anew t = false →
      m.mem (kernelEspField (tasks.addr t)) = s.machine.mem (kernelEspField (tasks.addr t)) ∧
        ∀ i, taskStructWords ≤ i → i < kernelStackSize →
          m.mem (wordAt (tasks.addr t) i) = s.machine.mem (wordAt (tasks.addr t) i)
  | .switch t _ _ => s.machine.mem s.machine.esp = tasks.addr t ∧
      ∃ n, taskStructWords ≤ n ∧ n + 8 < kernelStackSize ∧
        s.machine.esp = wordAt (tasks.addr s.running) (n + 8)

/-- The task that has been switched to runs, and its call of `task_switch` has come back. -/
def SwitchesBack (s : Switching ι) : Prop :=
  s.switched → s.machine.Runs (tasks.addr s.running) ∧
    ∀ c ∈ s.back, s.machine.ComesBack c (tasks.addr s.running)

end Switching

end Zeos
