import Zeos.Spec.Live

/-!
What the memory of the processes is for: each address space is a memory of its own, which threads share
and which a fork copies.
-/

namespace Zeos

/-- The address space of each process, the next one, and what has been stored in each of them. -/
structure Memories where
  space : Slot → Nat
  next : Nat
  mem : Nat → Addr → Byte

namespace Memories

def boot (s : Sys) : Memories where
  space _ := 0
  next := 1
  mem _ a := (s.mm.userLoad (Mm.getPT s.cr3) a).getD 0

def fork (parent new : Slot) (g : Memories) : Memories where
  space t := if t = new then g.next else g.space t
  next := g.next + 1
  mem n := if n = g.next then g.mem (g.space parent) else g.mem n

def clone (parent new : Slot) (g : Memories) : Memories :=
  { g with space := fun t => if t = new then g.space parent else g.space t }

def store (t : Slot) (a : Addr) (v : Byte) (g : Memories) : Memories :=
  { g with
    mem := fun n b => if n = g.space t ∧ b = a then v else g.mem n b }

/-- The record after a step; a PID that has been handed out is that of the first free PCB. -/
def after (event : Event) (k k' : Kernel) (free : Option Slot) (g : Memories) : Memories :=
  match event with
  | .fork =>
    if k'.incrementalPID = k.incrementalPID then g
    else free.elim g fun new => g.fork k.current new
  | .clone _ _ =>
    if k'.incrementalPID = k.incrementalPID then g
    else free.elim g fun new => g.clone k.current new
  | .store a v => g.store k.current a v
  | _ => g

end Memories

def Sys.stepMemory : Input → Sys × Finset Slot × Memories → Option (Sys × Finset Slot × Memories) :=
  Run.ghost step fun i s s' x =>
    (liveAfter i.event s.toKernel s'.toKernel (firstTask .freequeue s.links) x.1,
      x.2.after i.event s.toKernel s'.toKernel (firstTask .freequeue s.links))

def DataAddr (a : Addr) : Prop :=
  pagLogInitData ≤ a.toNat / pageSize ∧ a.toNat / pageSize < pagLogInitHeap

/--
Each process but the idle task, which is never in user mode, finds in the data pages what the record of
its address space says, in frames that are not free. The page table that is loaded is that of the
current process.
-/
structure PrivateMemory (x : Sys × Finset Slot × Memories) : Prop where
  loads : ∀ t ∈ x.2.1, t ≠ x.1.idleTask → ∀ a, DataAddr a →
    x.1.mm.userLoad (x.1.getPT t) a = some (x.2.2.mem (x.2.2.space t) a)
  backed : ∀ t ∈ x.2.1, t ≠ x.1.idleTask → ∀ p < numPagData,
    x.1.mm.physMem (x.1.mm.getFrame (x.1.getPT t) (pagLogInitData + p)) = .usedFrame
  loaded : Mm.getPT x.1.cr3 = x.1.getPT x.1.current

end Zeos
