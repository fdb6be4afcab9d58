import Mathlib.Data.Finset.Basic
import Zeos.Impl.Mm

/-!
The entries of the page tables, and the pool of frames that `alloc_frame` and `free_frame` are for.
-/

namespace Zeos

namespace Mm

def entry (mm : Mm) (d : DirIx) (page : Nat) : PageTableEntry :=
  mm.pagusrTable (getPT d + page)

def dataEntry (mm : Mm) (d : DirIx) (p : Nat) : PageTableEntry :=
  mm.entry d (pagLogInitData + p)

end Mm

/-- The frames that `alloc_frame` looks at. -/
def PoolFrame (f : Nat) : Prop :=
  numPagKernel ≤ f ∧ f < totalPages ∧ f % 2 = 0

instance : DecidablePred PoolFrame :=
  fun f => inferInstanceAs (Decidable (numPagKernel ≤ f ∧ f < totalPages ∧ f % 2 = 0))

inductive FrameCall
  | alloc
  | free (frame : Nat)
  deriving DecidableEq, Repr

/--
One call, next to the frames that are outstanding. Only such a frame is given back.
-/
def frameStep (call : FrameCall) (x : Mm × Finset Nat) : Option (Mm × Finset Nat) :=
  match call with
  | .alloc =>
    match x.1.allocFrame with
    | (some frame, mm) => some (mm, insert frame x.2)
    | (none, mm) => some (mm, x.2)
  | .free frame => if frame ∈ x.2 then some (x.1.freeFrame frame, x.2.erase frame) else none

/--
The next call of `alloc_frame` gives a frame of the pool that is not outstanding, and fails only if there
is none. A frame that is not outstanding is free.
-/
structure ServesPool (x : Mm × Finset Nat) : Prop where
  fresh : ∀ f ∈ x.1.allocFrame.1, PoolFrame f ∧ f ∉ x.2
  full : x.1.allocFrame.1 = none → ∀ f, PoolFrame f → f ∈ x.2
  available : ∀ f, PoolFrame f → f ∉ x.2 → x.1.physMem f = .freeFrame

def FreesLater (call : FrameCall) (x : Mm × Finset Nat) : Prop :=
  call = .free numPagKernel → numPagKernel ∉ x.2

end Zeos
