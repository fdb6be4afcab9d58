import Zeos.Spec.Live
import Zeos.Spec.Pool
import Zeos.Spec.RoundRobin

/-!
The free PCBs and the directories, as the live processes leave them.
-/

namespace Zeos

def members (k : Kernel) (live : Finset Slot) (d : DirIx) : Finset Slot :=
  live.filter fun t => (k.task t).nDirectorio = d

/--
`freequeue` is a ring of the PCBs that no live process has. What is taken from it is one of these, and
it is empty when there are none.
-/
structure FreeRing (x : Sys × Finset Slot) : Prop where
  ring : ∃ ts, x.1.Lists .freequeue ts ∧ ts.Nodup ∧ ∀ t, t ∈ ts ↔ t ∉ x.2
  first : ∀ t, firstTask .freequeue x.1.links = some t → t ∉ x.2
  empty : listEmpty (.head .freequeue) x.1.links ↔ ∀ t, t ∈ x.2

/--
The references to a directory are the live processes that have it. It is free for `allocate_DIR`, and
its data pages are gone, just when there are none.
-/
structure Counted (x : Sys × Finset Slot) (d : DirIx) : Prop where
  refs : x.1.refsDIR d = (members x.1.toKernel x.2 d).card
  free : x.1.refsDIR d = 0 ↔ ∀ t ∈ x.2, (x.1.task t).nDirectorio ≠ d
  pages : ∀ p < numPagData, (x.1.mm.dataEntry d p).present ↔ ∃ t ∈ x.2, (x.1.task t).nDirectorio = d

end Zeos
