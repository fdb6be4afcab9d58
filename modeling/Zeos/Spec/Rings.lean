import Mathlib.Data.Fintype.Basic
import Zeos.Lib.Rings
import Zeos.Lib.Run
import Zeos.Impl.Sched

/-!
What `list.c` and `update_process_state_rr` are for, wherever the nodes are and whatever the queues: each
queue head stands for a sequence of nodes.
-/

namespace Zeos

structure NodeLayout (κ τ α : Type) where
  head : κ → α
  list : τ → α
  list_injective : Function.Injective list
  head_ne_list : ∀ q t, head q ≠ list t

/-- The memory that the calls below read and write: all list nodes, and `estado` of all tasks. -/
structure Lists (τ α : Type) where
  links : Links α
  estado : τ → Estado

/--
The calls on lists, and the assignments to `estado` that other code makes between them.
-/
inductive ListCall (κ τ α : Type)
  | updateProcessStateRr (t : τ) (dstQueue : Option κ)
  | listAdd (new : α) (q : κ)
  | listAddTail (new : α) (q : κ)
  | listDel (entry : α)
  | listFirst (q : κ)
  | setEstado (t : τ) (e : Estado)
  deriving DecidableEq, Repr

section Calls

variable {κ τ α : Type} [DecidableEq κ] [DecidableEq τ] [DecidableEq α]
variable (L : NodeLayout κ τ α) (readyqueue : κ)

namespace Lists

def setEstado (t : τ) (e : Estado) (s : Lists τ α) : Lists τ α :=
  { s with estado := Function.update s.estado t e }

def updateProcessStateRr (t : τ) (dstQueue : Option κ) (s : Lists τ α) : Option (Lists τ α) := do
  let links ← (if s.estado t ≠ .stRun then listDel (L.list t) s.links else some s.links)
  let s := { s with links := links }
  match dstQueue with
  | none => some (s.setEstado t .stRun)
  | some q => do
    let links ← listAddTail (L.list t) (L.head q) s.links
    let s := { s with links := links }
    some (s.setEstado t (if q = readyqueue then .stReady else .stBlocked))

def step (c : ListCall κ τ α) (s : Lists τ α) : Option (Lists τ α) :=
  match c with
  | .updateProcessStateRr t dstQueue => s.updateProcessStateRr L readyqueue t dstQueue
  | .listAdd new q => (listAdd new (L.head q) s.links).map fun links => { s with links := links }
  | .listAddTail new q =>
    (listAddTail new (L.head q) s.links).map fun links => { s with links := links }
  | .listDel entry => (listDel entry s.links).map fun links => { s with links := links }
  | .listFirst _ => some s
  | .setEstado t e => some (s.setEstado t e)

end Lists

abbrev Sequences (κ α : Type) := κ → List α

namespace Sequences

def Member (Q : Sequences κ α) (n : α) : Prop :=
  ∃ q, n ∈ Q q

def Free (head : κ → α) (Q : Sequences κ α) (n : α) : Prop :=
  ∀ q, n ∉ head q :: Q q

def pushFront (q : κ) (n : α) (Q : Sequences κ α) : Sequences κ α :=
  Function.update Q q (n :: Q q)

def pushBack (q : κ) (n : α) (Q : Sequences κ α) : Sequences κ α :=
  Function.update Q q (Q q ++ [n])

def remove (n : α) (Q : Sequences κ α) : Sequences κ α :=
  fun q => (Q q).erase n

/-- What a call means for the sequences: `update_process_state_rr` takes the task to the end of a queue. -/
def apply (c : ListCall κ τ α) (Q : Sequences κ α) : Sequences κ α :=
  match c with
  | .updateProcessStateRr t none => Q.remove (L.list t)
  | .updateProcessStateRr t (some q) => (Q.remove (L.list t)).pushBack q (L.list t)
  | .listAdd new q => Q.pushFront q new
  | .listAddTail new q => Q.pushBack q new
  | .listDel entry => Q.remove entry
  | .listFirst _ => Q
  | .setEstado _ _ => Q

end Sequences

abbrev ListState (κ τ α : Type) := Lists τ α × Sequences κ α

def listStep : ListCall κ τ α → ListState κ τ α → Option (ListState κ τ α) :=
  Run.ghost (Lists.step L readyqueue) fun c _ _ Q => Q.apply L c

namespace ListCall

/--
Nodes are added only when they are in no ring and deleted only when they are members of one, and `estado` of
a task that `update_process_state_rr` is called for tells which.
-/
def Fits (c : ListCall κ τ α) (x : ListState κ τ α) : Prop :=
  match c with
  | .updateProcessStateRr t _ => x.1.estado t ≠ .stRun ↔ x.2.Member (L.list t)
  | .listAdd new _ => x.2.Free L.head new
  | .listAddTail new _ => x.2.Free L.head new
  | .listDel entry => x.2.Member entry
  | .listFirst _ => True
  | .setEstado _ _ => True

instance [Fintype κ] (c : ListCall κ τ α) (x : ListState κ τ α) : Decidable (c.Fits L x) :=
  match c with
  | .updateProcessStateRr t _ =>
    inferInstanceAs (Decidable (x.1.estado t ≠ .stRun ↔ ∃ q, L.list t ∈ x.2 q))
  | .listAdd new _ => inferInstanceAs (Decidable (∀ q, new ∉ L.head q :: x.2 q))
  | .listAddTail new _ => inferInstanceAs (Decidable (∀ q, new ∉ L.head q :: x.2 q))
  | .listDel entry => inferInstanceAs (Decidable (∃ q, entry ∈ x.2 q))
  | .listFirst _ => isTrue trivial
  | .setEstado _ _ => isTrue trivial

/-- The queue is the one the call names, or the node of the call is a member of it. -/
def Touches (c : ListCall κ τ α) (Q : Sequences κ α) (q : κ) : Prop :=
  match c with
  | .updateProcessStateRr t dstQueue => dstQueue = some q ∨ L.list t ∈ Q q
  | .listAdd _ q' => q = q'
  | .listAddTail _ q' => q = q'
  | .listDel entry => entry ∈ Q q
  | .listFirst _ => False
  | .setEstado _ _ => False

/-- The call returns, and a ring that it does not touch is the same, pointer by pointer. -/
def SparesOthers (c : ListCall κ τ α) (x : ListState κ τ α) : Prop :=
  ∃ x', listStep L readyqueue c x = some x' ∧ ∀ q, ¬c.Touches L x.2 q →
    x'.2 q = x.2 q ∧ Links.EqOn (L.head q :: x.2 q) x.1.links x'.1.links

end ListCall

/--
The rings are well formed and disjoint, and what one reads from them is the sequences.
-/
structure ReadsAs (x : ListState κ τ α) : Prop where
  rings : x.1.links.Rings L.head x.2
  next : ∀ q fuel, (x.2 q).length < fuel →
    Links.walk x.1.links.next (L.head q) fuel (L.head q) = some (x.2 q)
  prev : ∀ q fuel, (x.2 q).length < fuel →
    Links.walk x.1.links.prev (L.head q) fuel (L.head q) = some (x.2 q).reverse
  first : ∀ q, listFirst (L.head q) x.1.links = some ((x.2 q).head?.getD (L.head q))
  empty : ∀ q, listEmpty (L.head q) x.1.links = (x.2 q).isEmpty

/-- `estado` tells of every task whether it is on a queue. -/
def Exact (x : ListState κ τ α) : Prop :=
  ∀ t, x.1.estado t ≠ .stRun ↔ x.2.Member (L.list t)

end Calls

theorem list_injective : Function.Injective ListHead.list := by
  intro t u h
  exact ListHead.list.inj h

theorem head_ne_list (q : Queue) (t : Slot) : ListHead.head q ≠ .list t := by
  intro h
  cases h

def kernelLayout : NodeLayout Queue Slot ListHead where
  head := .head
  list := .list
  list_injective := list_injective
  head_ne_list := head_ne_list

instance : Fintype Queue where
  elems := {.freequeue, .readyqueue, .keyboardqueue} ∪ Finset.univ.image .blockedQueue
  complete q := by cases q <;> simp

def Sys.lists (s : Sys) : Lists Slot ListHead :=
  { links := s.links, estado := fun t => (s.task t).estado }

end Zeos
