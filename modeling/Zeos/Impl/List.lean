import Zeos.Lib.Links
import Zeos.Impl.Types

/-!
`list.c`, and the heap of its nodes.

A pointer is an `Option`, `none` is the null pointer. Writing through it is a page fault, since page
0 is never mapped, and makes the operation `none`.
-/

namespace Zeos

section ListC

variable {α : Type} [DecidableEq α]

def initListHead (list : α) (h : Links α) : Links α :=
  (h.setNext list list).setPrev list list

def listAddBetween (new : α) (prev next : Option α) (h : Links α) : Option (Links α) :=
  next.bind fun next =>
    let h := h.setPrev next new
    let h := h.setNext new next
    let h := h.setPrev new prev
    prev.map fun prev => h.setNext prev new

def listAdd (new head : α) (h : Links α) : Option (Links α) :=
  listAddBetween new head (h.next head) h

def listAddTail (new head : α) (h : Links α) : Option (Links α) :=
  listAddBetween new (h.prev head) head h

def listDelBetween (prev next : Option α) (h : Links α) : Option (Links α) :=
  next.bind fun next =>
    let h := h.setPrev next prev
    prev.map fun prev => h.setNext prev next

def listDel (entry : α) (h : Links α) : Option (Links α) :=
  (listDelBetween (h.prev entry) (h.next entry) h).map fun h =>
    (h.setNext entry none).setPrev entry none

def listEmpty (head : α) (h : Links α) : Bool :=
  h.next head = some head

def listFirst (head : α) (h : Links α) : Option α :=
  h.next head

end ListC

/--
`list_head_to_task_struct`. There is no PCB around a list head that is not the field `list` of one.
-/
def listHeadToTaskStruct : ListHead → Option Slot
  | .head _ => none
  | .list t => some t

def firstTask (q : Queue) (h : Links ListHead) : Option Slot :=
  (listFirst (.head q) h).bind listHeadToTaskStruct

def zeroLinks : Links ListHead :=
  { next := fun _ => none, prev := fun _ => none }

/--
What `copy_data` of a whole PCB does to the field `list` of its destination.
-/
def copyList (src dst : Slot) (h : Links ListHead) : Links ListHead :=
  (h.setNext (.list dst) (h.next (.list src))).setPrev (.list dst) (h.prev (.list src))

end Zeos
