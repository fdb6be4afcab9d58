import Mathlib.Data.List.Nodup
import Zeos.Lib.Knot
import Zeos.Impl.List

/-!
What the lists of the kernel are for: each head stands for a sequence of tasks.
-/

namespace Zeos

/-- The sequence on each list head, and how it is linked. -/
structure Queues where
  seq : Queue → List Slot
  shape : Queue → Links.Shape

namespace Queues

def zero : Queues :=
  { seq := fun _ => [], shape := fun _ => .unset }

def Linked (Q : Queues) (t : Slot) : Prop :=
  ∃ q, t ∈ Q.seq q

def set (Q : Queues) (q : Queue) (ts : List Slot) (shape : Links.Shape) : Queues :=
  { seq := fun q' => if q' = q then ts else Q.seq q'
    shape := fun q' => if q' = q then shape else Q.shape q' }

def init (q : Queue) (Q : Queues) : Queues :=
  Q.set q [] .ring

def push (t : Slot) (q : Queue) (Q : Queues) : Queues :=
  Q.set q (t :: Q.seq q) (Q.shape q)

def append (t : Slot) (q : Queue) (Q : Queues) : Queues :=
  Q.set q (Q.seq q ++ [t]) (Q.shape q).append

/-- `list_add_tail` of the last member, once more -/
def again (q : Queue) (Q : Queues) : Queues :=
  Q.set q (Q.seq q) ((Q.shape q).again (Q.seq q).length)

def remove (t : Slot) (Q : Queues) : Queues :=
  { Q with seq := fun q => (Q.seq q).erase t }

variable {Q : Queues} {q q' : Queue} {t u : Slot} {ts : List Slot} {shape : Links.Shape}

@[simp]
theorem seq_set : (Q.set q ts shape).seq q' = if q' = q then ts else Q.seq q' := by
  rfl

@[simp]
theorem shape_set : (Q.set q ts shape).shape q' = if q' = q then shape else Q.shape q' := by
  rfl

@[simp]
theorem seq_init : (Q.init q).seq q' = if q' = q then [] else Q.seq q' := by
  rfl

@[simp]
theorem shape_init : (Q.init q).shape q' = if q' = q then .ring else Q.shape q' := by
  rfl

@[simp]
theorem seq_push : (Q.push t q).seq q' = if q' = q then t :: Q.seq q else Q.seq q' := by
  rfl

@[simp]
theorem shape_push : (Q.push t q).shape q' = Q.shape q' := by
  simp only [push, shape_set]
  split
  next h => rw [h]
  next => rfl

@[simp]
theorem seq_append : (Q.append t q).seq q' = if q' = q then Q.seq q ++ [t] else Q.seq q' := by
  rfl

@[simp]
theorem shape_append
    : (Q.append t q).shape q' = if q' = q then (Q.shape q).append else Q.shape q' := by
  rfl

@[simp]
theorem seq_again : (Q.again q).seq q' = Q.seq q' := by
  simp only [again, seq_set]
  split
  next h => rw [h]
  next => rfl

@[simp]
theorem shape_again
    : (Q.again q).shape q' =
        if q' = q then (Q.shape q).again (Q.seq q).length else Q.shape q' := by
  rfl

@[simp]
theorem seq_remove : (Q.remove t).seq q = (Q.seq q).erase t := by
  rfl

@[simp]
theorem shape_remove : (Q.remove t).shape q = Q.shape q := by
  rfl

theorem remove_of_not_linked (h : ¬Q.Linked t) : Q.remove t = Q := by
  have : (fun q => (Q.seq q).erase t) = Q.seq := by
    funext q
    exact List.erase_of_not_mem (fun hq => h ⟨q, hq⟩)
  simp only [remove, this]

end Queues

/--
The heap holds these sequences, on distinct nodes.
-/
structure Represents (h : Links ListHead) (Q : Queues) : Prop where
  shaped : ∀ q, h.Shaped (.head q) ((Q.seq q).map .list) (Q.shape q)
  disjoint : ∀ q q' t, t ∈ Q.seq q → t ∈ Q.seq q' → q = q'

end Zeos
