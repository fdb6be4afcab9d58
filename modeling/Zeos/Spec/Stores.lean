import Zeos.Spec.ReadCalls

/-!
Where the calls of `sys_read` store their keys.
-/

namespace Zeos

structure Stored where
  dest : Addr
  buf : Addr
  count : Int
  deriving DecidableEq, Repr

def Stored.Inside (x : Stored) : Prop :=
  ((x.dest - x.buf).toNat : Int) < x.count

instance : DecidablePred Stored.Inside :=
  fun x => inferInstanceAs (Decidable (((x.dest - x.buf).toNat : Int) < x.count))

/-- The buffer of the last call of each task, how many keys that asks for, and the keys stored so far. -/
structure Stores where
  buf : Slot → Addr
  count : Slot → Int
  stored : List Stored

namespace Stores

def none : Stores :=
  { buf := fun _ => 0, count := fun _ => 0, stored := [] }

def call (event : Event) (t : Slot) (x : Stores) : Stores :=
  match event with
  | .read _ buf count =>
    { x with buf := Function.update x.buf t buf, count := Function.update x.count t count }
  | _ => x

def stores (x : Stores) (copy : UserCopy) : Stored :=
  { dest := copy.dest, buf := x.buf copy.task, count := x.count copy.task }

def after (event : Event) (k k' : Kernel) (x : Stores) : Stores :=
  let x := x.call event k.current
  { x with stored := x.stored ++ (k.copiesSince k').map x.stores }

/-- No key has gone past a buffer. -/
def AllInside (x : Stores) : Prop :=
  ∀ y ∈ x.stored, y.Inside

instance : DecidablePred AllInside :=
  fun x => inferInstanceAs (Decidable (∀ y ∈ x.stored, y.Inside))

end Stores

namespace Sys

def stepStores : Input → Sys × Stores → Option (Sys × Stores) :=
  Run.ghost step fun i s s' x => x.after i.event s.toKernel s'.toKernel

end Sys

end Zeos
