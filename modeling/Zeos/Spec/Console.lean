import Zeos.Impl.Sys

/-!
What `sys_write` is for: it prints a buffer of its caller. The loop is written once more, for any memory,
so that it can be run in one that guards its accesses.
-/

namespace Zeos

def InRange (base : Addr) (n : Nat) (a : Addr) : Prop :=
  (a - base).toNat < n

instance (base : Addr) (n : Nat) : DecidablePred (InRange base n) :=
  fun a => inferInstanceAs (Decidable ((a - base).toNat < n))

theorem inRange_add (base : Addr) {i n : Nat} (hi : i < n)
    : InRange base n (base + BitVec.ofNat 32 i) := by
  have hoffset : base + BitVec.ofNat 32 i - base = BitVec.ofNat 32 i := by
    bv_omega
  unfold InRange
  rw [hoffset, BitVec.toNat_ofNat]
  exact (Nat.mod_le _ _).trans_lt hi

/--
A memory that may be read where `R` holds, and written to where `W` does. Any other access is a fault.
-/
structure Fenced (σ : Type) (R W : Addr → Prop) where
  mem : σ

instance {σ : Type} [ByteMem σ] {R W : Addr → Prop} [DecidablePred R] [DecidablePred W]
    : ByteMem (Fenced σ R W) where
  load m a := if R a then ByteMem.load m.mem a else none
  store m a v := if W a then (ByteMem.store m.mem a v).map fun mem => ⟨mem⟩ else none

section Loop

variable {σ : Type} [ByteMem σ]

def printAll (m : σ) (buffer : Addr) (size : Nat) : Option (List Byte) :=
  match size with
  | 0 => some []
  | size + 1 => do
    let b ← ByteMem.load m buffer
    let bs ← printAll m (buffer + 1) size
    some (b :: bs)

def writeLoop (buff : Addr) (fuel : Nat) (buffer : Addr) (size : Int) (m : σ)
    : Option (List Byte × σ) :=
  match fuel with
  | 0 => none
  | fuel + 1 =>
    if size ≥ tamWrite then do
      let m ← copyFromUser buffer buff tamWrite m
      let out ← printAll m buff 4
      let (rest, m) ← writeLoop buff fuel (buffer + 4) (size - tamWrite) m
      some (out ++ rest, m)
    else do
      let m ← copyFromUser buffer buff size m
      let out ← printAll m buff size.toNat
      some (out, m)

end Loop

/-- What `sys_write` may read: the buffer of its caller, and its own array. -/
def BufferReads (buff buffer : Addr) (size : Nat) (a : Addr) : Prop :=
  InRange buffer size a ∨ InRange buff 4 a

instance (buff buffer : Addr) (size : Nat) : DecidablePred (BufferReads buff buffer size) :=
  fun a => inferInstanceAs (Decidable (InRange buffer size a ∨ InRange buff 4 a))

def ReadableBuffer (m : Space) (buffer : Addr) (size : Int) : Prop :=
  ∀ i < size.toNat, (m.mm.userLoad m.pt (buffer + BitVec.ofNat 32 i)).isSome

/--
A call prints the buffer as if it did so at once, byte by byte, and returns its size. It does so too in a
memory that has only the buffer and its own array.
-/
structure PrintsBuffer (buff buffer : Addr) (size : Int) (m : Space) : Prop where
  result : sysWrite buff 1 buffer size m =
    { console := sysWriteConsole m buffer size.toNat, ret := some size }
  bytes : (sysWrite buff 1 buffer size m).console.map some =
    (List.range size.toNat).map fun i => m.mm.userLoad m.pt (buffer + BitVec.ofNat 32 i)
  confined : ∃ m', writeLoop buff (size.toNat + 1) buffer size
      (⟨m⟩ : Fenced Space (BufferReads buff buffer size.toNat) (InRange buff 4)) =
    some ((sysWrite buff 1 buffer size m).console, ⟨m'⟩)

end Zeos
