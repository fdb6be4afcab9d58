import Zeos.Lib.Fifo
import Zeos.Spec.ReadCalls

/-!
What the calls of `sys_read` return and what they store, beside what the keyboard has put into the buffer.
-/

namespace Zeos

structure ReadResult where
  count : Int
  value : Int
  stored : Nat
  deriving DecidableEq, Repr

/--
What the last call of each task asks for and has stored, the calls that have returned, the bytes that have
been delivered, and those that `cirBuffWrite` has accepted.
-/
structure Deliveries where
  asked : Slot → Int
  stored : Slot → Nat
  results : List ReadResult
  delivered : List Byte
  accepted : List Byte

def ReadResult.Complete (r : ReadResult) : Prop :=
  0 ≤ r.value → r.value = r.count ∧ (r.stored : Int) = r.count

instance : DecidablePred ReadResult.Complete :=
  fun r => inferInstanceAs (Decidable (0 ≤ r.value → r.value = r.count ∧ (r.stored : Int) = r.count))

/-- The characters that `cirBuffWrite` has put into the buffer and `cirBuffRead` has not taken out. -/
def CirBuffer.unread (buff : CirBuffer) : List Byte :=
  Fifo.window buff.buffer cirBufferSize buff.readPos.toNat buff.cirBuffLenght.toNat

namespace Deliveries

def none : Deliveries :=
  { asked := fun _ => 0, stored := fun _ => 0, results := [], delivered := [], accepted := [] }

/-- No key is lost, duplicated, reordered or invented: each has been delivered, or is still in the buffer. -/
structure Faithful (x : Deliveries) (buff : CirBuffer) : Prop where
  complete : ∀ r ∈ x.results, r.Complete
  inOrder : x.accepted = x.delivered ++ buff.unread

instance (buff : CirBuffer) : DecidablePred (Faithful · buff) :=
  fun x => decidable_of_iff ((∀ r ∈ x.results, r.Complete) ∧ x.accepted = x.delivered ++ buff.unread)
    ⟨fun h => ⟨h.1, h.2⟩, fun h => ⟨h.complete, h.inOrder⟩⟩

def call (event : Event) (t : Slot) (x : Deliveries) : Deliveries :=
  match event with
  | .read _ _ count =>
    { x with
      asked := Function.update x.asked t count
      stored := Function.update x.stored t 0 }
  | _ => x

def store (t : Slot) (bytes : List Byte) (x : Deliveries) : Deliveries :=
  { x with
    stored := Function.update x.stored t (x.stored t + bytes.length)
    delivered := x.delivered ++ bytes }

def ret (t : Slot) (value : Int) (x : Deliveries) : Deliveries :=
  { x with
    results := x.results ++ [{ count := x.asked t, value := value, stored := x.stored t }] }

def press (event : Event) (buff : CirBuffer) (x : Deliveries) : Deliveries :=
  match event with
  | .keyboard entrada beyond =>
    if entrada >>> 7 = 0 ∧ buff.cirBuffFull = 0 then
      { x with accepted := x.accepted ++ [charMap.getD (entrada &&& 0x7f).toNat beyond] }
    else x
  | _ => x

end Deliveries

def Kernel.Reads (event : Event) (t : Slot) (k : Kernel) : Prop :=
  (∃ fd buf count, event = .read fd buf count) ∨ event = .resume ∧ k.isReading t = true

instance Kernel.decidableReads (event : Event) (t : Slot) : DecidablePred (Kernel.Reads event t) :=
  fun k => match event with
    | .read fd buf count => isTrue (.inl ⟨fd, buf, count, rfl⟩)
    | .resume => decidable_of_iff (k.isReading t = true) (by simp [Reads])
    | .fork | .clone _ _ | .exit | .semInit _ _ | .semWait _ | .semSignal _ | .semDestroy _ | .sbrk _
    | .clock | .keyboard _ _ | .store _ _ => isFalse (by simp [Reads])

/-- What a step does to the record. -/
def Deliveries.after (event : Event) (k k' : Kernel) (x : Deliveries) : Deliveries :=
  let t := k.current
  let bytes := (k.copiesSince k').map UserCopy.byte
  let x := ((x.call event t).store t bytes).press event k.keyboardBuff
  if k.Reads event t ∧ k'.stopped = false ∧ k'.current = t ∧ k'.cont t = .user then x.ret t (k'.eax t)
  else x

namespace Sys

def stepDeliveries : Input → Sys × Finset Slot × Deliveries → Option (Sys × Finset Slot × Deliveries) :=
  Run.ghost step fun i s s' x =>
    (liveAfter i.event s.toKernel s'.toKernel (firstTask .freequeue s.links) x.1,
      x.2.after i.event s.toKernel s'.toKernel)

/-- A call of `sys_read` takes keys from the buffer. -/
def HandsKeys (i : Input) (s : Sys) : Prop :=
  (∃ count ∈ i.event.keysAsked, s.readers.waiting = [] ∧
      s.readers.Hands { task := s.current, required := count, got := 0 }) ∨
    (i.event = .resume ∧ s.isReading s.current = true ∧ s.readers.Hands (s.reader s.current))

instance (i : Input) : DecidablePred (HandsKeys i) :=
  fun s => inferInstanceAs (Decidable ((∃ count ∈ i.event.keysAsked, s.readers.waiting = [] ∧
      s.readers.Hands { task := s.current, required := count, got := 0 }) ∨
    (i.event = .resume ∧ s.isReading s.current = true ∧ s.readers.Hands (s.reader s.current))))

end Sys

end Zeos
