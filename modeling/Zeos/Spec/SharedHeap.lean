import Zeos.Spec.Live

/-!
A record of the addresses that `sys_sbrk` hands out to tasks, of which several may share one address
space.
-/

namespace Zeos

/-- The addresses from `start` to `stop` belong to a task, in the address space of a directory. -/
structure HeapRange where
  task : Slot
  dir : DirIx
  start : Nat
  stop : Nat
  deriving DecidableEq, Repr

namespace HeapRange

def Apart (a b : HeapRange) : Prop :=
  a.dir = b.dir → a.stop ≤ b.start ∨ b.stop ≤ a.start

instance (a : HeapRange) : DecidablePred a.Apart :=
  fun b => inferInstanceAs (Decidable (a.dir = b.dir → a.stop ≤ b.start ∨ b.stop ≤ a.start))

def cut (t : Slot) (b : Nat) (a : HeapRange) : HeapRange :=
  if a.task = t then { a with stop := min a.stop b } else a

def pages (a : HeapRange) : List Nat :=
  (List.range (a.stop / pageSize + 1)).filter fun p =>
    a.start < (p + 1) * pageSize ∧ p * pageSize < a.stop

end HeapRange

/--
The ranges that have been handed out and not been given back, and the pages that have been unmapped
although another task had a range in them.
-/
structure Handed where
  held : List HeapRange
  unmapped : List Nat
  deriving DecidableEq, Repr

namespace Handed

def none : Handed :=
  { held := [], unmapped := [] }

/-- The ranges do not meet, and nobody has lost a page. -/
structure Sound (x : Handed) : Prop where
  apart : x.held.Pairwise HeapRange.Apart
  mapped : x.unmapped = []

instance : DecidablePred Sound :=
  fun x => decidable_of_iff (x.held.Pairwise HeapRange.Apart ∧ x.unmapped = [])
    ⟨fun h => ⟨h.1, h.2⟩, fun h => ⟨h.apart, h.mapped⟩⟩

end Handed

namespace Kernel

def processBreak (k : Kernel) (t : Slot) : Nat :=
  (k.task t).processBreak

def MapsPage (k : Kernel) (d : DirIx) (p : Nat) : Prop :=
  (k.mm.pagusrTable (Mm.getPT d + p)).present = true

instance (k : Kernel) (d : DirIx) : DecidablePred (k.MapsPage d) :=
  fun _ => inferInstanceAs (Decidable (_ = true))

def pagesLost (t : Slot) (k k' : Kernel) (held : List HeapRange) : List Nat :=
  (held.filter fun a => a.task ≠ t ∧ a.dir = k.getDIR t).flatMap fun a =>
    a.pages.filter fun p => k.MapsPage a.dir p ∧ ¬k'.MapsPage a.dir p

end Kernel

/-- What a step does to the record: a call that returns the old break hands out what lies above it. -/
def Handed.after (event : Event) (k k' : Kernel) (x : Handed) : Handed :=
  match event with
  | .sbrk incr =>
    let t := k.current
    { held :=
        if k'.eax t < 0 then x.held
        else if 0 < incr then
          let start := (k'.eax t).toNat
          x.held ++ [{ task := t, dir := k.getDIR t, start := start, stop := start + incr.toNat }]
        else
          (x.held.map (HeapRange.cut t (k'.processBreak t))).filter fun a => a.start < a.stop
      unmapped := x.unmapped ++ k.pagesLost t k' x.held }
  | _ => x

def Event.moves : Event → Option Int
  | .sbrk incr => if incr = 0 then none else some incr
  | _ => none

namespace Sys

def stepHanded : Input → Sys × Finset Slot × Handed → Option (Sys × Finset Slot × Handed) :=
  Run.ghost step fun i s s' x =>
    (liveAfter i.event s.toKernel s'.toKernel (firstTask .freequeue s.links) x.1,
      x.2.after i.event s.toKernel s'.toKernel)

/--
A task that moves its break has the highest one of its address space, before and after that.
-/
def MovesHighest (i : Input) (x : Sys × Finset Slot) : Prop :=
  ∀ incr ∈ i.event.moves, ∀ u ∈ x.2, u ≠ x.1.current → x.1.getDIR u = x.1.getDIR x.1.current →
    x.1.processBreak u ≤ x.1.processBreak x.1.current ∧
      x.1.processBreak u ≤ Kernel.addUnsigned (x.1.processBreak x.1.current)
        (Kernel.clampIncr (x.1.processBreak x.1.current) incr)

instance (i : Input) : DecidablePred (MovesHighest i) :=
  fun x => inferInstanceAs (Decidable (∀ incr ∈ i.event.moves, ∀ u ∈ x.2, u ≠ x.1.current →
    x.1.getDIR u = x.1.getDIR x.1.current →
    x.1.processBreak u ≤ x.1.processBreak x.1.current ∧
      x.1.processBreak u ≤ Kernel.addUnsigned (x.1.processBreak x.1.current)
        (Kernel.clampIncr (x.1.processBreak x.1.current) incr)))

end Sys

end Zeos
