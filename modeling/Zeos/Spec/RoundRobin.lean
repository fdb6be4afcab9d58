import Zeos.Impl.Interrupt
import Zeos.Lib.Turns

/-!
What the scheduler is for: the tasks that are ready take turns.
-/

namespace Zeos

namespace Sys

def Lists (s : Sys) (q : Queue) (ts : List Slot) : Prop :=
  s.links.Ring (.head q) (ts.map .list)

instance (s : Sys) (q : Queue) : DecidablePred (s.Lists q) :=
  fun ts => inferInstanceAs (Decidable (s.links.Ring (.head q) (ts.map .list)))

def tick (r : Readings) (s : Sys) : Option Sys :=
  clockRutine { s with readings := r }

def ticks (r : Nat → Readings) : Nat → Sys → Option Sys
  | 0, s => some s
  | n + 1, s => (ticks r n s).bind (tick (r n))

def InTurn (ts : List Slot) (s : Sys) : Prop :=
  ∃ rs, ts = s.current :: rs ∧ s.Lists .readyqueue rs

/--
The task `c` runs, `rs` are ready, all of them have the quantum `Q`, of which `left` ticks are left.
-/
structure Runs (Q : Nat) (c : Slot) (rs : List Slot) (left : Nat) (s : Sys) : Prop where
  current : s.current = c
  running : (s.task c).estado = .stRun
  ready : s.Lists .readyqueue rs
  estado : ∀ t ∈ rs, (s.task t).estado = .stReady
  quantum : ∀ t ∈ c :: rs, (s.task t).quantum = Q
  left : s.qLeft = left

instance (Q : Nat) (c : Slot) (rs : List Slot) (left : Nat) : DecidablePred (Runs Q c rs left) :=
  fun s => decidable_of_iff
    (s.current = c ∧ (s.task c).estado = .stRun ∧ s.Lists .readyqueue rs ∧
      (∀ t ∈ rs, (s.task t).estado = .stReady) ∧ (∀ t ∈ c :: rs, (s.task t).quantum = Q) ∧
      s.qLeft = left)
    ⟨fun h => ⟨h.1, h.2.1, h.2.2.1, h.2.2.2.1, h.2.2.2.2.1, h.2.2.2.2.2⟩,
      fun h => ⟨h.current, h.running, h.ready, h.estado, h.quantum, h.left⟩⟩

end Sys

/-- The states `f`, one after each tick, are those of a round robin over `ts`. -/
structure RoundRobin (Q left : Nat) (ts : List Slot) (f : Nat → Sys) : Prop where
  first : ∀ n < left, (f n).InTurn ts
  turn : ∀ i n, left + i * Q ≤ n → n < left + (i + 1) * Q → (f n).InTurn (ts.rotate (i + 1))
  switch : ∀ n, (f (n + 1)).current ≠ (f n).current ↔ ∃ i, n + 1 = left + i * Q
  share : ∀ t ∈ ts, ∀ m,
    ((Finset.Ico m (m + ts.length * Q)).filter fun n => (f n).current = t).card = Q

end Zeos
