import Mathlib.Data.List.Range
import Mathlib.Order.Lattice

/-!
A counting semaphore with a queue, and which of those who wait for it are let through.
-/

namespace Turnstile

variable {α : Type}

structure State (α : Type) where
  counter : Int
  queue : List α

namespace State

def wait (a : α) (s : State α) : State α :=
  if s.counter ≤ 0 then { s with queue := s.queue ++ [a] } else { s with counter := s.counter - 1 }

def signal (s : State α) : State α :=
  match s.queue with
  | [] => { s with counter := s.counter + 1 }
  | _ :: rest => { s with queue := rest }

end State

/--
Who has called `wait`, in the order of arrival, which of these calls have been let through, and how many
signals there have been.
-/
structure Passage (α : Type) where
  waits : List α
  through : List Nat
  signals : Nat

namespace Passage

def start : Passage α :=
  { waits := [], through := [], signals := 0 }

def wait (a : α) (passed : Bool) (p : Passage α) : Passage α :=
  { p with
    waits := p.waits ++ [a]
    through := p.through ++ if passed then [p.waits.length] else [] }

def signal (moved : α → Bool) (p : Passage α) : Passage α :=
  { p with
    through := p.through ++ (List.range p.waits.length).filter fun n =>
      n ∉ p.through && (p.waits[n]?).any moved
    signals := p.signals + 1 }

def passes (v : Nat) (p : Passage α) : Nat :=
  min p.waits.length (v + p.signals)

theorem passes_le {v : Nat} (p : Passage α) : p.passes v ≤ p.waits.length := by
  apply min_le_left

/-- The first calls have been let through, in their order, and the others wait. -/
structure Meets (v : Nat) (p : Passage α) (s : State α) : Prop where
  through : p.through = List.range (p.passes v)
  queue : s.queue = p.waits.drop (p.passes v)
  counter : s.counter = max 0 ((v : Int) + p.signals - p.waits.length)

namespace Meets

variable {v : Nat} {p : Passage α} {s : State α} {a : α} {moved : α → Bool}

theorem start (v : Nat) : Meets v (.start : Passage α) { counter := v, queue := [] } := by
  constructor <;> simp [Passage.start, passes]

theorem passes_of_pos (h : p.Meets v s) (hpos : 0 < s.counter) : p.passes v = p.waits.length := by
  have hcounter := h.counter
  unfold passes
  omega

theorem wait (h : p.Meets v s) : (p.wait a (0 < s.counter)).Meets v (s.wait a) := by
  have hcounter := h.counter
  unfold State.wait
  split
  next hzero =>
    have hpasses : (p.wait a (0 < s.counter)).passes v = p.passes v := by
      unfold passes Passage.wait
      rw [List.length_append, List.length_singleton]
      dsimp only
      omega
    constructor
    . rw [hpasses, ← h.through]
      simp [Passage.wait, hzero]
    . rw [hpasses]
      show s.queue ++ [a] = (p.waits ++ [a]).drop (p.passes v)
      rw [List.drop_append_of_le_length p.passes_le, h.queue]
    . simp [Passage.wait]
      omega
  next hpos =>
    have hpos : 0 < s.counter := by omega
    have hlast := h.passes_of_pos hpos
    have hpasses : (p.wait a (0 < s.counter)).passes v = p.waits.length + 1 := by
      unfold passes Passage.wait
      rw [List.length_append, List.length_singleton]
      dsimp only
      omega
    constructor
    . rw [hpasses, List.range_succ, ← hlast, ← h.through]
      simp [Passage.wait, hpos, hlast]
    . rw [hpasses]
      show s.queue = (p.waits ++ [a]).drop (p.waits.length + 1)
      rw [h.queue, hlast]
      simp
    . simp [Passage.wait]
      omega

theorem through_signal (h : p.Meets v s) (moved : α → Bool)
    : (p.signal moved).through =
        p.through ++ ((List.range s.queue.length).filter fun k => (s.queue[k]?).any moved).map
          (p.passes v + ·) := by
  have hlength : p.waits.length = p.passes v + s.queue.length := by
    rw [h.queue, List.length_drop]
    have := p.passes_le (v := v)
    omega
  have hbefore : (List.range (p.passes v)).filter
      (fun n => n ∉ p.through && (p.waits[n]?).any moved) = [] := by
    apply List.filter_eq_nil_iff.mpr
    intro n hn
    rw [← h.through] at hn
    simp [hn]
  unfold Passage.signal
  dsimp only
  rw [hlength, List.range_add, List.filter_append, hbefore, List.nil_append, List.filter_map]
  congr 2
  apply List.filter_congr
  intro k _
  have hnot : p.passes v + k ∉ p.through := by
    rw [h.through, List.mem_range]
    omega
  simp [hnot, h.queue]

theorem signal (h : p.Meets v s) (hfirst : ∀ a ∈ s.queue.head?, moved a = true)
    (hrest : ∀ a ∈ s.queue.tail, moved a = false) : (p.signal moved).Meets v s.signal := by
  have hcounter := h.counter
  have hqueue := h.queue
  have hthrough := h.through_signal moved
  have hlength : s.queue.length = p.waits.length - p.passes v := by
    rw [hqueue, List.length_drop]
  have hdef : p.passes v = min p.waits.length (v + p.signals) := rfl
  have hdef' : (p.signal moved).passes v = min p.waits.length (v + (p.signals + 1)) := rfl
  unfold State.signal
  split
  next hempty =>
    rw [hempty, List.length_nil] at hlength
    have hpasses : (p.signal moved).passes v = p.passes v := by omega
    constructor
    . rw [hpasses, ← h.through, hthrough, hempty]
      simp
    . rw [hpasses]
      exact hqueue
    . show s.counter + 1 = max 0 ((v : Int) + (p.signals + 1 : Nat) - p.waits.length)
      omega
  next a rest hcons =>
    rw [hcons, List.length_cons] at hlength
    have hpasses : (p.signal moved).passes v = p.passes v + 1 := by omega
    have hone : (List.range s.queue.length).filter (fun k => (s.queue[k]?).any moved) = [0] := by
      rw [hcons, List.length_cons, List.range_succ_eq_map, List.filter_cons_of_pos, List.filter_map]
      . rw [List.filter_eq_nil_iff.mpr, List.map_nil]
        intro k hk
        rw [List.mem_range] at hk
        have hnot := hrest rest[k] (by rw [hcons]; exact List.getElem_mem hk)
        simp [List.getElem?_eq_getElem hk, hnot]
      . have hmoved := hfirst a (by rw [hcons]; rfl)
        simpa using hmoved
    constructor
    . rw [hpasses, hthrough, hone, List.range_succ, h.through]
      rfl
    . rw [hpasses]
      show rest = p.waits.drop (p.passes v + 1)
      rw [← List.tail_drop, ← hqueue, hcons]
      rfl
    . show s.counter = max 0 ((v : Int) + (p.signals + 1 : Nat) - p.waits.length)
      omega

end Meets

end Passage

end Turnstile
