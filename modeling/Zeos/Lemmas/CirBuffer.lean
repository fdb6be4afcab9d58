import Zeos.Spec.CirBuffer

/-!
The keyboard buffer as a bounded queue, and where it stops being one: `readPos` has no wrap-around, and
a read does not take back `full`.
-/

namespace Zeos

open Fifo

namespace CirBuffer

structure Holds (b : CirBuffer) (q : List Byte) : Prop where
  length_le : q.length ≤ cirBufferSize
  readPos : 0 ≤ b.readPos ∧ b.readPos < cirBufferSize
  writePos : b.writePos = ((b.readPos.toNat + q.length) % cirBufferSize : Nat)
  full : b.full = if q.length = cirBufferSize then 1 else 0
  cells : q = window b.buffer cirBufferSize b.readPos.toNat q.length

theorem zero_holds : zero.Holds [] := by
  constructor <;> simp [zero]

variable {b : CirBuffer} {q : List Byte} {c : Byte}

namespace Holds

theorem cirBuffFull_ne_zero_iff (h : b.Holds q) : b.cirBuffFull ≠ 0 ↔ q.length = cirBufferSize := by
  simp [cirBuffFull, h.full]

theorem cirBuffLenght_eq (h : b.Holds q) : b.cirBuffLenght = q.length := by
  obtain ⟨hle, ⟨hr, hr'⟩, hw, hf, -⟩ := h
  unfold cirBuffLenght
  rw [hf, hw]
  grind

theorem writePos_inside (h : b.Holds q) : 0 ≤ b.writePos ∧ b.writePos < cirBufferSize := by
  rw [h.writePos]
  unfold cirBufferSize
  omega

theorem cirBuffRead_fst (h : b.Holds (c :: q)) : b.cirBuffRead.1 = c := by
  have hcells := h.cells
  have hr := h.readPos
  rw [List.length_cons, window_succ_eq_cons, Nat.mod_eq_of_lt (by omega)] at hcells
  exact (List.cons.inj hcells).1.symm

theorem cirBuffWrite (h : b.Holds q) : (b.cirBuffWrite c).Holds (push cirBufferSize q c) := by
  have ⟨hle, hr, hw, hf, hcells⟩ := h
  unfold CirBuffer.cirBuffWrite push
  by_cases hlt : q.length < cirBufferSize
  . rw [if_pos hlt, if_neg (by rw [hf, if_neg (by omega)]; simp)]
    have hwrap : (if b.writePos + 1 ≥ cirBufferSize then 0 else b.writePos + 1)
        = ((b.readPos.toNat + (q.length + 1)) % cirBufferSize : Nat) := by
      unfold cirBufferSize at hw ⊢
      split <;> omega
    dsimp only
    rw [hwrap]
    constructor
    . simp
      omega
    . exact hr
    . simp
    . dsimp only
      rw [hf, if_neg (by omega : q.length ≠ cirBufferSize)]
      simp only [List.length_append, List.length_singleton]
      unfold cirBufferSize at *
      split <;> split <;> omega
    . dsimp only
      rw [List.length_append, List.length_singleton, window_succ, hw, Int.toNat_natCast,
        window_set hlt, if_pos rfl, ← hcells]
  . rw [if_neg hlt, if_pos (by rw [hf, if_pos (by omega)]; simp)]
    exact h

theorem cirBuffRead (h : b.Holds (c :: q)) (hfull : b.full = 0) (hpos : b.readPos < cirBufferSize - 1)
    : b.cirBuffRead.2.Holds q := by
  have ⟨hle, hr, hw, hf, hcells⟩ := h
  rw [List.length_cons] at hle hw hf hcells
  have hnext : (b.readPos + 1).toNat = b.readPos.toNat + 1 := by omega
  have hlen : q.length ≠ cirBufferSize := by omega
  unfold CirBuffer.cirBuffRead
  constructor
  . omega
  . dsimp only
    omega
  . dsimp only
    rw [hw, hnext, Nat.add_right_comm, Nat.add_assoc]
  . dsimp only
    simp [hfull, hlen]
  . dsimp only
    rw [hnext]
    rw [window_succ_eq_cons] at hcells
    exact (List.cons.inj hcells).2

end Holds

end CirBuffer

theorem CirBuffer.Holds.agrees {b : CirBuffer} {q : List Byte} (h : b.Holds q) : Agrees (b, q) where
  oldest := by
    intro c hc
    obtain ⟨q, rfl⟩ := List.head?_eq_some_iff.mp hc
    exact h.cirBuffRead_fst
  lenght := h.cirBuffLenght_eq
  full := h.cirBuffFull_ne_zero_iff
  readPos := h.readPos
  writePos := h.writePos_inside

theorem holds_of_buffStep {call : BuffCall} {x x' : CirBuffer × List Byte} (h : x.1.Holds x.2)
    (hok : ReadInside call x) (hstep : buffStep call x = some x') : x'.1.Holds x'.2 := by
  cases call with
  | write c =>
    cases hstep
    exact h.cirBuffWrite
  | read =>
    obtain ⟨b, q⟩ := x
    cases q with
    | nil => simp [buffStep] at hstep
    | cons c q =>
      obtain ⟨hfull, hpos⟩ := hok rfl (by simp)
      simp only [buffStep, reduceCtorEq, if_false, Option.some.injEq] at hstep
      subst hstep
      exact h.cirBuffRead hfull hpos

/--
Any other read leaves `readPos` outside, or `full` set with a character missing.
-/
theorem not_agrees_of_buffStep {call : BuffCall} {x : CirBuffer × List Byte} (h : x.1.Holds x.2)
    (hok : ¬ReadInside call x) : ∃ x', buffStep call x = some x' ∧ ¬Agrees x' := by
  obtain ⟨b, q⟩ := x
  simp only [ReadInside, Classical.not_imp] at hok
  obtain ⟨rfl, hne, hok⟩ := hok
  refine ⟨_, if_neg hne, ?_⟩
  intro hagrees
  have hin := hagrees.readPos
  have hfull := hagrees.full
  have hlen : 0 < q.length := List.length_pos_iff.mpr hne
  have hw := h.writePos
  have hf := h.full
  have hr := h.readPos
  simp only [CirBuffer.cirBuffRead, CirBuffer.cirBuffFull, List.length_tail] at hin hfull hok hw hf hr
  grind

/--
The buffer is a queue of `CIRBUFFER_SIZE` characters exactly along the sequences of calls in which every
read finds it not full and with `readPos` before the last cell.
-/
theorem always_agrees_iff_readInside (calls : List BuffCall)
    : Run.Always buffStep Agrees calls (.zero, []) ↔
        Run.Allowed buffStep ReadInside calls (.zero, []) := by
  refine Run.always_iff_allowed (I := fun x => x.1.Holds x.2) ?_ ?_ ?_ CirBuffer.zero_holds
  . intro x h
    exact h.agrees
  . intro call x x' h hok hstep
    exact holds_of_buffStep h hok hstep
  . intro call x h hok
    exact not_agrees_of_buffStep h hok

/--
A read from the full buffer leaves `full` set, with 15 characters left.
-/
theorem full_read_not_agrees
    : ¬Run.Always buffStep Agrees (List.replicate 16 (.write 1) ++ [.read]) (.zero, []) := by
  intro h
  have hlast := h.last rfl
  exact absurd hlast.full (by decide)

end Zeos
