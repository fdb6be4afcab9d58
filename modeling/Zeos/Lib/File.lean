import Mathlib.Data.List.Basic

/-!
Files as rows of bytes with a position: what is read, and what a write at any position leaves.
-/

namespace File

variable {α : Type}

/-- `bs` is written at `pos`. A gap behind the old end is filled with `hole`. -/
def writeAt (hole : α) (pos : Nat) (bs file : List α) : List α :=
  (file ++ List.replicate (pos - file.length) hole).take pos ++ bs ++ file.drop (pos + bs.length)

structure Output (α : Type) where
  bytes : List α
  pos : Nat

namespace Output

def empty : Output α :=
  ⟨[], 0⟩

def write (hole : α) (bs : List α) (f : Output α) : Output α :=
  ⟨writeAt hole f.pos bs f.bytes, f.pos + bs.length⟩

def seek (pos : Nat) (f : Output α) : Output α :=
  { f with pos := pos }

end Output

def slice (pos n : Nat) (file : List α) : List α :=
  (file.drop pos).take n

section WriteAt

variable {hole : α} {pos pos' n i : Nat} {bs file rest : List α}

theorem length_writeAt (h : pos + bs.length ≤ file.length)
    : (writeAt hole pos bs file).length = file.length := by
  unfold writeAt
  simp only [List.length_append, List.length_take, List.length_replicate, List.length_drop]
  omega

theorem writeAt_end : writeAt hole file.length bs file = file ++ bs := by
  unfold writeAt
  simp

theorem getElem?_writeAt (h : pos + bs.length ≤ file.length)
    : (writeAt hole pos bs file)[i]? = if pos ≤ i ∧ i < pos + bs.length then bs[i - pos]? else file[i]? := by
  have htake : (file ++ List.replicate (pos - file.length) hole).take pos = file.take pos :=
    List.take_append_of_le_length (by omega)
  have hlen : (file.take pos).length = pos := by
    rw [List.length_take]
    omega
  unfold writeAt
  rw [htake, List.append_assoc, List.getElem?_append, hlen]
  split
  next hlt => rw [if_neg (by omega), List.getElem?_take_of_lt hlt]
  next hge =>
    rw [List.getElem?_append]
    split
    next hin => rw [if_pos (by omega)]
    next hout =>
      rw [if_neg (by omega), List.getElem?_drop]
      congr 1
      omega

theorem getElem?_slice (h : i < n) : (slice pos n file)[i]? = file[pos + i]? := by
  unfold slice
  rw [List.getElem?_take_of_lt h, List.getElem?_drop]

theorem getElem?_slice_of_ge (h : n ≤ i) : (slice pos n file)[i]? = none := by
  unfold slice
  rw [List.getElem?_eq_none]
  rw [List.length_take]
  omega

theorem slice_eq (h : ∀ i < n, file[pos + i]? = rest[pos' + i]?) : slice pos n file = slice pos' n rest := by
  apply List.ext_getElem?
  intro i
  by_cases hi : i < n
  . rw [getElem?_slice hi, getElem?_slice hi, h i hi]
  . rw [getElem?_slice_of_ge (by omega), getElem?_slice_of_ge (by omega)]

theorem slice_eq_map {f : Nat → α} (h : ∀ i < n, file[pos + i]? = some (f i))
    : slice pos n file = (List.range n).map f := by
  apply List.ext_getElem?
  intro i
  by_cases hi : i < n
  . rw [getElem?_slice hi, h i hi, List.getElem?_map, List.getElem?_range hi, Option.map_some]
  . rw [getElem?_slice_of_ge (by omega), List.getElem?_eq_none]
    rw [List.length_map, List.length_range]
    omega

theorem slice_writeAt (h : pos + bs.length ≤ file.length)
    : slice pos bs.length (writeAt hole pos bs file) = bs := by
  apply List.ext_getElem?
  intro i
  by_cases hi : i < bs.length
  . rw [getElem?_slice hi, getElem?_writeAt h, if_pos (by omega), Nat.add_sub_cancel_left]
  . rw [getElem?_slice_of_ge (by omega), List.getElem?_eq_none (by omega)]

theorem slice_writeAt_of_disjoint (h : pos + bs.length ≤ file.length)
    (hdisjoint : pos' + n ≤ pos ∨ pos + bs.length ≤ pos')
    : slice pos' n (writeAt hole pos bs file) = slice pos' n file := by
  apply slice_eq
  intro i hi
  rw [getElem?_writeAt h, if_neg (by omega)]

end WriteAt

end File
