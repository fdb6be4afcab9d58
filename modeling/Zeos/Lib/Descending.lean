import Mathlib.Data.BitVec
import Mathlib.Logic.Function.Basic

/-!
Stacks of 32-bit words in memory, which grow towards lower addresses, each inside a page of its own.
-/

namespace Descending

abbrev Word := BitVec 32

def wordAt (b : Word) (i : Nat) : Word :=
  b + BitVec.ofNat 32 (4 * i)

def page (a : Word) : Word :=
  a &&& 0xFFFFF000#32

def Aligned (b : Word) : Prop :=
  b.toNat % 4096 = 0

instance : DecidablePred Aligned :=
  fun b => inferInstanceAs (Decidable (b.toNat % 4096 = 0))

section Address

variable {b b' : Word} {i j n : Nat}

theorem Aligned.toNat_wordAt (h : Aligned b) (hi : i < 1024) : (wordAt b i).toNat = b.toNat + 4 * i := by
  have hlt := b.isLt
  unfold Aligned at h
  unfold wordAt
  rw [BitVec.toNat_add, BitVec.toNat_ofNat]
  omega

theorem wordAt_sub (b : Word) (n : Nat) : wordAt b (n + 1) - 4 = wordAt b n := by
  unfold wordAt
  rw [Nat.mul_add, BitVec.ofNat_add, ← BitVec.add_assoc]
  exact BitVec.add_sub_cancel _ _

theorem wordAt_add (b : Word) (n m : Nat) : wordAt b n + BitVec.ofNat 32 (4 * m) = wordAt b (n + m) := by
  unfold wordAt
  rw [Nat.mul_add, BitVec.ofNat_add, BitVec.add_assoc]

theorem toNat_page (a : Word) : (page a).toNat = a.toNat / 4096 * 4096 := by
  have hbits : ∀ i < 32, (0xFFFFF000#32).getLsbD i = decide (12 ≤ i) := by decide
  have hshift : page a = (a >>> 12) <<< 12 := by
    unfold page
    ext i hi
    rw [BitVec.getElem_and, BitVec.getElem_shiftLeft, ← BitVec.getLsbD_eq_getElem,
      ← BitVec.getLsbD_eq_getElem, hbits i hi]
    by_cases hle : 12 ≤ i
    . simp [hle, Nat.not_lt.mpr hle]
    . simp [hle, Nat.lt_of_not_le hle]
  have hlt := a.isLt
  rw [hshift, BitVec.toNat_shiftLeft, BitVec.toNat_ushiftRight, Nat.shiftRight_eq_div_pow,
    Nat.shiftLeft_eq]
  omega

theorem Aligned.page_wordAt (h : Aligned b) (hi : i < 1024) : page (wordAt b i) = b := by
  apply BitVec.eq_of_toNat_eq
  rw [toNat_page, h.toNat_wordAt hi]
  unfold Aligned at h
  omega

theorem wordAt_inj (hb : Aligned b) (hb' : Aligned b') (hi : i < 1024) (hj : j < 1024)
    : wordAt b i = wordAt b' j ↔ b = b' ∧ i = j := by
  constructor
  . intro heq
    have hbb : b = b' := by
      rw [← hb.page_wordAt hi, heq, hb'.page_wordAt hj]
    subst hbb
    have hnat := congrArg BitVec.toNat heq
    rw [hb.toNat_wordAt hi, hb.toNat_wordAt hj] at hnat
    exact ⟨rfl, by omega⟩
  . rintro ⟨rfl, rfl⟩
    rfl

end Address

structure Stack where
  esp : Word
  mem : Word → Word

namespace Stack

def push (v : Word) (s : Stack) : Stack where
  esp := s.esp - 4
  mem := Function.update s.mem (s.esp - 4) v

def pushes (vs : List Word) (s : Stack) : Stack :=
  vs.foldl (fun s v => s.push v) s

variable {s : Stack} {b b' v : Word} {i n : Nat} {vs : List Word}

theorem esp_push (h : s.esp = wordAt b (n + 1)) : (s.push v).esp = wordAt b n := by
  unfold push
  rw [h]
  exact wordAt_sub b n

theorem mem_push (hb : Aligned b) (hb' : Aligned b') (h : s.esp = wordAt b (n + 1)) (hn : n < 1024)
    (hi : i < 1024)
    : (s.push v).mem (wordAt b' i) = if b' = b ∧ i = n then v else s.mem (wordAt b' i) := by
  unfold push
  dsimp only
  rw [h, wordAt_sub, Function.update_apply]
  simp only [wordAt_inj hb' hb hi hn]

theorem pushes_cons : s.pushes (v :: vs) = (s.push v).pushes vs :=
  rfl

theorem esp_pushes (h : s.esp = wordAt b (n + vs.length)) : (s.pushes vs).esp = wordAt b n := by
  induction vs generalizing s with
  | nil => exact h
  | cons v vs ih => exact ih (esp_push h)

theorem mem_pushes_of_outside (hb : Aligned b) (hb' : Aligned b')
    (h : s.esp = wordAt b (n + vs.length)) (hn : n + vs.length ≤ 1024) (hi : i < 1024)
    (hout : b' = b → i < n ∨ n + vs.length ≤ i)
    : (s.pushes vs).mem (wordAt b' i) = s.mem (wordAt b' i) := by
  induction vs generalizing s with
  | nil => rfl
  | cons v vs ih =>
    rw [List.length_cons] at hn hout
    have h' : s.esp = wordAt b (n + vs.length + 1) := h
    rw [pushes_cons, ih (esp_push h') (by omega) (fun heq => by have := hout heq; omega),
      mem_push hb hb' h' (by omega) hi, if_neg]
    rintro ⟨rfl, rfl⟩
    have := hout rfl
    omega

theorem mem_pushes (hb : Aligned b) (h : s.esp = wordAt b (n + vs.length)) (hn : n + vs.length ≤ 1024)
    (hi : vs.reverse[i]? = some v) : (s.pushes vs).mem (wordAt b (n + i)) = v := by
  induction vs generalizing s with
  | nil => cases hi
  | cons w vs ih =>
    rw [List.length_cons] at hn
    rw [List.reverse_cons] at hi
    have h' : s.esp = wordAt b (n + vs.length + 1) := h
    rw [pushes_cons]
    by_cases hlt : i < vs.length
    . rw [List.getElem?_append_left (by rwa [List.length_reverse])] at hi
      exact ih (esp_push h') (by omega) hi
    . obtain ⟨hlen, hget⟩ := List.getElem?_eq_some_iff.mp hi
      simp only [List.length_append, List.length_reverse, List.length_singleton] at hlen
      have hi' : i = vs.length := by omega
      subst hi'
      rw [mem_pushes_of_outside hb hb (esp_push h') (by omega) (by omega) (fun _ => .inr le_rfl),
        mem_push hb hb h' (by omega) (by omega), if_pos ⟨rfl, rfl⟩, ← hget]
      simp

end Stack

end Descending
