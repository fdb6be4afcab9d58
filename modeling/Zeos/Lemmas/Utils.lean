import Mathlib.Data.Option.Basic
import Zeos.Impl.Utils

/-!
Translated memory: what a load finds after a store, and what the byte loop of `copy_data` does.
-/

namespace Zeos

namespace Space

def translate (m : Space) (a : Addr) : Option (Nat × Nat) :=
  (m.mm.entryOf m.pt a).map fun e => (e.pbaseAddr, a.toNat % pageSize)

theorem load_eq (m : Space) (a : Addr)
    : ByteMem.load m a = (m.translate a).map fun l => m.mm.frames l.1 l.2 := by
  simp [ByteMem.load, Mm.load, translate, Function.comp_def]

theorem store_eq (m : Space) (a : Addr) (v : Byte)
    : ByteMem.store m a v
        =
      (m.translate a).map fun l => { m with mm := m.mm.setByte l.1 l.2 v } := by
  simp [ByteMem.store, Mm.store, translate, Function.comp_def]

variable {m m' : Space} {p q a : Addr} {v : Byte}

theorem isSome_load : (ByteMem.load m a).isSome = (m.translate a).isSome := by
  rw [load_eq, Option.isSome_map]

theorem page_lt_of_translate (h : (m.translate a).isSome) : a.toNat < totalPages * pageSize := by
  unfold translate Mm.entryOf at h
  by_contra hge
  rw [if_neg (by unfold totalPages pageSize at *; omega)] at h
  simp at h

theorem translate_of_store (h : ByteMem.store m q v = some m') : m'.translate = m.translate := by
  rw [store_eq] at h
  obtain ⟨l, -, rfl⟩ := Option.map_eq_some_iff.mp h
  rfl

theorem pt_of_store (h : ByteMem.store m q v = some m')
    : m'.pt = m.pt ∧ m'.mm.pagusrTable = m.mm.pagusrTable := by
  rw [store_eq] at h
  obtain ⟨l, -, rfl⟩ := Option.map_eq_some_iff.mp h
  exact ⟨rfl, rfl⟩

theorem load_of_store (h : ByteMem.store m q v = some m')
    : ByteMem.load m' a = if m.translate a = m.translate q then some v else ByteMem.load m a := by
  have htr := translate_of_store h
  rw [store_eq] at h
  obtain ⟨l, hl, rfl⟩ := Option.map_eq_some_iff.mp h
  rw [load_eq, load_eq, htr, hl]
  cases ha : m.translate a with
  | none => simp
  | some k =>
    by_cases hkl : k = l
    . subst hkl
      simp [Mm.setByte]
    . have : ¬(k.1 = l.1 ∧ k.2 = l.2) := by
        rwa [← Prod.ext_iff]
      simp [Mm.setByte, hkl, this]

theorem copyByte_eq_some_iff
    : copyByte p q m = some m' ↔
        ∃ v, ByteMem.load m p = some v ∧ ByteMem.store m q v = some m' := by
  simp [copyByte, Option.bind_eq_some_iff]

end Space

section CopyData

theorem copyData_of_le_four {σ : Type} [ByteMem σ] {size : Int} (h : size ≤ 4) (start dest : Addr)
    (m : σ) : copyData start dest size m = copyBytes size.toNat start dest size m := by
  have hdwords : copyDWords size.toNat start dest size m = some (start, dest, size, m) := by
    unfold copyDWords
    split
    . rfl
    . rw [if_neg (by omega)]
  unfold copyData
  rw [hdwords]
  rfl

section Invariant

variable {σ : Type} [ByteMem σ] {P : σ → Prop}

theorem copyDWord_invariant (hP : ∀ m m' q v, ByteMem.store m q v = some m' → P m → P m')
    {p q : Addr} {m m' : σ} (h : copyDWord p q m = some m') (hm : P m) : P m' := by
  obtain ⟨b0, -, h⟩ := Option.bind_eq_some_iff.mp h
  obtain ⟨b1, -, h⟩ := Option.bind_eq_some_iff.mp h
  obtain ⟨b2, -, h⟩ := Option.bind_eq_some_iff.mp h
  obtain ⟨b3, -, h⟩ := Option.bind_eq_some_iff.mp h
  obtain ⟨m₁, h₁, h⟩ := Option.bind_eq_some_iff.mp h
  obtain ⟨m₂, h₂, h⟩ := Option.bind_eq_some_iff.mp h
  obtain ⟨m₃, h₃, h⟩ := Option.bind_eq_some_iff.mp h
  have hm₁ := hP _ _ _ _ h₁ hm
  have hm₂ := hP _ _ _ _ h₂ hm₁
  have hm₃ := hP _ _ _ _ h₃ hm₂
  exact hP _ _ _ _ h hm₃

theorem copyDWords_invariant (hP : ∀ m m' q v, ByteMem.store m q v = some m' → P m → P m')
    {n : Nat} {size : Int} {p q : Addr} {m : σ} {x : Addr × Addr × Int × σ}
    (h : copyDWords n p q size m = some x) (hm : P m) : P x.2.2.2 := by
  induction n generalizing p q size m with
  | zero =>
    cases h
    exact hm
  | succ n ih =>
    unfold copyDWords at h
    split at h
    next hsize =>
      obtain ⟨m₁, h₁, h⟩ := Option.bind_eq_some_iff.mp h
      exact ih h (copyDWord_invariant hP h₁ hm)
    next hsize =>
      cases h
      exact hm

theorem copyBytes_invariant (hP : ∀ m m' q v, ByteMem.store m q v = some m' → P m → P m')
    {n : Nat} {size : Int} {p q : Addr} {m m' : σ} (h : copyBytes n p q size m = some m') (hm : P m)
    : P m' := by
  induction n generalizing p q size m with
  | zero =>
    cases h
    exact hm
  | succ n ih =>
    unfold copyBytes at h
    split at h
    next hsize =>
      obtain ⟨m₁, h₁, h⟩ := Option.bind_eq_some_iff.mp h
      obtain ⟨v, -, hstore⟩ := Option.bind_eq_some_iff.mp h₁
      exact ih h (hP _ _ _ _ hstore hm)
    next hsize =>
      cases h
      exact hm

theorem copyData_invariant (hP : ∀ m m' q v, ByteMem.store m q v = some m' → P m → P m')
    {size : Int} {start dest : Addr} {m m' : σ} (h : copyData start dest size m = some m') (hm : P m)
    : P m' := by
  obtain ⟨x, hx, h⟩ := Option.bind_eq_some_iff.mp h
  exact copyBytes_invariant hP h (copyDWords_invariant hP hx hm)

end Invariant

theorem add_ofNat_zero (a : Addr) : a + BitVec.ofNat 32 0 = a := by
  simp

theorem ofNat_succ (a : Addr) (i : Nat)
    : a + BitVec.ofNat 32 (i + 1) = a + 1 + BitVec.ofNat 32 i := by
  bv_omega

theorem add_ofNat_add (a : Addr) (k i : Nat)
    : a + BitVec.ofNat 32 (k + i) = a + BitVec.ofNat 32 k + BitVec.ofNat 32 i := by
  rw [BitVec.ofNat_add, BitVec.add_assoc]

theorem add_ofNat_inj {a : Addr} {i j : Nat} (hi : i < 2 ^ 32) (hj : j < 2 ^ 32)
    : a + BitVec.ofNat 32 i = a + BitVec.ofNat 32 j ↔ i = j := by
  constructor
  . intro h
    bv_omega
  . rintro rfl
    rfl

theorem copyBytes_translate {n : Nat} {size : Int} {p q : Addr} {m m' : Space}
    (h : copyBytes n p q size m = some m')
    : m'.translate = m.translate ∧ ∀ i : Nat, i < n → i < size →
        (m.translate (p + BitVec.ofNat 32 i)).isSome ∧
          (m.translate (q + BitVec.ofNat 32 i)).isSome := by
  induction n generalizing p q size m with
  | zero =>
    cases h
    exact ⟨rfl, by omega⟩
  | succ n ih =>
    unfold copyBytes at h
    split at h
    next hsize =>
      obtain ⟨m₁, h₁, h⟩ := Option.bind_eq_some_iff.mp h
      obtain ⟨v, hload, hstore⟩ := Space.copyByte_eq_some_iff.mp h₁
      obtain ⟨htr, hmapped⟩ := ih h
      rw [Space.translate_of_store hstore] at htr hmapped
      refine ⟨htr, ?_⟩
      intro i hi hsize
      cases i with
      | zero =>
        rw [add_ofNat_zero, add_ofNat_zero]
        constructor
        . rw [← Space.isSome_load, hload]
          rfl
        . rw [Space.store_eq] at hstore
          obtain ⟨l, hl, -⟩ := Option.map_eq_some_iff.mp hstore
          rw [hl]
          rfl
      | succ i =>
        rw [ofNat_succ, ofNat_succ]
        exact hmapped i (by omega) (by omega)
    next hsize =>
      cases h
      exact ⟨rfl, by omega⟩

theorem copyBytes_isSome {n : Nat} (size : Int) {p q : Addr} {m : Space}
    (h : ∀ i < n, (m.translate (p + BitVec.ofNat 32 i)).isSome ∧
      (m.translate (q + BitVec.ofNat 32 i)).isSome)
    : (copyBytes n p q size m).isSome := by
  induction n generalizing p q size m with
  | zero => rfl
  | succ n ih =>
    unfold copyBytes
    split
    next hsize =>
      have hfirst := h 0 (by omega)
      rw [add_ofNat_zero, add_ofNat_zero] at hfirst
      obtain ⟨k, hk⟩ := Option.isSome_iff_exists.mp hfirst.1
      obtain ⟨l, hl⟩ := Option.isSome_iff_exists.mp hfirst.2
      have hload : ByteMem.load m p = some (m.mm.frames k.1 k.2) := by
        rw [Space.load_eq, hk]
        rfl
      obtain ⟨m₁, hstore⟩ : ∃ m₁, ByteMem.store m q (m.mm.frames k.1 k.2) = some m₁ := by
        rw [Space.store_eq, hl]
        exact ⟨_, rfl⟩
      rw [Space.copyByte_eq_some_iff.mpr ⟨_, hload, hstore⟩, Option.bind_some]
      refine ih (size - 1) ?_
      intro i hi
      rw [Space.translate_of_store hstore, ← ofNat_succ, ← ofNat_succ]
      exact h (i + 1) (by omega)
    next hsize => rfl

theorem copyBytes_frame {n : Nat} {size : Int} {p q : Addr} {m m' : Space} {a : Addr}
    (h : copyBytes n p q size m = some m')
    (ha : ∀ i < n, m.translate a ≠ m.translate (q + BitVec.ofNat 32 i))
    : ByteMem.load m' a = ByteMem.load m a := by
  induction n generalizing p q size m with
  | zero =>
    cases h
    rfl
  | succ n ih =>
    unfold copyBytes at h
    split at h
    next hsize =>
      obtain ⟨m₁, h₁, h⟩ := Option.bind_eq_some_iff.mp h
      obtain ⟨v, -, hstore⟩ := Space.copyByte_eq_some_iff.mp h₁
      have htr := Space.translate_of_store hstore
      rw [ih h ?_, Space.load_of_store hstore, if_neg]
      . simpa using ha 0 (by omega)
      . intro i hi
        rw [htr, ← ofNat_succ]
        exact ha (i + 1) (by omega)
    next hsize =>
      cases h
      rfl

theorem copyBytes_load_first {n : Nat} {p q : Addr} {m m' : Space}
    (h : copyBytes (n + 1) p q (n + 1 : Nat) m = some m')
    (hq : ∀ i < n, m.translate (q + BitVec.ofNat 32 (i + 1)) ≠ m.translate q)
    : ByteMem.load m' q = ByteMem.load m p := by
  unfold copyBytes at h
  rw [if_pos (by omega)] at h
  obtain ⟨m₁, h₁, h⟩ := Option.bind_eq_some_iff.mp h
  obtain ⟨v, hload, hstore⟩ := Space.copyByte_eq_some_iff.mp h₁
  rw [copyBytes_frame h, Space.load_of_store hstore, if_pos rfl, hload]
  intro i hi
  rw [Space.translate_of_store hstore, ← ofNat_succ]
  exact (hq i hi).symm

/--
A copy between two ranges that have no byte of memory in common, into distinct bytes.
-/
theorem copyBytes_load {n : Nat} {p q : Addr} {m m' : Space}
    (h : copyBytes n p q n m = some m')
    (hpq : ∀ i < n, ∀ j < n,
      m.translate (p + BitVec.ofNat 32 i) ≠ m.translate (q + BitVec.ofNat 32 j))
    (hqq : ∀ i < n, ∀ j < n, m.translate (q + BitVec.ofNat 32 i) = m.translate (q + BitVec.ofNat 32 j) →
      i = j) {i : Nat} (hi : i < n)
    : ByteMem.load m' (q + BitVec.ofNat 32 i) = ByteMem.load m (p + BitVec.ofNat 32 i) := by
  induction n generalizing p q m i with
  | zero => omega
  | succ n ih =>
    unfold copyBytes at h
    rw [if_pos (by omega)] at h
    obtain ⟨m₁, h₁, h⟩ := Option.bind_eq_some_iff.mp h
    obtain ⟨v, hload, hstore⟩ := Space.copyByte_eq_some_iff.mp h₁
    have htr := Space.translate_of_store hstore
    rw [show ((n + 1 : Nat) : Int) - 1 = n by omega] at h
    cases i with
    | zero =>
      rw [copyBytes_frame h, add_ofNat_zero, add_ofNat_zero, Space.load_of_store hstore, if_pos rfl,
        hload]
      intro j hj heq
      rw [htr, ← ofNat_succ] at heq
      have := hqq 0 (by omega) (j + 1) (by omega) heq
      omega
    | succ i =>
      rw [ofNat_succ, ih h ?_ ?_ (by omega), ← ofNat_succ, Space.load_of_store hstore, if_neg]
      . simpa using hpq (i + 1) hi 0 (by omega)
      . intro i hi j hj
        rw [htr, ← ofNat_succ, ← ofNat_succ]
        exact hpq (i + 1) (by omega) (j + 1) (by omega)
      . intro i hi j hj heq
        rw [htr, ← ofNat_succ, ← ofNat_succ] at heq
        have := hqq (i + 1) (by omega) (j + 1) (by omega) heq
        omega

end CopyData

end Zeos
