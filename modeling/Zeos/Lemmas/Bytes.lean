import Zeos.Spec.Copy
import Zeos.Lemmas.Utils

/-!
Memories whose bytes are independent of each other: flat memory, and a lawful memory behind a fence.
-/

namespace Zeos

instance : LawfulByteMem FlatMem where
  load_of_store {m m' a v} h b := by
    simp only [ByteMem.store, Option.some.injEq] at h
    subst h
    simp only [ByteMem.load]
    split
    . rfl
    . rfl
  isSome_store h v := rfl

theorem backed_flat {base : Addr} {n : Nat} (m : FlatMem) : Backed base n m := by
  intro i hi
  rfl

section Backed

variable {σ : Type} [ByteMem σ] [LawfulByteMem σ] {b : Addr} {m m' : σ} {n i : Nat} {v : Byte}

theorem Backed.store {a : Addr} (h : Backed b n m) (hstore : ByteMem.store m a v = some m')
    : Backed b n m' := by
  intro i hi
  rw [LawfulByteMem.load_of_store hstore]
  split
  . rfl
  . exact h i hi

theorem Backed.exists_store (h : Backed b n m) (hi : i < n) (v : Byte)
    : ∃ m', ByteMem.store m (b + BitVec.ofNat 32 i) v = some m' ∧ Backed b n m' := by
  obtain ⟨m', hstore⟩ := Option.isSome_iff_exists.mp (LawfulByteMem.isSome_store (h i hi) v)
  exact ⟨m', hstore, h.store hstore⟩

end Backed

section Fenced

variable {σ : Type} [ByteMem σ] {R W : Addr → Prop} [DecidablePred R] [DecidablePred W]

theorem load_fenced {m : σ} {a : Addr} (ha : R a)
    : ByteMem.load (⟨m⟩ : Fenced σ R W) a = ByteMem.load m a := by
  exact if_pos ha

theorem store_fenced {m : σ} {a : Addr} {v : Byte} (ha : W a)
    : ByteMem.store (⟨m⟩ : Fenced σ R W) a v = (ByteMem.store m a v).map fun m => ⟨m⟩ := by
  exact if_pos ha

theorem load_of_fenced {x : Fenced σ R W} {a : Addr} {v : Byte} (h : ByteMem.load x a = some v)
    : R a ∧ ByteMem.load x.mem a = some v := by
  exact Option.ite_none_right_eq_some.mp h

theorem store_of_fenced {x y : Fenced σ R W} {a : Addr} {v : Byte} (h : ByteMem.store x a v = some y)
    : W a ∧ ByteMem.store x.mem a v = some y.mem := by
  obtain ⟨ha, h⟩ := Option.ite_none_right_eq_some.mp h
  obtain ⟨m, hm, rfl⟩ := Option.map_eq_some_iff.mp h
  exact ⟨ha, hm⟩

instance [LawfulByteMem σ] : LawfulByteMem (Fenced σ R R) where
  load_of_store {x y a v} h c := by
    obtain ⟨ha, hmem⟩ := store_of_fenced h
    have hload := LawfulByteMem.load_of_store hmem c
    by_cases hca : c = a
    . subst hca
      rw [if_pos rfl] at hload ⊢
      exact (if_pos ha).trans hload
    . rw [if_neg hca] at hload ⊢
      exact congrArg (fun l => if R c then l else none) hload
  isSome_store {x a} h v := by
    obtain ⟨w, hw⟩ := Option.isSome_iff_exists.mp h
    obtain ⟨ha, hload⟩ := load_of_fenced hw
    rw [store_fenced ha, Option.isSome_map]
    apply LawfulByteMem.isSome_store
    rw [hload]
    rfl

theorem backed_fenced (b : Addr) (m : FlatMem) (n : Nat)
    : Backed b n (⟨m⟩ : Fenced FlatMem (InRange b n) (InRange b n)) := by
  intro i hi
  rw [load_fenced (inRange_add b hi)]
  rfl

end Fenced

end Zeos
