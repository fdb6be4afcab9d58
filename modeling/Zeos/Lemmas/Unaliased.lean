import Zeos.Impl.System
import Zeos.Lemmas.Bytes

/-!
Translated memory in which no byte has two addresses is lawful, and the copies do there what they do in any
lawful memory.
-/

namespace Zeos

structure Unaliased (m₀ : Space) extends Space where
  pt_eq : toSpace.pt = m₀.pt
  table_eq : toSpace.mm.pagusrTable = m₀.mm.pagusrTable
  inj : ∀ a b, (toSpace.translate a).isSome → toSpace.translate a = toSpace.translate b → a = b

namespace Unaliased

variable {m₀ : Space}

def setByte (l : Nat × Nat) (v : Byte) (m : Unaliased m₀) : Unaliased m₀ where
  toSpace := { m.toSpace with mm := m.mm.setByte l.1 l.2 v }
  pt_eq := m.pt_eq
  table_eq := m.table_eq
  inj := m.inj

instance : ByteMem (Unaliased m₀) where
  load m a := ByteMem.load m.toSpace a
  store m a v := (m.translate a).map fun l => m.setByte l v

theorem load_eq (m : Unaliased m₀) (a : Addr) : ByteMem.load m a =
    (m.mm.entryOf m.pt a).map fun e => m.mm.frames e.pbaseAddr (a.toNat % pageSize) :=
  rfl

theorem load_toSpace (m : Unaliased m₀) (a : Addr) : ByteMem.load m.toSpace a = ByteMem.load m a :=
  rfl

theorem store_eq (m : Unaliased m₀) (a : Addr) (v : Byte)
    : ByteMem.store m a v = (m.translate a).map fun l => m.setByte l v :=
  rfl

theorem store_toSpace (m : Unaliased m₀) (a : Addr) (v : Byte)
    : ByteMem.store m.toSpace a v = (ByteMem.store m a v).map toSpace := by
  rw [Space.store_eq, store_eq, Option.map_map]
  rfl

theorem entryOf_eq (m : Unaliased m₀) (a : Addr) : m.mm.entryOf m.pt a = m₀.mm.entryOf m₀.pt a := by
  unfold Mm.entryOf
  rw [m.pt_eq, m.table_eq]

end Unaliased

instance {m₀ : Space} : LawfulByteMem (Unaliased m₀) where
  load_of_store {m m' a v} h b := by
    have hstore : ByteMem.store m.toSpace a v = some m'.toSpace := by
      rw [Unaliased.store_toSpace, h, Option.map_some]
    obtain ⟨l, hl, -⟩ := Option.map_eq_some_iff.mp h
    have hload := Space.load_of_store hstore (a := b)
    by_cases hba : b = a
    . rw [hba, if_pos rfl]
      rw [hba, if_pos rfl] at hload
      exact hload
    . have hne : m.translate b ≠ m.translate a := by
        intro heq
        exact hba (m.inj b a (by rw [heq, hl]; rfl) heq)
      rw [if_neg hne] at hload
      rw [if_neg hba]
      exact hload
  isSome_store {m a} h v := by
    have hsome : (m.translate a).isSome := by
      rw [← Space.isSome_load]
      exact h
    rw [Unaliased.store_eq, Option.isSome_map]
    exact hsome

section Map

variable {σ τ : Type} [ByteMem σ] [ByteMem τ] (g : σ → τ)

structure MemMap : Prop where
  load : ∀ m a, ByteMem.load (g m) a = ByteMem.load m a
  store : ∀ m a v, ByteMem.store (g m) a v = (ByteMem.store m a v).map g

theorem memMap_toSpace (m₀ : Space) : MemMap (@Unaliased.toSpace m₀) :=
  ⟨Unaliased.load_toSpace, Unaliased.store_toSpace⟩

namespace MemMap

variable {g}

theorem copyByte (h : MemMap g) (p q : Addr) (m : σ) : copyByte p q (g m) = (copyByte p q m).map g := by
  unfold Zeos.copyByte
  rw [h.load]
  cases ByteMem.load m p with
  | none => rfl
  | some b => exact h.store m q b

theorem copyDWord (h : MemMap g) (p q : Addr) (m : σ) : copyDWord p q (g m) = (copyDWord p q m).map g := by
  unfold Zeos.copyDWord
  simp only [h.load, Option.bind_eq_bind, h.store, Option.bind_map, Option.map_bind, Function.comp_def]

theorem copyDWords (h : MemMap g) (fuel : Nat) (p q : Addr) (size : Int) (m : σ)
    : copyDWords fuel p q size (g m) = (copyDWords fuel p q size m).map fun x => (x.1, x.2.1, x.2.2.1, g x.2.2.2) := by
  induction fuel generalizing p q size m with
  | zero => rfl
  | succ fuel ih =>
    unfold Zeos.copyDWords
    split
    next =>
      rw [h.copyDWord, Option.bind_map, Option.map_bind]
      exact congrArg _ (funext fun m => ih _ _ _ m)
    next => rfl

theorem copyBytes (h : MemMap g) (fuel : Nat) (p q : Addr) (size : Int) (m : σ)
    : copyBytes fuel p q size (g m) = (copyBytes fuel p q size m).map g := by
  induction fuel generalizing p q size m with
  | zero => rfl
  | succ fuel ih =>
    unfold Zeos.copyBytes
    split
    next =>
      rw [h.copyByte, Option.bind_map, Option.map_bind]
      exact congrArg _ (funext fun m => ih _ _ _ m)
    next => rfl

theorem copyData (h : MemMap g) (start dest : Addr) (size : Int) (m : σ)
    : copyData start dest size (g m) = (copyData start dest size m).map g := by
  unfold Zeos.copyData
  rw [h.copyDWords, Option.bind_map, Option.map_bind]
  exact congrArg _ (funext fun x => h.copyBytes _ _ _ _ _)

theorem loadDWord (h : MemMap g) (p : Addr) (m : σ) : loadDWord p (g m) = loadDWord p m := by
  unfold Zeos.loadDWord
  simp only [h.load]

theorem storeDWord (h : MemMap g) (q : Addr) (v : BitVec 32) (m : σ)
    : storeDWord q v (g m) = (storeDWord q v m).map g := by
  unfold Zeos.storeDWord
  simp only [Option.bind_eq_bind, h.store, Option.bind_map, Option.map_bind, Function.comp_def]

theorem moveUser (h : MemMap g) (m : σ) : moveUser (g m) = (moveUser m).map g := by
  unfold Zeos.moveUser
  simp only [Option.bind_eq_bind, h.loadDWord, h.copyData, Option.map_bind, Function.comp_def]

theorem goToUser (h : MemMap g) (m : σ) : goToUser (g m) = (goToUser m).map fun x => (x.1, g x.2) := by
  unfold Zeos.goToUser Zeos.returnGate
  rw [h.moveUser, Option.bind_map, Option.map_bind]
  apply congrArg
  funext m
  simp only [Function.comp_apply, Option.bind_eq_bind, h.loadDWord, h.storeDWord, Option.bind_map,
    Option.map_bind, Option.map_some]

end MemMap

end Map

end Zeos
