import Mathlib.Data.List.Chain
import Mathlib.Data.List.Nodup

/-!
Heaps of doubly linked nodes, and the circular lists that are laid out in them.

A node may be a list head or a member, the heap does not tell them apart. A missing pointer is
`none`. The only edits are single pointer writes, so what an edit does to a list is always read off
from the four fields it touches.
-/

structure Links (α : Type) where
  next : α → Option α
  prev : α → Option α

namespace Links

variable {α : Type}

section Writes

variable [DecidableEq α]

def setNext (x : α) (p : Option α) (h : Links α) : Links α :=
  { h with next := fun z => if z = x then p else h.next z }

def setPrev (x : α) (p : Option α) (h : Links α) : Links α :=
  { h with prev := fun z => if z = x then p else h.prev z }

@[simp]
theorem next_setNext (x z : α) (p : Option α) (h : Links α)
    : (h.setNext x p).next z = if z = x then p else h.next z := by
  rfl

@[simp]
theorem prev_setNext (x z : α) (p : Option α) (h : Links α)
    : (h.setNext x p).prev z = h.prev z := by
  rfl

@[simp]
theorem next_setPrev (x z : α) (p : Option α) (h : Links α)
    : (h.setPrev x p).next z = h.next z := by
  rfl

@[simp]
theorem prev_setPrev (x z : α) (p : Option α) (h : Links α)
    : (h.setPrev x p).prev z = if z = x then p else h.prev z := by
  rfl

end Writes

def Linked (h : Links α) (x y : α) : Prop :=
  h.next x = some y ∧ h.prev y = some x

instance decidableLinked [DecidableEq α] (h : Links α) (x y : α) : Decidable (h.Linked x y) :=
  inferInstanceAs (Decidable (h.next x = some y ∧ h.prev y = some x))

theorem isChain_of_forall {R S : α → α → Prop} {l : List α}
    (H : ∀ a ∈ l.dropLast, ∀ b ∈ l.tail, R a b → S a b) (h : l.IsChain R) : l.IsChain S := by
  induction h with
  | nil => exact .nil
  | singleton => exact .singleton _
  | @cons_cons a b l hr _ ih =>
    refine .cons_cons (H a (by simp) b (by simp) hr) (ih ?_)
    intro x hx y hy hxy
    exact H x (by simp [hx]) y (by simp at hy ⊢; exact .inr hy) hxy

/--
The members `xs` hang on the head `hd` in this order, and the last one leads back to `hd`.
-/
def Ring (h : Links α) (hd : α) (xs : List α) : Prop :=
  (hd :: xs ++ [hd]).IsChain h.Linked ∧ (hd :: xs).Nodup

instance decidableRing [DecidableEq α] (h : Links α) (hd : α) (xs : List α)
    : Decidable (h.Ring hd xs) :=
  inferInstanceAs (Decidable ((hd :: xs ++ [hd]).IsChain h.Linked ∧ (hd :: xs).Nodup))

namespace Ring

variable {h h' : Links α} {hd n p x : α} {xs ys : List α}

theorem nodup (hr : h.Ring hd xs) : xs.Nodup :=
  (List.nodup_cons.mp hr.2).2

theorem head_not_mem (hr : h.Ring hd xs) : hd ∉ xs :=
  (List.nodup_cons.mp hr.2).1

theorem nil_iff : h.Ring hd [] ↔ h.next hd = some hd ∧ h.prev hd = some hd := by
  simp [Ring, Linked]

theorem next_head (hr : h.Ring hd xs) : h.next hd = some (xs.head?.getD hd) := by
  cases xs with
  | nil => exact (nil_iff.mp hr).1
  | cons x xs =>
    have := hr.1
    simp only [List.cons_append, List.isChain_cons_cons] at this
    exact this.1.1

theorem prev_head (hr : h.Ring hd xs) : h.prev hd = some (xs.getLast?.getD hd) := by
  rcases List.eq_nil_or_concat xs with rfl | ⟨ys, y, rfl⟩
  . exact (nil_iff.mp hr).2
  . have := hr.1
    simp only [← List.cons_append, List.append_assoc, List.isChain_append, List.singleton_append,
      List.isChain_cons_cons, List.concat_eq_append] at this
    simpa using this.2.1.1.2

theorem next_head_eq_self_iff (hr : h.Ring hd xs) : h.next hd = some hd ↔ xs = [] := by
  rw [hr.next_head]
  cases xs with
  | nil => simp
  | cons x xs =>
    have : hd ≠ x := by
      have := hr.head_not_mem
      simp only [List.mem_cons, not_or] at this
      exact this.1
    simp [Ne.symm this]

theorem congr (hr : h.Ring hd xs) (hnext : ∀ z ∈ hd :: xs, h'.next z = h.next z)
    (hprev : ∀ z ∈ hd :: xs, h'.prev z = h.prev z) : h'.Ring hd xs := by
  refine ⟨?_, hr.2⟩
  have hmem : ∀ z ∈ hd :: xs ++ [hd], z ∈ hd :: xs := by
    intro z hz
    simp only [List.cons_append, List.mem_cons, List.mem_append, List.mem_nil_iff, or_false] at hz
    simp only [List.mem_cons]
    tauto
  refine List.IsChain.imp_of_mem_imp ?_ hr.1
  intro x y hx hy hxy
  exact ⟨by rw [hnext x (hmem x hx)]; exact hxy.1, by rw [hprev y (hmem y hy)]; exact hxy.2⟩

theorem next_mem (hr : h.Ring hd (xs ++ n :: ys)) : h.next n = (ys ++ [hd]).head? := by
  obtain ⟨x, vs, hvs⟩ := List.exists_cons_of_ne_nil (l := ys ++ [hd]) (by simp)
  have hchain := hr.1
  rw [show hd :: (xs ++ n :: ys) ++ [hd] = (hd :: xs) ++ n :: (ys ++ [hd]) by simp, hvs,
    List.isChain_append_cons_cons] at hchain
  rw [hvs]
  exact hchain.2.1.1

theorem prev_mem (hr : h.Ring hd (xs ++ n :: ys)) : h.prev n = (hd :: xs).getLast? := by
  obtain ⟨us, p, hus⟩ := (List.eq_nil_or_concat (hd :: xs)).resolve_left (by simp)
  have hchain := hr.1
  rw [← List.cons_append, hus, List.concat_eq_append, List.append_assoc, List.append_assoc] at hchain
  simp only [List.cons_append, List.nil_append, List.isChain_append_cons_cons] at hchain
  rw [hus, hchain.2.1.2]
  simp

theorem next_ne_self (hr : h.Ring hd xs) (hn : n ∈ xs) : h.next n ≠ some n := by
  obtain ⟨us, vs, rfl⟩ := List.append_of_mem hn
  have := hr.2
  rw [hr.next_mem]
  cases vs <;> grind

theorem prev_ne_self (hr : h.Ring hd xs) (hn : n ∈ xs) : h.prev n ≠ some n := by
  obtain ⟨us, vs, rfl⟩ := List.append_of_mem hn
  have hnodup := hr.2
  rw [hr.prev_mem]
  intro heq
  have := List.mem_of_getLast? heq
  grind

section Edits

variable [DecidableEq α]

theorem insert (hr : h.Ring hd (xs ++ ys)) (hn : n ∉ hd :: (xs ++ ys))
    (hp : (hd :: xs).getLast? = some p) (hx : (ys ++ [hd]).head? = some x)
    : ((((h.setPrev x n).setNext n x).setPrev n p).setNext p n).Ring hd (xs ++ n :: ys) := by
  obtain ⟨us, hus⟩ := List.getLast?_eq_some_iff.mp hp
  obtain ⟨vs, hvs⟩ := List.head?_eq_some_iff.mp hx
  have hnodup := hr.2
  have hxs : xs = (us ++ [p]).tail := by rw [← hus]; rfl
  have hys : ys = (x :: vs).dropLast := by rw [← hvs]; simp
  have hchain : (us ++ p :: x :: vs).IsChain h.Linked := by
    have := hr.1
    rw [← List.cons_append, List.append_assoc, hvs, hus] at this
    simpa using this
  rw [List.isChain_append_cons_cons] at hchain
  obtain ⟨hleft, hseam, hright⟩ := hchain
  have hpmem : p ∈ hd :: xs := by rw [hus]; simp
  have hnp : n ≠ p := by grind
  have hxn : x ≠ n := by
    have : x ∈ ys ++ [hd] := by rw [hvs]; simp
    grind
  constructor
  . have : hd :: (xs ++ n :: ys) ++ [hd] = us ++ p :: n :: x :: vs := by
      rw [← hvs, ← List.cons_append, hus]
      simp
    rw [this, List.isChain_append_cons_cons, List.isChain_cons_cons]
    refine ⟨?_, ?_, ?_, ?_⟩
    . refine isChain_of_forall ?_ hleft
      intro a ha b hb hab
      have hall : (us ++ [p]).Nodup := by
        rw [← hus]
        exact hnodup.sublist (by simp)
      have ha : a ∈ us := by simpa using ha
      have hb : b ∈ xs := by rw [hxs]; exact hb
      have hap : a ≠ p := by grind
      have hbx : b ≠ x := by
        have : x ∈ ys ++ [hd] := by rw [hvs]; simp
        grind
      have han : a ≠ n := by
        have : a ∈ hd :: xs := by rw [hus]; simp [ha]
        grind
      have hbn : b ≠ n := by grind
      simpa [Linked, hap, hbx, han, hbn] using hab
    . simp [Linked]
    . simp [Linked, hnp, hxn]
    . refine isChain_of_forall ?_ hright
      intro a ha b hb hab
      have ha : a ∈ ys := by rw [hys]; exact ha
      have hb : b ∈ vs := hb
      have hap : a ≠ p := by grind
      have han : a ≠ n := by grind
      have hbx : b ≠ x := by
        cases ys with
        | nil => simp_all
        | cons y ys => grind
      have hbn : b ≠ n := by
        have : b ∈ ys ++ [hd] := by rw [hvs]; simp [hb]
        grind
      simpa [Linked, hap, hbx, han, hbn] using hab
  . grind

theorem erase (hr : h.Ring hd (xs ++ n :: ys)) (hp : (hd :: xs).getLast? = some p)
    (hx : (ys ++ [hd]).head? = some x)
    : ((h.setPrev x p).setNext p x).Ring hd (xs ++ ys) := by
  obtain ⟨us, hus⟩ := List.getLast?_eq_some_iff.mp hp
  obtain ⟨vs, hvs⟩ := List.head?_eq_some_iff.mp hx
  have hnodup := hr.2
  have hxs : xs = (us ++ [p]).tail := by rw [← hus]; rfl
  have hys : ys = (x :: vs).dropLast := by rw [← hvs]; simp
  have hchain : (us ++ p :: n :: x :: vs).IsChain h.Linked := by
    have := hr.1
    rw [show hd :: (xs ++ n :: ys) ++ [hd] = (hd :: xs) ++ n :: (ys ++ [hd]) by simp, hvs, hus]
      at this
    simpa using this
  rw [List.isChain_append_cons_cons, List.isChain_cons_cons] at hchain
  obtain ⟨hleft, -, -, hright⟩ := hchain
  constructor
  . have : hd :: (xs ++ ys) ++ [hd] = us ++ p :: x :: vs := by
      rw [← List.cons_append, List.append_assoc, hvs, hus]
      simp
    rw [this, List.isChain_append_cons_cons]
    refine ⟨?_, by simp [Linked], ?_⟩
    . refine isChain_of_forall ?_ hleft
      intro a ha b hb hab
      have hall : (us ++ [p]).Nodup := by
        rw [← hus]
        exact hnodup.sublist (by simp)
      have ha : a ∈ us := by simpa using ha
      have hb : b ∈ xs := by rw [hxs]; exact hb
      have hap : a ≠ p := by grind
      have hbx : b ≠ x := by
        have : x ∈ ys ++ [hd] := by rw [hvs]; simp
        grind
      simpa [Linked, hap, hbx] using hab
    . refine isChain_of_forall ?_ hright
      intro a ha b hb hab
      have ha : a ∈ ys := by rw [hys]; exact ha
      have hb : b ∈ vs := hb
      have hap : a ≠ p := by
        have : p ∈ hd :: xs := by rw [hus]; simp
        grind
      have hbx : b ≠ x := by
        cases ys with
        | nil => simp_all
        | cons y ys => grind
      simpa [Linked, hap, hbx] using hab
  . grind

end Edits

end Ring

end Links
