import Mathlib.Data.List.Basic

/-!
A text on a roll of rows, of which a screen shows the last ones: each row of the screen is used again when the
roll has moved on by the height of the screen.
-/

namespace Roll

variable {α : Type} (columns : Nat) (newline : α → Prop) [DecidablePred newline]

def advance (p : Nat) (c : α) : Nat :=
  if newline c then (p / columns + 1) * columns else p + 1

def endOf (p : Nat) (cs : List α) : Nat :=
  cs.foldl (advance columns newline) p

/-- The characters of a text that is printed from `p` on, each with its place -/
def layout (p : Nat) (cs : List α) : List (Nat × α) :=
  match cs with
  | [] => []
  | c :: cs => (if newline c then [] else [(p, c)]) ++ layout (advance columns newline p c) cs

/-- The last one of the characters that come to cell `k` of a screen with `n` cells -/
def lastAt (n k : Nat) (es : List (Nat × α)) : Option α :=
  match es with
  | [] => none
  | e :: es => (lastAt n k es).or (if e.1 % n = k then some e.2 else none)

section Layout

variable {columns : Nat} {newline : α → Prop} [DecidablePred newline] {p q : Nat} {c : α} {cs ds : List α}

theorem lt_advance (hcolumns : 0 < columns) : p < advance columns newline p c := by
  unfold advance
  split
  . have := Nat.lt_div_mul_add hcolumns (a := p)
    rw [Nat.add_mul]
    omega
  . omega

theorem layout_cons : layout columns newline p (c :: cs) =
    (if newline c then [] else [(p, c)]) ++ layout columns newline (advance columns newline p c) cs :=
  rfl

theorem endOf_append : endOf columns newline p (cs ++ ds) = endOf columns newline
    (endOf columns newline p cs) ds := by
  unfold endOf
  exact List.foldl_append

theorem layout_append : layout columns newline p (cs ++ ds) =
    layout columns newline p cs ++ layout columns newline (endOf columns newline p cs) ds := by
  induction cs generalizing p with
  | nil => rfl
  | cons c cs ih =>
    rw [List.cons_append, layout_cons, ih, layout_cons, List.append_assoc]
    rfl

theorem le_endOf (hcolumns : 0 < columns) : p ≤ endOf columns newline p cs := by
  induction cs generalizing p with
  | nil => exact Nat.le_refl p
  | cons c cs ih => exact Nat.le_trans (Nat.le_of_lt (lt_advance hcolumns)) ih

theorem bounds_of_mem_layout (hcolumns : 0 < columns) (h : (q, c) ∈ layout columns newline p cs)
    : p ≤ q ∧ q < endOf columns newline p cs := by
  induction cs generalizing p with
  | nil => cases h
  | cons d cs ih =>
    rw [layout_cons] at h
    have hlt : p < advance columns newline p d := lt_advance hcolumns
    rcases List.mem_append.mp h with h | h
    . split at h
      . cases h
      . obtain ⟨rfl, rfl⟩ := Prod.mk.inj (List.mem_singleton.mp h)
        exact ⟨Nat.le_refl q, Nat.lt_of_lt_of_le hlt (le_endOf hcolumns)⟩
    . obtain ⟨hle, hend⟩ := ih h
      exact ⟨by omega, hend⟩

theorem pairwise_layout (hcolumns : 0 < columns)
    : (layout columns newline p cs).Pairwise fun e f => e.1 < f.1 := by
  induction cs generalizing p with
  | nil => exact .nil
  | cons d cs ih =>
    rw [layout_cons, List.pairwise_append]
    refine ⟨?_, ih, ?_⟩
    . split
      . exact .nil
      . exact List.pairwise_singleton _ _
    . intro e he f hf
      split at he
      . cases he
      . rw [List.mem_singleton.mp he]
        exact Nat.lt_of_lt_of_le (lt_advance hcolumns) (bounds_of_mem_layout hcolumns hf).1

end Layout

section LastAt

variable {n k q : Nat} {c : α} {es fs : List (Nat × α)}

theorem lastAt_cons {e : Nat × α}
    : lastAt n k (e :: es) = (lastAt n k es).or (if e.1 % n = k then some e.2 else none) :=
  rfl

theorem lastAt_append : lastAt n k (es ++ fs) = (lastAt n k fs).or (lastAt n k es) := by
  induction es with
  | nil => exact Option.or_none.symm
  | cons e es ih =>
    rw [List.cons_append, lastAt_cons, lastAt_cons, ih, Option.or_assoc]

theorem lastAt_eq_none (h : ∀ e ∈ es, e.1 % n ≠ k) : lastAt n k es = none := by
  induction es with
  | nil => rfl
  | cons e es ih =>
    rw [lastAt_cons, ih fun f hf => h f (List.mem_cons_of_mem e hf), if_neg (h e List.mem_cons_self)]
    rfl

theorem lastAt_of_mem (hsorted : es.Pairwise fun e f => e.1 < f.1) (h : (q, c) ∈ es)
    (hnear : ∀ e ∈ es, e.1 < q + n) : lastAt n (q % n) es = some c := by
  induction es with
  | nil => cases h
  | cons e es ih =>
    rw [List.pairwise_cons] at hsorted
    rw [lastAt_cons]
    rcases List.mem_cons.mp h with heq | h
    . subst heq
      have hnone : lastAt n (q % n) es = none := by
        apply lastAt_eq_none
        intro f hf hmod
        have hlt := hsorted.1 f hf
        have hnear := hnear f (List.mem_cons_of_mem _ hf)
        dsimp only at hlt
        -- The places differ by less than `n`.
        have hsub : (f.1 - q) % n = 0 := Nat.sub_mod_eq_zero_of_mod_eq hmod
        rw [Nat.mod_eq_of_lt (by omega)] at hsub
        omega
      rw [hnone, if_pos rfl]
      rfl
    . rw [ih hsorted.2 h fun f hf => hnear f (List.mem_cons_of_mem e hf)]
      rfl

end LastAt

end Roll
