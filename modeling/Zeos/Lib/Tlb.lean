import Mathlib.Data.Set.Insert

/-!
Translations that a processor keeps after it has used an entry of a page table, until it is told to forget
them. Which ones it keeps is up to it.
-/

namespace Tlb

variable {P F : Type}

/-- What the processor does: it goes through an entry of the page table of the moment, or forgets all. -/
inductive Op (P F : Type)
  | access (table : P → Option F) (p : P)
  | flush

/-- What one operation may do to the translations that are kept. -/
inductive Step : Op P F → Set (P × F) → Set (P × F) → Prop
  | skip {table : P → Option F} {p : P} {c : Set (P × F)} : Step (.access table p) c c
  | fill {table : P → Option F} {p : P} {f : F} {c : Set (P × F)} (h : table p = some f)
      : Step (.access table p) c (insert (p, f) c)
  | flush {c : Set (P × F)} : Step .flush c ∅

inductive Run : List (Op P F) → Set (P × F) → Set (P × F) → Prop
  | nil {c : Set (P × F)} : Run [] c c
  | cons {op : Op P F} {ops : List (Op P F)} {c c₁ c₂ : Set (P × F)} (hop : Step op c c₁)
      (hops : Run ops c₁ c₂) : Run (op :: ops) c c₂

def Agrees (table : P → Option F) (c : Set (P × F)) : Prop :=
  ∀ p f, (p, f) ∈ c → table p = some f

/-- What is kept by a processor that keeps all it can. -/
def most : List (Op P F) → Set (P × F) → Set (P × F)
  | [], c => c
  | .access table p :: ops, c => most ops {x | x ∈ c ∨ x.1 = p ∧ table p = some x.2}
  | .flush :: ops, _ => most ops ∅

variable {ops ops' : List (Op P F)} {c c' : Set (P × F)} {table : P → Option F} {p : P} {f : F}

theorem most_append : most (ops ++ ops') c = most ops' (most ops c) := by
  induction ops generalizing c with
  | nil => rfl
  | cons op ops ih =>
    cases op with
    | access table p => exact ih
    | flush => exact ih

theorem most_mono (h : c ⊆ c') : most ops c ⊆ most ops c' := by
  induction ops generalizing c c' with
  | nil => exact h
  | cons op ops ih =>
    cases op with
    | access table p => exact ih fun x hx => hx.imp_left (h ·)
    | flush => exact subset_rfl

theorem Run.subset_most (h : Run ops c c') : c' ⊆ most ops c := by
  induction h with
  | nil => exact subset_rfl
  | cons hop _ ih =>
    cases hop with
    | skip => exact ih.trans (most_mono fun x hx => .inl hx)
    | fill hentry =>
      apply ih.trans (most_mono ?_)
      rintro x (rfl | hx)
      . exact .inr ⟨rfl, hentry⟩
      . exact .inl hx
    | flush => exact ih

theorem run_most (ops : List (Op P F)) (c : Set (P × F)) : Run ops c (most ops c) := by
  induction ops generalizing c with
  | nil => exact .nil
  | cons op ops ih =>
    cases op with
    | flush => exact .cons .flush (ih ∅)
    | access table p =>
      cases hentry : table p with
      | none =>
        have : {x | x ∈ c ∨ x.1 = p ∧ table p = some x.2} = c := by
          ext x
          simp [hentry]
        unfold most
        rw [this]
        exact .cons .skip (ih c)
      | some f =>
        have : {x | x ∈ c ∨ x.1 = p ∧ table p = some x.2} = insert (p, f) c := by
          ext ⟨q, g⟩
          rw [Set.mem_insert_iff, Prod.mk.injEq]
          constructor
          . rintro (hx | ⟨rfl, hg⟩)
            . exact .inr hx
            . rw [hentry, Option.some_inj] at hg
              exact .inl ⟨rfl, hg.symm⟩
          . rintro (⟨rfl, rfl⟩ | hx)
            . exact .inr ⟨rfl, hentry⟩
            . exact .inl hx
        unfold most
        rw [this]
        exact .cons (.fill hentry) (ih _)

/--
A property of translations holds after every run just if it holds of all that can be kept.
-/
theorem forall_run_iff {Q : P × F → Prop}
    : (∀ c', Run ops c c' → ∀ x ∈ c', Q x) ↔ ∀ x ∈ most ops c, Q x := by
  constructor
  . intro h
    exact h _ (run_most ops c)
  . intro h c' hrun x hx
    exact h x (hrun.subset_most hx)

theorem most_agrees (hops : ∀ op ∈ ops, ∃ entries p, op = .access entries p ∧ ∀ f, entries p = some f →
    table p = some f) (hc : Agrees table c) : Agrees table (most ops c) := by
  induction ops generalizing c with
  | nil => exact hc
  | cons op ops ih =>
    obtain ⟨entries, p, rfl, hentry⟩ := hops op (by simp)
    apply ih fun op hop => hops op (by simp [hop])
    rintro q f (hx | ⟨rfl, hf⟩)
    . exact hc q f hx
    . exact hentry f hf

theorem subset_most (hops : .flush ∉ ops) : c ⊆ most ops c := by
  induction ops generalizing c with
  | nil => exact subset_rfl
  | cons op ops ih =>
    rw [List.mem_cons, not_or] at hops
    cases op with
    | flush => exact absurd rfl hops.1
    | access entries p => exact Set.Subset.trans (fun x hx => .inl hx) (ih hops.2)

theorem mem_most_of_access {entries : P → Option F} (hmem : .access entries p ∈ ops)
    (hops : .flush ∉ ops) (hentry : entries p = some f) : (p, f) ∈ most ops c := by
  obtain ⟨before, after, rfl⟩ := List.append_of_mem hmem
  rw [most_append]
  apply subset_most (c := {x | x ∈ most before c ∨ x.1 = p ∧ entries p = some x.2})
  . intro hflush
    exact hops (List.mem_append_right _ (List.mem_cons_of_mem _ hflush))
  . exact .inr ⟨rfl, hentry⟩

end Tlb
