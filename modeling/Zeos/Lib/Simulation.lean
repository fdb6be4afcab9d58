import Mathlib.Data.Option.Basic
import Zeos.Lib.Run

/-!
Partial functions side by side: both have no result, or both have one, and the results are related.
-/

namespace Simulation

variable {α α' β β' : Type}
variable {R : α → β → Prop} {S : α' → β' → Prop} {x : Option α} {y : Option β}

theorem rel_mono {S : α → β → Prop} (hRS : ∀ a b, R a b → S a b) (h : Option.Rel R x y)
    : Option.Rel S x y := by
  cases h with
  | none => exact .none
  | some h => exact .some (hRS _ _ h)

theorem rel_bind {f : α → Option α'} {g : β → Option β'} (h : Option.Rel R x y)
    (hfg : ∀ a b, R a b → Option.Rel S (f a) (g b)) : Option.Rel S (x.bind f) (y.bind g) := by
  cases h with
  | none => exact .none
  | some h => exact hfg _ _ h

theorem rel_bind_some {f : α → Option α'} {b : β} {z : Option β'} (h : Option.Rel R x (some b))
    (hf : ∀ a, R a b → Option.Rel S (f a) z) : Option.Rel S (x.bind f) z := by
  cases h with
  | some h => exact hf _ h

theorem rel_map {f : α → α'} {g : β → β'} (h : Option.Rel R x y) (hfg : ∀ a b, R a b → S (f a) (g b))
    : Option.Rel S (x.map f) (y.map g) := by
  cases h with
  | none => exact .none
  | some h => exact .some (hfg _ _ h)

theorem rel_and_right {P : β → Prop} (h : Option.Rel R x y) (hP : ∀ b ∈ y, P b)
    : Option.Rel (fun a b => R a b ∧ P b) x y := by
  cases h with
  | none => exact .none
  | some h => exact .some ⟨h, hP _ rfl⟩

/-- Two machines that stay related in every step that is allowed are related after a whole run. -/
theorem rel_run {ε σ τ : Type} {step : ε → σ → Option σ} {step' : ε → τ → Option τ} {ok : ε → τ → Prop}
    {R : σ → τ → Prop} (hstep : ∀ e s t, R s t → ok e t → Option.Rel R (step e s) (step' e t))
    {es : List ε} {s : σ}
    {t : τ} (h : R s t) (hok : Run.Allowed step' ok es t)
    : Option.Rel R (Run.run step es s) (Run.run step' es t) := by
  induction es generalizing s t with
  | nil => exact .some h
  | cons e es ih =>
    obtain ⟨he, hrest⟩ := hok
    have hrel := hstep e s t h he
    rw [Run.run_cons, Run.run_cons]
    revert hrest hrel
    generalize step e s = x
    generalize step' e t = y
    intro hrest hrel
    cases hrel with
    | none => exact .none
    | some h' => exact ih h' (hrest _ rfl)

end Simulation
