/-
FastAlloc.Lib.Run — labelled transition systems: the states a run reaches
when every step's label meets a condition, and the rule that an invariant
kept by such steps holds of all of them; the histories of runs whose steps
report visible actions, and the rule that a simulation carries them over.
-/
import Mathlib.Logic.Basic

namespace FastAlloc.Lib

variable {σ ℓ : Type} {step : σ → ℓ → σ → Prop} {good good' : ℓ → Prop} {s s' s'' : σ}

/-- `s'` is reached from `s` by steps whose labels all satisfy `good`. -/
inductive Run (step : σ → ℓ → σ → Prop) (good : ℓ → Prop) (s : σ) : σ → Prop
  | refl : Run step good s s
  | tail {s' s'' : σ} {l : ℓ} :
      Run step good s s' → step s' l s'' → good l → Run step good s s''

namespace Run

/-- What holds at the start and passes along every good step holds at the end. -/
theorem invariant {P : σ → Prop} (h : Run step good s s') (h₀ : P s)
    (hstep : ∀ s l s', P s → step s l s' → good l → P s') : P s' := by
  induction h with
  | refl => exact h₀
  | tail _ hst hl ih => exact hstep _ _ _ ih hst hl

theorem trans (h : Run step good s s') (h' : Run step good s' s'') : Run step good s s'' := by
  induction h' with
  | refl => exact h
  | tail _ hst hl ih => exact ih.tail hst hl

/-- A run under a stronger condition is a run under a weaker one. -/
theorem weaken (h : Run step good s s') (hg : ∀ l, good l → good' l) : Run step good' s s' := by
  induction h with
  | refl => exact .refl
  | tail _ hst hl ih => exact ih.tail hst (hg _ hl)

end Run

section

variable {α σ σ₁ σ₂ : Type} {step : σ → List α → σ → Prop} {s s' s'' : σ} {l l' : List α}

/-- `s'` is reached from `s` by steps that report the actions `l`, in order. -/
inductive Trace (step : σ → List α → σ → Prop) (s : σ) : List α → σ → Prop
  | refl : Trace step s [] s
  | tail {l l' : List α} {s' s'' : σ} :
      Trace step s l s' → step s' l' s'' → Trace step s (l ++ l') s''

namespace Trace

theorem single (h : step s l s') : Trace step s l s' := Trace.tail .refl h

theorem trans (h : Trace step s l s') (h' : Trace step s' l' s'') : Trace step s (l ++ l') s'' := by
  induction h' with
  | refl => rwa [List.append_nil]
  | tail _ hst ih =>
    rw [← List.append_assoc]
    exact ih.tail hst

/-- What holds at the start and passes along every step holds at the end. -/
theorem invariant {P : σ → Prop} (h : Trace step s l s') (h₀ : P s)
    (hstep : ∀ s l s', P s → step s l s' → P s') : P s' := by
  induction h with
  | refl => exact h₀
  | tail _ hst ih => exact hstep _ _ _ ih hst

/-- Where each step is matched by steps with the same actions, so is each run. -/
theorem simulation {step₁ : σ₁ → List α → σ₁ → Prop} {step₂ : σ₂ → List α → σ₂ → Prop}
    {R : σ₁ → σ₂ → Prop} {a a' : σ₁} {b : σ₂} (h : Trace step₁ a l a') (h₀ : R a b)
    (hstep : ∀ a l a' b, R a b → step₁ a l a' → ∃ b', Trace step₂ b l b' ∧ R a' b') :
    ∃ b', Trace step₂ b l b' ∧ R a' b' := by
  induction h with
  | refl => exact ⟨b, .refl, h₀⟩
  | tail _ hst ih =>
    obtain ⟨b₁, htrace, hr⟩ := ih
    obtain ⟨b', htrace', hr'⟩ := hstep _ _ _ _ hr hst
    exact ⟨b', htrace.trans htrace', hr'⟩

end Trace

end

end FastAlloc.Lib
