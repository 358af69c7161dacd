/-
FastAlloc.Lib.Scope — programs that keep to a part of the state.

A `Scope` says when two states agree on a part of the state and when they
agree on the rest of it. A program is `Within` the scope if it looks at
nothing else, so that from states that agree there it does the same, and if
it leaves the rest as it was. Two programs within scopes that lie apart can
be swapped.
-/
import FastAlloc.Lib.Program
import Mathlib.Data.List.Forall2

namespace FastAlloc.Lib

/-- A part of the state: the states it is in order in, agreement on it,
agreement on the rest, and the events that are alike from there. -/
structure Scope (σ ε : Type) where
  ok : σ → Prop
  same : σ → σ → Prop
  rest : σ → σ → Prop
  like : ε → ε → Prop
  equiv : Equivalence same
  rest_refl : ∀ s, rest s s
  rest_trans : ∀ {s s' s''}, rest s s' → rest s' s'' → rest s s''

variable {σ ε φ α β : Type}

/-- Two outcomes that differ outside of the scope only. -/
structure Outcome.Alike (P : Scope σ ε) (o o' : Outcome σ ε φ α) : Prop where
  result : o.result = o'.result
  state : P.same o.state o'.state
  trace : List.Forall₂ P.like o.trace o'.trace

/-- From `s`, and from every state that agrees with it, `f` keeps to the scope. -/
def WithinAt (P : Scope σ ε) (f : Program σ ε φ α) (s : σ) : Prop :=
  P.ok s → ∀ s', P.ok s' → P.same s s' →
    (f.run s).Alike P (f.run s') ∧ P.rest s' (f.run s').state ∧ P.ok (f.run s').state

/-- `f` keeps to the scope. -/
def Within (P : Scope σ ε) (f : Program σ ε φ α) : Prop := ∀ s, WithinAt P f s

variable {P Q : Scope σ ε} {f : Program σ ε φ α} {g : α → Program σ ε φ β} {h : Program σ ε φ β}
  {s s' s₁ s₂ : σ} {a : α} {b : β} {t u : List ε} {c : Prop} [Decidable c]

namespace WithinAt

/-- What it says of a run that returned. -/
theorem elim (hf : WithinAt P f s) (hs : P.ok s) (hs' : P.ok s') (hss : P.same s s')
    (hr : f.run s = ⟨.ok a, s₁, t⟩) : ∃ s₂ t', f.run s' = ⟨.ok a, s₂, t'⟩ ∧ P.same s₁ s₂ ∧
      P.rest s' s₂ ∧ List.Forall₂ P.like t t' := by
  obtain ⟨⟨hres, hstate, htrace⟩, hrest, -⟩ := hf hs s' hs' hss
  rw [hr] at hres hstate htrace
  exact ⟨_, _, Program.run_of_result hres.symm, hstate, hrest, htrace⟩

theorem rest (hf : WithinAt P f s) (hs : P.ok s) (hr : f.run s = ⟨.ok a, s₁, t⟩) : P.rest s s₁ := by
  have h := (hf hs s hs (P.equiv.refl s)).2.1
  rwa [hr] at h

theorem ok (hf : WithinAt P f s) (hs : P.ok s) (hr : f.run s = ⟨.ok a, s₁, t⟩) : P.ok s₁ := by
  have h := (hf hs s hs (P.equiv.refl s)).2.2
  rwa [hr] at h

/-- Sequencing. -/
theorem bind (hf : WithinAt P f s)
    (hg : ∀ a s₁ t, P.ok s → f.run s = ⟨.ok a, s₁, t⟩ → WithinAt P (g a) s₁) :
    WithinAt P (f >>= g) s := by
  intro hs s' hs' hss
  obtain ⟨⟨hres, hstate, htrace⟩, hrest, hok⟩ := hf hs s' hs' hss
  rcases hr : f.run s with ⟨r, s₁, t⟩
  rcases hr' : f.run s' with ⟨r', s₁', t'⟩
  rw [hr, hr'] at hres hstate htrace
  rw [hr'] at hrest hok
  obtain rfl : r = r' := hres
  cases r with
  | error e =>
    rw [Program.run_bind_error hr, Program.run_bind_error hr']
    exact ⟨⟨rfl, hstate, htrace⟩, hrest, hok⟩
  | ok a =>
    obtain ⟨⟨hres', hstate', htrace'⟩, hrest', hok'⟩ :=
      hg a s₁ t hs hr (hf.ok hs hr) s₁' hok hstate
    rw [Program.run_bind_ok hr, Program.run_bind_ok hr']
    exact ⟨⟨hres', hstate', List.rel_append htrace htrace'⟩, P.rest_trans hrest hrest', hok'⟩

theorem ite {f' : Program σ ε φ α} (hf : c → WithinAt P f s) (hg : ¬ c → WithinAt P f' s) :
    WithinAt P (if c then f else f') s := by
  split
  · exact hf ‹_›
  · exact hg ‹_›

/-- What keeps to a scope keeps to a wider one. -/
theorem widen (hf : WithinAt P f s) (hok : ∀ s, Q.ok s ↔ P.ok s) (hlike : Q.like = P.like)
    (hsame : ∀ s s', Q.same s s' → P.same s s') (hrest : ∀ s s', P.rest s s' → Q.rest s s')
    (hafter : ∀ s s' s₁ s₂, Q.same s s' → P.rest s s₁ → P.rest s' s₂ → P.same s₁ s₂ →
      Q.same s₁ s₂) : WithinAt Q f s := by
  intro hs s' hs' hss
  rw [hok] at hs hs'
  obtain ⟨⟨hres, hstate, htrace⟩, hrest', hok'⟩ := hf hs s' hs' (hsame s s' hss)
  have hrest₀ := (hf hs s hs (P.equiv.refl s)).2.1
  exact ⟨⟨hres, hafter _ _ _ _ hss hrest₀ hrest' hstate, hlike ▸ htrace⟩, hrest _ _ hrest',
    (hok _).mpr hok'⟩

/-- Two programs within scopes that lie apart end alike in either order. -/
theorem swap (hf : WithinAt P f s) (hh : WithinAt Q h s) (hPQ : ∀ s s', P.rest s s' → Q.same s s')
    (hQP : ∀ s s', Q.rest s s' → P.same s s') (hs : P.ok s) (hs' : Q.ok s) (hs₁ : Q.ok s₁)
    (hs₂ : P.ok s₂) (h₁ : f.run s = ⟨.ok a, s₁, t⟩) (h₂ : h.run s = ⟨.ok b, s₂, u⟩) :
    ∃ s₁₂ s₂₁ t' u', h.run s₁ = ⟨.ok b, s₁₂, u'⟩ ∧ f.run s₂ = ⟨.ok a, s₂₁, t'⟩ ∧
      P.same s₁₂ s₂₁ ∧ Q.same s₁₂ s₂₁ ∧ List.Forall₂ P.like t t' ∧ List.Forall₂ Q.like u u' := by
  obtain ⟨s₁₂, u', h₁₂, hsame, hrest, hu⟩ := hh.elim hs' hs₁ (hPQ _ _ (hf.rest hs h₁)) h₂
  obtain ⟨s₂₁, t', h₂₁, hsame', hrest', ht⟩ := hf.elim hs hs₂ (hQP _ _ (hh.rest hs' h₂)) h₁
  refine ⟨s₁₂, s₂₁, t', u', h₁₂, h₂₁, ?_, ?_, ht, hu⟩
  · exact P.equiv.trans (P.equiv.symm (hQP _ _ hrest)) hsame'
  · exact Q.equiv.trans (Q.equiv.symm hsame) (hPQ _ _ hrest')

end WithinAt

namespace Within

theorem here (hf : Within P f) : WithinAt P f s := hf s

theorem pure (a : α) : Within P (pure a : Program σ ε φ α) := fun _ _ s' hs' hss =>
  ⟨⟨rfl, hss, .nil⟩, P.rest_refl s', hs'⟩

theorem fault (x : φ) : Within P (Program.fault x : Program σ ε φ α) := fun _ _ s' hs' hss =>
  ⟨⟨rfl, hss, .nil⟩, P.rest_refl s', hs'⟩

theorem emit {e : ε} (he : P.like e e) : Within P (Program.emit e : Program σ ε φ Unit) :=
  fun _ _ s' hs' hss => ⟨⟨rfl, hss, .cons he .nil⟩, P.rest_refl s', hs'⟩

/-- Sequencing, where of the first part only what it returns matters. -/
theorem bind_of (hf : Within P f)
    (hg : ∀ s a s₁ t, P.ok s → f.run s = ⟨.ok a, s₁, t⟩ → Within P (g a)) : Within P (f >>= g) :=
  fun s => (hf s).bind fun a s₁ t hs hr => hg s a s₁ t hs hr s₁

theorem bind (hf : Within P f) (hg : ∀ a, Within P (g a)) : Within P (f >>= g) :=
  hf.bind_of fun _ a _ _ _ _ => hg a

theorem ite {f' : Program σ ε φ α} (hf : c → Within P f) (hg : ¬ c → Within P f') :
    Within P (if c then f else f') := by
  split
  · exact hf ‹_›
  · exact hg ‹_›

theorem loop {body : Nat → Program σ ε φ Unit} (hb : ∀ i, Within P (body i)) (n : Nat) :
    ∀ i, Within P (Program.loop body i n) := by
  induction n with
  | zero => exact fun i => pure ()
  | succ n ih => exact fun i => bind (hb i) fun _ => ih (i + 1)

end Within

end FastAlloc.Lib
