/-
FastAlloc.Lib.Reduction — threads whose steps can be moved past each other.

A thread goes through transactions. Inside one there is at most one step
that others can tell the place of, the commit; the steps `before` and `after`
it move past any step of another thread. Then every run that leaves all
threads idle can be put in an order in which each transaction is one block
(`Movers.reduction`).

The proof follows a run and keeps, beside its state `w`, the state `x` of a
run of blocks. They differ in what has been put off in `x` (the steps `before`
a commit still to come) and in what has been done early there (the steps
`after` a commit that `w` has yet to take): both lead to one state.
-/
import FastAlloc.Lib.Run
import Mathlib.Data.List.Induction
import Mathlib.Data.List.Nodup

namespace FastAlloc.Lib

/-! ## Paths -/

section

variable {σ ℓ : Type}

/-- `s'` is reached from `s` by the steps `l`, in order. -/
inductive Path (step : σ → ℓ → σ → Prop) : σ → List ℓ → σ → Prop
  | nil {s : σ} : Path step s [] s
  | cons {s s' s'' : σ} {x : ℓ} {l : List ℓ} :
      step s x s' → Path step s' l s'' → Path step s (x :: l) s''

namespace Path

variable {step : σ → ℓ → σ → Prop} {s s' s'' : σ} {x : ℓ} {l l' : List ℓ}

theorem single (h : step s x s') : Path step s [x] s' := .cons h .nil

theorem append (h : Path step s l s') (h' : Path step s' l' s'') : Path step s (l ++ l') s'' := by
  induction h with
  | nil => exact h'
  | cons hst _ ih => exact .cons hst (ih h')

theorem append_inv (h : Path step s (l ++ l') s'') : ∃ s', Path step s l s' ∧ Path step s' l' s'' := by
  induction l generalizing s with
  | nil => exact ⟨s, .nil, h⟩
  | cons x l ih =>
    cases h with
    | cons hst h =>
      obtain ⟨s', h₁, h₂⟩ := ih h
      exact ⟨s', .cons hst h₁, h₂⟩

theorem single_inv (h : Path step s [x] s') : step s x s' := by
  cases h with
  | cons hst h =>
    cases h
    exact hst

theorem invariant {P : σ → Prop} (h : Path step s l s') (h₀ : P s)
    (hstep : ∀ s x s', P s → step s x s' → P s') : P s' := by
  induction h with
  | nil => exact h₀
  | cons hst _ ih => exact ih (hstep _ _ _ h₀ hst)

end Path

end

/-! ## Transactions -/

/-- What a step is to the transaction it is part of. -/
inductive Kind
  /-- all of it -/
  | whole
  /-- a part before its commit -/
  | before
  | commit
  /-- a part after its commit -/
  | after
  deriving DecidableEq

section

variable {σ τ α : Type}

/-- Steps of two threads of which one at most commits. -/
def Apart (kind : α → Kind) (x y : τ × α) : Prop :=
  x.1 ≠ y.1 ∧ ¬ (kind x.2 = .commit ∧ kind y.2 = .commit)

/-- Steps that can be moved past each other, and what they do to transactions:
a thread is idle between two of them, and late once it has committed and has
a step to go. -/
structure Movers (step : σ → τ × α → σ → Prop) (ok : σ → Prop) (kind : α → Kind)
    (idle late : σ → τ → Prop) : Prop where
  keeps : ∀ s x s', ok s → step s x s' → ok s'
  swap : ∀ s x s₁ y s₂, ok s → Apart kind x y → step s x s₁ → step s₁ y s₂ →
    ∃ s₁', step s y s₁' ∧ step s₁' x s₂
  join : ∀ s x s₁ y s₁', ok s → Apart kind x y → step s x s₁ → step s y s₁' →
    ∃ s₂, step s₁ y s₂ ∧ step s₁' x s₂
  other : ∀ s x s' t, step s x s' → x.1 ≠ t → (idle s' t ↔ idle s t) ∧ (late s' t ↔ late s t)
  apart : ∀ s t, idle s t → ¬ late s t
  whole : ∀ s t a s', ok s → step s (t, a) s' → kind a = .whole → idle s t ∧ ¬ late s' t
  before : ∀ s t a s', ok s → step s (t, a) s' → kind a = .before →
    idle s t ∧ ¬ idle s' t ∧ ¬ late s' t
  commit : ∀ s t a s', ok s → step s (t, a) s' → kind a = .commit → ¬ late s t
  after : ∀ s t a s', ok s → step s (t, a) s' → kind a = .after → late s t ∧ ¬ late s' t
  finish : ∀ s t, ok s → late s t → ∃ a s', kind a = .after ∧ step s (t, a) s'
  unique : ∀ s t a s₁ b s₂, late s t → step s (t, a) s₁ → step s (t, b) s₂ → a = b ∧ s₁ = s₂

/-- A transaction of thread `t`, from its first step to its last. -/
inductive Transaction (step : σ → τ × α → σ → Prop) (kind : α → Kind) (late : σ → τ → Prop) :
    σ → List (τ × α) → σ → Prop
  | whole {s s' : σ} {t : τ} {a : α} : kind a = .whole → step s (t, a) s' →
      Transaction step kind late s [(t, a)] s'
  | commit {s s' : σ} {t : τ} {c : α} {l l' : List α} : kind c = .commit → l.length ≤ 1 →
      (∀ a ∈ l, kind a = .before) → (∀ b ∈ l', kind b = .after) → ¬ late s' t →
      Path step s (l.map (t, ·) ++ (t, c) :: l'.map (t, ·)) s' →
      Transaction step kind late s (l.map (t, ·) ++ (t, c) :: l'.map (t, ·)) s'

/-- What is put off (`E`) and done early (`F`) where a run stands at `w`. -/
structure Pending (kind : α → Kind) (idle late : σ → τ → Prop) (w : σ) (E F : List (τ × α)) :
    Prop where
  before : ∀ e ∈ E, kind e.2 = .before ∧ ¬ idle w e.1 ∧ ¬ late w e.1
  after : ∀ e ∈ F, kind e.2 = .after
  late : ∀ t, late w t ↔ ∃ e ∈ F, e.1 = t
  nodup : (E.map Prod.fst).Nodup
  nodup' : (F.map Prod.fst).Nodup

namespace Movers

variable {step : σ → τ × α → σ → Prop} {ok : σ → Prop} {kind : α → Kind}
  {idle late : σ → τ → Prop} {s s' s₁ s₂ w w' x y : σ} {t : τ} {a : α} {A B E F l l' : List (τ × α)}

section

variable (h : Movers step ok kind idle late)
include h

theorem path_ok (hs : ok s) (hp : Path step s l s') : ok s' := hp.invariant hs h.keeps

theorem transaction_ok (hs : ok s) (hb : Transaction step kind late s l s') : ok s' := by
  cases hb with
  | whole _ hst => exact h.keeps _ _ _ hs hst
  | commit _ _ _ _ _ hp => exact h.path_ok hs hp

/-- A path past a path. -/
theorem path_swap (hs : ok s) (hAB : ∀ x ∈ A, ∀ y ∈ B, Apart kind x y) (hA : Path step s A s₁)
    (hB : Path step s₁ B s₂) : ∃ s₁', Path step s B s₁' ∧ Path step s₁' A s₂ := by
  have one : ∀ {A s s₁ s₂ y}, ok s → (∀ x ∈ A, Apart kind x y) → Path step s A s₁ → step s₁ y s₂ →
      ∃ s₁', step s y s₁' ∧ Path step s₁' A s₂ := by
    intro A s s₁ s₂ y hs hAy hA hy
    induction hA with
    | nil => exact ⟨s₂, hy, .nil⟩
    | cons hst _ ih =>
      obtain ⟨m, hm, hA'⟩ := ih (h.keeps _ _ _ hs hst) (fun x hx => hAy x (.tail _ hx)) hy
      obtain ⟨s₁', hs₁', hx⟩ := h.swap _ _ _ _ _ hs (hAy _ (.head _)) hst hm
      exact ⟨s₁', hs₁', .cons hx hA'⟩
  induction hB generalizing s with
  | nil => exact ⟨s, .nil, hA⟩
  | cons hst _ ih =>
    obtain ⟨m, hm, hA'⟩ := one hs (fun x hx => hAB x hx _ (.head _)) hA hst
    obtain ⟨s₁', hB', hA''⟩ := ih (h.keeps _ _ _ hs hm) (fun x hx y hy => hAB x hx y (.tail _ hy)) hA'
    exact ⟨s₁', .cons hm hB', hA''⟩

/-- A step beside a path. -/
theorem path_join {e : τ × α} (hs : ok s) (heB : ∀ y ∈ B, Apart kind e y) (he : step s e s₁)
    (hB : Path step s B s₂) : ∃ s', Path step s₁ B s' ∧ step s₂ e s' := by
  induction hB generalizing s₁ with
  | nil => exact ⟨s₁, .nil, he⟩
  | cons hst _ ih =>
    obtain ⟨m, hm, he'⟩ := h.join _ _ _ _ _ hs (heB _ (.head _)) he hst
    obtain ⟨s', hB', hs'⟩ := ih (h.keeps _ _ _ hs hst) (fun y hy => heB y (.tail _ hy)) he'
    exact ⟨s', .cons hm hB', hs'⟩

/-- What others do leaves a thread where it stands. -/
theorem path_other (hp : Path step s l s') (hl : ∀ e ∈ l, e.1 ≠ t) :
    (idle s' t ↔ idle s t) ∧ (late s' t ↔ late s t) := by
  induction hp with
  | nil => exact ⟨Iff.rfl, Iff.rfl⟩
  | cons hst _ ih =>
    obtain ⟨h₁, h₂⟩ := h.other _ _ _ t hst (hl _ (.head _))
    obtain ⟨h₃, h₄⟩ := ih fun e he => hl e (.tail _ he)
    exact ⟨h₃.trans h₁, h₄.trans h₂⟩

end

end Movers

/-! ## Following a run -/

section

variable [DecidableEq τ]

/-- The steps of thread `t`. -/
def stepsOf (t : τ) (l : List (τ × α)) : List (τ × α) := l.filter fun x => x.1 = t

/-- Where the run stands at `w` and the blocks at `x`, both lead to one state
by what is pending; up to that, each thread has taken the same steps. -/
def Follows (step : σ → τ × α → σ → Prop) (kind : α → Kind) (idle late : σ → τ → Prop)
    (w : σ) (l : List (τ × α)) (x : σ) (l' : List (τ × α)) : Prop :=
  ∃ y E F, Path step x E y ∧ Path step w F y ∧ Pending kind idle late w E F ∧
    ∀ t, stepsOf t (l ++ F) = stepsOf t (l' ++ E)

variable {step : σ → τ × α → σ → Prop} {ok : σ → Prop} {kind : α → Kind}
  {idle late : σ → τ → Prop} {w w' x : σ} {t u : τ} {a : α} {B C E F l l' : List (τ × α)}

theorem stepsOf_append : stepsOf t (l ++ l') = stepsOf t l ++ stepsOf t l' := List.filter_append ..

theorem stepsOf_eq_nil (h : ∀ e ∈ l, e.1 ≠ t) : stepsOf t l = [] :=
  List.filter_eq_nil_iff.mpr fun e he => by simp [h e he]

/-- Where one thread's steps stand among those of others makes no difference. -/
theorem stepsOf_insert (hB : ∀ e ∈ B, e.1 = t) (hC : ∀ e ∈ C, e.1 ≠ t) :
    stepsOf u (l ++ B ++ C) = stepsOf u (l ++ C) ++ stepsOf u B := by
  simp only [stepsOf_append]
  by_cases hu : u = t
  · rw [stepsOf_eq_nil (l := C) fun e he => hu ▸ hC e he, List.append_nil, List.append_nil]
  · rw [stepsOf_eq_nil (l := B) fun e he hc => hu (hc.symm.trans (hB e he)), List.append_nil,
      List.append_nil]

namespace Movers

variable (h : Movers step ok kind idle late)
include h

/-- What is pending after a step of thread `t`, which puts off `n` and has
`m` to go. -/
theorem pending {E' F' : List (τ × α)} {n m : Option α} (hst : step w (t, a) w')
    (hp : Pending kind idle late w E F) (hE : E'.Sublist E) (hE' : ∀ e ∈ E', e.1 ≠ t)
    (hF : F'.Sublist F) (hF' : ∀ e ∈ F', e.1 ≠ t) (hmem : ∀ e ∈ F, e.1 ≠ t → e ∈ F')
    (hn : ∀ b ∈ n, kind b = .before ∧ ¬ idle w' t ∧ ¬ late w' t) (hm : ∀ b ∈ m, kind b = .after)
    (hlate : late w' t ↔ m ≠ none) :
    Pending kind idle late w' (E' ++ n.toList.map (t, ·)) (F' ++ m.toList.map (t, ·)) := by
  have hnew : ∀ {l : List (τ × α)} {o : Option α}, (l.map Prod.fst).Nodup → (∀ e ∈ l, e.1 ≠ t) →
      ((l ++ o.toList.map (t, ·)).map Prod.fst).Nodup := by
    intro l o hl ht
    cases o with
    | none => simpa using hl
    | some b =>
      rw [List.map_append, List.nodup_append]
      refine ⟨hl, by simp, fun u hu u' hu' he => ?_⟩
      obtain ⟨e, he', rfl⟩ := List.mem_map.mp hu
      obtain rfl : u' = t := by simpa using hu'
      exact ht e he' he
  refine ⟨fun e he => ?_, fun e he => ?_, fun u => ?_, ?_, ?_⟩
  · cases List.mem_append.mp he with
    | inl he =>
      obtain ⟨h₁, h₂⟩ := h.other _ _ _ e.1 hst (hE' e he).symm
      obtain ⟨h₃, h₄, h₅⟩ := hp.before e (hE.subset he)
      exact ⟨h₃, h₁.not.mpr h₄, h₂.not.mpr h₅⟩
    | inr he =>
      obtain ⟨b, hb, rfl⟩ := List.mem_map.mp he
      exact hn b (Option.mem_toList.mp hb)
  · cases List.mem_append.mp he with
    | inl he => exact hp.after e (hF.subset he)
    | inr he =>
      obtain ⟨b, hb, rfl⟩ := List.mem_map.mp he
      exact hm b (Option.mem_toList.mp hb)
  · by_cases hu : u = t
    · subst hu
      rw [hlate]
      constructor
      · intro hne
        obtain ⟨b, rfl⟩ := Option.ne_none_iff_exists'.mp hne
        exact ⟨(u, b), by simp, rfl⟩
      · intro ⟨e, he, hu⟩ hnone
        subst hnone
        exact hF' e (by simpa using he) hu
    · rw [(h.other _ _ _ u hst (Ne.symm hu)).2, hp.late]
      constructor
      · intro ⟨e, he, he'⟩
        exact ⟨e, List.mem_append_left _ (hmem e he (he' ▸ hu)), he'⟩
      · intro ⟨e, he, he'⟩
        cases List.mem_append.mp he with
        | inl he => exact ⟨e, hF.subset he, he'⟩
        | inr he =>
          obtain ⟨b, -, rfl⟩ := List.mem_map.mp he
          exact absurd he'.symm hu
  · exact hnew (hp.nodup.sublist (hE.map _)) hE'
  · exact hnew (hp.nodup'.sublist (hF.map _)) hF'

omit [DecidableEq τ] h in
/-- A thread's pending step, and what is pending of the others. -/
theorem split_pending (hl : (l.map Prod.fst).Nodup) (he : ∃ e ∈ l, e.1 = t) :
    ∃ b l₁ l₂, l = l₁ ++ (t, b) :: l₂ ∧ ∀ e ∈ l₁ ++ l₂, e.1 ≠ t := by
  obtain ⟨⟨t, b⟩, he, rfl⟩ := he
  obtain ⟨l₁, l₂, rfl⟩ := List.append_of_mem he
  refine ⟨b, l₁, l₂, rfl, fun e he hc => ?_⟩
  rw [List.map_append, List.map_cons] at hl
  have hnot : t ∉ (l₁ ++ l₂).map Prod.fst := by
    rw [List.map_append]
    exact (List.nodup_cons.mp (List.perm_middle.nodup_iff.mp hl)).1
  exact hnot (List.mem_map.mpr ⟨e, he, hc⟩)

/-- A step that is a whole transaction is one in the run of blocks too. -/
theorem follows_whole (hs : ok w) (hx : ok x) (hf : Follows step kind idle late w l x l')
    (hst : step w (t, a) w') (ha : kind a = .whole) :
    ∃ x', step x (t, a) x' ∧ Follows step kind idle late w' (l ++ [(t, a)]) x' (l' ++ [(t, a)]) := by
  obtain ⟨y, E, F, hE, hF, hp, hl⟩ := hf
  obtain ⟨hidle, hlate⟩ := h.whole _ _ _ _ hs hst ha
  have hEt : ∀ e ∈ E, e.1 ≠ t := fun e he hc => (hp.before e he).2.1 (hc ▸ hidle)
  have hFt : ∀ e ∈ F, e.1 ≠ t := fun e he hc =>
    h.apart _ _ hidle ((hp.late t).mpr ⟨e, he, hc⟩)
  obtain ⟨y', hF', hy⟩ := h.path_join hs (fun e he => ⟨(hFt e he).symm, by simp [hp.after e he]⟩) hst hF
  obtain ⟨x', hx', hE'⟩ := h.path_swap hx
    (fun e he b hb => by
      obtain rfl := List.mem_singleton.mp hb
      exact ⟨hEt e he, by simp [(hp.before e he).1]⟩) hE (.single hy)
  refine ⟨x', hx'.single_inv, y', E, F, hE', hF', ?_, fun u => ?_⟩
  · have hnew := h.pending (n := none) (m := none) hst hp (List.Sublist.refl E) hEt
      (List.Sublist.refl F) hFt (fun _ he _ => he) (by simp) (by simp) (by simpa using hlate)
    simpa using hnew
  · rw [stepsOf_insert (by simp) hFt, stepsOf_insert (by simp) hEt, hl u]

/-- A step before the commit is put off. -/
theorem follows_before (hs : ok w) (hf : Follows step kind idle late w l x l')
    (hst : step w (t, a) w') (ha : kind a = .before) :
    Follows step kind idle late w' (l ++ [(t, a)]) x l' := by
  obtain ⟨y, E, F, hE, hF, hp, hl⟩ := hf
  obtain ⟨hidle, hnot, hlate⟩ := h.before _ _ _ _ hs hst ha
  have hEt : ∀ e ∈ E, e.1 ≠ t := fun e he hc => (hp.before e he).2.1 (hc ▸ hidle)
  have hFt : ∀ e ∈ F, e.1 ≠ t := fun e he hc =>
    h.apart _ _ hidle ((hp.late t).mpr ⟨e, he, hc⟩)
  obtain ⟨y', hF', hy⟩ := h.path_join hs (fun e he => ⟨(hFt e he).symm, by simp [hp.after e he]⟩) hst hF
  refine ⟨y', E ++ [(t, a)], F, hE.append (.single hy), hF', ?_, fun u => ?_⟩
  · have hnew := h.pending (n := some a) (m := none) hst hp (List.Sublist.refl E) hEt
      (List.Sublist.refl F) hFt (fun _ he _ => he) (by simp [ha, hnot, hlate]) (by simp)
      (by simpa using hlate)
    simpa using hnew
  · rw [stepsOf_insert (by simp) hFt, hl u, ← stepsOf_append, List.append_assoc]

/-- With the commit the transaction becomes a block: what was put off of it
comes first, and what is left of it is done early. -/
theorem follows_commit (hs : ok w) (hx : ok x) (hf : Follows step kind idle late w l x l')
    (hst : step w (t, a) w') (ha : kind a = .commit) :
    ∃ x' B, Transaction step kind late x B x' ∧
      Follows step kind idle late w' (l ++ [(t, a)]) x' (l' ++ B) := by
  obtain ⟨y, E, F, hE, hF, hp, hl⟩ := hf
  have hlate := h.commit _ _ _ _ hs hst ha
  have hFt : ∀ e ∈ F, e.1 ≠ t := fun e he hc => hlate ((hp.late t).mpr ⟨e, he, hc⟩)
  obtain ⟨y₁, hF₁, hy⟩ := h.path_join hs (fun e he => ⟨(hFt e he).symm, by simp [hp.after e he]⟩) hst hF
  -- the rest of the transaction
  obtain ⟨m, y₂, hm, hy₂, hend, hiff⟩ : ∃ (m : Option α) (y₂ : σ), (∀ b ∈ m, kind b = .after) ∧
      Path step y₁ (m.toList.map (t, ·)) y₂ ∧ ¬ late y₂ t ∧ (late w' t ↔ m ≠ none) := by
    have hsame := (h.path_other (t := t) hF₁ hFt).2
    by_cases hl' : late w' t
    · have hy₁ := h.path_ok (h.keeps _ _ _ hs hst) hF₁
      obtain ⟨b, y₂, hb, hstep⟩ := h.finish _ _ hy₁ (hsame.mpr hl')
      exact ⟨some b, y₂, by simpa using hb, .single hstep, (h.after _ _ _ _ hy₁ hstep hb).2, by simp [hl']⟩
    · exact ⟨none, y₁, by simp, .nil, hsame.not.mpr hl', by simp [hl']⟩
  -- its beginning
  obtain ⟨n, E', hn, hE', hEn, hsub, hE'y⟩ : ∃ (n : Option α) (E' : List (τ × α)),
      (∀ b ∈ n, kind b = .before) ∧ (∀ e ∈ E', e.1 ≠ t) ∧
      (∀ u, stepsOf u (l' ++ E) = stepsOf u (l' ++ E') ++ stepsOf u (n.toList.map (t, ·))) ∧
      E'.Sublist E ∧ Path step x (E' ++ n.toList.map (t, ·)) y := by
    by_cases hmem : ∃ e ∈ E, e.1 = t
    · obtain ⟨b, E₁, E₂, rfl, hne⟩ := split_pending hp.nodup hmem
      have hb : kind b = .before := (hp.before (t, b) (by simp)).1
      obtain ⟨x₁, h₁, h₂⟩ := hE.append_inv
      obtain ⟨x₂, h₂, h₃⟩ := (show Path step x₁ ([_] ++ E₂) y from h₂).append_inv
      obtain ⟨x₃, h₄, h₅⟩ := h.path_swap (h.path_ok hx h₁) (fun x hx z hz => by
        obtain rfl := List.mem_singleton.mp hx
        exact ⟨(hne z (List.mem_append_right _ hz)).symm, by simp [hb]⟩) h₂ h₃
      refine ⟨some b, E₁ ++ E₂, by simpa using hb, hne, fun u => ?_,
        (List.Sublist.refl E₁).append (List.sublist_cons_self _ E₂), (h₁.append h₄).append h₅⟩
      rw [← List.append_assoc, List.append_cons, stepsOf_insert (t := t) (by simp)
        fun e he => hne e (List.mem_append_right _ he), List.append_assoc]
      rfl
    · refine ⟨none, E, by simp, fun e he hc => hmem ⟨e, he, hc⟩, fun u => ?_, .refl E, by simpa using hE⟩
      simp [stepsOf]
  obtain ⟨x₁, h₁, h₂⟩ := hE'y.append_inv
  obtain ⟨x', htr, hE''⟩ := h.path_swap hx (fun e he z hz => by
    have hz' : z.1 = t := by
      simp only [List.mem_append, List.mem_cons, List.mem_map] at hz
      rcases hz with ⟨_, _, rfl⟩ | rfl | ⟨_, _, rfl⟩
      · rfl
      · rfl
      · rfl
    exact ⟨fun hc => hE' e he (hc.trans hz'), by simp [(hp.before e (hsub.subset he)).1]⟩) h₁
    (h₂.append (.cons hy hy₂))
  have hx't : ¬ late x' t := (h.path_other hE'' hE').2.not.mp hend
  refine ⟨x', _, .commit ha (by cases n <;> simp) (fun b hb => hn b (Option.mem_toList.mp hb))
    (fun b hb => hm b (Option.mem_toList.mp hb)) hx't htr, y₂, E', F ++ m.toList.map (t, ·), hE'',
    hF₁.append hy₂, ?_, fun u => ?_⟩
  · have hnew := h.pending (n := none) hst hp hsub hE' (List.Sublist.refl F) hFt (fun _ he _ => he)
      (by simp) hm hiff
    simpa using hnew
  · have hall : ∀ e ∈ n.toList.map (t, ·) ++ (t, a) :: m.toList.map (t, ·), e.1 = t := by
      simp only [List.mem_append, List.mem_cons, List.mem_map]
      rintro e (⟨_, _, rfl⟩ | rfl | ⟨_, _, rfl⟩)
      · rfl
      · rfl
      · rfl
    rw [← List.append_assoc, stepsOf_append, stepsOf_insert (by simp) hFt, hl u, hEn u,
      stepsOf_insert hall hE', stepsOf_append (l := n.toList.map (t, ·)),
      show (t, a) :: m.toList.map (t, ·) = [(t, a)] ++ m.toList.map (t, ·) from rfl, stepsOf_append (l := [(t, a)])]
    simp only [List.append_assoc]

/-- A step after the commit has been taken already in the run of blocks. -/
theorem follows_after (hs : ok w) (hf : Follows step kind idle late w l x l')
    (hst : step w (t, a) w') (ha : kind a = .after) :
    Follows step kind idle late w' (l ++ [(t, a)]) x l' := by
  obtain ⟨y, E, F, hE, hF, hp, hl⟩ := hf
  obtain ⟨hlate, hlate'⟩ := h.after _ _ _ _ hs hst ha
  obtain ⟨b, F₁, F₂, rfl, hne⟩ := split_pending hp.nodup' ((hp.late t).mp hlate)
  obtain ⟨w₁, h₁, h₂⟩ := hF.append_inv
  obtain ⟨w₂, h₂, h₃⟩ := (show Path step w₁ ([_] ++ F₂) y from h₂).append_inv
  obtain ⟨w₃, h₄, h₅⟩ := h.path_swap hs (fun z hz e he => by
    obtain rfl := List.mem_singleton.mp he
    refine ⟨hne z (List.mem_append_left _ hz), ?_⟩
    simp [hp.after z (List.mem_append_left _ hz)]) h₁ h₂
  obtain ⟨rfl, rfl⟩ := h.unique _ _ _ _ _ _ hlate hst h₄.single_inv
  have hEt : ∀ e ∈ E, e.1 ≠ t := fun e he hc => (hp.before e he).2.2 (hc ▸ hlate)
  refine ⟨y, E, F₁ ++ F₂, hE, h₅.append h₃, ?_, fun u => ?_⟩
  · have hsub : (F₁ ++ F₂).Sublist (F₁ ++ (t, a) :: F₂) :=
      (List.Sublist.refl F₁).append (List.sublist_cons_self _ F₂)
    have hnew := h.pending (n := none) (m := none) hst hp (List.Sublist.refl E) hEt hsub hne
      (fun e he het => by
        simp only [List.mem_append, List.mem_cons] at he ⊢
        rcases he with he | rfl | he
        · exact .inl he
        · exact absurd rfl het
        · exact .inr he) (by simp) (by simp) (by simpa using hlate')
    simpa using hnew
  · have hsplit : l ++ (F₁ ++ (t, a) :: F₂) = l ++ F₁ ++ [(t, a)] ++ F₂ := by simp
    rw [stepsOf_insert (by simp) hne, ← hl u, hsplit, stepsOf_insert (t := t) (by simp)
      fun e he => hne e (List.mem_append_right _ he), List.append_assoc]

/-- Every run is followed by a run of transactions. -/
theorem follows {s : σ} (hs : ok s) (hidle : ∀ t, idle s t) (hp : Path step s l w) :
    ∃ x l', Trace (Transaction step kind late) s l' x ∧ ok x ∧ Follows step kind idle late w l x l' := by
  induction l using List.reverseRecOn generalizing w with
  | nil =>
    cases hp
    refine ⟨s, [], .refl, hs, s, [], [], .nil, .nil, ⟨by simp, by simp, fun t => ?_, by simp, by simp⟩,
      fun _ => rfl⟩
    simpa using h.apart s t (hidle t)
  | append_singleton l e ih =>
    obtain ⟨w₁, hp₁, hst⟩ := hp.append_inv
    obtain ⟨x, l', htrace, hx, hf⟩ := ih hp₁
    obtain ⟨t, a⟩ := e
    have hw := h.path_ok hs hp₁
    have hst := hst.single_inv
    cases ha : kind a with
    | whole =>
      obtain ⟨x', hx', hf'⟩ := h.follows_whole hw hx hf hst ha
      exact ⟨x', _, htrace.tail (.whole ha hx'), h.keeps _ _ _ hx hx', hf'⟩
    | before => exact ⟨x, l', htrace, hx, h.follows_before hw hf hst ha⟩
    | commit =>
      obtain ⟨x', B, hB, hf'⟩ := h.follows_commit hw hx hf hst ha
      exact ⟨x', _, htrace.tail hB, h.transaction_ok hx hB, hf'⟩
    | after => exact ⟨x, l', htrace, hx, h.follows_after hw hf hst ha⟩

/-- Where all threads are idle again nothing is pending: the run is one of
blocks, in which every thread takes the same steps in the same order. -/
theorem reduction {s : σ} (hs : ok s) (hidle : ∀ t, idle s t) (hp : Path step s l w)
    (hidle' : ∀ t, idle w t) :
    ∃ l', Trace (Transaction step kind late) s l' w ∧ ∀ t, stepsOf t l' = stepsOf t l := by
  obtain ⟨x, l', htrace, -, y, E, F, hE, hF, hpend, hl⟩ := h.follows hs hidle hp
  have hE0 : E = [] := List.eq_nil_iff_forall_not_mem.mpr fun e he =>
    (hpend.before e he).2.1 (hidle' e.1)
  have hF0 : F = [] := List.eq_nil_iff_forall_not_mem.mpr fun e he =>
    h.apart w e.1 (hidle' e.1) ((hpend.late e.1).mpr ⟨e, he, rfl⟩)
  subst hE0
  subst hF0
  cases hE
  cases hF
  exact ⟨l', htrace, fun t => by simpa using (hl t).symm⟩

end Movers

end

end

end FastAlloc.Lib
