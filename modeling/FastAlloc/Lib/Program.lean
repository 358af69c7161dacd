/-
FastAlloc.Lib.Program — fallible programs over a state that report events
while they run, with the rules a proof about them uses.

A `Program` reads a state and yields an `Outcome`: a result (or a fault),
the state it left, and the list of events it reported. The fault keeps the
state and the trace, so "what had happened by then" stays expressible.

`Spec A I f s Q` is total correctness relative to the events: as long as
every reported event is allowed by `A`, the program returns, its result and
final state satisfy `Q`, and every reported event satisfies `I`. `A` is how
a proof assumes that something outside the program went well; `I` is how it
says what holds at every intermediate point the events expose.
-/
import Mathlib.Logic.Basic

namespace FastAlloc.Lib

/-- What a program yields: a result or a fault, the state it left, and the
events it reported, oldest first. -/
structure Outcome (σ ε φ α : Type) where
  result : Except φ α
  state : σ
  trace : List ε

/-- A program over states `σ`, events `ε` and faults `φ`. -/
structure Program (σ ε φ α : Type) where
  run : σ → Outcome σ ε φ α

namespace Program

variable {σ ε φ α β : Type}

protected def pure (a : α) : Program σ ε φ α := ⟨fun s => ⟨.ok a, s, []⟩⟩

protected def bind (f : Program σ ε φ α) (g : α → Program σ ε φ β) : Program σ ε φ β :=
  ⟨fun s =>
    match f.run s with
    | ⟨.ok a, s', t⟩ => ⟨((g a).run s').result, ((g a).run s').state, t ++ ((g a).run s').trace⟩
    | ⟨.error e, s', t⟩ => ⟨.error e, s', t⟩⟩

instance : Monad (Program σ ε φ) where
  pure := Program.pure
  bind := Program.bind

/-- Stop with a fault. -/
def fault (e : φ) : Program σ ε φ α := ⟨fun s => ⟨.error e, s, []⟩⟩

/-- Report an event. -/
def emit (e : ε) : Program σ ε φ Unit := ⟨fun s => ⟨.ok (), s, [e]⟩⟩

/-- Run `body i`, `body (i + 1)`, … for `n` consecutive indices. -/
def loop (body : Nat → Program σ ε φ Unit) : Nat → Nat → Program σ ε φ Unit
  | _, 0 => pure ()
  | i, n + 1 => do
    body i
    loop body (i + 1) n

@[simp] theorem run_pure (a : α) (s : σ) :
    (pure a : Program σ ε φ α).run s = ⟨.ok a, s, []⟩ := rfl

@[simp] theorem run_fault (e : φ) (s : σ) :
    (fault e : Program σ ε φ α).run s = ⟨.error e, s, []⟩ := rfl

@[simp] theorem run_emit (e : ε) (s : σ) :
    (emit e : Program σ ε φ Unit).run s = ⟨.ok (), s, [e]⟩ := rfl

theorem run_bind_eq (f : Program σ ε φ α) (g : α → Program σ ε φ β) (s : σ) :
    (f >>= g).run s =
      match f.run s with
      | ⟨.ok a, s', t⟩ => ⟨((g a).run s').result, ((g a).run s').state, t ++ ((g a).run s').trace⟩
      | ⟨.error e, s', t⟩ => ⟨.error e, s', t⟩ := rfl

/-- A bind whose first program returned continues from the state it left. -/
theorem run_bind_ok {f : Program σ ε φ α} {g : α → Program σ ε φ β} {s s' : σ} {a : α}
    {t : List ε} (h : f.run s = ⟨.ok a, s', t⟩) :
    (f >>= g).run s
      = ⟨((g a).run s').result, ((g a).run s').state, t ++ ((g a).run s').trace⟩ := by
  rw [run_bind_eq, h]

/-- A bind of two programs that return. -/
theorem run_bind {f : Program σ ε φ α} {g : α → Program σ ε φ β} {s s₁ s₂ : σ} {a : α} {b : β}
    {t₁ t₂ : List ε} (h : f.run s = ⟨.ok a, s₁, t₁⟩) (h' : (g a).run s₁ = ⟨.ok b, s₂, t₂⟩) :
    (f >>= g).run s = ⟨.ok b, s₂, t₁ ++ t₂⟩ := by
  rw [run_bind_ok h, h']

/-- A bind whose first program only read. -/
theorem run_bind_read {f : Program σ ε φ α} {g : α → Program σ ε φ β} {s : σ} {a : α}
    {o : Outcome σ ε φ β} (h : f.run s = ⟨.ok a, s, []⟩) (h' : (g a).run s = o) :
    (f >>= g).run s = o := by
  rw [run_bind_ok h, h', List.nil_append]

/-- A bind whose first program faulted is that fault. -/
theorem run_bind_error {f : Program σ ε φ α} {g : α → Program σ ε φ β} {s s' : σ} {e : φ}
    {t : List ε} (h : f.run s = ⟨.error e, s', t⟩) :
    (f >>= g).run s = ⟨.error e, s', t⟩ := by
  rw [run_bind_eq, h]

theorem run_of_result {f : Program σ ε φ α} {s : σ} {a : α} (h : (f.run s).result = .ok a) :
    f.run s = ⟨.ok a, (f.run s).state, (f.run s).trace⟩ := by
  rw [← h]

/-- Two continuations that run alike from wherever the first program ends. -/
theorem run_bind_congr {f : Program σ ε φ α} {g g' : α → Program σ ε φ β} {s : σ}
    (h : ∀ a s' t, f.run s = ⟨.ok a, s', t⟩ → (g a).run s' = (g' a).run s') :
    (f >>= g).run s = (f >>= g').run s := by
  rcases hf : f.run s with ⟨r, s', t⟩
  cases r with
  | error e => rw [run_bind_error hf, run_bind_error hf]
  | ok a => rw [run_bind_ok hf, run_bind_ok hf, h a s' t hf]

/-- A returning bind splits into its two returning parts. -/
theorem run_bind_inv {f : Program σ ε φ α} {g : α → Program σ ε φ β} {s s' : σ} {b : β}
    {t : List ε} (h : (f >>= g).run s = ⟨.ok b, s', t⟩) :
    ∃ a s₁ t₁ t₂, f.run s = ⟨.ok a, s₁, t₁⟩ ∧ (g a).run s₁ = ⟨.ok b, s', t₂⟩ ∧ t = t₁ ++ t₂ := by
  rcases hf : f.run s with ⟨r, s₁, t₁⟩
  cases r with
  | error e => rw [run_bind_error hf] at h; simp at h
  | ok a =>
    rw [run_bind_ok hf] at h
    simp only [Outcome.mk.injEq] at h
    obtain ⟨hr, rfl, rfl⟩ := h
    exact ⟨a, s₁, t₁, ((g a).run s₁).trace, rfl, by rw [← hr], rfl⟩

theorem ext_run {f g : Program σ ε φ α} (h : ∀ s, f.run s = g.run s) : f = g := by
  cases f; cases g
  congr
  exact funext h

instance : LawfulMonad (Program σ ε φ) := LawfulMonad.mk' _
  (fun f => ext_run fun s => by
    change (f >>= fun a => pure (id a)).run s = f.run s
    rcases hf : f.run s with ⟨_ | a, s₁, t₁⟩
    · rw [run_bind_error hf]
    · rw [run_bind_ok hf]; simp)
  (fun a g => ext_run fun s => by
    rw [run_bind_ok (run_pure a s)]; simp)
  (fun f g h => ext_run fun s => by
    rcases hf : f.run s with ⟨_ | a, s₁, t₁⟩
    · rw [run_bind_error (run_bind_error hf), run_bind_error hf]
    rcases hg : (g a).run s₁ with ⟨_ | b, s₂, t₂⟩
    · rw [run_bind_ok hf, run_bind_error hg, run_bind_error ((run_bind_ok hf).trans (by rw [hg]))]
    · rw [run_bind_ok hf, run_bind_ok hg, run_bind_ok (run_bind hf hg), List.append_assoc])

/-- The last round of a loop comes after all the others. -/
theorem loop_succ (body : Nat → Program σ ε φ Unit) (n : Nat) :
    ∀ i, loop body i (n + 1) = loop body i n >>= fun _ => body (i + n) := by
  induction n with
  | zero =>
    intro i
    change body i >>= (fun _ => pure ()) = pure () >>= fun _ => body i
    rw [pure_bind]
    exact bind_pure (body i)
  | succ n ih =>
    intro i
    change body i >>= (fun _ => loop body (i + 1) (n + 1)) =
      (body i >>= fun _ => loop body (i + 1) n) >>= fun _ => body (i + (n + 1))
    rw [ih, bind_assoc, show i + 1 + n = i + (n + 1) by omega]

/-- A loop runs as its first rounds, then the others. -/
theorem loop_add (body : Nat → Program σ ε φ Unit) (m n : Nat) :
    ∀ i, loop body i (m + n) = loop body i m >>= fun _ => loop body (i + m) n := by
  induction n with
  | zero =>
    intro i
    exact (bind_pure (loop body i m)).symm
  | succ n ih =>
    intro i
    rw [← Nat.add_assoc, loop_succ, ih, bind_assoc]
    refine bind_congr fun _ => ?_
    rw [loop_succ, Nat.add_assoc]

/-- A loop whose rounds are known, one by one. -/
theorem run_loop {body : Nat → Program σ ε φ Unit} {i : Nat} {S : Nat → σ} {T : Nat → List ε}
    (n : Nat) (h : ∀ j < n, (body (i + j)).run (S j) = ⟨.ok (), S (j + 1), T j⟩) :
    (loop body i n).run (S 0) = ⟨.ok (), S n, (List.range n).flatMap T⟩ := by
  induction n with
  | zero => rfl
  | succ n ih =>
    rw [loop_succ, List.range_succ, List.flatMap_append]
    refine run_bind (ih fun j hj => h j (Nat.lt_succ_of_lt hj)) ((h n (Nat.lt_succ_self n)).trans ?_)
    rw [List.flatMap_cons, List.flatMap_nil, List.append_nil]

end Program

/-! ## What returning runs report, and what all runs keep -/

section Runs

variable {σ ε φ α β : Type} {P : ε → Prop} {K : σ → Prop}

/-- Every event of a run of `f` that returns a value in `R` satisfies `P`. -/
def ReportsIf (P : ε → Prop) (R : α → Prop) (f : Program σ ε φ α) : Prop :=
  ∀ s a s' t, f.run s = ⟨.ok a, s', t⟩ → R a → ∀ e ∈ t, P e

/-- Every event of a returning run of `f` satisfies `P`. -/
abbrev Reports (P : ε → Prop) (f : Program σ ε φ α) : Prop := ReportsIf P (fun _ => True) f

/-- `f` keeps `K`, whether it returns or not. -/
def Keeps (K : σ → Prop) (f : Program σ ε φ α) : Prop := ∀ s, K s → K (f.run s).state

namespace ReportsIf

variable {R : α → Prop}

theorem of_run {f : Program σ ε φ α} (h : ∀ s, ∀ e ∈ (f.run s).trace, P e) : ReportsIf P R f := by
  intro s a s' t hr _ e he
  have := h s
  rw [hr] at this
  exact this e he

theorem pure (a : α) : ReportsIf P R (pure a : Program σ ε φ α) :=
  of_run fun s => by simp

theorem fault (x : φ) : ReportsIf P R (Program.fault x : Program σ ε φ α) :=
  of_run fun s => by simp

theorem of_reports {f : Program σ ε φ α} (hf : Reports P f) : ReportsIf P R f :=
  fun s a s' t h _ => hf s a s' t h trivial

/-- Sequencing, where of the first part only those values matter that the
second part can go on with. -/
theorem bind_of {f : Program σ ε φ α} {g : α → Program σ ε φ β} {R : β → Prop} {Q : α → Prop}
    (hf : ReportsIf P Q f) (hg : ∀ a, ReportsIf P R (g a))
    (hQ : ∀ a s b s' t, (g a).run s = ⟨.ok b, s', t⟩ → R b → Q a) : ReportsIf P R (f >>= g) := by
  intro s b s' t h hb e he
  obtain ⟨a, s₁, t₁, t₂, h₁, h₂, rfl⟩ := Program.run_bind_inv h
  cases List.mem_append.mp he with
  | inl he => exact hf s a s₁ t₁ h₁ (hQ a s₁ b s' t₂ h₂ hb) e he
  | inr he => exact hg a s₁ b s' t₂ h₂ hb e he

theorem bind {f : Program σ ε φ α} {g : α → Program σ ε φ β} {R : β → Prop} (hf : Reports P f)
    (hg : ∀ a, ReportsIf P R (g a)) : ReportsIf P R (f >>= g) :=
  bind_of hf hg fun _ _ _ _ _ _ _ => trivial

theorem ite {c : Prop} [Decidable c] {f g : Program σ ε φ α} (hf : c → ReportsIf P R f)
    (hg : ¬ c → ReportsIf P R g) : ReportsIf P R (if c then f else g) := by
  split
  · exact hf ‹_›
  · exact hg ‹_›

end ReportsIf

theorem Reports.loop {body : Nat → Program σ ε φ Unit} (hb : ∀ i, Reports P (body i)) (n : Nat) :
    ∀ i, Reports P (Program.loop body i n) := by
  induction n with
  | zero => exact fun i => .pure ()
  | succ n ih => exact fun i => .bind (hb i) fun _ => ih (i + 1)

namespace Keeps

theorem pure (a : α) : Keeps K (pure a : Program σ ε φ α) := fun _ h => h

theorem fault (x : φ) : Keeps K (Program.fault x : Program σ ε φ α) := fun _ h => h

theorem emit (e : ε) : Keeps K (Program.emit e : Program σ ε φ Unit) := fun _ h => h

theorem bind {f : Program σ ε φ α} {g : α → Program σ ε φ β} (hf : Keeps K f)
    (hg : ∀ a, Keeps K (g a)) : Keeps K (f >>= g) := by
  intro s hs
  have h := hf s hs
  rcases hr : f.run s with ⟨r, s', t⟩
  rw [hr] at h
  cases r with
  | error x =>
    rw [Program.run_bind_error hr]
    exact h
  | ok a =>
    rw [Program.run_bind_ok hr]
    exact hg a s' h

theorem ite {c : Prop} [Decidable c] {f g : Program σ ε φ α} (hf : Keeps K f) (hg : Keeps K g) :
    Keeps K (if c then f else g) := by
  split
  · exact hf
  · exact hg

theorem loop {body : Nat → Program σ ε φ Unit} (hb : ∀ i, Keeps K (body i)) (n : Nat) :
    ∀ i, Keeps K (Program.loop body i n) := by
  induction n with
  | zero => exact fun i => pure ()
  | succ n ih => exact fun i => bind (hb i) fun _ => ih (i + 1)

end Keeps

end Runs

/-! ## Specifications -/

section Spec

variable {σ ε φ α β : Type} {A I : ε → Prop}

/-- `f` from `s` returns with `Q`, as long as every event it reports is
allowed by `A`; and every event it reports satisfies `I`. -/
def Spec (A I : ε → Prop) (f : Program σ ε φ α) (s : σ) (Q : α → σ → Prop) : Prop :=
  (∀ e ∈ (f.run s).trace, A e) →
    (∃ a, (f.run s).result = .ok a ∧ Q a (f.run s).state) ∧ ∀ e ∈ (f.run s).trace, I e

namespace Spec

/-- A run whose outcome is known. -/
theorem of_run {f : Program σ ε φ α} {s s' : σ} {Q : α → σ → Prop} {a : α} {t : List ε}
    (h : f.run s = ⟨.ok a, s', t⟩) (hI : (∀ e ∈ t, A e) → ∀ e ∈ t, I e) (hQ : Q a s') :
    Spec A I f s Q := by
  intro hA
  rw [h] at hA ⊢
  exact ⟨⟨a, rfl, hQ⟩, hI hA⟩

/-- What a specification says about a run that returned. -/
theorem elim {f : Program σ ε φ α} {s s' : σ} {Q : α → σ → Prop} {a : α} {t : List ε}
    (hf : Spec A I f s Q) (h : f.run s = ⟨.ok a, s', t⟩) (hA : ∀ e ∈ t, A e) :
    Q a s' ∧ ∀ e ∈ t, I e := by
  unfold Spec at hf
  rw [h] at hf
  obtain ⟨⟨b, hb, hQ⟩, hI⟩ := hf hA
  cases hb
  exact ⟨hQ, hI⟩

protected theorem pure {a : α} {s : σ} {Q : α → σ → Prop} (hQ : Q a s) :
    Spec A I (pure a : Program σ ε φ α) s Q :=
  of_run rfl (by simp) hQ

/-- Sequencing: the second part is specified from wherever the first ends. -/
protected theorem bind {f : Program σ ε φ α} {g : α → Program σ ε φ β} {s : σ}
    {Q : α → σ → Prop} {R : β → σ → Prop} (hf : Spec A I f s Q)
    (hg : ∀ a s', Q a s' → Spec A I (g a) s' R) : Spec A I (f >>= g) s R := by
  intro hA
  rcases hr : f.run s with ⟨r, s₁, t₁⟩
  cases r with
  | error e =>
    rw [Program.run_bind_error hr] at hA ⊢
    unfold Spec at hf
    rw [hr] at hf
    obtain ⟨⟨b, hb, -⟩, -⟩ := hf hA
    cases hb
  | ok a =>
    rw [Program.run_bind_ok hr] at hA ⊢
    have hA₁ : ∀ e ∈ t₁, A e := fun e he => hA e (List.mem_append_left _ he)
    have hA₂ : ∀ e ∈ ((g a).run s₁).trace, A e := fun e he => hA e (List.mem_append_right _ he)
    obtain ⟨hQ, hI₁⟩ := hf.elim hr hA₁
    obtain ⟨hres, hI₂⟩ := hg a s₁ hQ hA₂
    refine ⟨hres, fun e he => ?_⟩
    rcases List.mem_append.mp he with he | he
    · exact hI₁ e he
    · exact hI₂ e he

/-- What a program leaves does not depend on the result given for it. -/
theorem of_bind_pure {f : Program σ ε φ α} {s : σ} {b : β} {Q : σ → Prop}
    (hf : Spec A I (f >>= fun _ => pure b) s fun _ => Q) : Spec A I f s fun _ => Q := by
  unfold Spec at hf ⊢
  rcases hr : f.run s with ⟨r, s₁, t₁⟩
  cases r with
  | error e =>
    rw [Program.run_bind_error hr] at hf
    intro hA
    obtain ⟨⟨_, hres, -⟩, -⟩ := hf hA
    cases hres
  | ok a =>
    rw [Program.run_bind hr (Program.run_pure b s₁), List.append_nil] at hf
    intro hA
    obtain ⟨⟨_, -, hQ⟩, hI⟩ := hf hA
    exact ⟨⟨a, rfl, hQ⟩, hI⟩

/-- Weaken the postcondition. -/
theorem mono {f : Program σ ε φ α} {s : σ} {Q R : α → σ → Prop} (hf : Spec A I f s Q)
    (hQR : ∀ a s', Q a s' → R a s') : Spec A I f s R := by
  intro hA
  obtain ⟨⟨a, ha, hQ⟩, hI⟩ := hf hA
  exact ⟨⟨a, ha, hQR _ _ hQ⟩, hI⟩

/-- Weaken what is said of the events. -/
theorem weaken {J : ε → Prop} {f : Program σ ε φ α} {s : σ} {Q : α → σ → Prop}
    (hf : Spec A I f s Q) (hIJ : ∀ e, I e → J e) : Spec A J f s Q := by
  intro hA
  obtain ⟨hres, hI⟩ := hf hA
  exact ⟨hres, fun e he => hIJ e (hI e he)⟩

/-- A loop keeps an invariant that each round passes on. -/
theorem loop {body : Nat → Program σ ε φ Unit} {P : Nat → σ → Prop} (n : Nat) :
    ∀ (i : Nat) (s : σ), P i s →
      (∀ j s, i ≤ j → j < i + n → P j s → Spec A I (body j) s fun _ s' => P (j + 1) s') →
      Spec A I (Program.loop body i n) s fun _ s' => P (i + n) s' := by
  induction n with
  | zero => intro i s hP _; exact Spec.pure hP
  | succ n ih =>
    intro i s hP hbody
    refine Spec.bind (hbody i s (by omega) (by omega) hP) fun _ s₁ h₁ => ?_
    have h := ih (i + 1) s₁ h₁ fun j s hj hj' => hbody j s (by omega) (by omega)
    rwa [show i + 1 + n = i + (n + 1) by omega] at h

/-- Two specifications of one program. -/
protected theorem and {J : ε → Prop} {f : Program σ ε φ α} {s : σ} {Q R : α → σ → Prop}
    (hf : Spec A I f s Q) (hf' : Spec A J f s R) : Spec A I f s fun a s' => Q a s' ∧ R a s' := by
  intro hA
  obtain ⟨⟨a, ha, hQ⟩, hI⟩ := hf hA
  obtain ⟨⟨b, hb, hR⟩, -⟩ := hf' hA
  obtain rfl : a = b := Except.ok.inj (ha.symm.trans hb)
  exact ⟨⟨a, ha, hQ, hR⟩, hI⟩

/-- A specification of a program is one of every program that runs like it. -/
theorem of_run_eq {f g : Program σ ε φ α} {s : σ} {Q : α → σ → Prop} (hf : Spec A I f s Q)
    (h : g.run s = f.run s) : Spec A I g s Q := by
  unfold Spec at hf ⊢
  rwa [h]

/-- A specification also says which run it is about. -/
theorem with_run {f : Program σ ε φ α} {s : σ} {Q : α → σ → Prop} (hf : Spec A I f s Q) :
    Spec A I f s fun a s' => Q a s' ∧ ∃ t, f.run s = ⟨.ok a, s', t⟩ ∧ ∀ e ∈ t, A e := by
  intro hA
  obtain ⟨⟨a, ha, hQ⟩, hI⟩ := hf hA
  exact ⟨⟨a, ha, hQ, (f.run s).trace, by rw [← ha], hA⟩, hI⟩

/-- A loop keeps an invariant that each round passes on from the state the
rounds before it reached. -/
theorem loop_reached {body : Nat → Program σ ε φ Unit} {P : Nat → σ → Prop} {i : Nat} {s : σ}
    (n : Nat) (hP : P i s)
    (hbody : ∀ j s' t, j < n → (Program.loop body i j).run s = ⟨.ok (), s', t⟩ → P (i + j) s' →
      Spec A I (body (i + j)) s' fun _ s'' => P (i + j + 1) s'') :
    Spec A I (Program.loop body i n) s fun _ s' => P (i + n) s' := by
  induction n with
  | zero => exact Spec.pure hP
  | succ n ih =>
    rw [Program.loop_succ]
    refine Spec.bind (ih fun j s' t hj => hbody j s' t (by omega)).with_run ?_
    rintro _ s' ⟨h', t, ht, -⟩
    exact hbody n s' t (by omega) ht h'

end Spec

end Spec

end FastAlloc.Lib
