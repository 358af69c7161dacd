/-
FastAlloc.Model.Rules — the specification rules of the primitive steps.

Each rule runs one step at the head of a program and leaves the rest. The
rules speak of stores only through `onStore I`: every memory the program
stores satisfies `I`.
-/
import FastAlloc.Model.State

namespace FastAlloc

open Lib

/-- What `I` says of memories, said of the memories a program stores. -/
def onStore (I : Mem → Prop) : Event → Prop
  | .store m => I m
  | _ => True

/-- An object's address that the library can dereference, as arithmetic. -/
theorem valid_of_lt {p : Nat} (h0 : p ≠ NULL) (h : p < 2 ^ 47) : Valid p :=
  ⟨h0, fun hf => absurd (hf ▸ h) (by decide)⟩

theorem run_load {α : Type} {p : Nat} {f : Mem → α} {s : State} (h : Valid p) :
    (load p f).run s = ⟨.ok (f s.mem), s, []⟩ := if_pos h

theorem run_load_of_not {α : Type} {p : Nat} {f : Mem → α} {s : State} (h : ¬ Valid p) :
    (load p f).run s = ⟨.error .segfault, s, []⟩ := if_neg h

theorem run_load_inv {α : Type} {p : Nat} {f : Mem → α} {s s' : State} {a : α} {t : List Event}
    (h : (load p f).run s = ⟨.ok a, s', t⟩) : Valid p ∧ f s.mem = a ∧ s = s' ∧ [] = t := by
  by_cases hp : Valid p
  · rw [run_load hp] at h
    cases h
    exact ⟨hp, rfl, rfl, rfl⟩
  · rw [run_load_of_not hp] at h
    cases h

theorem run_store {p : Nat} {f : Mem → Mem} {s : State} (h : Valid p) :
    (store p f).run s = ⟨.ok (), s.setMem (f s.mem), [.store (f s.mem)]⟩ := if_pos h

theorem run_global {α : Type} {f : State → α} {s : State} :
    (global f).run s = ⟨.ok (f s), s, []⟩ := rfl

theorem run_setGlobal {f : State → State} {s : State} :
    (setGlobal f).run s = ⟨.ok (), f s, []⟩ := rfl

theorem run_store_of_not {p : Nat} {f : Mem → Mem} {s : State} (h : ¬ Valid p) :
    (store p f).run s = ⟨.error .segfault, s, []⟩ := if_neg h

theorem run_memsetL2 {p : Nat} {s : State} (h : Valid p) :
    (memsetL2 p).run s = ⟨.ok (), s.setMem (s.mem.clearL2 p (l2Size + 1)),
      (List.range (l2Size + 1)).map fun i => .store (s.mem.clearL2 p (i + 1))⟩ := if_pos h

theorem run_memsetL2_of_not {p : Nat} {s : State} (h : ¬ Valid p) :
    (memsetL2 p).run s = ⟨.error .segfault, s, []⟩ := if_neg h

theorem run_memsetL3 {p : Nat} {s : State} (h : Valid p) :
    (memsetL3 p).run s = ⟨.ok (), s.setMem (s.mem.clearL3 p (l3Size + 1)),
      (List.range (l3Size + 1)).map fun i => .store (s.mem.clearL3 p (i + 1))⟩ := if_pos h

theorem run_memsetL3_of_not {p : Nat} {s : State} (h : ¬ Valid p) :
    (memsetL3 p).run s = ⟨.error .segfault, s, []⟩ := if_neg h

theorem run_store_inv {p : Nat} {f : Mem → Mem} {s s' : State} {a : Unit} {t : List Event}
    (h : (store p f).run s = ⟨.ok a, s', t⟩) : s' = s.setMem (f s.mem) := by
  by_cases hp : Valid p
  · rw [run_store hp] at h
    cases h
    rfl
  · rw [run_store_of_not hp] at h
    cases h

/-- The stores of a `memset` are no failures. -/
theorem mapped_stores (f : Nat → Mem) (n : Nat) :
    ∀ e ∈ (List.range n).map fun i => Event.store (f i), e.Mapped := by
  intro e he
  obtain ⟨i, -, rfl⟩ := List.mem_map.mp he
  trivial

theorem not_valid_null : ¬ Valid NULL := fun h => h.1 rfl

/-! ## What stays where it is -/

section

variable {α : Type} {p : Nat}

theorem keeps_load {K : State → Prop} {f : Mem → α} : Keeps K (load p f) := by
  intro s hs
  by_cases hp : Valid p
  · rwa [run_load hp]
  · rwa [run_load_of_not hp]

theorem keeps_global {K : State → Prop} {f : State → α} : Keeps K (global f) := fun _ hs => hs

theorem keeps_setGlobal {K : State → Prop} {f : State → State} (h : ∀ s, K s → K (f s)) :
    Keeps K (setGlobal f) := h

theorem keeps_store {K : State → Prop} {f : Mem → Mem} (h : ∀ s, K s → K (s.setMem (f s.mem))) :
    Keeps K (store p f) := by
  intro s hs
  by_cases hp : Valid p
  · rw [run_store hp]
    exact h s hs
  · rwa [run_store_of_not hp]

end

namespace Spec

variable {A : Event → Prop} {I : Mem → Prop} {α β : Type} {p : Nat} {s : State}
  {Q : α → State → Prop}

theorem load {f : Mem → α} (h : Valid p) (hQ : Q (f s.mem) s) :
    Spec A (onStore I) (load p f) s Q :=
  Spec.of_run (run_load h) (by simp) hQ

theorem load_bind {f : Mem → β} {g : β → M α} (h : Valid p)
    (hg : Spec A (onStore I) (g (f s.mem)) s Q) : Spec A (onStore I) (FastAlloc.load p f >>= g) s Q :=
  Spec.bind (Q := fun a s' => a = f s.mem ∧ s' = s) (load h ⟨rfl, rfl⟩)
    (by rintro _ _ ⟨rfl, rfl⟩; exact hg)

theorem store {f : Mem → Mem} {Q : Unit → State → Prop} (h : Valid p) (hI : I (f s.mem))
    (hQ : Q () (s.setMem (f s.mem))) : Spec A (onStore I) (store p f) s Q :=
  Spec.of_run (run_store h) (by simpa [onStore] using fun _ => hI) hQ

theorem store_bind {f : Mem → Mem} {g : Unit → M α} (h : Valid p) (hI : I (f s.mem))
    (hg : Spec A (onStore I) (g ()) (s.setMem (f s.mem)) Q) :
    Spec A (onStore I) (FastAlloc.store p f >>= g) s Q :=
  Spec.bind (Q := fun _ s' => s' = s.setMem (f s.mem)) (store h hI rfl)
    (by rintro _ _ rfl; exact hg)

theorem global_bind {f : State → β} {g : β → M α} (hg : Spec A (onStore I) (g (f s)) s Q) :
    Spec A (onStore I) (global f >>= g) s Q :=
  Spec.bind (Q := fun a s' => a = f s ∧ s' = s) (Spec.of_run rfl (by simp) ⟨rfl, rfl⟩)
    (by rintro _ _ ⟨rfl, rfl⟩; exact hg)

theorem setGlobal {f : State → State} {Q : Unit → State → Prop} (hQ : Q () (f s)) :
    Spec A (onStore I) (setGlobal f) s Q :=
  Spec.of_run rfl (by simp) hQ

theorem setGlobal_bind {f : State → State} {g : Unit → M α}
    (hg : Spec A (onStore I) (g ()) (f s) Q) :
    Spec A (onStore I) (FastAlloc.setGlobal f >>= g) s Q :=
  Spec.bind (Q := fun _ s' => s' = f s) (setGlobal rfl) (by rintro _ _ rfl; exact hg)

theorem pure_bind {a : β} {g : β → M α} (hg : Spec A (onStore I) (g a) s Q) :
    Spec A (onStore I) ((pure a : M β) >>= g) s Q :=
  Spec.bind (Q := fun b s' => b = a ∧ s' = s) (Spec.pure ⟨rfl, rfl⟩)
    (by rintro _ _ ⟨rfl, rfl⟩; exact hg)

theorem assert_bind {P : Prop} [Decidable P] {g : Unit → M α} (hP : P)
    (hg : Spec A (onStore I) (g ()) s Q) : Spec A (onStore I) (assertThat P >>= g) s Q := by
  rw [assertThat, if_pos hP]
  exact pure_bind hg

/-- An `mmap` that may not fail returns a fresh region. -/
theorem mmap_bind {pf : Platform} {site : Site} {len : Nat} {g : Nat → M α}
    (hA : ¬ A (.mmapFailed site))
    (hg : ∀ a, pf.FreshRegion s.maps ⟨a, len, site⟩ →
      Spec A (onStore I) (g a) (s.mapped ⟨a, len, site⟩) Q) :
    Spec A (onStore I) (mmap pf site len >>= g) s Q := by
  by_cases hr : pf.FreshRegion s.maps ⟨s.proposals s.calls, len, site⟩
  · refine Spec.bind (Q := fun a s' => pf.FreshRegion s.maps ⟨a, len, site⟩ ∧
      s' = s.mapped ⟨a, len, site⟩) (Spec.of_run (if_pos hr) (by simp) ⟨hr, rfl⟩) ?_
    rintro a _ ⟨hr, rfl⟩
    exact hg a hr
  · intro hall
    have hrun : (mmap pf site len).run s
        = ⟨.ok MAP_FAILED, { s with calls := s.calls + 1 }, [.mmapFailed site]⟩ := if_neg hr
    rw [Program.run_bind_ok hrun] at hall
    exact absurd (hall _ (List.mem_cons_self ..)) hA

/-- A branch on a condition. -/
theorem ite {c : Prop} [Decidable c] {f g : M α} (hf : c → Spec A (onStore I) f s Q)
    (hg : ¬ c → Spec A (onStore I) g s Q) : Spec A (onStore I) (if c then f else g) s Q := by
  split
  · exact hf ‹_›
  · exact hg ‹_›

theorem emit_bind {e : Event} {g : Unit → M α} (he : A e → onStore I e)
    (hg : Spec A (onStore I) (g ()) s Q) :
    Spec A (onStore I) ((Program.emit e : M Unit) >>= g) s Q :=
  Spec.bind (Q := fun _ s' => s = s')
    (Spec.of_run (Program.run_emit e s) (by simpa using he) rfl) (by rintro _ _ rfl; exact hg)

/-- Nothing is asked of what follows an event that is not allowed. -/
theorem emit_bind_of_not {e : Event} {g : Unit → M α} (he : ¬ A e) :
    Spec A (onStore I) ((Program.emit e : M Unit) >>= g) s Q := by
  intro hall
  rw [Program.run_bind_ok (Program.run_emit e s)] at hall
  exact absurd (hall e List.mem_cons_self) he

/-- `memset` of an L3 node, seen word by word. -/
theorem memsetL3_bind {g : Unit → M α} (h : Valid p)
    (hI : ∀ n, I (s.mem.clearL3 p n))
    (hg : Spec A (onStore I) (g ()) (s.setMem (s.mem.clearL3 p (l3Size + 1))) Q) :
    Spec A (onStore I) (memsetL3 p >>= g) s Q := by
  refine Spec.bind (Q := fun _ s' => s' = s.setMem (s.mem.clearL3 p (l3Size + 1)))
    (Spec.of_run (run_memsetL3 h) (fun _ e he => ?_) rfl) (by rintro _ _ rfl; exact hg)
  obtain ⟨i, -, rfl⟩ := List.mem_map.mp he
  exact hI _

theorem memsetL2 {Q : Unit → State → Prop} (h : Valid p) (hI : ∀ n, I (s.mem.clearL2 p n))
    (hQ : Q () (s.setMem (s.mem.clearL2 p (l2Size + 1)))) :
    Spec A (onStore I) (memsetL2 p) s Q := by
  refine Spec.of_run (run_memsetL2 h) (fun _ e he => ?_) hQ
  obtain ⟨i, -, rfl⟩ := List.mem_map.mp he
  exact hI _

end Spec

end FastAlloc
