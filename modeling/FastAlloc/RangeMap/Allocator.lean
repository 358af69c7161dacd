/-
FastAlloc.RangeMap.Allocator — what a range map needs of the arena.

A `NodeAllocator` returns nodes that are not handed out, with arbitrary
contents, takes them back, and leaves the objects handed out alone, also at
every store on the way. The specifications of `cmalloc_map` and
`cmalloc_unmap` are proved for any of them; the library's own arena is one.
-/
import FastAlloc.RangeMap.Write

namespace FastAlloc

open Lib Mem

/-- A size the range map asks its allocator for, once it has a root. -/
def IsNodeSize (sz : Nat) : Prop := sz = sizeofL2Node ∨ sz = sizeofL3Node

/-- An allocator of trie nodes. `out g a` is the size of the object handed
out at `a` in ghost state `g`; `Rel` is whatever else its calls respect. -/
structure NodeAllocator (A : Event → Prop) where
  alloc : Nat → M Nat
  free : Nat → Nat → M Unit
  Ghost : Type
  Inv : State → Ghost → Prop
  out : Ghost → Nat → Option Nat
  Rel : State → State → Prop
  rel_refl : ∀ s, Rel s s
  rel_trans : ∀ {s₁ s₂ s₃}, Rel s₁ s₂ → Rel s₂ s₃ → Rel s₁ s₃
  valid : ∀ {s g a}, Inv s g → out g a ≠ none → Valid a
  alloc_spec : ∀ {s g sz} {I : Mem → Prop}, Inv s g → IsNodeSize sz →
    (∀ m', Agree (out g) s.mem m' → I m') →
    Spec A (onStore I) (alloc sz) s fun a s' => ∃ g', Inv s' g' ∧ out g a = none ∧
      out g' = Function.update (out g) a (some sz) ∧ Agree (out g) s.mem s'.mem ∧ Rel s s'
  free_spec : ∀ {s g a sz} {I : Mem → Prop}, Inv s g → IsNodeSize sz → out g a = some sz →
    (∀ m', Agree (Function.update (out g) a none) s.mem m' → I m') →
    Spec A (onStore I) (free a sz) s fun _ s' => ∃ g', Inv s' g' ∧
      out g' = Function.update (out g) a none ∧ Agree (out g') s.mem s'.mem ∧ Rel s s'
  frame : ∀ {s g m'}, Inv s g → (∀ a, out g a = none → s.mem.AgreeAt m' a) →
    m'.metaChunk = s.mem.metaChunk → Inv (s.setMem m') g ∧ Rel s (s.setMem m')

namespace NodeAllocator

variable {A : Event → Prop} {N : NodeAllocator A} {s s₁ s₂ s₃ : State} {g g₁ g₂ g₃ : N.Ghost}
  {a sz : Nat}

theorem validPath {R : Nat → Nat → Prop} {r key : Nat} (hi : N.Inv s g)
    (h : Trie R (N.out g) s.mem r) : s.mem.ValidPath r key :=
  h.validPath fun _ => N.valid hi

/-- How a range-map operation moves the allocator and the rest of the
state: only trie nodes come and go, and only they are written. -/
structure Moves (N : NodeAllocator A) (s : State) (g : N.Ghost) (s' : State) (g' : N.Ghost) :
    Prop where
  inv : N.Inv s' g'
  kept : ∀ a sz, N.out g a = some sz → ¬ IsNodeSize sz → N.out g' a = some sz
  new : ∀ a sz, N.out g' a = some sz → N.out g a = some sz ∨ IsNodeSize sz
  data : ∀ a sz, N.out g a = some sz → ¬ IsNodeSize sz →
    s'.mem.span a = s.mem.span a ∧ s'.mem.dataChunk a = s.mem.dataChunk a
  rel : N.Rel s s'

theorem Moves.refl (h : N.Inv s g) : N.Moves s g s g :=
  ⟨h, fun _ _ h _ => h, fun _ _ h => .inl h, fun _ _ _ _ => ⟨rfl, rfl⟩, N.rel_refl s⟩

theorem Moves.trans (h : N.Moves s₁ g₁ s₂ g₂) (h' : N.Moves s₂ g₂ s₃ g₃) :
    N.Moves s₁ g₁ s₃ g₃ where
  inv := h'.inv
  kept a sz ha hsz := h'.kept a sz (h.kept a sz ha hsz) hsz
  new a sz ha := by
    rcases h'.new a sz ha with ha | hsz
    · exact h.new a sz ha
    · exact .inr hsz
  data a sz ha hsz := by
    have h₁ := h.data a sz ha hsz
    have h₂ := h'.data a sz (h.kept a sz ha hsz) hsz
    exact ⟨h₂.1.trans h₁.1, h₂.2.trans h₁.2⟩
  rel := N.rel_trans h.rel h'.rel

/-- Allocating a node is such a move. -/
theorem Moves.alloc {s' : State} {g' : N.Ghost} (hi : N.Inv s' g') (hfresh : N.out g a = none)
    (hout : N.out g' = Function.update (N.out g) a (some sz)) (hsz : IsNodeSize sz)
    (hag : Agree (N.out g) s.mem s'.mem) (hrel : N.Rel s s') : N.Moves s g s' g' where
  inv := hi
  kept b sz' hb _ := by
    have hne : b ≠ a := by rintro rfl; rw [hfresh] at hb; simp at hb
    rw [hout, Function.update_of_ne hne, hb]
  new b sz' hb := by
    rw [hout, Function.update_apply] at hb
    split at hb
    · cases hb
      exact .inr hsz
    · exact .inl hb
  data b sz' hb _ := (hag b (by rw [hb]; simp)).2.2.2
  rel := hrel

/-- Taking a node back is such a move. -/
theorem Moves.free {s' : State} {g' : N.Ghost} (hi : N.Inv s' g') (ha : N.out g a = some sz)
    (hout : N.out g' = Function.update (N.out g) a none) (hsz : IsNodeSize sz)
    (hag : Agree (N.out g') s.mem s'.mem) (hrel : N.Rel s s') : N.Moves s g s' g' where
  inv := hi
  kept b sz' hb hsz' := by
    have hne : b ≠ a := by
      rintro rfl
      rw [ha] at hb
      cases hb
      exact hsz' hsz
    rw [hout, Function.update_of_ne hne, hb]
  new b sz' hb := by
    rw [hout, Function.update_apply] at hb
    split at hb
    · simp at hb
    · exact .inl hb
  data b sz' hb hsz' := by
    have hne : b ≠ a := by
      rintro rfl
      rw [ha] at hb
      cases hb
      exact hsz' hsz
    exact (hag b (by rw [hout, Function.update_of_ne hne, hb]; simp)).2.2.2
  rel := hrel

/-- Writing in objects handed out, with all spans and data chunks kept, is
such a move. -/
theorem Moves.write {m' : Mem} (h : N.Inv s g)
    (hag : ∀ a, N.out g a = none → s.mem.AgreeAt m' a) (hmc : m'.metaChunk = s.mem.metaChunk)
    (hsp : m'.span = s.mem.span) (hdc : m'.dataChunk = s.mem.dataChunk) :
    N.Moves s g (s.setMem m') g where
  inv := (N.frame h hag hmc).1
  kept _ _ h _ := h
  new _ _ h := .inl h
  data a _ _ _ := ⟨congrFun hsp a, congrFun hdc a⟩
  rel := (N.frame h hag hmc).2

end NodeAllocator

/-! ## Single writes and the objects they miss -/

namespace Mem

variable {m m' : Mem} {p a : Nat} {i v r key : Nat}

theorem agreeAt_setL1 (h : a ≠ p) : m.AgreeAt (m.setL1 p i v) a :=
  ⟨by simp [Mem.setL1, h], rfl, rfl, rfl, rfl⟩

theorem agreeAt_setL2 (h : a ≠ p) : m.AgreeAt (m.setL2 p i v) a :=
  ⟨rfl, by simp [Mem.setL2, h], rfl, rfl, rfl⟩

theorem agreeAt_setL2Count (h : a ≠ p) : m.AgreeAt (m.setL2Count p v) a :=
  ⟨rfl, by simp [Mem.setL2Count, h], rfl, rfl, rfl⟩

theorem agreeAt_clearL2 {n : Nat} (h : a ≠ p) : m.AgreeAt (m.clearL2 p n) a :=
  ⟨rfl, by simp [Mem.clearL2, h], rfl, rfl, rfl⟩

theorem agreeAt_clearL3 {n : Nat} (h : a ≠ p) : m.AgreeAt (m.clearL3 p n) a :=
  ⟨rfl, rfl, by simp [Mem.clearL3, h], rfl, rfl⟩

theorem agreeAt_putL3 {n : L3Node} (h : a ≠ p) : m.AgreeAt (m.putL3 p n) a :=
  ⟨rfl, rfl, by simp [Mem.putL3, h], rfl, rfl⟩

theorem agreeAt_linkL2 (hr : a ≠ r) (hp : a ≠ p) : m.AgreeAt (m.linkL2 r key p) a :=
  (agreeAt_setL1 hr).trans (agreeAt_clearL2 hp)

theorem agreeAt_linkL3 (h2 : a ≠ m.l2Of r key) (hp : a ≠ p) : m.AgreeAt (m.linkL3 r key p) a :=
  ((agreeAt_setL2 h2).trans (agreeAt_clearL3 hp)).trans (agreeAt_setL2Count h2)

theorem agreeAt_unlinkL3 (h2 : a ≠ m.l2Of r key) : m.AgreeAt (m.unlinkL3 r key) a :=
  (agreeAt_setL2 h2).trans (agreeAt_setL2Count h2)

end Mem

theorem ne_of_out_none {out : Nat → Option Nat} {a p sz : Nat} (ha : out a = none)
    (hp : out p = some sz) : a ≠ p := by
  rintro rfl
  rw [ha] at hp
  simp at hp

end FastAlloc
