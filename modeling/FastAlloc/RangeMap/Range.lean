/-
FastAlloc.RangeMap.Range — `cmalloc_map_range` and `cmalloc_unmap_range`.

Both are loops of one call a key. What a whole loop does to the map is what
its calls do, one key further at a time (`RangeMapped`, `RangeUnmapped`).
-/
import FastAlloc.RangeMap.Unmap

namespace FastAlloc

open Lib Mem

/-- A key the map cannot tell from one of `[start, stop)`. -/
def InRange (start stop k : Nat) : Prop := ∃ i, start ≤ i ∧ i < stop ∧ SameKey k i

theorem not_inRange_self (start k : Nat) : ¬ InRange start start k := by
  rintro ⟨i, h₁, h₂, -⟩
  omega

theorem inRange_succ {start j k : Nat} (hj : start ≤ j) :
    InRange start (j + 1) k ↔ InRange start j k ∨ SameKey k j := by
  constructor
  · rintro ⟨i, h₁, h₂, h₃⟩
    rcases Nat.lt_succ_iff_lt_or_eq.mp h₂ with h | rfl
    · exact .inl ⟨i, h₁, h, h₃⟩
    · exact .inr h₃
  · rintro (⟨i, h₁, h₂, h₃⟩ | h)
    · exact ⟨i, h₁, by omega, h₃⟩
    · exact ⟨j, hj, by omega, h⟩

/-- For keys that fit in 35 bits a range is the interval itself. -/
theorem inRange_iff {start stop k : Nat} (hstop : stop ≤ 2 ^ 35) (hk : k < 2 ^ 35) :
    InRange start stop k ↔ start ≤ k ∧ k < stop := by
  constructor
  · rintro ⟨i, h₁, h₂, h₃⟩
    obtain rfl := h₃.eq hk (by omega)
    exact ⟨h₁, h₂⟩
  · rintro ⟨h₁, h₂⟩
    exact ⟨k, h₁, h₂, rfl⟩

/-- Every key outside the range that is mapped in `m` is found the same way
in `m'`. -/
def Mem.KeepsOutside (r start stop : Nat) (m m' : Mem) : Prop :=
  ∀ k, ¬ InRange start stop k → m.lookup r k ≠ NULL → SamePath r k m m'

section

variable {A : Event → Prop} {N : NodeAllocator A} {R : Nat → Nat → Prop} {I : Mem → Prop}
  {s : State} {g : N.Ghost} {r value start : Nat}

theorem Mem.KeepsOutside.step {m m₁ m' : Mem} {j n : Nat} (hj : start ≤ j) (hn : j < n)
    (h : KeepsOutside r start j m m₁) (h' : KeepsOthers r j m₁ m') :
    KeepsOutside r start n m m' := fun k hk hne => by
  have hs : ¬ SameKey k j := fun hs => hk ⟨j, hj, hn, hs⟩
  have h₁ := h k (fun ⟨i, h₁, h₂, h₃⟩ => hk ⟨i, h₁, by omega, h₃⟩) hne
  exact h₁.trans (h' k hs (by rwa [h₁.lookup]))

/-- What mapping the keys of `[start, stop)` does. -/
structure RangeMapped (N : NodeAllocator A) (R : Nat → Nat → Prop) (r value start stop : Nat)
    (s : State) (g : N.Ghost) (s' : State) (g' : N.Ghost) : Prop
    extends N.Moves s g s' g' where
  trie : Trie R (N.out g') s'.mem r
  keeps : KeepsOutside r start stop s.mem s'.mem
  lookup_in : ∀ k, InRange start stop k → s'.mem.lookup r k = value
  lookup_out : ∀ k, ¬ InRange start stop k → s'.mem.lookup r k = s.mem.lookup r k
  noEmptyNode : value ≠ NULL → s.mem.NoEmptyNode r → s'.mem.NoEmptyNode r

theorem RangeMapped.refl (hi : N.Inv s g) (h : Trie R (N.out g) s.mem r) :
    RangeMapped N R r value start start s g s g where
  toMoves := .refl hi
  trie := h
  keeps _ _ _ := .refl _ _ _
  lookup_in _ hk := absurd hk (not_inRange_self _ _)
  lookup_out _ _ := rfl
  noEmptyNode _ h := h

/-- One key further. -/
theorem RangeMapped.step {s₁ s₂ : State} {g₁ g₂ : N.Ghost} {j : Nat} (hj : start ≤ j)
    (h : RangeMapped N R r value start j s g s₁ g₁) (h' : Mapped N R r j value s₁ g₁ s₂ g₂) :
    RangeMapped N R r value start (j + 1) s g s₂ g₂ where
  toMoves := h.toMoves.trans h'.toMoves
  trie := h'.trie
  keeps := h.keeps.step hj (by omega) h'.keeps
  lookup_in k hk := by
    rw [h'.lookup_eq]
    split
    · rfl
    · rcases (inRange_succ hj).mp hk with hk | hk
      · exact h.lookup_in k hk
      · contradiction
  lookup_out k hk := by
    rw [inRange_succ hj] at hk
    rw [h'.lookup_eq, if_neg fun hs => hk (.inr hs)]
    exact h.lookup_out k fun hs => hk (.inl hs)
  noEmptyNode hv hne := h'.noEmptyNode hv (h.noEmptyNode hv hne)

theorem cmallocMapRangeWith_spec {n : Nat} (hi : N.Inv s g) (h : Trie R (N.out g) s.mem r)
    (hR0 : R 0 0)
    (hR : ∀ j s' t, j < n →
      (cmallocMapRangeWith N.alloc r value start (start + j)).run s = ⟨.ok (), s', t⟩ →
      CountsMap R (s'.mem.lookup r (start + j)) value (s'.mem.leafCount r (start + j)))
    (hI : ∀ m', KeepsOutside r start (start + n) s.mem m' → I m') :
    Spec A (onStore I) (cmallocMapRangeWith N.alloc r value start (start + n)) s
      fun _ s' => ∃ g', RangeMapped N R r value start (start + n) s g s' g' := by
  unfold cmallocMapRangeWith
  rw [Nat.add_sub_cancel_left]
  refine Spec.loop_reached (P := fun j s' => ∃ g', RangeMapped N R r value start j s g s' g') n
    ⟨g, .refl hi h⟩ ?_
  rintro j s₁ t hj ht ⟨g₁, h₁⟩
  have hcount := hR j s₁ t hj (by rwa [cmallocMapRangeWith, Nat.add_sub_cancel_left])
  refine (cmallocMapWith_spec h₁.inv h₁.trie hR0 hcount fun m' hm =>
    hI m' (h₁.keeps.step (by omega) (by omega) hm)).mono ?_
  rintro _ s₂ ⟨g₂, h₂⟩
  exact ⟨g₂, h₁.step (by omega) h₂⟩

/-- What unmapping the keys of `[start, stop)` does. -/
structure RangeUnmapped (N : NodeAllocator A) (R : Nat → Nat → Prop) (r start stop : Nat)
    (s : State) (g : N.Ghost) (s' : State) (g' : N.Ghost) : Prop
    extends N.Moves s g s' g' where
  trie : Trie R (N.out g') s'.mem r
  keeps : KeepsOutside r start stop s.mem s'.mem
  lookup_in : ∀ k, InRange start stop k → s'.mem.lookup r k = NULL
  lookup_out : ∀ k, ¬ InRange start stop k → s'.mem.lookup r k = s.mem.lookup r k
  noEmptyNode : (∀ c, R 0 c → c = 0) → s.mem.NoEmptyNode r → s'.mem.NoEmptyNode r

theorem RangeUnmapped.refl (hi : N.Inv s g) (h : Trie R (N.out g) s.mem r) :
    RangeUnmapped N R r start start s g s g where
  toMoves := .refl hi
  trie := h
  keeps _ _ _ := .refl _ _ _
  lookup_in _ hk := absurd hk (not_inRange_self _ _)
  lookup_out _ _ := rfl
  noEmptyNode _ h := h

/-- One key further. -/
theorem RangeUnmapped.step {s₁ s₂ : State} {g₁ g₂ : N.Ghost} {j : Nat} (hj : start ≤ j)
    (h : RangeUnmapped N R r start j s g s₁ g₁) (h' : Unmapped N R r j s₁ g₁ s₂ g₂) :
    RangeUnmapped N R r start (j + 1) s g s₂ g₂ where
  toMoves := h.toMoves.trans h'.toMoves
  trie := h'.trie
  keeps := h.keeps.step hj (by omega) h'.keeps
  lookup_in k hk := by
    rw [h'.lookup_eq]
    split
    · rfl
    · rcases (inRange_succ hj).mp hk with hk | hk
      · exact h.lookup_in k hk
      · contradiction
  lookup_out k hk := by
    rw [inRange_succ hj] at hk
    rw [h'.lookup_eq, if_neg fun hs => hk (.inr hs)]
    exact h.lookup_out k fun hs => hk (.inl hs)
  noEmptyNode hR hne := h'.noEmptyNode hR (h.noEmptyNode hR hne)

theorem cmallocUnmapRangeWith_spec {n : Nat} (hi : N.Inv s g) (h : Trie R (N.out g) s.mem r)
    (hR : CountsUnmap R) (hn : n ≤ 2 ^ 35)
    (hv : ∀ k, start ≤ k → k < start + n → s.mem.lookup r k ≠ NULL)
    (hI : ∀ m', KeepsOutside r start (start + n) s.mem m' → I m') :
    Spec A (onStore I) (cmallocUnmapRangeWith N.free r start (start + n)) s
      fun _ s' => ∃ g', RangeUnmapped N R r start (start + n) s g s' g' := by
  unfold cmallocUnmapRangeWith
  rw [Nat.add_sub_cancel_left]
  refine Spec.loop_reached (P := fun j s' => ∃ g', RangeUnmapped N R r start j s g s' g') n
    ⟨g, .refl hi h⟩ ?_
  rintro j s₁ t hj - ⟨g₁, h₁⟩
  -- the key is still mapped: no earlier key of the range is the same modulo 2^35
  have hfresh : ¬ InRange start (start + j) (start + j) := by
    rintro ⟨i, hi₁, hi₂, hs⟩
    rw [SameKey] at hs
    omega
  have hmapped : s₁.mem.lookup r (start + j) ≠ NULL := by
    rw [h₁.lookup_out _ hfresh]
    exact hv _ (by omega) (by omega)
  refine (cmallocUnmapWith_spec h₁.inv h₁.trie hR hmapped fun m' hm =>
    hI m' (h₁.keeps.step (by omega) (by omega) hm)).mono ?_
  rintro _ s₂ ⟨g₂, h₂⟩
  exact ⟨g₂, h₁.step (by omega) h₂⟩

end

end FastAlloc
