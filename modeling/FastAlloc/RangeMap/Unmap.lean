/-
FastAlloc.RangeMap.Unmap — `cmalloc_unmap` over any node allocator.

A node is given back while it is still linked, and unlinked right after. In
between the map holds a dangling pointer; what keeps every other key safe is
that the node given back is empty, so no mapped key's path goes through it.
-/
import FastAlloc.RangeMap.Map

namespace FastAlloc

open Lib Mem

/-- The counter condition of `cmalloc_unmap`: the relation survives the
decrement, and a counter that reaches 0 counts an empty leaf. -/
def CountsUnmap (R : Nat → Nat → Prop) : Prop :=
  ∀ n c, R (n + 1) c → R n (sizeDec c) ∧ (sizeDec c = 0 → n = 0)

/-! ## Paths that avoid a node given back -/

section

variable {out : Nat → Option Nat} {R : Nat → Nat → Prop} {m m' : Mem} {r key k p : Nat}

/-- A path all of whose nodes are kept stays. -/
theorem Mem.SamePath.of_agree (hag : Agree out m m') (hr : out r ≠ none)
    (h2 : m.l2Of r k ≠ NULL → out (m.l2Of r k) ≠ none)
    (h3 : m.l3Of r k ≠ NULL → out (m.l3Of r k) ≠ none) : SamePath r k m m' := by
  refine .of_words ?_ (fun h => ?_) fun h => ?_
  · rw [Mem.l2Of, Mem.l2Of, (hag r hr).1]
  · rw [(hag _ (h2 h)).2.1]
  · rw [(hag _ (h3 h)).2.2.1]

theorem out_of_update_none {out : Nat → Option Nat} {a p sz : Nat} (ha : out a = some sz)
    (hp : a ≠ p) : Function.update out p none a ≠ none := by
  rw [Function.update_of_ne hp, ha]
  simp

namespace Trie

/-- A mapped key keeps its path when its nodes are not the one given back. -/
theorem samePath_agree_update (h : Trie R out m r) (hr : r ≠ p)
    (h2 : m.l2Of r k ≠ NULL → m.l2Of r k ≠ p) (h3 : m.l3Of r k ≠ NULL → m.l3Of r k ≠ p)
    (hag : Agree (Function.update out p none) m m') : SamePath r k m m' :=
  .of_agree hag (out_of_update_none h.root hr)
    (fun hk => out_of_update_none (h.l2_out k hk) (h2 hk))
    (fun hk => out_of_update_none (h.l3_out k hk) (h3 hk))

/-- The root and the L2 nodes are no leaf. -/
theorem root_ne_l3Of (h : Trie R out m r) (h3 : m.l3Of r key ≠ NULL) : r ≠ m.l3Of r key := by
  intro he
  have := h.l3_out key h3
  rw [← he, h.root] at this
  exact absurd this (by decide)

theorem l2Of_ne_l3Of (h : Trie R out m r) (h2 : m.l2Of r k ≠ NULL) (h3 : m.l3Of r key ≠ NULL) :
    m.l2Of r k ≠ m.l3Of r key := by
  intro he
  have := h.l3_out key h3
  rw [← he, h.l2_out k h2] at this
  exact absurd this (by decide)

theorem root_ne_l2Of (h : Trie R out m r) (h2 : m.l2Of r key ≠ NULL) : r ≠ m.l2Of r key := by
  intro he
  have := h.l2_out key h2
  rw [← he, h.root] at this
  exact absurd this (by decide)

section Leaf

variable (h : Trie R out m r) (h3 : m.l3Of r key ≠ NULL)
  (hempty : ∀ i < l3Size, (m.l3 (m.l3Of r key)).l3 i = NULL)
  (hag : Agree (Function.update out (m.l3Of r key) none) m m')

include h hempty in
/-- No mapped key goes through an empty leaf. -/
theorem l3Of_ne_of_mapped (hk : m.lookup r k ≠ NULL) : m.l3Of r k ≠ m.l3Of r key := by
  intro he
  obtain ⟨h₁, h₂⟩ := h.l3_inj k key (l3Of_ne_of_lookup_ne hk) he
  exact hk (lookup_eq_null_of_empty hempty h₁ h₂)

include h h3 hempty hag in
/-- While an empty leaf is given back no mapping is lost. -/
theorem keepsOthers_freeL3 : KeepsOthers r key m m' := fun _ _ hk =>
  h.samePath_agree_update (h.root_ne_l3Of h3) (fun h2 => h.l2Of_ne_l3Of h2 h3)
    (fun _ => h.l3Of_ne_of_mapped hempty hk) hag

include h h3 hag in
theorem l2Of_freeL3 : m'.l2Of r k = m.l2Of r k := by
  rw [l2Of, l2Of, (hag r (out_of_update_none h.root (h.root_ne_l3Of h3))).1]

include h h3 hag in
theorem agree_setL2_freeL3 : Agree (Function.update out (m.l3Of r key) none)
    (m.setL2 (m.l2Of r key) (l2IndexOf key) NULL)
    (m'.setL2 (m.l2Of r key) (l2IndexOf key) NULL) := by
  have h2 := l2Of_ne_of_l3Of_ne h3
  intro a ha
  by_cases he : a = m.l2Of r key
  · have hl2 := hag _ (out_of_update_none (h.l2_out key h2) (h.l2Of_ne_l3Of h2 h3))
    subst he
    exact ⟨hl2.1, by simp [Mem.setL2, hl2.2.1], hl2.2.2⟩
  · have := hag a ha
    exact ⟨this.1, by simp [Mem.setL2, he, this.2.1], this.2.2⟩

include h h3 hag in
theorem agree_unlinkL3_freeL3 : Agree (Function.update out (m.l3Of r key) none)
    (m.unlinkL3 r key) (m'.unlinkL3 r key) := by
  have h2 := l2Of_ne_of_l3Of_ne h3
  have hl2 := hag _ (out_of_update_none (h.l2_out key h2) (h.l2Of_ne_l3Of h2 h3))
  have he := h.l2Of_freeL3 h3 hag (k := key)
  intro a ha
  refine ⟨(hag a ha).1, ?_, (hag a ha).2.2⟩
  by_cases hne : a = m.l2Of r key
  · rw [hne, l2_unlinkL3_self, ← he, l2_unlinkL3_self, he, hl2.2.1]
  · rw [l2_unlinkL3_of_ne hne, l2_unlinkL3_of_ne (by rwa [he]), (hag a ha).2.1]

include h h3 hempty hag in
/-- Right after the dangling leaf is unlinked, before the counter follows. -/
theorem keepsOthers_setL2_freeL3 :
    KeepsOthers r key m (m'.setL2 (m.l2Of r key) (l2IndexOf key) NULL) := by
  intro k hs hk
  have hm := h.keepsOthers_setL2_null h3 hempty k hs hk
  refine hm.trans (.of_agree (h.agree_setL2_freeL3 h3 hag)
    (out_of_update_none h.root (h.root_ne_l3Of h3)) (fun h2 => ?_) fun hl3 => ?_)
  · exact out_of_update_none (h.l2_out k h2) (h.l2Of_ne_l3Of h2 h3)
  · rw [hm.l3Of] at hl3 ⊢
    exact out_of_update_none (h.l3_out k hl3) (h.l3Of_ne_of_mapped hempty hk)

include h h3 hag in
theorem unlinkL3_freeL3 :
    Trie R (Function.update out (m.l3Of r key) none) (m'.unlinkL3 r key) r :=
  (h.unlinkL3 h3 fun a sz hne ha => by rw [Function.update_of_ne hne, ha]).agree
    (h.agree_unlinkL3_freeL3 h3 hag)

end Leaf

section Branch

variable (h : Trie R out m r) (h2 : m.l2Of r key ≠ NULL)
  (hempty : ∀ j < l2Size, (m.l2 (m.l2Of r key)).l2 j = NULL)
  (hag : Agree (Function.update out (m.l2Of r key) none) m m')

include h hempty in
/-- No mapped key goes through an empty L2 node. -/
theorem l2Of_ne_of_mapped (hk : m.lookup r k ≠ NULL) : m.l2Of r k ≠ m.l2Of r key := by
  intro he
  have h3 := l3Of_ne_of_lookup_ne hk
  exact h3 (l3Of_eq_null_of_empty hempty (h.l2_inj k key (l2Of_ne_of_l3Of_ne h3) he))

include h h2 hempty hag in
theorem keepsOthers_freeL2 : KeepsOthers r key m m' := fun _ _ hk =>
  h.samePath_agree_update (h.root_ne_l2Of h2) (fun _ => h.l2Of_ne_of_mapped hempty hk)
    (fun h3 => (h.l2Of_ne_l3Of h2 h3).symm) hag

include h h2 hag in
theorem agree_unlinkL2_freeL2 : Agree (Function.update out (m.l2Of r key) none)
    (m.unlinkL2 r key) (m'.unlinkL2 r key) := by
  have hr := hag r (out_of_update_none h.root (h.root_ne_l2Of h2))
  intro a ha
  refine ⟨?_, (hag a ha).2⟩
  by_cases hne : a = r
  · simp [Mem.unlinkL2, Mem.setL1, hne, hr.1]
  · simp [Mem.unlinkL2, Mem.setL1, hne, (hag a ha).1]

include h h2 hempty hag in
theorem keepsOthers_unlinkL2_freeL2 : KeepsOthers r key m (m'.unlinkL2 r key) := by
  intro k hs hk
  have hm := keepsOthers_unlinkL2 (m := m) hempty k hs hk
  refine hm.trans (.of_agree (h.agree_unlinkL2_freeL2 h2 hag)
    (out_of_update_none h.root (h.root_ne_l2Of h2)) (fun hl2 => ?_) fun hl3 => ?_)
  · rw [hm.l2Of] at hl2 ⊢
    exact out_of_update_none (h.l2_out k hl2) (h.l2Of_ne_of_mapped hempty hk)
  · rw [hm.l3Of] at hl3 ⊢
    exact out_of_update_none (h.l3_out k hl3) (h.l2Of_ne_l3Of h2 hl3).symm

include h h2 hempty hag in
theorem unlinkL2_freeL2 :
    Trie R (Function.update out (m.l2Of r key) none) (m'.unlinkL2 r key) r :=
  (h.unlinkL2 h2 hempty fun a sz hne ha => by rw [Function.update_of_ne hne, ha]).agree
    (h.agree_unlinkL2_freeL2 h2 hag)

end Branch

end Trie

end

/-! ## The phases of `cmalloc_unmap` -/

section

variable {A : Event → Prop} {N : NodeAllocator A} {R : Nat → Nat → Prop} {I : Mem → Prop}
  {s : State} {g : N.Ghost} {r key : Nat}

/-- What giving back empty nodes on the path of `key` does. -/
structure Dropped (N : NodeAllocator A) (R : Nat → Nat → Prop) (r key : Nat) (s : State)
    (g : N.Ghost) (s' : State) (g' : N.Ghost) : Prop extends N.Moves s g s' g' where
  trie : Trie R (N.out g') s'.mem r
  keeps : KeepsOthers r key s.mem s'.mem
  lookup_eq : ∀ k, s'.mem.lookup r k = s.mem.lookup r k

theorem Dropped.refl (hi : N.Inv s g) (h : Trie R (N.out g) s.mem r) :
    Dropped N R r key s g s g :=
  ⟨.refl hi, h, .refl _ _ _, fun _ => rfl⟩

/-- Giving back and unlinking an empty leaf. -/
theorem dropLeaf_spec {α : Type} {f : M α} {Q : α → State → Prop} {l2 l3 : Nat}
    (hi : N.Inv s g) (h : Trie R (N.out g) s.mem r) (e2 : l2 = s.mem.l2Of r key)
    (e3 : l3 = s.mem.l3Of r key) (h3 : s.mem.l3Of r key ≠ NULL)
    (hempty : ∀ i < l3Size, (s.mem.l3 (s.mem.l3Of r key)).l3 i = NULL)
    (hI : ∀ m', KeepsOthers r key s.mem m' → I m')
    (hf : ∀ s' g', Dropped N R r key s g s' g' →
      (∀ k, s'.mem.l2Of r k = s.mem.l2Of r k) →
      (∀ k, s'.mem.l3Of r k = if l1IndexOf k = l1IndexOf key ∧ l2IndexOf k = l2IndexOf key
        then NULL else s.mem.l3Of r k) → Spec A (onStore I) f s' Q) :
    Spec A (onStore I) (do
      N.free l3 sizeofL3Node
      store l2 (·.setL2 l2 (l2IndexOf key) NULL)
      let count ← load l2 fun m => (m.l2 l2).count
      store l2 (·.setL2Count l2 (sizeDec count))
      f) s Q := by
  subst e2 e3
  have h2 := l2Of_ne_of_l3Of_ne h3
  have hp : s.mem.ValidPath r key := N.validPath hi h
  have hv2 := hp.l2 h2
  refine Spec.bind (N.free_spec hi (.inr rfl) (h.l3_out key h3) fun m' ha =>
    hI m' (h.keepsOthers_freeL3 h3 hempty ha)) ?_
  rintro _ s₁ ⟨g₁, hi₁, hout, hag, hrel⟩
  have hag₁ := hag
  rw [hout] at hag₁
  have he := h.l2Of_freeL3 h3 hag₁ (k := key)
  have htrie := h.unlinkL3_freeL3 h3 hag₁
  have hun : ((s₁.mem.setL2 (s.mem.l2Of r key) (l2IndexOf key) NULL).setL2Count (s.mem.l2Of r key)
      (sizeDec ((s₁.mem.setL2 (s.mem.l2Of r key) (l2IndexOf key) NULL).l2
        (s.mem.l2Of r key)).count)) = s₁.mem.unlinkL3 r key := by
    rw [← he]
    simp [unlinkL3, Mem.setL2]
  have hk : KeepsOthers r key s.mem (s₁.mem.unlinkL3 r key) := fun k hs hk => by
    rw [← hun]
    exact (h.keepsOthers_setL2_freeL3 h3 hempty hag₁ k hs hk).trans Trie.samePath_setL2Count
  have hag' := h.agree_unlinkL3_freeL3 h3 hag₁
  refine Spec.store_bind hv2 (hI _ (h.keepsOthers_setL2_freeL3 h3 hempty hag₁))
    (Spec.load_bind hv2 (Spec.store_bind hv2 ?_ ?_))
  · simp only [State.setMem_mem]
    exact hun ▸ hI _ hk
  simp only [State.setMem_mem, State.setMem_setMem, hun]
  have hl2 : ∀ k, (s₁.mem.unlinkL3 r key).l2Of r k = s.mem.l2Of r k := fun k =>
    (show s₁.mem.l2Of r k = _ from h.l2Of_freeL3 h3 hag₁)
  have hl3 : ∀ k, (s₁.mem.unlinkL3 r key).l3Of r k
      = if l1IndexOf k = l1IndexOf key ∧ l2IndexOf k = l2IndexOf key then NULL
        else s.mem.l3Of r k := fun k => by
    have ht : Trie R (Function.update (N.out g) (s.mem.l3Of r key) none)
        (s.mem.unlinkL3 r key) r := h.unlinkL3 h3 fun a sz hne ha => by rw [Function.update_of_ne hne, ha]
    rw [ht.l3Of_agree hag', h.l3Of_unlinkL3 h3]
  refine hf _ g₁ ⟨?_, by rw [hout]; exact htrie, hk, fun k => ?_⟩ hl2 hl3
  · refine (NodeAllocator.Moves.free hi₁ (h.l3_out key h3) hout (.inr rfl) hag hrel).trans
      (.write hi₁ (fun a ha => agreeAt_unlinkL3 ?_) rfl rfl rfl)
    rw [he]
    have hl2' : N.out g₁ (s.mem.l2Of r key) = some sizeofL2Node := by
      rw [hout, Function.update_of_ne (h.l2Of_ne_l3Of h2 h3)]
      exact h.l2_out key h2
    exact ne_of_out_none ha hl2'
  · have ht : Trie R (Function.update (N.out g) (s.mem.l3Of r key) none)
        (s.mem.unlinkL3 r key) r := h.unlinkL3 h3 fun a sz hne ha => by rw [Function.update_of_ne hne, ha]
    exact (ht.lookup_agree hag').trans (h.lookup_unlinkL3 h3 hempty)

/-- What the second half of `cmalloc_unmap` does. -/
structure BranchDropped (N : NodeAllocator A) (R : Nat → Nat → Prop) (r key : Nat) (s : State)
    (g : N.Ghost) (s' : State) (g' : N.Ghost) : Prop extends Dropped N R r key s g s' g' where
  l2Of_eq : ∀ k, s'.mem.l2Of r k = s.mem.l2Of r k ∨
    s'.mem.l2Of r k = NULL ∧ l1IndexOf k = l1IndexOf key
  l3Of_eq : ∀ k, s'.mem.l3Of r k = s.mem.l3Of r k
  leafCount_eq : ∀ k, s'.mem.leafCount r k = s.mem.leafCount r k
  nonempty : s'.mem.l2Of r key ≠ NULL →
    ∃ j < l2Size, (s'.mem.l2 (s'.mem.l2Of r key)).l2 j ≠ NULL

theorem dropEmptyL2_spec (hi : N.Inv s g) (h : Trie R (N.out g) s.mem r)
    (h2 : s.mem.l2Of r key ≠ NULL) (hI : ∀ m', KeepsOthers r key s.mem m' → I m') :
    Spec A (onStore I) (dropEmptyL2 N.free r key (s.mem.l2Of r key)) s
      fun _ s' => ∃ g', BranchDropped N R r key s g s' g' := by
  have hp : s.mem.ValidPath r key := N.validPath hi h
  refine Spec.load_bind (hp.l2 h2) ?_
  by_cases h0 : (s.mem.l2 (s.mem.l2Of r key)).count = 0
  · rw [if_pos h0]
    have hempty : ∀ j < l2Size, (s.mem.l2 (s.mem.l2Of r key)).l2 j = NULL :=
      occupied_eq_zero.mp (by rw [← h.l2_count key h2, h0])
    refine Spec.bind (N.free_spec hi (.inl rfl) (h.l2_out key h2) fun m' ha =>
      hI m' (h.keepsOthers_freeL2 h2 hempty ha)) ?_
    rintro _ s₁ ⟨g₁, hi₁, hout, hag, hrel⟩
    have hag₁ := hag
    rw [hout] at hag₁
    have hk := h.keepsOthers_unlinkL2_freeL2 h2 hempty hag₁
    have hag' := h.agree_unlinkL2_freeL2 h2 hag₁
    have ht : Trie R (Function.update (N.out g) (s.mem.l2Of r key) none)
        (s.mem.unlinkL2 r key) r := h.unlinkL2 h2 hempty fun a sz hne ha => by rw [Function.update_of_ne hne, ha]
    refine Spec.store hp.root (hI _ hk) ⟨g₁, ?_⟩
    constructor
    case toDropped =>
      refine ⟨?_, by rw [hout]; exact h.unlinkL2_freeL2 h2 hempty hag₁, hk, fun k => ?_⟩
      · refine (NodeAllocator.Moves.free hi₁ (h.l2_out key h2) hout (.inl rfl) hag hrel).trans
          (.write hi₁ (fun a ha => agreeAt_setL1 ?_) rfl rfl rfl)
        have hroot : N.out g₁ r = some sizeofL1Node := by
          rw [hout, Function.update_of_ne (h.root_ne_l2Of h2)]
          exact h.root
        exact ne_of_out_none ha hroot
      · exact (ht.lookup_agree hag').trans (Trie.lookup_unlinkL2 hempty)
    case l2Of_eq =>
      intro k
      have he := (ht.l2Of_agree hag' (k := k)).trans Trie.l2Of_unlinkL2
      split at he
      · exact .inr ⟨he, ‹_›⟩
      · exact .inl he
    case l3Of_eq => exact fun k => (ht.l3Of_agree hag').trans (Trie.l3Of_unlinkL2 hempty)
    case leafCount_eq =>
      intro k
      refine (ht.leafCount_agree hag').trans ?_
      rw [leafCount, Trie.l3Of_unlinkL2 hempty]
      rfl
    case nonempty =>
      intro hne
      exact absurd ((ht.l2Of_agree hag').trans (by rw [Trie.l2Of_unlinkL2, if_pos rfl])) hne
  · rw [if_neg h0]
    refine Spec.pure ⟨g, .refl hi h, fun _ => .inl rfl, fun _ => rfl, fun _ => rfl, fun _ => ?_⟩
    rw [h.l2_count key h2] at h0
    by_contra hall
    exact h0 (occupied_eq_zero.mpr fun j hj => by_contra fun hne => hall ⟨j, hj, hne⟩)

/-- What `cmalloc_unmap` of `key` does. -/
structure Unmapped (N : NodeAllocator A) (R : Nat → Nat → Prop) (r key : Nat)
    (s : State) (g : N.Ghost) (s' : State) (g' : N.Ghost) : Prop
    extends N.Moves s g s' g' where
  trie : Trie R (N.out g') s'.mem r
  keeps : KeepsOthers r key s.mem s'.mem
  lookup_eq : ∀ k, s'.mem.lookup r k = if SameKey k key then NULL else s.mem.lookup r k
  l2Of_eq : ∀ k, s'.mem.l2Of r k = s.mem.l2Of r k ∨
    s'.mem.l2Of r k = NULL ∧ l1IndexOf k = l1IndexOf key
  l3Of_eq : ∀ k, s'.mem.l3Of r k = s.mem.l3Of r k ∨
    s'.mem.l3Of r k = NULL ∧ l1IndexOf k = l1IndexOf key ∧ l2IndexOf k = l2IndexOf key
  l2_nonempty : s'.mem.l2Of r key ≠ NULL →
    ∃ j < l2Size, (s'.mem.l2 (s'.mem.l2Of r key)).l2 j ≠ NULL
  l3_nonempty : s'.mem.l3Of r key ≠ NULL → s'.mem.leafCount r key ≠ 0

/-- `cmalloc_unmap` of a mapped key clears the slot first; what follows
depends on the counter. -/
theorem clearSlot_spec {free : Nat → Nat → M Unit} {Q : Unit → State → Prop}
    (hp : s.mem.ValidPath r key) (hv : s.mem.lookup r key ≠ NULL)
    (hI₁ : I (s.mem.setL3 (s.mem.l3Of r key) (l3IndexOf key) NULL))
    (hI₂ : I (s.mem.clearSlot r key))
    (hrest : Spec A (onStore I) (if sizeDec (s.mem.leafCount r key) = 0 then do
      free (s.mem.l3Of r key) sizeofL3Node
      store (s.mem.l2Of r key) (·.setL2 (s.mem.l2Of r key) (l2IndexOf key) NULL)
      let count ← load (s.mem.l2Of r key) fun m => (m.l2 (s.mem.l2Of r key)).count
      store (s.mem.l2Of r key) (·.setL2Count (s.mem.l2Of r key) (sizeDec count))
      dropEmptyL2 free r key (s.mem.l2Of r key)
    else dropEmptyL2 free r key (s.mem.l2Of r key)) (s.setMem (s.mem.clearSlot r key)) Q) :
    Spec A (onStore I) (cmallocUnmapWith free r key) s Q := by
  have h3 := l3Of_ne_of_lookup_ne hv
  have h2 := l2Of_ne_of_l3Of_ne h3
  have hl3 := hp.l3 h3
  have hslot := lookup_of_l3Of h3
  have hcount : s.mem.leafCount r key = (s.mem.l3 (s.mem.l3Of r key)).count := by
    rw [leafCount, if_neg h3]
  have hput : ((s.mem.setL3 (s.mem.l3Of r key) (l3IndexOf key) NULL).setL3Count (s.mem.l3Of r key)
      (sizeDec ((s.mem.setL3 (s.mem.l3Of r key) (l3IndexOf key) NULL).l3
        (s.mem.l3Of r key)).count)) = s.mem.clearSlot r key := by
    simp [Mem.setL3Count, Mem.setL3, Mem.putL3, Mem.clearSlot, hcount]
  have hc : ((s.mem.clearSlot r key).l3 (s.mem.l3Of r key)).count
      = sizeDec (s.mem.leafCount r key) := by
    rw [Trie.l3_clearSlot]
  unfold cmallocUnmapWith
  refine Spec.load_bind hp.root (Spec.assert_bind h2 (Spec.load_bind (hp.l2 h2) ?_))
  simp only [l1_l1IndexOf, ← l3Of_of_l2Of h2]
  refine Spec.assert_bind h3 (Spec.load_bind hl3 (Spec.assert_bind (hslot ▸ hv) ?_))
  refine Spec.store_bind hl3 hI₁ (Spec.load_bind hl3 ?_)
  refine Spec.store_bind hl3 ?_ (Spec.load_bind hl3 ?_)
  · simp only [State.setMem_mem]
    exact hput ▸ hI₂
  simp only [State.setMem_mem, State.setMem_setMem, hput, hc]
  exact hrest

theorem cmallocUnmapWith_spec (hi : N.Inv s g) (h : Trie R (N.out g) s.mem r)
    (hR : CountsUnmap R) (hv : s.mem.lookup r key ≠ NULL)
    (hI : ∀ m', KeepsOthers r key s.mem m' → I m') :
    Spec A (onStore I) (cmallocUnmapWith N.free r key) s
      fun _ s' => ∃ g', Unmapped N R r key s g s' g' := by
  have h3 := l3Of_ne_of_lookup_ne hv
  have h2 := l2Of_ne_of_l3Of_ne h3
  have hp : s.mem.ValidPath r key := N.validPath hi h
  have hslot := lookup_of_l3Of h3
  have hcount : s.mem.leafCount r key = (s.mem.l3 (s.mem.l3Of r key)).count := by
    rw [leafCount, if_neg h3]
  -- the slot held something, so the leaf counts one slot less
  have hup := occupied_update (f := (s.mem.l3 (s.mem.l3Of r key)).l3) (l3IndexOf_lt key) NULL
  rw [filled_zero, filled_of_ne (hslot ▸ hv)] at hup
  have hRc := h.l3_count key h3
  have hocc : occupied l3Size (s.mem.l3 (s.mem.l3Of r key)).l3
      = occupied l3Size (Function.update (s.mem.l3 (s.mem.l3Of r key)).l3 (l3IndexOf key) NULL) + 1 :=
    by omega
  rw [hocc] at hRc
  obtain ⟨hRdec, hzero⟩ := hR _ _ hRc
  have hk := h.keepsOthers_clearSlot h3
  have ht : Trie R (N.out g) (s.mem.clearSlot r key) r := h.putL3 (by rw [hcount]; exact hRdec)
  have hm : N.Moves s g (s.setMem (s.mem.clearSlot r key)) g :=
    .write hi (fun a ha => agreeAt_putL3 (ne_of_out_none ha (h.l3_out key h3))) rfl rfl rfl
  refine clearSlot_spec hp hv (hI _ (h.keepsOthers_putL3_slot h3)) (hI _ hk) ?_
  -- the second half, from whatever became of the leaf
  have hrest : ∀ s₂ g₂, Dropped N R r key (s.setMem (s.mem.clearSlot r key)) g s₂ g₂ →
      (∀ k, s₂.mem.l2Of r k = s.mem.l2Of r k) →
      (∀ k, s₂.mem.l3Of r k = s.mem.l3Of r k ∨
        s₂.mem.l3Of r k = NULL ∧ l1IndexOf k = l1IndexOf key ∧ l2IndexOf k = l2IndexOf key) →
      (s₂.mem.l3Of r key ≠ NULL → s₂.mem.leafCount r key ≠ 0) →
      Spec A (onStore I) (dropEmptyL2 N.free r key (s.mem.l2Of r key)) s₂
        fun _ s' => ∃ g', Unmapped N R r key s g s' g' := by
    intro s₂ g₂ d hl2 hl3' hne
    have hk₂ : KeepsOthers r key s.mem s₂.mem := hk.trans d.keeps
    rw [← hl2 key]
    refine (dropEmptyL2_spec d.inv d.trie (by rw [hl2]; exact h2) fun m' hm => hI m' (hk₂.trans hm)).mono ?_
    rintro _ s₃ ⟨g₃, b⟩
    refine ⟨g₃, (hm.trans d.toMoves).trans b.toMoves, b.trie, hk₂.trans b.keeps, fun k => ?_,
      fun k => ?_, fun k => ?_, b.nonempty, fun h => ?_⟩
    · rw [b.lookup_eq, d.lookup_eq, State.setMem_mem, h.lookup_clearSlot h3]
    · rw [← hl2 k]
      exact b.l2Of_eq k
    · rw [b.l3Of_eq]
      exact hl3' k
    · rw [b.leafCount_eq]
      exact hne (by rwa [b.l3Of_eq] at h)
  by_cases h0 : sizeDec (s.mem.leafCount r key) = 0
  · rw [if_pos h0]
    have hempty := occupied_eq_zero.mp (hzero (hcount ▸ h0))
    refine dropLeaf_spec hm.inv ht ?_ ?_ ?_ ?_ (fun m' hm => hI m' (hk.trans hm))
      fun s₂ g₂ d hl2 hl3' => ?_
    · rfl
    · rfl
    · exact h3
    · intro i hi
      rw [State.setMem_mem, Trie.l3Of_clearSlot, Trie.l3_clearSlot]
      exact hempty i hi
    · refine hrest s₂ g₂ d hl2 (fun k => ?_) fun hne => absurd ?_ hne
      · rw [hl3']
        split
        · exact .inr ⟨rfl, ‹_›⟩
        · exact .inl rfl
      · rw [hl3', if_pos ⟨rfl, rfl⟩]
  · rw [if_neg h0]
    refine hrest _ g (.refl hm.inv ht) (fun _ => rfl) (fun _ => .inl rfl)
      fun _ => ?_
    rwa [State.setMem_mem, Trie.leafCount_clearSlot h3]

/-- Where an uncounted leaf is an empty one, unmapping leaves no empty node. -/
theorem Unmapped.noEmptyNode {s' : State} {g' : N.Ghost} (h : Unmapped N R r key s g s' g')
    (hR : ∀ c, R 0 c → c = 0) (hne : s.mem.NoEmptyNode r) : s'.mem.NoEmptyNode r := by
  have hold : ∀ k, ¬ SameKey k key → s.mem.lookup r k ≠ NULL → s'.mem.lookup r k ≠ NULL :=
    fun k hs hk => by rwa [h.lookup_eq, if_neg hs]
  have hleaf : ∀ k, s'.mem.l3Of r k ≠ NULL → ∃ k', l1IndexOf k' = l1IndexOf k ∧
      l2IndexOf k' = l2IndexOf k ∧ s'.mem.lookup r k' ≠ NULL := by
    intro k hk
    by_cases hi : l1IndexOf k = l1IndexOf key ∧ l2IndexOf k = l2IndexOf key
    · have hkey : s'.mem.l3Of r key ≠ NULL := by rwa [← l3Of_congr hi.1 hi.2]
      have hcount := h.l3_nonempty hkey
      rw [leafCount, if_neg hkey] at hcount
      have hocc : occupied l3Size (s'.mem.l3 (s'.mem.l3Of r key)).l3 ≠ 0 := fun h0 =>
        hcount (hR _ (h0 ▸ h.trie.l3_count key hkey))
      obtain ⟨i, hil, hine⟩ : ∃ i < l3Size, (s'.mem.l3 (s'.mem.l3Of r key)).l3 i ≠ NULL :=
        by_contra fun hall => hocc (occupied_eq_zero.mpr fun i hi =>
          by_contra fun hne => hall ⟨i, hi, hne⟩)
      obtain ⟨k', h₁, h₂, h₃⟩ := exists_key (l1IndexOf_lt k) (l2IndexOf_lt k) hil
      have hl : s'.mem.l3Of r k' = s'.mem.l3Of r key :=
        l3Of_congr (h₁.trans hi.1) (h₂.trans hi.2)
      exact ⟨k', h₁, h₂, by rwa [lookup_of_l3Of (by rw [hl]; exact hkey), hl, h₃]⟩
    · rcases h.l3Of_eq k with he | ⟨hnull, -⟩
      · obtain ⟨k', h₁, h₂, h₃⟩ := hne.l3 k (by rwa [he] at hk)
        refine ⟨k', h₁, h₂, hold k' (fun hs => hi ?_) h₃⟩
        obtain ⟨e₁, e₂, -⟩ := (sameKey_iff _ _).mp hs
        exact ⟨h₁.symm.trans e₁, h₂.symm.trans e₂⟩
      · exact absurd hnull hk
  constructor
  · intro k hk
    by_cases hi : l1IndexOf k = l1IndexOf key
    · have hkey : s'.mem.l2Of r key ≠ NULL := by rwa [← l2Of_congr hi]
      obtain ⟨j, hj, hjne⟩ := h.l2_nonempty hkey
      obtain ⟨k₁, h₁, h₂, -⟩ := exists_key (l1IndexOf_lt k) hj (l3IndexOf_lt k)
      have hl : s'.mem.l2Of r k₁ = s'.mem.l2Of r key := l2Of_congr (h₁.trans hi)
      obtain ⟨k', e₁, -, hk'⟩ := hleaf k₁ (by
        rwa [l3Of_of_l2Of (by rw [hl]; exact hkey), hl, h₂])
      exact ⟨k', e₁.trans h₁, hk'⟩
    · rcases h.l2Of_eq k with he | ⟨hnull, -⟩
      · obtain ⟨k', h₁, h₂⟩ := hne.l2 k (by rwa [he] at hk)
        refine ⟨k', h₁, hold k' (fun hs => hi ?_) h₂⟩
        exact h₁.symm.trans ((sameKey_iff _ _).mp hs).1
      · exact absurd hnull hk
  · exact hleaf

end

end FastAlloc
