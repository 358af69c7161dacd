/-
FastAlloc.RangeMap.Map — `cmalloc_map` over any node allocator, phase by
phase: the L2 node, the L3 node, the slot.
-/
import FastAlloc.RangeMap.Allocator

namespace FastAlloc

open Lib Mem

section

variable {A : Event → Prop} {N : NodeAllocator A} {R : Nat → Nat → Prop} {I : Mem → Prop}
  {s : State} {g : N.Ghost} {r key value : Nat}

/-- What making the L2 node of `key` present does. -/
structure L2Ready (N : NodeAllocator A) (R : Nat → Nat → Prop) (r key : Nat) (s : State)
    (g : N.Ghost) (s' : State) (g' : N.Ghost) : Prop extends N.Moves s g s' g' where
  trie : Trie R (N.out g') s'.mem r
  present : s'.mem.l2Of r key ≠ NULL
  keeps : KeepsOthers r key s.mem s'.mem
  lookup_eq : ∀ k, s'.mem.lookup r k = s.mem.lookup r k
  leafCount_eq : s'.mem.leafCount r key = s.mem.leafCount r key
  l2Of_eq : ∀ k, s'.mem.l2Of r k = s.mem.l2Of r k ∨
    s.mem.l2Of r k = NULL ∧ l1IndexOf k = l1IndexOf key
  l3Of_eq : ∀ k, s'.mem.l3Of r k = s.mem.l3Of r k

theorem ensureL2Node_spec (hi : N.Inv s g) (h : Trie R (N.out g) s.mem r)
    (hI : ∀ m', KeepsOthers r key s.mem m' → I m') :
    Spec A (onStore I) (ensureL2Node N.alloc r key) s
      fun _ s' => ∃ g', L2Ready N R r key s g s' g' := by
  have hp : s.mem.ValidPath r key := N.validPath hi h
  by_cases h0 : s.mem.l2Of r key = NULL
  · refine Spec.load_bind hp.root ?_
    rw [if_pos (show (s.mem.l1 r).l1 (l1IndexOf key) = NULL from h0)]
    refine Spec.bind (N.alloc_spec hi (.inl rfl) fun m' ha => hI _ (h.keepsOthers_agree ha)) ?_
    rintro a s₁ ⟨g₁, hi₁, hfresh, hout, hag, hrel⟩
    have h₁ : Trie R (N.out g) s₁.mem r := h.agree hag
    have h0₁ : s₁.mem.l2Of r key = NULL := by rw [h.l2Of_agree hag, h0]
    have ha : N.out g₁ a = some sizeofL2Node := by rw [hout, Function.update_self]
    have hav : Valid a := N.valid hi₁ (by rw [ha]; simp)
    have hkept : ∀ b sz, N.out g b = some sz → N.out g₁ b = some sz := fun b sz hb => by
      rw [hout, Function.update_of_ne (ne_of_out_none hfresh hb).symm, hb]
    have hk : KeepsOthers r key s.mem s₁.mem := h.keepsOthers_agree hag
    refine linkL2_spec hp.root hav (hI _ (hk.trans (Trie.keepsOthers_setL1 h0₁)))
      (fun n => hI _ (hk.trans (h₁.keepsOthers_clearL2 h0₁ hfresh n))) ⟨g₁, ?_⟩
    constructor
    case toMoves =>
      refine (NodeAllocator.Moves.alloc hi₁ hfresh hout (.inl rfl) hag hrel).trans
        (.write hi₁ (fun b hb => ?_) rfl rfl rfl)
      exact agreeAt_linkL2 (ne_of_out_none hb (hkept _ _ h.root)) (ne_of_out_none hb ha)
    case trie => exact h₁.linkL2 h0₁ hav.1 hfresh hkept ha
    case present =>
      change (s₁.mem.linkL2 r key a).l2Of r key ≠ NULL
      rw [Trie.l2Of_linkL2, if_pos rfl]
      exact hav.1
    case keeps => exact hk.trans (h₁.keepsOthers_clearL2 h0₁ hfresh _)
    case lookup_eq =>
      exact fun k => (h₁.lookup_linkL2 h0₁ hav.1 hfresh).trans (h.lookup_agree hag)
    case leafCount_eq =>
      exact (h₁.leafCount_linkL2 h0₁ hav.1 hfresh).trans (h.leafCount_agree hag)
    case l2Of_eq =>
      intro k
      change (s₁.mem.linkL2 r key a).l2Of r k = _ ∨ _
      rw [Trie.l2Of_linkL2]
      split
      · exact .inr ⟨by rw [l2Of_congr ‹_›, h0], ‹_›⟩
      · exact .inl (h.l2Of_agree hag)
    case l3Of_eq => exact fun k => (h₁.l3Of_linkL2 h0₁ hav.1 hfresh).trans (h.l3Of_agree hag)
  · exact Spec.of_run (run_ensureL2Node_present hp.root h0) (by simp)
      ⟨g, .refl hi, h, h0, .refl _ _ _, fun _ => rfl, rfl, fun _ => .inl rfl, fun _ => rfl⟩

/-- What making the L3 node of `key` present does. -/
structure L3Ready (N : NodeAllocator A) (R : Nat → Nat → Prop) (r key : Nat) (s : State)
    (g : N.Ghost) (s' : State) (g' : N.Ghost) : Prop extends N.Moves s g s' g' where
  trie : Trie R (N.out g') s'.mem r
  present : s'.mem.l3Of r key ≠ NULL
  keeps : KeepsOthers r key s.mem s'.mem
  lookup_eq : ∀ k, s'.mem.lookup r k = s.mem.lookup r k
  leafCount_eq : s'.mem.leafCount r key = s.mem.leafCount r key
  l2Of_eq : ∀ k, s'.mem.l2Of r k = s.mem.l2Of r k
  l3Of_eq : ∀ k, s'.mem.l3Of r k = s.mem.l3Of r k ∨
    s.mem.l3Of r k = NULL ∧ l1IndexOf k = l1IndexOf key ∧ l2IndexOf k = l2IndexOf key

theorem ensureL3Node_spec (hi : N.Inv s g) (h : Trie R (N.out g) s.mem r) (hR : R 0 0)
    (h2 : s.mem.l2Of r key ≠ NULL) (hI : ∀ m', KeepsOthers r key s.mem m' → I m') :
    Spec A (onStore I) (ensureL3Node N.alloc r key) s
      fun _ s' => ∃ g', L3Ready N R r key s g s' g' := by
  have hp : s.mem.ValidPath r key := N.validPath hi h
  by_cases h0 : s.mem.l3Of r key = NULL
  · refine Spec.load_bind hp.root (Spec.load_bind (hp.l2 h2) ?_)
    rw [if_pos (show (s.mem.l2 ((s.mem.l1 r).l1 (l1IndexOf key))).l2 (l2IndexOf key) = NULL from
      (l3Of_of_l2Of h2).symm.trans h0)]
    refine Spec.bind (N.alloc_spec hi (.inr rfl) fun m' ha => hI _ (h.keepsOthers_agree ha)) ?_
    rintro b s₁ ⟨g₁, hi₁, hfresh, hout, hag, hrel⟩
    have h₁ : Trie R (N.out g) s₁.mem r := h.agree hag
    have e2 : s₁.mem.l2Of r key = s.mem.l2Of r key := h.l2Of_agree hag
    have h2₁ : s₁.mem.l2Of r key ≠ NULL := by rwa [e2]
    have h0₁ : s₁.mem.l3Of r key = NULL := by rw [h.l3Of_agree hag, h0]
    have hb : N.out g₁ b = some sizeofL3Node := by rw [hout, Function.update_self]
    have hbv : Valid b := N.valid hi₁ (by rw [hb]; simp)
    have hkept : ∀ c sz, N.out g c = some sz → N.out g₁ c = some sz := fun c sz hc => by
      rw [hout, Function.update_of_ne (ne_of_out_none hfresh hc).symm, hc]
    have hk : KeepsOthers r key s.mem s₁.mem := h.keepsOthers_agree hag
    refine linkL3_spec (hp.l2 h2) hbv e2.symm ?_ (fun n => ?_) ?_ ⟨g₁, ?_⟩
    · rw [l1_l1IndexOf, ← e2]
      exact hI _ (hk.trans (h₁.keepsOthers_setL2 h2₁ h0₁))
    · rw [l1_l1IndexOf, ← e2]
      exact hI _ (hk.trans (h₁.keepsOthers_clearL3 h2₁ h0₁ hfresh n))
    · exact hI _ (hk.trans (h₁.keepsOthers_linkL3 h2₁ h0₁ hfresh))
    constructor
    case toMoves =>
      refine (NodeAllocator.Moves.alloc hi₁ hfresh hout (.inr rfl) hag hrel).trans
        (.write hi₁ (fun c hc => ?_) rfl rfl rfl)
      exact agreeAt_linkL3 (ne_of_out_none hc (hkept _ _ (h₁.l2_out key h2₁)))
        (ne_of_out_none hc hb)
    case trie => exact h₁.linkL3 h2₁ h0₁ hbv.1 hfresh hR hkept hb
    case present =>
      change (s₁.mem.linkL3 r key b).l3Of r key ≠ NULL
      rw [h₁.l3Of_linkL3 h2₁, if_pos ⟨rfl, rfl⟩]
      exact hbv.1
    case keeps => exact hk.trans (h₁.keepsOthers_linkL3 h2₁ h0₁ hfresh)
    case lookup_eq =>
      exact fun k => (h₁.lookup_linkL3 h2₁ h0₁ hfresh hbv.1).trans (h.lookup_agree hag)
    case leafCount_eq =>
      exact (h₁.leafCount_linkL3 h2₁ hbv.1).trans (by rw [leafCount, if_pos h0])
    case l2Of_eq => exact fun k => (show s₁.mem.l2Of r k = _ from h.l2Of_agree hag)
    case l3Of_eq =>
      intro k
      change (s₁.mem.linkL3 r key b).l3Of r k = _ ∨ _
      rw [h₁.l3Of_linkL3 h2₁]
      split
      · rename_i he
        exact .inr ⟨by rw [l3Of_congr he.1 he.2, h0], he⟩
      · exact .inl (h.l3Of_agree hag)
  · exact Spec.of_run (run_ensureL3Node_present hp h0) (by simp)
      ⟨g, .refl hi, h, h0, .refl _ _ _, fun _ => rfl, rfl, fun _ => rfl, fun _ => .inl rfl⟩

/-- What `cmalloc_map` of `key` to `value` does. -/
structure Mapped (N : NodeAllocator A) (R : Nat → Nat → Prop) (r key value : Nat)
    (s : State) (g : N.Ghost) (s' : State) (g' : N.Ghost) : Prop
    extends N.Moves s g s' g' where
  trie : Trie R (N.out g') s'.mem r
  keeps : KeepsOthers r key s.mem s'.mem
  lookup_eq : ∀ k, s'.mem.lookup r k = if SameKey k key then value else s.mem.lookup r k
  l2Of_eq : ∀ k, s'.mem.l2Of r k = s.mem.l2Of r k ∨
    s.mem.l2Of r k = NULL ∧ l1IndexOf k = l1IndexOf key
  l3Of_eq : ∀ k, s'.mem.l3Of r k = s.mem.l3Of r k ∨
    s.mem.l3Of r k = NULL ∧ l1IndexOf k = l1IndexOf key ∧ l2IndexOf k = l2IndexOf key

theorem cmallocMapWith_spec (hi : N.Inv s g) (h : Trie R (N.out g) s.mem r) (hR0 : R 0 0)
    (hR : CountsMap R (s.mem.lookup r key) value (s.mem.leafCount r key))
    (hI : ∀ m', KeepsOthers r key s.mem m' → I m') :
    Spec A (onStore I) (cmallocMapWith N.alloc r value key) s
      fun _ s' => ∃ g', Mapped N R r key value s g s' g' := by
  refine Spec.bind (ensureL2Node_spec hi h hI) ?_
  rintro _ s₁ ⟨g₁, p₁⟩
  refine Spec.bind (ensureL3Node_spec p₁.inv p₁.trie hR0 p₁.present fun m' hm =>
    hI m' (p₁.keeps.trans hm)) ?_
  rintro _ s₂ ⟨g₂, p₂⟩
  have hlook : ∀ k, s₂.mem.lookup r k = s.mem.lookup r k := fun k =>
    (p₂.lookup_eq k).trans (p₁.lookup_eq k)
  have hleaf := p₂.leafCount_eq.trans p₁.leafCount_eq
  have hk := p₁.keeps.trans p₂.keeps
  refine storeSlot_spec (N.validPath p₂.inv p₂.trie) p₂.present ?_
    (hI _ (hk.trans (p₂.trie.keepsOthers_writeSlot p₂.present))) ⟨g₂, ?_⟩
  · exact hI _ (hk.trans (p₂.trie.keepsOthers_putL3_count p₂.present))
  constructor
  case toMoves =>
    refine (p₁.toMoves.trans p₂.toMoves).trans (.write p₂.inv (fun a ha => ?_) rfl rfl rfl)
    exact agreeAt_putL3 (ne_of_out_none ha (p₂.trie.l3_out key p₂.present))
  case trie => exact p₂.trie.writeSlot p₂.present (by rwa [hlook, hleaf])
  case keeps => exact hk.trans (p₂.trie.keepsOthers_writeSlot p₂.present)
  case lookup_eq =>
    exact fun k => by rw [State.setMem_mem, p₂.trie.lookup_writeSlot p₂.present, hlook]
  case l2Of_eq =>
    intro k
    change s₂.mem.l2Of r k = _ ∨ _
    rw [p₂.l2Of_eq]
    exact p₁.l2Of_eq k
  case l3Of_eq =>
    intro k
    rw [← p₁.l3Of_eq k]
    exact p₂.l3Of_eq k

/-- Mapping to a non-NULL value leaves no empty node. -/
theorem Mapped.noEmptyNode {s' : State} {g' : N.Ghost} (h : Mapped N R r key value s g s' g')
    (hv : value ≠ NULL) (hne : s.mem.NoEmptyNode r) : s'.mem.NoEmptyNode r := by
  have hkey : s'.mem.lookup r key ≠ NULL := by
    rwa [h.lookup_eq, if_pos (SameKey.refl key)]
  refine hne.map hkey (fun k hk => ?_) h.l2Of_eq h.l3Of_eq
  · rw [h.lookup_eq]
    split
    · exact hv
    · exact hk

end

end FastAlloc
