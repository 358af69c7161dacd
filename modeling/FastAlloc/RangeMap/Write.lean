/-
FastAlloc.RangeMap.Write — the writing parts of `cmalloc_map`, as programs:
linking a new L2 node, linking a new L3 node, and writing a slot.

Nothing is said here of where the nodes come from, so the arena's own map
and the maps over it use the same three specifications.
-/
import FastAlloc.RangeMap.Trie

namespace FastAlloc

open Lib Mem

/-- The memory once `cmalloc_map` has counted and written the slot of `key`. -/
def Mem.writeSlot (m : Mem) (r key value : Nat) : Mem :=
  m.putL3 (m.l3Of r key)
    ⟨Function.update (m.l3 (m.l3Of r key)).l3 (l3IndexOf key) value,
      if m.lookup r key = NULL then sizeInc (m.leafCount r key) else m.leafCount r key⟩

/-- The memory once `cmalloc_unmap` has emptied and uncounted the slot of
`key`. -/
def Mem.clearSlot (m : Mem) (r key : Nat) : Mem :=
  m.putL3 (m.l3Of r key)
    ⟨Function.update (m.l3 (m.l3Of r key)).l3 (l3IndexOf key) NULL,
      sizeDec (m.leafCount r key)⟩

/-- The counter condition of one `cmalloc_map`: the relation survives what
the call does to the slot of `key` and its counter. -/
def CountsMap (R : Nat → Nat → Prop) (old value count : Nat) : Prop :=
  ∀ n n', n ≤ l3Size → R n count → n' + filled old = n + filled value →
    R n' (if old = NULL then sizeInc count else count)

/-- The nodes on the path of `key` can be dereferenced where they exist. -/
structure Mem.ValidPath (m : Mem) (r key : Nat) : Prop where
  root : Valid r
  l2 : m.l2Of r key ≠ NULL → Valid (m.l2Of r key)
  l3 : m.l3Of r key ≠ NULL → Valid (m.l3Of r key)

section

variable {A : Event → Prop} {I : Mem → Prop} {s : State} {r key value a : Nat}
  {Q : Unit → State → Prop}

/-! ## Nodes that are there already -/

theorem run_ensureL2Node_present {alloc : Nat → M Nat} (hr : Valid r)
    (h2 : s.mem.l2Of r key ≠ NULL) : (ensureL2Node alloc r key).run s = ⟨.ok (), s, []⟩ := by
  refine Program.run_bind_read (run_load hr) ?_
  rw [if_neg (show (s.mem.l1 r).l1 (l1IndexOf key) ≠ NULL from h2)]
  rfl

theorem run_ensureL3Node_present {alloc : Nat → M Nat} (hp : s.mem.ValidPath r key)
    (h3 : s.mem.l3Of r key ≠ NULL) : (ensureL3Node alloc r key).run s = ⟨.ok (), s, []⟩ := by
  have h2 := l2Of_ne_of_l3Of_ne h3
  refine Program.run_bind_read (run_load hp.root) ?_
  refine Program.run_bind_read (run_load (hp.l2 h2)) ?_
  rw [if_neg (show (s.mem.l2 ((s.mem.l1 r).l1 (l1IndexOf key))).l2 (l2IndexOf key) ≠ NULL from
    fun h => h3 ((l3Of_of_l2Of h2).trans h))]
  rfl

/-! ## New nodes -/

theorem linkL2_spec (hr : Valid r) (ha : Valid a) (hI₁ : I (s.mem.setL1 r (l1IndexOf key) a))
    (hI₂ : ∀ n, I ((s.mem.setL1 r (l1IndexOf key) a).clearL2 a n))
    (hQ : Q () (s.setMem (s.mem.linkL2 r key a))) :
    Spec A (onStore I) (do store r (·.setL1 r (l1IndexOf key) a); memsetL2 a) s Q :=
  Spec.store_bind hr hI₁ (Spec.memsetL2 ha hI₂ hQ)

theorem linkL3_spec {b l2 : Nat} (hl2 : Valid l2) (hb : Valid b) (he : l2 = s.mem.l2Of r key)
    (hI₁ : I (s.mem.setL2 l2 (l2IndexOf key) b))
    (hI₂ : ∀ n, I ((s.mem.setL2 l2 (l2IndexOf key) b).clearL3 b n))
    (hI₃ : I (s.mem.linkL3 r key b)) (hQ : Q () (s.setMem (s.mem.linkL3 r key b))) :
    Spec A (onStore I) (do
      store l2 (·.setL2 l2 (l2IndexOf key) b)
      memsetL3 b
      let count ← load l2 fun m => (m.l2 l2).count
      store l2 (·.setL2Count l2 (sizeInc count))) s Q := by
  subst he
  refine Spec.store_bind hl2 hI₁ (Spec.memsetL3_bind hb hI₂ (Spec.load_bind hl2 ?_))
  have hcount : ((((s.mem.setL2 (s.mem.l2Of r key) (l2IndexOf key) b).clearL3 b
      (l3Size + 1)).l2 (s.mem.l2Of r key)).count) = (s.mem.l2 (s.mem.l2Of r key)).count := by
    simp [Mem.clearL3, Mem.setL2]
  simp only [State.setMem_mem, State.setMem_setMem, hcount]
  exact Spec.store hl2 hI₃ hQ

/-! ## The slot -/

theorem storeSlot_spec (hp : s.mem.ValidPath r key) (h3 : s.mem.l3Of r key ≠ NULL)
    (hI₁ : I (s.mem.putL3 (s.mem.l3Of r key)
      ⟨(s.mem.l3 (s.mem.l3Of r key)).l3, sizeInc (s.mem.leafCount r key)⟩))
    (hI₂ : I (s.mem.writeSlot r key value)) (hQ : Q () (s.setMem (s.mem.writeSlot r key value))) :
    Spec A (onStore I) (storeSlot r value key) s Q := by
  have h2 := l2Of_ne_of_l3Of_ne h3
  have hl3 := hp.l3 h3
  have hcount : s.mem.leafCount r key = (s.mem.l3 (s.mem.l3Of r key)).count := by
    rw [leafCount, if_neg h3]
  have hold : (s.mem.l3 (s.mem.l3Of r key)).l3 (l3IndexOf key) = s.mem.lookup r key :=
    (lookup_of_l3Of h3).symm
  unfold storeSlot
  refine Spec.load_bind hp.root (Spec.load_bind (hp.l2 h2) ?_)
  simp only [l1_l1IndexOf, ← l3Of_of_l2Of h2]
  refine Spec.load_bind hl3 ?_
  simp only [hold]
  by_cases h0 : s.mem.lookup r key = NULL
  · have hput : ((s.mem.setL3Count (s.mem.l3Of r key) (sizeInc (s.mem.leafCount r key))).setL3
        (s.mem.l3Of r key) (l3IndexOf key) value) = s.mem.writeSlot r key value := by
      simp [Mem.setL3Count, Mem.setL3, Mem.putL3, Mem.writeSlot, h0]
    rw [if_pos h0]
    refine Spec.load_bind hl3 ?_
    rw [← hcount]
    refine Spec.store_bind hl3 hI₁ (Spec.store hl3 ?_ ?_)
    · simpa only [State.setMem_mem, hput] using hI₂
    · simpa only [State.setMem_mem, State.setMem_setMem, hput] using hQ
  · have hput : s.mem.setL3 (s.mem.l3Of r key) (l3IndexOf key) value
        = s.mem.writeSlot r key value := by
      simp [Mem.setL3, Mem.putL3, Mem.writeSlot, h0, hcount]
    rw [if_neg h0]
    refine Spec.store hl3 ?_ ?_
    · rwa [hput]
    · rwa [hput]

/-- `cmalloc_map` of a key whose nodes are all there. -/
theorem cmallocMapWith_present_spec {alloc : Nat → M Nat} (hp : s.mem.ValidPath r key)
    (h3 : s.mem.l3Of r key ≠ NULL)
    (hI₁ : I (s.mem.putL3 (s.mem.l3Of r key)
      ⟨(s.mem.l3 (s.mem.l3Of r key)).l3, sizeInc (s.mem.leafCount r key)⟩))
    (hI₂ : I (s.mem.writeSlot r key value)) (hQ : Q () (s.setMem (s.mem.writeSlot r key value))) :
    Spec A (onStore I) (cmallocMapWith alloc r value key) s Q := by
  have h2 := l2Of_ne_of_l3Of_ne h3
  refine Spec.bind (Q := fun _ s' => s = s')
    (Spec.of_run (run_ensureL2Node_present hp.root h2) (by simp) rfl) ?_
  rintro _ _ rfl
  refine Spec.bind (Q := fun _ s' => s = s')
    (Spec.of_run (run_ensureL3Node_present hp h3) (by simp) rfl) ?_
  rintro _ _ rfl
  exact storeSlot_spec hp h3 hI₁ hI₂ hQ

end

/-! ## What writing and emptying a slot do to the map -/

namespace Trie

variable {R : Nat → Nat → Prop} {out : Nat → Option Nat} {m : Mem} {r key k value : Nat}

theorem lookup_writeSlot (h : Trie R out m r) (h3 : m.l3Of r key ≠ NULL) :
    (m.writeSlot r key value).lookup r k = if SameKey k key then value else m.lookup r k :=
  h.lookup_putL3_slot h3

theorem keepsOthers_writeSlot (h : Trie R out m r) (h3 : m.l3Of r key ≠ NULL) :
    KeepsOthers r key m (m.writeSlot r key value) :=
  h.keepsOthers_putL3_slot h3

theorem writeSlot (h : Trie R out m r) (h3 : m.l3Of r key ≠ NULL)
    (hR : CountsMap R (m.lookup r key) value (m.leafCount r key)) :
    Trie R out (m.writeSlot r key value) r := by
  refine h.putL3 (hR (occupied l3Size (m.l3 (m.l3Of r key)).l3) _ (occupied_le _ _) ?_ ?_)
  · rw [leafCount, if_neg h3]
    exact h.l3_count key h3
  · rw [lookup_of_l3Of h3]
    exact occupied_update (l3IndexOf_lt key) value

theorem l3Of_clearSlot (key : Nat) : (m.clearSlot r key).l3Of r k = m.l3Of r k := rfl

theorem l3_clearSlot : (m.clearSlot r key).l3 (m.l3Of r key)
    = ⟨Function.update (m.l3 (m.l3Of r key)).l3 (l3IndexOf key) NULL,
      sizeDec (m.leafCount r key)⟩ := by
  simp [clearSlot, Mem.putL3]

theorem leafCount_clearSlot (h3 : m.l3Of r key ≠ NULL) :
    (m.clearSlot r key).leafCount r key = sizeDec (m.leafCount r key) := by
  rw [leafCount, l3Of_clearSlot, if_neg h3, l3_clearSlot]

theorem lookup_clearSlot (h : Trie R out m r) (h3 : m.l3Of r key ≠ NULL) :
    (m.clearSlot r key).lookup r k = if SameKey k key then NULL else m.lookup r k :=
  h.lookup_putL3_slot h3

theorem keepsOthers_clearSlot (h : Trie R out m r) (h3 : m.l3Of r key ≠ NULL) :
    KeepsOthers r key m (m.clearSlot r key) :=
  h.keepsOthers_putL3_slot h3

/-- The nodes a map is made of are valid pointers where what is handed out is. -/
theorem validPath (h : Trie R out m r) (hv : ∀ a, out a ≠ none → Valid a) :
    m.ValidPath r key where
  root := hv r (by rw [h.root]; simp)
  l2 h2 := hv _ (by rw [h.l2_out key h2]; simp)
  l3 h3 := hv _ (by rw [h.l3_out key h3]; simp)

end Trie

end FastAlloc
