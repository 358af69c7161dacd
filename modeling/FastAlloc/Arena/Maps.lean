/-
FastAlloc.Arena.Maps — range maps over the library's own arena.

Such maps exist and behave as `RangeMap.System` says while their counters
have room. A counter counts a slot each time NULL is stored over NULL, so
it can be driven to wrap: then the last unmapping of some key gives back a
leaf that still maps another.
-/
import FastAlloc.Arena.Proposals
import FastAlloc.RangeMap.System

namespace FastAlloc

open Lib Mem

/-- With a counter that wraps, no counter says anything. -/
def AnyCount (_ _ : Nat) : Prop := True

theorem countsMap_any (old value count : Nat) : CountsMap AnyCount old value count :=
  fun _ _ _ _ _ => trivial

section

variable {A : Event → Prop} {N : NodeAllocator A} {s : State} {g : N.Ghost} {r key k : Nat}

/-- Unmapping a key whose leaf counts 1 gives the leaf back, whatever else
it maps: no key of the leaf is found any more. -/
theorem unmap_loses_leaf (hi : N.Inv s g) (h : Trie AnyCount (N.out g) s.mem r)
    (hv : s.mem.lookup r key ≠ NULL) (hc : s.mem.leafCount r key = 1)
    (h₁ : l1IndexOf k = l1IndexOf key) (h₂ : l2IndexOf k = l2IndexOf key) :
    Spec A (onStore fun _ => True) (cmallocUnmapWith N.free r key) s
      fun _ s' => (cmallocGet r k).run s' = ⟨.ok NULL, s', []⟩ := by
  have h3 := l3Of_ne_of_lookup_ne hv
  have h2 := l2Of_ne_of_l3Of_ne h3
  have hp : s.mem.ValidPath r key := N.validPath hi h
  refine clearSlot_spec hp hv trivial trivial ?_
  rw [if_pos (by rw [hc]; exact sizeDec_succ 0)]
  have hinv : N.Inv (s.setMem (s.mem.clearSlot r key)) g :=
    (N.frame hi (fun a ha => agreeAt_putL3 (ne_of_out_none ha (h.l3_out key h3))) rfl).1
  refine Spec.bind (N.free_spec hinv (.inr rfl) (h.l3_out key h3) fun _ _ => trivial) ?_
  rintro _ s₁ ⟨g₁, hi₁, hout, hag, -⟩
  have hr₁ : N.out g₁ r = some sizeofL1Node := by
    rw [hout, Function.update_of_ne (h.root_ne_l3Of h3)]
    exact h.root
  have hl₁ : N.out g₁ (s.mem.l2Of r key) = some sizeofL2Node := by
    rw [hout, Function.update_of_ne (h.l2Of_ne_l3Of h2 h3)]
    exact h.l2_out key h2
  have e1 : s₁.mem.l2Of r key = s.mem.l2Of r key := by
    rw [l2Of, (hag r (by rw [hr₁]; simp)).1]
    rfl
  refine Spec.store_bind (hp.l2 h2) trivial (Spec.load_bind (hp.l2 h2)
    (Spec.store_bind (hp.l2 h2) trivial (Spec.load_bind (hp.l2 h2) ?_)))
  -- the leaf is unlinked, with or without the node above it
  generalize hs₂ : ((s₁.setMem _).setMem _ : State) = s₂
  have hl2 : s₂.mem.l2Of r k = s.mem.l2Of r key := by
    rw [← hs₂, l2Of_congr h₁, ← e1]
    rfl
  have hl3 : s₂.mem.l3Of r k = NULL := by
    rw [l3Of_of_l2Of (by rw [hl2]; exact h2), hl2, h₂, ← hs₂]
    simp [Mem.setL2Count, Mem.setL2]
  have hi₂ : N.Inv s₂ g₁ := by
    rw [← hs₂]
    simp only [State.setMem_mem, State.setMem_setMem]
    refine (N.frame hi₁ ?_ ?_).1
    · intro a ha
      have hne := ne_of_out_none ha hl₁
      exact (agreeAt_setL2 hne).trans (agreeAt_setL2Count hne)
    · rfl
  refine Spec.ite (fun _ => ?_) fun _ => Spec.pure ?_
  · refine Spec.bind (N.free_spec hi₂ (.inl rfl) hl₁ fun _ _ => trivial) ?_
    rintro _ s₃ -
    refine Spec.store hp.root trivial ?_
    have hnull : (s₃.mem.setL1 r (l1IndexOf key) NULL).l2Of r k = NULL := by
      rw [l2Of, h₁]
      simp [Mem.setL1]
    have hget := run_cmallocGet (s := s₃.setMem (s₃.mem.setL1 r (l1IndexOf key) NULL)) (k := k)
      hp.root (fun h => absurd hnull h) fun h => absurd hnull (l2Of_ne_of_l3Of_ne h)
    rw [hget, lookup, if_pos (by rw [l3Of]; exact if_pos hnull)]
  · have hget := run_cmallocGet (s := s₂) (k := k) hp.root
      (fun _ => by rw [hl2]; exact hp.l2 h2) fun h => absurd hl3 h
    rw [hget, lookup, if_pos hl3]

end

section

variable {pf : Platform}

/-- A root to start from. -/
theorem exists_root (hpf : pf.pageShift ≤ 27) : ∃ s st r,
    (arenaAllocator pf false).Inv s st ∧ outs st r = some sizeofL1Node ∧
      s.mem.l1 r = .zero ∧ Spaced s ∧ s.calls ≤ 1 := by
  have hfew := fewMmaps_cmallocAllocMetadata (s := .initial spaced) hpf sizeofL1Node .initial
    (by decide)
  have hspec := cmallocAllocMetadata_spec (I := fun _ => True) (Arena.initial pf false spaced)
    (.inr (.inr (.inl rfl))) fun _ _ => trivial
  obtain ⟨⟨r, -, hA⟩, -⟩ := hspec fun e he => allowed_of_mapped (hfew.1 e he)
  refine ⟨_, _, r, ⟨hA.arena, hA.settled fun h => by simp at h⟩, ?_, ?_, hfew.2.1, hfew.2.2⟩
  · simp [outs, Slot.outSize]
  · rcases hA.source with ⟨-, hz⟩ | ⟨hf, -⟩
    · exact hz
    · simp at hf

/-- Operations of one key make few calls to `mmap`. -/
theorem fewMmaps_mapOp (hpf : pf.pageShift ≤ 27) {r : Nat} {op : MapOp} {s : State}
    (hop : (∃ value key, op = .map value key) ∨ ∃ key, op = .unmap key) :
    FewMmaps 6 (op.call (arenaAllocator pf false) r) s := by
  rcases hop with ⟨value, key, rfl⟩ | ⟨key, rfl⟩
  · exact (FewMmaps.bind (k := 0) (fewMmaps_cmallocMap hpf) fun _ _ _ _ => .pure _).mono (by omega)
  · exact FewMmaps.bind (k := 0) (fewMmaps_cmallocUnmap hpf) fun _ _ _ _ => .pure _

/-- A permitted operation of one key that returns is a step in which every
`mmap` succeeded. -/
theorem exists_mapStep (op : MapOp) (hpf : pf.pageShift ≤ 27) {r : Nat} {w : MapWorld}
    {Q : Option Nat → State → Prop}
    (hop : (∃ value key, op = .map value key) ∨ ∃ key, op = .unmap key)
    (hp : op.Permitted w.contents) (hs : Spaced w.state) (hc : w.state.calls + 6 ≤ 2 ^ 19)
    (hspec : Spec (Allowed false) (onStore fun _ => True)
      (op.call (arenaAllocator pf false) r) w.state Q) :
    ∃ a s t, MapStep (arenaAllocator pf false) r w ⟨op, w.state, t⟩ ⟨s, op.apply w.contents⟩ ∧
      (∀ e ∈ t, Allowed false e) ∧ Q a s ∧ Spaced s ∧ s.calls ≤ w.state.calls + 6 := by
  obtain ⟨ht, hs', hc'⟩ := fewMmaps_mapOp hpf (r := r) hop hs hc
  have hall := fun e he => allowed_of_mapped (ht e he)
  obtain ⟨⟨a, ha, hQ⟩, -⟩ := hspec hall
  exact ⟨a, _, _, .call hp (Program.run_of_result ha), hall, hQ, hs', hc'⟩

theorem Mem.leafCount_writeSlot {m : Mem} {r key value : Nat} (h3 : m.l3Of r key ≠ NULL) :
    (m.writeSlot r key value).leafCount r key
      = if m.lookup r key = NULL then sizeInc (m.leafCount r key) else m.leafCount r key := by
  have he : (m.writeSlot r key value).l3Of r key = m.l3Of r key := rfl
  rw [leafCount, he, if_neg h3]
  simp [writeSlot, Mem.putL3]

/-- A range map with the path of key 1 present, between two operations. -/
structure LeafPresent (pf : Platform) (r : Nat) (st : Nat → Slot) (w : MapWorld) : Prop where
  inv : (arenaAllocator pf false).Inv w.state st
  trie : Trie AnyCount (outs st) w.state.mem r
  leaf : w.state.mem.l3Of r 1 ≠ NULL
  spaced : Spaced w.state
  calls : w.state.calls + 6 ≤ 2 ^ 19

/-- Mapping key 1 while its leaf is there writes its slot and nothing else. -/
theorem LeafPresent.map (hpf : pf.pageShift ≤ 27) {r : Nat} {w : MapWorld} {st : Nat → Slot}
    (h : LeafPresent pf r st w) (value : Nat) :
    ∃ t, MapStep (arenaAllocator pf false) r w ⟨.map value 1, w.state, t⟩
        ⟨w.state.setMem (w.state.mem.writeSlot r 1 value), Function.update w.contents 1 value⟩ ∧
      (∀ e ∈ t, Allowed false e) ∧
      LeafPresent pf r st ⟨w.state.setMem (w.state.mem.writeSlot r 1 value),
        Function.update w.contents 1 value⟩ := by
  have hp : w.state.mem.ValidPath r 1 := (arenaAllocator pf false).validPath h.inv h.trie
  have hspec : Spec (Allowed false) (onStore fun _ => True)
      ((MapOp.map value 1).call (arenaAllocator pf false) r) w.state
      fun _ s' => s' = w.state.setMem (w.state.mem.writeSlot r 1 value) := by
    refine Spec.bind (cmallocMapWith_present_spec
      (Q := fun _ s' => s' = w.state.setMem (w.state.mem.writeSlot r 1 value)) hp h.leaf trivial
      trivial rfl) ?_
    rintro _ _ rfl
    exact Spec.pure rfl
  obtain ⟨a, s, t, hst, ht, rfl, hs, -⟩ := exists_mapStep _ hpf (.inl ⟨value, 1, rfl⟩)
    (show (1 : Nat) < 2 ^ 35 by decide) h.spaced h.calls hspec
  refine ⟨t, hst, ht, ?_, h.trie.writeSlot h.leaf (countsMap_any _ _ _), h.leaf, hs, h.calls⟩
  exact ((arenaAllocator pf false).frame h.inv
    (fun a ha => agreeAt_putL3 (ne_of_out_none ha (h.trie.l3_out 1 h.leaf))) rfl).1

/-- Storing NULL over NULL again and again brings the counter of the leaf to
any value, and changes no lookup. -/
theorem LeafPresent.count (hpf : pf.pageShift ≤ 27) {r : Nat} {w : MapWorld} {st : Nat → Slot}
    (h : LeafPresent pf r st w) (h0 : w.contents 1 = NULL) (hl : w.state.mem.lookup r 1 = NULL)
    (hlt : w.state.mem.leafCount r 1 < 2 ^ 64) (j : Nat) :
    ∃ m : Mem, Run (MapStep (arenaAllocator pf false) r) (fun l => ∀ e ∈ l.trace, Allowed false e)
        w ⟨w.state.setMem m, w.contents⟩ ∧ LeafPresent pf r st ⟨w.state.setMem m, w.contents⟩ ∧
      (∀ k, m.lookup r k = w.state.mem.lookup r k) ∧
      m.leafCount r 1 = (w.state.mem.leafCount r 1 + j) % 2 ^ 64 := by
  induction j with
  | zero => exact ⟨w.state.mem, .refl, h, fun _ => rfl, (Nat.mod_eq_of_lt hlt).symm⟩
  | succ j ih =>
    obtain ⟨m, hrun, hm, hlook, hcount⟩ := ih
    obtain ⟨t, hst, ht, hm'⟩ := hm.map hpf NULL
    have hsame : Function.update w.contents 1 NULL = w.contents :=
      Function.update_eq_self_iff.mpr h0.symm
    rw [hsame] at hst hm'
    have h3 : m.l3Of r 1 ≠ NULL := hm.leaf
    have htrie : Trie AnyCount (outs st) m r := hm.trie
    refine ⟨m.writeSlot r 1 NULL, hrun.tail hst ht, hm', fun k => ?_, ?_⟩
    · rw [htrie.lookup_writeSlot h3, hlook]
      split
      · rw [lookup_congr ‹_›, hl]
      · rfl
    · rw [leafCount_writeSlot h3, if_pos (by rw [hlook, hl]), hcount]
      rw [sizeInc_eq_mod (Nat.mod_lt _ (by decide))]
      omega

/-- A map to which `cmalloc_map(map, 1, 0)` has just been applied. -/
theorem exists_mapped_zero (hpf : pf.pageShift ≤ 27) : ∃ s₀ st₀ r s₁ st₁ t,
    (arenaAllocator pf false).Inv s₀ st₀ ∧ outs st₀ r = some sizeofL1Node ∧
    s₀.mem.l1 r = .zero ∧
    MapStep (arenaAllocator pf false) r ⟨s₀, fun _ => NULL⟩ ⟨.map 1 0, s₀, t⟩
      ⟨s₁, Function.update (fun _ => NULL) 0 1⟩ ∧
    (MapOp.map 1 0).Room (arenaAllocator pf false) r s₀ ∧ (∀ e ∈ t, Allowed false e) ∧
    MapInv (arenaAllocator pf false) r ⟨s₁, Function.update (fun _ => NULL) 0 1⟩ st₁ ∧
    Spaced s₁ ∧ s₁.calls ≤ 7 := by
  obtain ⟨s₀, st₀, r, hi, hr, hz, hs, hc⟩ := exists_root hpf
  have h₀ : MapInv (arenaAllocator pf false) r ⟨s₀, fun _ => NULL⟩ st₀ :=
    ⟨hi, Trie.zero hr hz, fun _ _ => lookup_zero hz⟩
  have hroom : (MapOp.map 1 0).Room (arenaAllocator pf false) r s₀ := fun _ => by
    rw [leafCount, if_pos (by rw [l3Of, if_pos (l2Of_zero hz)])]
    decide
  obtain ⟨_, s₁, t, hst, ht, ⟨⟨st₁, h₁⟩, -⟩, hs₁, hc₁⟩ := exists_mapStep _ hpf
    (.inl ⟨1, 0, rfl⟩) (show (0 : Nat) < 2 ^ 35 by decide) hs (by dsimp only; omega)
    (h₀.call_spec (show (0 : Nat) < 2 ^ 35 by decide) hroom)
  exact ⟨s₀, st₀, r, s₁, st₁, t, hi, hr, hz, hst, hroom, ht, h₁, hs₁, by dsimp only at hc₁; omega⟩

/-- The state after that operation is one the refinement speaks of. -/
theorem range_map_refines_mapped_zero : ∃ r w, w.contents 0 = 1 ∧
    MapSound (arenaAllocator .smallPages false) r w := by
  obtain ⟨s₀, st₀, r, s₁, st₁, t, hi, hr, hz, hst, hroom, ht, -⟩ :=
    exists_mapped_zero (show Platform.smallPages.pageShift ≤ 27 by decide)
  exact ⟨r, _, by simp, range_map_refines hi hr hz (.tail .refl hst ⟨hroom, ht⟩)⟩

/-- The counter wraps and a mapped key is lost: `cmalloc_map(map, 1, 0)`,
then NULL stored for key 1 until the counter of the leaf is 0, then key 1
mapped to 1 and unmapped. Key 0 still ought to be found. -/
theorem range_map_loses_key : ∃ (s₀ : State) (st₀ : Nat → Slot) (r : Nat) (w : MapWorld),
    (arenaAllocator .smallPages false).Inv s₀ st₀ ∧ outs st₀ r = some sizeofL1Node ∧
    s₀.mem.l1 r = .zero ∧
    Run (MapStep (arenaAllocator .smallPages false) r) (fun l => ∀ e ∈ l.trace, Allowed false e)
      ⟨s₀, fun _ => NULL⟩ w ∧
    w.contents 0 = 1 ∧ (cmallocGet r 0).run w.state = ⟨.ok NULL, w.state, []⟩ := by
  have hpf : Platform.smallPages.pageShift ≤ 27 := by decide
  obtain ⟨s₀, st₀, r, s₁, st₁, t₁, hi, hr, hz, hst₁, -, ht₁, h₁, hs₁, hc₁⟩ :=
    exists_mapped_zero hpf
  refine ⟨s₀, st₀, r, ?_⟩
  have hk1 : l1IndexOf 0 = l1IndexOf 1 := by simp [l1IndexOf_eq]
  have hk2 : l2IndexOf 0 = l2IndexOf 1 := by simp [l2IndexOf_eq]
  have hlook0 : s₁.mem.lookup r 0 ≠ NULL := by
    rw [h₁.lookup_eq 0 (by decide)]
    exact Nat.one_ne_zero
  have hleaf : s₁.mem.l3Of r 1 ≠ NULL := by
    rw [← l3Of_congr hk1 hk2]
    exact l3Of_ne_of_lookup_ne hlook0
  have hlt : s₁.mem.leafCount r 1 < 2 ^ 64 := by
    rw [leafCount, if_neg hleaf]
    exact (h₁.trie.l3_count 1 hleaf).2
  have hp₁ : LeafPresent .smallPages r st₁ ⟨s₁, Function.update (fun _ => NULL) 0 1⟩ :=
    ⟨h₁.inv, h₁.trie.weaken fun _ _ _ => trivial, hleaf, hs₁, by dsimp only; omega⟩
  -- the counter is brought to 0, then key 1 is mapped: the leaf counts 1
  obtain ⟨m, hrun, hp₂, hlook, hcount⟩ := hp₁.count hpf rfl (h₁.lookup_eq 1 (by decide)) hlt
    (2 ^ 64 - s₁.mem.leafCount r 1)
  dsimp only at hlook hcount hlt
  rw [show s₁.mem.leafCount r 1 + (2 ^ 64 - s₁.mem.leafCount r 1) = 2 ^ 64 by omega,
    Nat.mod_self] at hcount
  obtain ⟨t₃, hst₃, ht₃, hp₃⟩ := hp₂.map hpf 1
  have h3 : m.l3Of r 1 ≠ NULL := hp₂.leaf
  have htrie : Trie AnyCount (outs st₁) m r := hp₂.trie
  have hcount₃ : (m.writeSlot r 1 1).leafCount r 1 = 1 := by
    rw [leafCount_writeSlot h3, if_pos (by rw [hlook]; exact h₁.lookup_eq 1 (by decide)), hcount]
    exact sizeInc_of_lt (by decide)
  have hlook₃ : (m.writeSlot r 1 1).lookup r 1 ≠ NULL := by
    rw [htrie.lookup_writeSlot h3, if_pos (SameKey.refl 1)]
    decide
  have hspec := unmap_loses_leaf hp₃.inv hp₃.trie hlook₃ hcount₃ hk1 hk2
  obtain ⟨_, s₄, t₄, hst₄, ht₄, hget, -⟩ := exists_mapStep (.unmap 1) hpf (.inr ⟨1, rfl⟩)
    ⟨show (1 : Nat) < 2 ^ 35 by decide, Nat.one_ne_zero⟩ hp₃.spaced hp₃.calls
    (Spec.bind (g := fun _ => pure none) hspec fun _ s' h => Spec.pure (Q := fun _ s' =>
      (cmallocGet r 0).run s' = ⟨.ok NULL, s', []⟩) h)
  refine ⟨_, hi, hr, hz, (((Run.refl.tail hst₁ ht₁).trans hrun).tail hst₃ ht₃).tail hst₄ ht₄, ?_,
    hget⟩
  simp [MapOp.apply]

end

end FastAlloc
