/-
FastAlloc.Arena.Free — `cmalloc_free_metadata`.

Linking a freed object into the map of free lists may first need a root, an
L2 and an L3 node for that map, each allocated from the arena in the middle
of the call. Such an allocation can pop another list but never the one being
pushed to: while a node on that list's path is missing the list is empty.
So the head read at the start is still the head when it is linked.
-/
import FastAlloc.Arena.FreeList

namespace FastAlloc

open Lib Mem

section

variable {I : Mem → Prop} {pf : Platform} {strict : Bool} {s s₁ s₂ s₃ s' : State}
  {st st₁ st₂ st₃ st' : Nat → Slot} {a key size : Nat}

/-- Slots that change become nodes of `free_list_map`. -/
def GainsNodes (st st' : Nat → Slot) : Prop :=
  ∀ b, st' b = st b ∨ ∃ z, st' b = .node z ∧ ((st b).size = none ∨ st b = .free z)

theorem GainsNodes.refl (st : Nat → Slot) : GainsNodes st st := fun _ => .inl rfl

theorem GainsNodes.trans (h : GainsNodes st₁ st₂) (h' : GainsNodes st₂ st₃) :
    GainsNodes st₁ st₃ := by
  intro b
  rcases h' b with h₂ | ⟨z, h₂, h₃⟩
  · rw [h₂]
    exact h b
  · refine .inr ⟨z, h₂, ?_⟩
    rcases h b with h₁ | ⟨z', h₁, -⟩
    · rwa [← h₁]
    · rw [h₁] at h₃
      simp [Slot.size] at h₃

theorem GainsNodes.outs_eq (h : GainsNodes st st') : outs st' = outs st := by
  funext b
  rcases h b with h | ⟨z, h, h' | h'⟩
  · rw [outs, outs, h]
  · have : outs st b = none := by
      by_contra hne
      exact Slot.size_of_outs hne h'
    rw [this, outs, h]
    rfl
  · rw [outs, outs, h, h']
    rfl

/-- What making nodes on the path of `key` in `free_list_map` present does. -/
structure PathReady (pf : Platform) (strict : Bool) (key : Nat) (s : State) (st : Nat → Slot)
    (s' : State) (st' : Nat → Slot) : Prop where
  arena : Arena pf strict s' st'
  gains : GainsNodes st st'
  agree : Agree (outs st) s.mem s'.mem
  freeListMap : s'.freeListMap = s.freeListMap
  undisturbed : Undisturbed s s'
  lookup_key : s'.mem.lookup s.freeListMap key = s.mem.lookup s.freeListMap key
  lookup_other : ∀ k, (∀ sz, IsNodeSize sz → ¬ SameKey k sz) →
    s'.mem.lookup s.freeListMap k = s.mem.lookup s.freeListMap k
  mapped : strict = true → ∀ k, s.mem.lookup s.freeListMap k ≠ NULL →
    s'.mem.lookup s.freeListMap k ≠ NULL
  l2Of_eq : ∀ k, s'.mem.l2Of s.freeListMap k = s.mem.l2Of s.freeListMap k ∨
    s.mem.l2Of s.freeListMap k = NULL ∧ l1IndexOf k = l1IndexOf key
  l3Of_eq : ∀ k, s'.mem.l3Of s.freeListMap k = s.mem.l3Of s.freeListMap k ∨
    s.mem.l3Of s.freeListMap k = NULL ∧ l1IndexOf k = l1IndexOf key ∧
      l2IndexOf k = l2IndexOf key

theorem PathReady.refl (h : Arena pf strict s st) : PathReady pf strict key s st s st :=
  ⟨h, .refl st, .refl _ _, rfl, .refl s, rfl, fun _ _ => rfl, fun _ _ h => h, fun _ => .inl rfl, fun _ => .inl rfl⟩

theorem PathReady.trans (h : PathReady pf strict key s₁ st₁ s₂ st₂)
    (h' : PathReady pf strict key s₂ st₂ s₃ st₃) : PathReady pf strict key s₁ st₁ s₃ st₃ where
  arena := h'.arena
  gains := h.gains.trans h'.gains
  agree := h.agree.trans (by rw [← h.gains.outs_eq]; exact h'.agree)
  freeListMap := h'.freeListMap.trans h.freeListMap
  undisturbed := h.undisturbed.trans h'.undisturbed
  lookup_key := by
    have := h'.lookup_key
    rw [h.freeListMap] at this
    exact this.trans h.lookup_key
  lookup_other k hk := by
    have := h'.lookup_other k hk
    rw [h.freeListMap] at this
    exact this.trans (h.lookup_other k hk)
  mapped hs k hk := by
    have := h'.mapped hs k
    rw [h.freeListMap] at this
    exact this (h.mapped hs k hk)
  l2Of_eq k := by
    have := h'.l2Of_eq k
    rw [h.freeListMap] at this
    rcases this with h₂ | ⟨h₂, hi⟩
    · rw [h₂]
      exact h.l2Of_eq k
    · rcases h.l2Of_eq k with h₁ | h₁
      · exact .inr ⟨h₁ ▸ h₂, hi⟩
      · exact .inr h₁
  l3Of_eq k := by
    have := h'.l3Of_eq k
    rw [h.freeListMap] at this
    rcases this with h₂ | ⟨h₂, hi⟩
    · rw [h₂]
      exact h.l3Of_eq k
    · rcases h.l3Of_eq k with h₁ | h₁
      · exact .inr ⟨h₁ ▸ h₂, hi⟩
      · exact .inr h₁

/-- An object just handed out becomes a node of `free_list_map`. -/
theorem Arena.addNode (h : Arena pf strict s st) {m' : Mem} (ha : st a = .out size)
    (hF : s.freeListMap ≠ NULL)
    (hag : ∀ b, b ≠ a → nodes st b = none → s.mem.AgreeAt m' b)
    (hmc : m'.metaChunk = s.mem.metaChunk)
    (htrie : Trie (CountRel strict) (nodes (Function.update st a (.node size))) m' s.freeListMap)
    (hlink : ∀ b, b = a ∨ s.mem.TrieNode s.freeListMap b → m'.TrieNode s.freeListMap b)
    (hlook : ∀ k, m'.lookup s.freeListMap k = s.mem.lookup s.freeListMap k) :
    Arena pf strict (s.setMem m') (Function.update st a (.node size)) := by
  have hfree : ∀ b sz, Function.update st a (.node size) b = .free sz ↔ st b = .free sz := by
    intro b sz
    by_cases hb : b = a
    · rw [hb, Function.update_self, ha]
      simp
    · rw [Function.update_of_ne hb]
  have hlay : Layout pf (s.setMem m') st := h.toLayout.of_mem rfl rfl hmc fun b hb =>
    (hag b (by rintro rfl; simp [ha, Slot.size] at hb) (by
      by_contra hn
      exact Slot.size_of_nodes hn hb)).1
  refine ⟨hlay.relabel fun b => ?_, ?_, fun _ => htrie, fun b sz hb => ?_,
    fun _ k hk => (hlook k).trans (h.unlisted hF k hk), fun _ sz hsz => ?_⟩
  · by_cases hb : b = a
    · rw [hb, Function.update_self, ha]
      rfl
    · rw [Function.update_of_ne hb]
  · exact fun h0 => absurd h0 hF
  · refine hlink b ?_
    by_cases hba : b = a
    · exact .inl hba
    · rw [Function.update_of_ne hba] at hb
      exact .inr (h.linked b sz hb)
  · rw [State.setMem_mem, State.setMem_freeListMap, hlook]
    refine (h.lists hF sz hsz).congr (fun b hb => firstWord_agreeAt (hag b ?_ ?_))
      fun b => hfree b sz
    · rintro rfl
      rw [ha] at hb
      simp at hb
    · simp [nodes, Slot.nodeSize, hb]

/-- Linking a node just handed out, seen from before it was. -/
theorem Alloced.ready (hA : Alloced pf strict size st s a s₁) (hF : s.freeListMap ≠ NULL)
    {m' : Mem} (hempty : ¬ SameKey key size ∨ s.mem.lookup s.freeListMap size = NULL)
    (hag : ∀ b, b ≠ a → nodes (Function.update st a (.out size)) b = none → s₁.mem.AgreeAt m' b)
    (hmc : m'.metaChunk = s₁.mem.metaChunk)
    (htrie : Trie (CountRel strict) (nodes (Function.update st a (.node size))) m' s.freeListMap)
    (hsz : IsNodeSize size) (hlink : a = m'.l2Of s.freeListMap key ∨ a = m'.l3Of s.freeListMap key)
    (hlook : ∀ k, m'.lookup s.freeListMap k = s₁.mem.lookup s.freeListMap k)
    (hl2 : ∀ k, m'.l2Of s.freeListMap k = s.mem.l2Of s.freeListMap k ∨
      s.mem.l2Of s.freeListMap k = NULL ∧ l1IndexOf k = l1IndexOf key)
    (hl3 : ∀ k, m'.l3Of s.freeListMap k = s.mem.l3Of s.freeListMap k ∨
      s.mem.l3Of s.freeListMap k = NULL ∧ l1IndexOf k = l1IndexOf key ∧
        l2IndexOf k = l2IndexOf key) :
    PathReady pf strict key s st (s₁.setMem m') (Function.update st a (.node size)) where
  arena := by
    have hout : Function.update st a (.out size) a = .out size := Function.update_self ..
    have := hA.arena.addNode hout (by rwa [hA.freeListMap]) hag hmc (by
        rw [hA.freeListMap, Function.update_idem]; exact htrie)
      (fun b hb => by
        rw [hA.freeListMap] at hb ⊢
        rcases hb with rfl | hb
        · exact .inr ⟨hA.arena.valid (by simp [Slot.size]) |>.1, key, hlink⟩
        · refine hb.mono (fun k => ?_) fun k => ?_
          · rw [hA.l2Of_eq hF]
            exact (hl2 k).imp_right fun h => h.1
          · rw [hA.l3Of_eq hF]
            exact (hl3 k).imp_right fun h => h.1)
      (by rw [hA.freeListMap]; exact hlook)
    rwa [Function.update_idem] at this
  gains b := by
    by_cases hb : b = a
    · refine .inr ⟨size, by rw [hb, Function.update_self], ?_⟩
      rcases hA.source with ⟨h, -⟩ | ⟨h, -⟩
      · exact .inl (hb ▸ h)
      · exact .inr (hb ▸ h)
    · exact .inl (Function.update_of_ne hb _ _)
  agree b hb := by
    have hba : b ≠ a := fun he => hb (he ▸ hA.outs_eq_none)
    refine (hA.agree b hb).trans (hag b hba ?_)
    by_contra hn
    rw [nodes, Function.update_of_ne hba] at hn
    exact hb (outs_of_nodes hn)
  freeListMap := hA.freeListMap
  undisturbed := hA.undisturbed.trans (.setMem _ _)
  lookup_key := (hlook key).trans (hA.lookup_eq hF key hempty)
  lookup_other k hk := (hlook k).trans (hA.lookup_eq hF k (.inl (hk size hsz)))
  mapped hs k hk := by
    rw [State.setMem_mem, hlook]
    exact hA.mapped hs hF k hk
  l2Of_eq := hl2
  l3Of_eq := hl3

/-- A key whose path is not complete has nothing mapped, so what an
allocation may pop is another key's list. -/
theorem not_sameKey_or_null {F : Nat} (h3 : s.mem.l3Of F key = NULL) :
    ¬ SameKey key size ∨ s.mem.lookup F size = NULL := by
  by_cases hs : SameKey key size
  · refine .inr ?_
    rw [← lookup_congr hs, lookup, if_pos h3]
  · exact .inl hs

theorem Alloced.nodes_eq (hA : Alloced pf strict size st s a s₁) :
    nodes (Function.update st a (.out size)) = nodes st := by
  rw [nodes_update]
  refine Function.update_eq_self_iff.mpr ?_
  rcases hA.source with ⟨h, -⟩ | ⟨h, -⟩
  · by_contra hn
    exact Slot.size_of_nodes (Ne.symm hn) h
  · simp [nodes, Slot.nodeSize, h]

theorem Alloced.fresh (hA : Alloced pf strict size st s a s₁) : nodes st a = none := by
  rw [← hA.nodes_eq, nodes, Function.update_self]
  rfl

theorem Alloced.node_out (hA : Alloced pf strict size st s a s₁) :
    ∀ b z, nodes st b = some z → nodes (Function.update st a (.node size)) b = some z := by
  intro b z hb
  rw [nodes_update, Function.update_of_ne (ne_of_out_none hA.fresh hb).symm, hb]

theorem Alloced.trie (hA : Alloced pf strict size st s a s₁) (hF : s.freeListMap ≠ NULL) :
    Trie (CountRel strict) (nodes st) s₁.mem s.freeListMap := by
  have := hA.arena.trie (by rwa [hA.freeListMap])
  rwa [hA.nodes_eq, hA.freeListMap] at this

theorem Alloced.valid (hA : Alloced pf strict size st s a s₁) : Valid a :=
  hA.arena.valid (by simp [Slot.size])

variable {depth : Nat}

theorem ensureL2Node_arena_spec (h : Arena pf strict s st) (hF : s.freeListMap ≠ NULL)
    (hI : ∀ m', Agree (outs st) s.mem m' → I m') :
    Spec (Allowed strict) (onStore I)
      (ensureL2Node (cmallocAllocMetadataAt pf (depth + 1)) s.freeListMap key) s
      fun _ s' => ∃ st', PathReady pf strict key s st s' st' ∧
        s'.mem.l2Of s.freeListMap key ≠ NULL := by
  have hp := h.validPath hF key
  by_cases h0 : s.mem.l2Of s.freeListMap key = NULL
  · refine Spec.load_bind hp.root ?_
    rw [if_pos (show (s.mem.l1 s.freeListMap).l1 (l1IndexOf key) = NULL from h0)]
    refine Spec.bind (cmallocAllocMetadataAt_spec h (.inr (.inr (.inr (.inl rfl)))) depth hI) ?_
    intro a s₁ hA
    have h₁ := hA.trie hF
    have h0₁ : s₁.mem.l2Of s.freeListMap key = NULL := by rw [hA.l2Of_eq hF, h0]
    have hroot : ∀ b, nodes st b = none → b ≠ s.freeListMap := fun b hb =>
      ne_of_out_none hb h₁.root
    have hout : ∀ b, outs st b ≠ none → b ≠ a ∧ b ≠ s.freeListMap := fun b hb =>
      ⟨fun he => hb (he ▸ hA.outs_eq_none), fun he => hb (by
        rw [he]; exact outs_of_nodes (by rw [h₁.root]; simp))⟩
    have h3 : s.mem.l3Of s.freeListMap key = NULL := by rw [l3Of, if_pos h0]
    refine linkL2_spec hp.root hA.valid (hI _ (hA.agree.trans fun b hb =>
      agreeAt_setL1 (hout b hb).2)) (fun n => hI _ (hA.agree.trans fun b hb =>
      (agreeAt_setL1 (hout b hb).2).trans (agreeAt_clearL2 (hout b hb).1)))
      ⟨Function.update st a (.node sizeofL2Node), ?_, ?_⟩
    · refine hA.ready hF (not_sameKey_or_null h3) (fun b hba hb => ?_) rfl
        (h₁.linkL2 h0₁ hA.valid.1 hA.fresh hA.node_out (by simp [nodes, Slot.nodeSize]))
        (.inl rfl) (.inl (by rw [Trie.l2Of_linkL2, if_pos rfl]))
        (fun k => h₁.lookup_linkL2 h0₁ hA.valid.1 hA.fresh) (fun k => ?_) fun k => ?_
      · rw [hA.nodes_eq] at hb
        exact agreeAt_linkL2 (hroot b hb) hba
      · rw [Trie.l2Of_linkL2]
        split
        · exact .inr ⟨by rw [l2Of_congr ‹_›, h0], ‹_›⟩
        · exact .inl (hA.l2Of_eq hF k)
      · exact .inl ((h₁.l3Of_linkL2 h0₁ hA.valid.1 hA.fresh).trans (hA.l3Of_eq hF k))
    · change (s₁.mem.linkL2 s.freeListMap key a).l2Of s.freeListMap key ≠ NULL
      rw [Trie.l2Of_linkL2, if_pos rfl]
      exact hA.valid.1
  · exact Spec.of_run (run_ensureL2Node_present hp.root h0) (by simp) ⟨st, .refl h, h0⟩

theorem ensureL3Node_arena_spec (h : Arena pf strict s st) (hF : s.freeListMap ≠ NULL)
    (h2 : s.mem.l2Of s.freeListMap key ≠ NULL) (hI : ∀ m', Agree (outs st) s.mem m' → I m') :
    Spec (Allowed strict) (onStore I)
      (ensureL3Node (cmallocAllocMetadataAt pf (depth + 1)) s.freeListMap key) s
      fun _ s' => ∃ st', PathReady pf strict key s st s' st' ∧
        s'.mem.l3Of s.freeListMap key ≠ NULL := by
  have hp := h.validPath hF key
  by_cases h0 : s.mem.l3Of s.freeListMap key = NULL
  · refine Spec.load_bind hp.root (Spec.load_bind (hp.l2 h2) ?_)
    rw [if_pos (show (s.mem.l2 ((s.mem.l1 s.freeListMap).l1 (l1IndexOf key))).l2 (l2IndexOf key)
      = NULL from (l3Of_of_l2Of h2).symm.trans h0)]
    refine Spec.bind (cmallocAllocMetadataAt_spec h (.inr (.inr (.inr (.inr rfl)))) depth hI) ?_
    intro b s₁ hA
    have h₁ := hA.trie hF
    have e2 : s₁.mem.l2Of s.freeListMap key = s.mem.l2Of s.freeListMap key := hA.l2Of_eq hF key
    have h2₁ : s₁.mem.l2Of s.freeListMap key ≠ NULL := by rwa [e2]
    have h0₁ : s₁.mem.l3Of s.freeListMap key = NULL := by rw [hA.l3Of_eq hF, h0]
    have hl2 : ∀ c, nodes st c = none → c ≠ s₁.mem.l2Of s.freeListMap key := fun c hc =>
      ne_of_out_none hc (h₁.l2_out key h2₁)
    have hout : ∀ c, outs st c ≠ none → c ≠ b ∧ c ≠ s₁.mem.l2Of s.freeListMap key := fun c hc =>
      ⟨fun he => hc (he ▸ hA.outs_eq_none), fun he => hc (by
        rw [he]; exact outs_of_nodes (by rw [h₁.l2_out key h2₁]; simp))⟩
    refine linkL3_spec (hp.l2 h2) hA.valid e2.symm ?_ (fun n => ?_) ?_
      ⟨Function.update st b (.node sizeofL3Node), ?_, ?_⟩
    · rw [l1_l1IndexOf, ← e2]
      exact hI _ (hA.agree.trans fun c hc => agreeAt_setL2 (hout c hc).2)
    · rw [l1_l1IndexOf, ← e2]
      exact hI _ (hA.agree.trans fun c hc =>
        (agreeAt_setL2 (hout c hc).2).trans (agreeAt_clearL3 (hout c hc).1))
    · exact hI _ (hA.agree.trans fun c hc => agreeAt_linkL3 (hout c hc).2 (hout c hc).1)
    · refine hA.ready hF (not_sameKey_or_null h0) (fun c hcb hc => ?_) rfl
        (h₁.linkL3 h2₁ h0₁ hA.valid.1 hA.fresh (countRel_zero _) hA.node_out
          (by simp [nodes, Slot.nodeSize]))
        (.inr rfl) (.inr (by rw [h₁.l3Of_linkL3 h2₁, if_pos ⟨rfl, rfl⟩]))
        (fun k => h₁.lookup_linkL3 h2₁ h0₁ hA.fresh hA.valid.1)
        (fun k => .inl (hA.l2Of_eq hF k)) fun k => ?_
      · rw [hA.nodes_eq] at hc
        exact agreeAt_linkL3 (hl2 c hc) hcb
      · rw [h₁.l3Of_linkL3 h2₁]
        split
        · rename_i he
          exact .inr ⟨by rw [l3Of_congr he.1 he.2, h0], he⟩
        · exact .inl (hA.l3Of_eq hF k)
    · change (s₁.mem.linkL3 s.freeListMap key b).l3Of s.freeListMap key ≠ NULL
      rw [h₁.l3Of_linkL3 h2₁, if_pos ⟨rfl, rfl⟩]
      exact hA.valid.1
  · exact Spec.of_run (run_ensureL3Node_present hp h0) (by simp) ⟨st, .refl h, h0⟩

/-! ## The root -/

/-- In strict runs the map of free lists has no empty node. -/
def Settled (strict : Bool) (s : State) : Prop :=
  strict = true → s.freeListMap ≠ NULL → s.mem.NoEmptyNode s.freeListMap

/-- What making the map of free lists present does. -/
structure RootReady (pf : Platform) (strict : Bool) (s : State) (st : Nat → Slot) (s' : State)
    (st' : Nat → Slot) : Prop where
  arena : Arena pf strict s' st'
  gains : GainsNodes st st'
  agree : Agree (outs st) s.mem s'.mem
  present : s'.freeListMap ≠ NULL
  undisturbed : Undisturbed s s'
  kept : ListsKept s s'
  settled : Settled strict s → Settled strict s'

theorem Arena.newRoot (h : Arena pf strict s st) (h0 : s.freeListMap = NULL)
    (hA : Alloced pf strict sizeofL1Node st s a s₁) :
    RootReady pf strict s st { s₁ with freeListMap := a }
      (Function.update st a (.node sizeofL1Node)) := by
  obtain ⟨hunused, hz⟩ : (st a).size = none ∧ s₁.mem.l1 a = .zero := by
    rcases hA.source with h | ⟨-, hF⟩
    · exact h
    · exact absurd h0 hF
  have hne : a ≠ NULL := hA.valid.1
  have hl2 : ∀ k, s₁.mem.l2Of a k = NULL := fun k => l2Of_zero hz
  have hlay : Layout pf { s₁ with freeListMap := a } (Function.update st a (.out sizeofL1Node)) :=
    hA.arena.toLayout.of_mem rfl rfl rfl fun _ _ => rfl
  constructor
  case arena =>
    refine ⟨hlay.relabel fun b => ?_, fun h0' => absurd h0' hne, fun _ => ?_, fun b sz hb => ?_,
      fun _ k _ => lookup_zero hz, fun _ sz _ => ?_⟩
    · by_cases hb : b = a
      · rw [hb, Function.update_self, Function.update_self]
        rfl
      · rw [Function.update_of_ne hb, Function.update_of_ne hb]
    · exact Trie.zero (by simp [nodes, Slot.nodeSize]) hz
    · by_cases hba : b = a
      · exact .inl hba
      · rw [Function.update_of_ne hba] at hb
        exact absurd hb (h.absent h0 b sz).2
    · change ChainOf NULL _ (s₁.mem.lookup a sz) _
      rw [lookup_zero hz]
      refine ChainOf.nil fun b hb => ?_
      by_cases hba : b = a
      · rw [hba, Function.update_self] at hb
        simp at hb
      · rw [Function.update_of_ne hba] at hb
        exact (h.absent h0 b sz).1 hb
  case gains =>
    intro b
    by_cases hb : b = a
    · exact .inr ⟨_, by rw [hb, Function.update_self], .inl (hb ▸ hunused)⟩
    · exact .inl (Function.update_of_ne hb _ _)
  case agree => exact hA.agree
  case present => exact hne
  case undisturbed =>
    have hu := hA.undisturbed
    exact ⟨hu.pageMap, hu.dataArena, hu.uninitilizedSpanBin, hu.nonEmptyBitmap,
      hu.threadLocalBin, hu.maps_kept, hu.maps_new, hu.bytes⟩
  case kept => exact fun hF => absurd h0 hF
  case settled =>
    refine fun _ _ _ => ⟨fun k hk => absurd (hl2 k) hk, fun k hk => ?_⟩
    exact absurd (hl2 k) (l2Of_ne_of_l3Of_ne hk)

theorem exists_depth (pf : Platform) : ∃ d, pf.depth = d + 1 :=
  Nat.exists_eq_succ_of_ne_zero (Nat.pos_iff_ne_zero.mp pf.depth_pos)

theorem cmallocAllocMetadata_spec (h : Arena pf strict s st) (hsz : IsSize size)
    (hI : ∀ m', Agree (outs st) s.mem m' → I m') :
    Spec (Allowed strict) (onStore I) (cmallocAllocMetadata pf size) s
      fun a s' => Alloced pf strict size st s a s' := by
  obtain ⟨d, hd⟩ := exists_depth pf
  unfold cmallocAllocMetadata
  rw [hd]
  exact cmallocAllocMetadataAt_spec h hsz d hI

theorem ensureFreeListMap_spec (h : Arena pf strict s st)
    (hI : ∀ m', Agree (outs st) s.mem m' → I m') :
    Spec (Allowed strict) (onStore I) (ensureFreeListMap pf) s
      fun _ s' => ∃ st', RootReady pf strict s st s' st' := by
  refine Spec.global_bind (Spec.ite (fun h0 => ?_) fun hF => ?_)
  · refine Spec.bind (cmallocAllocMetadata_spec h (.inr (.inr (.inl rfl))) hI) fun a s₁ hA => ?_
    exact Spec.setGlobal ⟨_, h.newRoot h0 hA⟩
  · exact Spec.pure ⟨st, h, .refl st, .refl _ _, hF, .refl s, .refl s, fun h => h⟩

/-! ## The free-list link -/

theorem Mem.agreeAt_setFirstWord {m : Mem} {b p v : Nat} (h : b ≠ p) :
    m.AgreeAt (m.setFirstWord size p v) b := by
  unfold Mem.setFirstWord
  split_ifs
  all_goals simp [AgreeAt, Mem.setSpan, Mem.setDataChunk, Mem.setL1, Mem.setL2, Mem.setL3, h]

theorem Mem.metaChunk_setFirstWord {m : Mem} {p v : Nat} :
    (m.setFirstWord size p v).metaChunk = m.metaChunk := by
  unfold Mem.setFirstWord
  split_ifs
  all_goals rfl

theorem Mem.firstWord_setFirstWord {m : Mem} {p v : Nat} (hsz : IsSize size) :
    (m.setFirstWord size p v).firstWord size p = v := by
  unfold Mem.firstWord Mem.setFirstWord
  split_ifs with h₁ h₂ h₃ h₄ h₅
  · simp [Mem.setSpan]
  · simp [Mem.setDataChunk]
  · simp [Mem.setL1]
  · simp [Mem.setL2]
  · simp [Mem.setL3]
  · rcases hsz with h | h | h | h | h <;> contradiction

/-- An object whose first word is the head of its list becomes the head. -/
theorem Arena.push (h : Arena pf strict s st) (hsz : IsSize size) (hF : s.freeListMap ≠ NULL)
    (ha : st a = .out size) (h3 : s.mem.l3Of s.freeListMap size ≠ NULL)
    (hword : s.mem.firstWord size a = s.mem.lookup s.freeListMap size) :
    Arena pf strict (s.setMem (s.mem.writeSlot s.freeListMap size a))
      (Function.update st a (.free size)) := by
  have ht := h.trie hF
  have hne : a ≠ NULL := (h.valid (by simp [ha, Slot.size])).1
  have hnode := nodes_eq_some.mp (ht.l3_out size h3)
  have hlook : ∀ k, (s.mem.writeSlot s.freeListMap size a).lookup s.freeListMap k
      = if SameKey k size then a else s.mem.lookup s.freeListMap k :=
    fun k => ht.lookup_writeSlot h3
  have hfw : ∀ b sz, st b ≠ .node sizeofL3Node →
      (s.mem.writeSlot s.freeListMap size a).firstWord sz b = s.mem.firstWord sz b :=
    fun b sz hb => firstWord_agreeAt (agreeAt_putL3 fun he => hb (he ▸ hnode))
  have hnodes : nodes (Function.update st a (.free size)) = nodes st := by
    rw [nodes_update]
    exact Function.update_eq_self_iff.mpr (by simp [nodes, Slot.nodeSize, ha])
  have hlay : Layout pf (s.setMem (s.mem.writeSlot s.freeListMap size a)) st :=
    h.toLayout.of_mem rfl rfl rfl fun _ _ => rfl
  refine ⟨hlay.relabel fun b => ?_, fun h0 => absurd h0 hF, fun _ => ?_, fun b sz hb => ?_,
    fun _ k hk => ?_, fun _ sz hsz' => ?_⟩
  · by_cases hb : b = a
    · rw [hb, Function.update_self, ha]
      rfl
    · rw [Function.update_of_ne hb]
  · rw [hnodes]
    exact ht.writeSlot h3 (countsMap_countRel fun _ => hne)
  · rw [← nodes_eq_some, hnodes, nodes_eq_some] at hb
    exact (h.linked b sz hb).mono (fun _ => .inl rfl) fun _ => .inl rfl
  · rw [State.setMem_mem, State.setMem_freeListMap, hlook, if_neg (hk size hsz)]
    exact h.unlisted hF k hk
  · change ChainOf NULL _ ((s.mem.writeSlot s.freeListMap size a).lookup s.freeListMap sz) _
    rw [hlook]
    have hold : ∀ b, st b = .free sz → (s.mem.writeSlot s.freeListMap size a).firstWord sz b
        = s.mem.firstWord sz b := fun b hb => hfw b sz (by rw [hb]; simp)
    by_cases he : sz = size
    · subst he
      rw [if_pos (SameKey.refl sz)]
      have hpush : ChainOf NULL ((s.mem.writeSlot s.freeListMap sz a).firstWord sz) a
          fun b => b = a ∨ st b = .free sz :=
        (h.lists hF sz hsz).push hne ((hfw a sz (by rw [ha]; simp)).trans hword) hold
      refine hpush.congr (fun _ _ => rfl) fun b => ?_
      by_cases hb : b = a
      · simp [hb]
      · simp [hb]
    · rw [if_neg fun hs => he (hsz'.eq_of_sameKey hsz hs)]
      refine (h.lists hF sz hsz').congr hold fun b => ?_
      by_cases hb : b = a
      · rw [hb, Function.update_self, ha]
        simpa using Ne.symm he
      · rw [Function.update_of_ne hb]

/-! ## `cmalloc_free_metadata` -/

/-- What freeing the object `ptr` of `size` bytes does. -/
structure Freed (pf : Platform) (strict : Bool) (size ptr : Nat) (s : State) (st : Nat → Slot)
    (s' : State) (st' : Nat → Slot) : Prop where
  arena : Arena pf strict s' st'
  gains : GainsNodes (Function.update st ptr (.free size)) st'
  freed : st' ptr = .free size
  agree : Agree (Function.update (outs st) ptr none) s.mem s'.mem
  undisturbed : Undisturbed s s'
  kept : IsNodeSize size → ListsKept s s'
  settled : Settled strict s → Settled strict s'

theorem Freed.outs_eq {ptr : Nat} (h : Freed pf strict size ptr s st s' st') :
    outs st' = Function.update (outs st) ptr none := by
  rw [h.gains.outs_eq, outs_update]
  rfl

theorem Mem.Agree.of_update_none {out : Nat → Option Nat} {p : Nat} {m m' : Mem}
    (h : Agree out m m') : Agree (Function.update out p none) m m' := fun b hb => by
  refine h b fun hn => hb ?_
  rw [Function.update_apply]
  split
  · rfl
  · exact hn

/-- A slot that is handed out is no node, and stays when nodes are gained. -/
theorem GainsNodes.out (h : GainsNodes st st') (ha : st a = .out size) : st' a = .out size := by
  rcases h a with he | ⟨z, -, hu | hu⟩
  · rw [he, ha]
  · rw [ha] at hu
    simp [Slot.size] at hu
  · rw [ha] at hu
    simp at hu

/-- Nodes gained while `a` is handed out are gained also when it is freed. -/
theorem GainsNodes.update (h : GainsNodes st st') (v : Slot) :
    GainsNodes (Function.update st a v) (Function.update st' a v) := by
  intro b
  by_cases hb : b = a
  · rw [hb, Function.update_self, Function.update_self]
    exact .inl rfl
  · rw [Function.update_of_ne hb, Function.update_of_ne hb]
    exact h b

theorem cmallocFreeMetadata_spec {ptr : Nat} (h : Arena pf strict s st) (hsz : IsSize size)
    (hptr : st ptr = .out size)
    (hI : ∀ m', Agree (Function.update (outs st) ptr none) s.mem m' → I m') :
    Spec (Allowed strict) (onStore I) (cmallocFreeMetadata pf ptr size) s
      fun _ s' => ∃ st', Freed pf strict size ptr s st s' st' := by
  refine Spec.bind (ensureFreeListMap_spec h fun m' hm => hI m' hm.of_update_none) ?_
  rintro _ s₁ ⟨st₁, hr⟩
  have hp₁ : st₁ ptr = .out size := hr.gains.out hptr
  have hpath := hr.arena.validPath hr.present size
  refine Spec.global_bind (Spec.bind (Q := fun v s' => v = s₁.mem.lookup s₁.freeListMap size ∧
    s₁ = s') (Spec.of_run (run_cmallocGet hpath.root hpath.l2 hpath.l3) (by simp) ⟨rfl, rfl⟩) ?_)
  rintro v _ ⟨rfl, rfl⟩
  -- the link is written in the object, which is still the caller's
  have hlink : Arena pf strict (s₁.setMem (s₁.mem.setFirstWord size ptr
      (s₁.mem.lookup s₁.freeListMap size))) st₁ := by
    refine hr.arena.frame (fun b hb => agreeAt_setFirstWord ?_) metaChunk_setFirstWord
    exact ne_of_out_none hb (outs_eq_some.mpr hp₁)
  have hag₁ : Agree (Function.update (outs st) ptr none) s.mem (s₁.mem.setFirstWord size ptr
      (s₁.mem.lookup s₁.freeListMap size)) := by
    refine hr.agree.of_update_none.trans fun b hb => agreeAt_setFirstWord ?_
    rintro rfl
    simp at hb
  refine Spec.store_bind (hr.arena.valid (by simp [hp₁, Slot.size])) (hI _ hag₁) ?_
  generalize hs₂ : s₁.setMem (s₁.mem.setFirstWord size ptr (s₁.mem.lookup s₁.freeListMap size))
    = s₂ at hlink ⊢
  have hF₂ : s₂.freeListMap = s₁.freeListMap := by rw [← hs₂]; rfl
  have hpres : s₂.freeListMap ≠ NULL := by rw [hF₂]; exact hr.present
  have hm₂ : s₂.mem = s₁.mem.setFirstWord size ptr (s₁.mem.lookup s₁.freeListMap size) := by
    rw [← hs₂]; rfl
  have hagn : Agree (nodes st₁) s₁.mem s₂.mem := fun b hb => by
    rw [hm₂]
    refine agreeAt_setFirstWord ?_
    rintro rfl
    simp [nodes, Slot.nodeSize, hp₁] at hb
  have hword : s₂.mem.firstWord size ptr = s₂.mem.lookup s₂.freeListMap size := by
    rw [hF₂, (hr.arena.trie hr.present).lookup_agree hagn, hm₂, firstWord_setFirstWord hsz]
  have hout₁ : outs st₁ = outs st := hr.gains.outs_eq
  have hI₂ : ∀ m', Agree (Function.update (outs st) ptr none) s₂.mem m' → I m' := fun m' hm =>
    hI m' ((hm₂ ▸ hag₁).trans hm)
  -- the nodes on the path, then the slot
  obtain ⟨d, hd⟩ := exists_depth pf
  unfold cmallocMap cmallocMapWith cmallocAllocMetadata
  rw [hd, ← hF₂]
  refine Spec.bind (ensureL2Node_arena_spec hlink hpres fun m' hm => hI₂ m' (by
    rw [← hout₁]; exact hm.of_update_none)) ?_
  rintro _ s₃ ⟨st₃, p₃, h2⟩
  rw [← p₃.freeListMap] at h2 ⊢
  refine Spec.bind (ensureL3Node_arena_spec p₃.arena (by rw [p₃.freeListMap]; exact hpres) h2
    fun m' hm => hI₂ m' ?_) ?_
  · rw [← hout₁]
    rw [p₃.gains.outs_eq] at hm
    exact (p₃.agree.trans hm).of_update_none
  rintro _ s₄ ⟨st₄, p₄, h3⟩
  have p := p₃.trans p₄
  rw [← p₄.freeListMap] at h3 ⊢
  have hF₄ : s₄.freeListMap = s₂.freeListMap := p.freeListMap
  have hpres₄ : s₄.freeListMap ≠ NULL := by rw [hF₄]; exact hpres
  have hp₄ : st₄ ptr = .out size := p.gains.out hp₁
  have hag₄ : Agree (Function.update (outs st) ptr none) s.mem s₄.mem := by
    rw [← hm₂] at hag₁
    refine hag₁.trans ?_
    rw [← hout₁]
    exact p.agree.of_update_none
  have hword₄ : s₄.mem.firstWord size ptr = s₄.mem.lookup s₄.freeListMap size := by
    have hat : s₂.mem.AgreeAt s₄.mem ptr := p.agree ptr (by simp [outs, Slot.outSize, hp₁])
    rw [firstWord_agreeAt hat, hword, hF₄, p.lookup_key]
  have hput : ∀ n : L3Node, Agree (Function.update (outs st) ptr none) s₄.mem
      (s₄.mem.putL3 (s₄.mem.l3Of s₄.freeListMap size) n) := fun n b hb => agreeAt_putL3 fun he => by
    have hnode := (p₄.arena.trie hpres₄).l3_out size h3
    rw [← he] at hnode
    have hb' : outs st₄ b ≠ none := by
      rw [p.gains.outs_eq, hout₁]
      exact fun hn => hb (by rw [Function.update_apply]; split <;> simp [hn])
    exact hb' (outs_of_nodes (by rw [hnode]; simp))
  refine storeSlot_spec (p₄.arena.validPath hpres₄ size) h3 (hI _ (hag₄.trans (hput _)))
    (hI _ (hag₄.trans (hput _))) ⟨Function.update st₄ ptr (.free size), ?_⟩
  have hvalid : ptr ≠ NULL := (p₄.arena.valid (by simp [hp₄, Slot.size])).1
  constructor
  case arena => exact p₄.arena.push hsz hpres₄ hp₄ h3 hword₄
  case gains => exact (hr.gains.trans p.gains).update _
  case freed => exact Function.update_self ..
  case agree => exact hag₄.trans (hput _)
  case undisturbed =>
    refine (hr.undisturbed.trans ?_).trans (p.undisturbed.trans (.setMem _ _))
    rw [← hs₂]
    exact .setMem _ _
  case kept =>
    intro hnode
    refine hr.kept.trans ((hr.arena.listsKept hF₂ hagn).trans fun _ => ⟨hF₄, fun k hk => ?_,
      fun k hk => ?_⟩)
    · exact (p.l3Of_eq k).resolve_right fun h => hk h.1
    · rw [State.setMem_mem, ← hF₄, (p₄.arena.trie hpres₄).lookup_writeSlot h3,
        if_neg (hk size hnode), hF₄, p.lookup_other k hk]
  case settled =>
    intro hset hx hne
    have hlook : ∀ k, (s₄.mem.writeSlot s₄.freeListMap size ptr).lookup s₄.freeListMap k
        = if SameKey k size then ptr else s₄.mem.lookup s₄.freeListMap k :=
      fun k => (p₄.arena.trie hpres₄).lookup_writeSlot h3
    have hset₂ : s₂.mem.NoEmptyNode s₂.freeListMap := by
      have ht := hr.arena.trie hr.present
      have hset₁ := hr.settled hset hx hr.present
      rw [hF₂]
      refine ⟨fun k hk => ?_, fun k hk => ?_⟩
      · rw [ht.l2Of_agree hagn] at hk
        simpa only [ht.lookup_agree hagn] using hset₁.l2 k hk
      · rw [ht.l3Of_agree hagn] at hk
        simpa only [ht.lookup_agree hagn] using hset₁.l3 k hk
    rw [State.setMem_freeListMap, hF₄]
    rw [hF₄] at hlook
    have hkey : (s₄.mem.writeSlot s₂.freeListMap size ptr).lookup s₂.freeListMap size ≠ NULL := by
      rw [hlook, if_pos (SameKey.refl size)]
      exact hvalid
    refine hset₂.map hkey (fun k hk => ?_) (fun k => ?_) fun k => ?_
    · rw [State.setMem_mem, hlook]
      split
      · exact hvalid
      · exact p.mapped hx k hk
    · exact p.l2Of_eq k
    · exact p.l3Of_eq k

end

end FastAlloc
