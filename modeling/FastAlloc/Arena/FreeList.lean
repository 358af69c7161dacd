/-
FastAlloc.Arena.FreeList — the free lists, and `cmalloc_alloc_metadata`.

The free lists hang off a range map keyed by size, whose own nodes come from
the arena. A pop finds the map's path for its size already there, so it asks
for no node: that is why the recursion is one level deep.

`strict` runs are those in which no pop empties a list. Storing NULL through
`cmalloc_map` does not take the slot off the leaf's counter, so only in
strict runs are the counters of this map exact.
-/
import FastAlloc.Arena.Bump

namespace FastAlloc

open Lib Mem

/-- The events of a run in which every `mmap` succeeds and, if it is strict,
no free list is emptied. -/
def Allowed (strict : Bool) : Event → Prop
  | .store _ => True
  | .mmapFailed _ => False
  | .lastPop _ => strict = false

instance (strict : Bool) (e : Event) : Decidable (Allowed strict e) :=
  match e with
  | .store _ => isTrue trivial
  | .mmapFailed _ => isFalse id
  | .lastPop _ => inferInstanceAs (Decidable (strict = false))

theorem allowed_of_mapped {e : Event} (h : e.Mapped) : Allowed false e := by
  cases e with
  | store m => trivial
  | mmapFailed site => exact h
  | lastPop size => rfl

/-- Counters are exact in strict runs. -/
def CountRel (strict : Bool) (n count : Nat) : Prop := strict = true → n = count

theorem countRel_zero (strict : Bool) : CountRel strict 0 0 := fun _ => rfl

theorem countsMap_countRel {strict : Bool} {old value count : Nat}
    (hv : strict = true → value ≠ NULL) : CountsMap (CountRel strict) old value count := by
  intro n n' hn h hcount hx
  have he := h hx
  rw [filled_of_ne (hv hx)] at hcount
  split
  · rename_i h0
    have hl : l3Size = 2048 := rfl
    rw [h0, filled_zero] at hcount
    rw [sizeInc_of_lt (by omega)]
    omega
  · rename_i h0
    rw [filled_of_ne h0] at hcount
    omega

theorem IsSize.eq_of_sameKey {sz sz' : Nat} (h : IsSize sz) (h' : IsSize sz')
    (hs : SameKey sz sz') : sz = sz' := by
  have hb := h.bounds
  have hb' := h'.bounds
  exact hs.eq (by omega) (by omega)

theorem Mem.firstWord_agreeAt {m m' : Mem} {a sz : Nat} (h : m.AgreeAt m' a) :
    m'.firstWord sz a = m.firstWord sz a := by
  simp only [Mem.firstWord, h.1, h.2.1, h.2.2.1, h.2.2.2.1, h.2.2.2.2]

/-- The map of free lists, and the lists in it. -/
structure FreeLists (strict : Bool) (s : State) (st : Nat → Slot) : Prop where
  absent : s.freeListMap = NULL → ∀ a sz, st a ≠ .free sz ∧ st a ≠ .node sz
  trie : s.freeListMap ≠ NULL → Trie (CountRel strict) (nodes st) s.mem s.freeListMap
  linked : ∀ a sz, st a = .node sz → s.mem.TrieNode s.freeListMap a
  unlisted : s.freeListMap ≠ NULL → ∀ k, (∀ sz, IsSize sz → ¬ SameKey k sz) →
    s.mem.lookup s.freeListMap k = NULL
  lists : s.freeListMap ≠ NULL → ∀ sz, IsSize sz →
    ChainOf NULL (s.mem.firstWord sz) (s.mem.lookup s.freeListMap sz) fun a => st a = .free sz

/-- The metadata arena. -/
structure Arena (pf : Platform) (strict : Bool) (s : State) (st : Nat → Slot) : Prop
    extends Layout pf s st, FreeLists strict s st

section

variable {I : Mem → Prop} {pf : Platform} {strict : Bool} {s s' : State} {st st' : Nat → Slot}
  {a size : Nat}

theorem Slot.size_of_nodes (h : nodes st a ≠ none) : (st a).size ≠ none := by
  unfold nodes Slot.nodeSize at h
  cases hs : st a <;> simp_all [Slot.size]

theorem outs_of_nodes (h : nodes st a ≠ none) : outs st a = none := by
  unfold nodes Slot.nodeSize at h
  unfold outs Slot.outSize
  cases hs : st a <;> simp_all

theorem Slot.size_of_outs (h : outs st a ≠ none) : (st a).size ≠ none := by
  unfold outs Slot.outSize at h
  cases hs : st a <;> simp_all [Slot.size]

theorem Mem.Agree.outs {m m' : Mem} (h : Agree (sizes st) m m') : Agree (outs st) m m' :=
  fun a ha => h a (Slot.size_of_outs ha)

theorem Mem.Agree.nodes {m m' : Mem} (h : Agree (sizes st) m m') : Agree (nodes st) m m' :=
  fun a ha => h a (Slot.size_of_nodes ha)

theorem Arena.validPath (h : Arena pf strict s st) (hF : s.freeListMap ≠ NULL) (key : Nat) :
    s.mem.ValidPath s.freeListMap key :=
  (h.trie hF).validPath fun _ ha => h.valid (Slot.size_of_nodes ha)

/-- The lists stay where the map's lookups, the free objects and their first
words do. -/
theorem FreeLists.of_same (h : FreeLists strict s st) (hF : s'.freeListMap = s.freeListMap)
    (hst : ∀ a sz, st' a = .free sz ↔ st a = .free sz) (hnodes : nodes st' = nodes st)
    (hag : ∀ a, (nodes st a ≠ none ∨ ∃ sz, st a = .free sz) → s.mem.AgreeAt s'.mem a) :
    FreeLists strict s' st' where
  absent h0 a sz := by
    have := h.absent (hF ▸ h0) a sz
    refine ⟨fun hf => this.1 ((hst a sz).mp hf), fun hn => this.2 ?_⟩
    rw [← nodes_eq_some, hnodes] at hn
    exact nodes_eq_some.mp hn
  trie h0 := by
    rw [hF] at h0 ⊢
    rw [hnodes]
    exact (h.trie h0).agree fun a ha => hag a (.inl ha)
  linked a sz ha := by
    rw [← nodes_eq_some, hnodes, nodes_eq_some] at ha
    have ht := h.trie fun h0 => (h.absent h0 a sz).2 ha
    rw [hF]
    exact (h.linked a sz ha).mono (fun k => .inl (ht.l2Of_agree fun a ha => hag a (.inl ha)))
      fun k => .inl (ht.l3Of_agree fun a ha => hag a (.inl ha))
  unlisted h0 k hk := by
    rw [hF] at h0 ⊢
    rw [(h.trie h0).lookup_agree fun a ha => hag a (.inl ha)]
    exact h.unlisted h0 k hk
  lists h0 sz hsz := by
    rw [hF] at h0 ⊢
    rw [(h.trie h0).lookup_agree fun a ha => hag a (.inl ha)]
    exact (h.lists h0 sz hsz).congr (fun a ha => firstWord_agreeAt (hag a (.inr ⟨sz, ha⟩)))
      fun a => hst a sz

/-- Clients write only what they were handed. -/
theorem Arena.frame (h : Arena pf strict s st) {m' : Mem}
    (hag : ∀ a, outs st a = none → s.mem.AgreeAt m' a) (hmc : m'.metaChunk = s.mem.metaChunk) :
    Arena pf strict (s.setMem m') st where
  toLayout := h.toLayout.of_mem rfl rfl hmc fun a ha => (hag a (by
    by_contra hne
    exact Slot.size_of_outs hne ha)).1
  toFreeLists := h.toFreeLists.of_same rfl (fun _ _ => Iff.rfl) rfl (by
    rintro a (ha | ⟨sz, ha⟩)
    · exact hag a (outs_of_nodes ha)
    · exact hag a (by simp [outs, Slot.outSize, ha]))

/-- The arena is a matter of metadata memory, the mappings and two globals. -/
theorem Arena.of_eq (h : Arena pf strict s st) (hm : s'.mem = s.mem) (hmaps : s'.maps = s.maps)
    (ha : s'.metaArena = s.metaArena) (hF : s'.freeListMap = s.freeListMap) :
    Arena pf strict s' st where
  toLayout := h.toLayout.of_mem hmaps ha (by rw [hm]) fun _ _ => by rw [hm]
  toFreeLists := h.toFreeLists.of_same hF (fun _ _ => Iff.rfl) rfl fun a _ => hm ▸ .refl _ _

/-- Mappings for user data pass the arena by. -/
theorem Arena.mapped (h : Arena pf strict s st) {r : Region} (hr : pf.FreshRegion s.maps r)
    (hsite : r.site ≠ .metaChunk) : Arena pf strict (s.mapped r) st := by
  have hmem : ∀ c, metaRegion c ∈ (s.mapped r).maps ↔ metaRegion c ∈ s.maps := fun c => by
    refine ⟨fun hc => ?_, List.mem_cons_of_mem _⟩
    rcases List.mem_cons.mp hc with he | hc
    · exact absurd (he ▸ rfl) hsite
    · exact hc
  have hchunk : ∀ c, metaRegion c ∈ s.maps →
      (s.mapped r).mem.metaChunk c = s.mem.metaChunk c := fun c hc =>
    metaChunk_clear_of_not_mem (chunk_not_mem_fresh hr hc)
  have hag : Agree (sizes st) s.mem (s.mapped r).mem := h.toLayout.agree_clear hr
  refine ⟨⟨h.maps_ok.cons hr, ?_, ?_, ?_, h.isSize, h.aligned, ?_, h.apart, ?_⟩, ?_⟩
  · intro r' hr' hsite'
    rcases List.mem_cons.mp hr' with rfl | hr'
    · exact absurd hsite' hsite
    · exact h.meta_len r' hr' hsite'
  · exact h.chunks.congr (fun c hc => by rw [hchunk c hc]) hmem
  · intro c hc
    rw [hmem] at hc
    rw [hchunk c hc]
    exact h.chunk c hc
  · intro a sz ha
    obtain ⟨c, hc, h₁, h₂⟩ := h.placed a sz ha
    exact ⟨c, (hmem c).mpr hc, h₁, by rwa [hchunk c hc]⟩
  · intro a ha
    change (if r.base ≤ a ∧ a < r.base + r.len then L1Node.zero else s.mem.l1 a) = _
    split
    · rfl
    · exact h.fresh a ha
  · refine h.toFreeLists.of_same rfl (fun _ _ => Iff.rfl) rfl ?_
    rintro a (ha | ⟨sz, ha⟩)
    · exact hag a (Slot.size_of_nodes ha)
    · exact hag a (by simp [sizes, Slot.size, ha])

theorem Arena.unmapped (h : Arena pf strict s st) {maps : List Region}
    (hsub : ∀ r ∈ maps, r ∈ s.maps) (hmeta : ∀ r ∈ s.maps, r.site = .metaChunk → r ∈ maps)
    (hok : MapsOk pf maps) : Arena pf strict { s with maps := maps } st := by
  have hmem : ∀ c, metaRegion c ∈ maps ↔ metaRegion c ∈ s.maps := fun c =>
    ⟨hsub _, fun hc => hmeta _ hc rfl⟩
  refine ⟨⟨hok, fun r hr => h.meta_len r (hsub r hr), ?_, ?_, h.isSize, h.aligned, ?_, h.apart,
    h.fresh⟩, h.toFreeLists.of_same rfl (fun _ _ => Iff.rfl) rfl fun _ _ => .refl _ _⟩
  · exact h.chunks.congr (fun _ _ => rfl) hmem
  · exact fun c hc => h.chunk c ((hmem c).mp hc)
  · intro a sz ha
    obtain ⟨c, hc, h₁, h₂⟩ := h.placed a sz ha
    exact ⟨c, (hmem c).mpr hc, h₁, h₂⟩

/-! ## `cmalloc_alloc_metadata` -/

/-- What allocating an object of `size` bytes does. -/
structure Alloced (pf : Platform) (strict : Bool) (size : Nat) (st : Nat → Slot) (s : State)
    (a : Nat) (s' : State) : Prop where
  arena : Arena pf strict s' (Function.update st a (.out size))
  source : (st a).size = none ∧ s'.mem.l1 a = .zero ∨ st a = .free size ∧ s.freeListMap ≠ NULL
  agree : Agree (outs st) s.mem s'.mem
  freeListMap : s'.freeListMap = s.freeListMap
  undisturbed : Undisturbed s s'
  l2Of_eq : s.freeListMap ≠ NULL → ∀ k,
    s'.mem.l2Of s.freeListMap k = s.mem.l2Of s.freeListMap k
  l3Of_eq : s.freeListMap ≠ NULL → ∀ k,
    s'.mem.l3Of s.freeListMap k = s.mem.l3Of s.freeListMap k
  lookup_eq : s.freeListMap ≠ NULL → ∀ k,
    ¬ SameKey k size ∨ s.mem.lookup s.freeListMap size = NULL →
      s'.mem.lookup s.freeListMap k = s.mem.lookup s.freeListMap k
  mapped : strict = true → s.freeListMap ≠ NULL → ∀ k,
    s.mem.lookup s.freeListMap k ≠ NULL → s'.mem.lookup s.freeListMap k ≠ NULL

theorem Alloced.outs_eq_none (h : Alloced pf strict size st s a s') :
    outs st a = none := by
  rcases h.source with ⟨hs, -⟩ | ⟨hs, -⟩
  · by_contra hne
    exact Slot.size_of_outs hne hs
  · simp [outs, Slot.outSize, hs]

/-- Bumping leaves every list as it was. -/
theorem Bumped.alloced (h : Arena pf strict s st) (hb : Bumped pf size st s a s') :
    Alloced pf strict size st s a s' := by
  have hag := hb.agree
  have hunused := hb.unused
  have hne : ∀ sz, st a ≠ .free sz ∧ st a ≠ .node sz := fun sz => by
    constructor <;> intro he <;> simp [he, Slot.size] at hunused
  have hnodes : nodes (Function.update st a (.out size)) = nodes st := by
    rw [nodes_update]
    refine Function.update_eq_self_iff.mpr ?_
    by_contra hn
    exact Slot.size_of_nodes (Ne.symm hn) hunused
  refine ⟨⟨hb.layout, h.toFreeLists.of_same hb.freeListMap (fun b sz => ?_) hnodes ?_⟩,
    .inl ⟨hunused, hb.zero⟩, hag.outs, hb.freeListMap, hb.undisturbed, fun hF k => ?_,
    fun hF k => ?_, fun hF k _ => ?_, fun _ hF k hk => ?_⟩
  · by_cases hba : b = a
    · rw [hba, Function.update_self]
      simpa using (hne sz).1
    · rw [Function.update_of_ne hba]
  · rintro b (hb' | ⟨sz, hb'⟩)
    · exact hag b (Slot.size_of_nodes hb')
    · exact hag b (by simp [sizes, Slot.size, hb'])
  · exact (h.trie hF).l2Of_agree hag.nodes
  · exact (h.trie hF).l3Of_agree hag.nodes
  · exact (h.trie hF).lookup_agree hag.nodes
  · rwa [(h.trie hF).lookup_agree hag.nodes]

/-- The head of a non-empty list is popped. -/
theorem Arena.pop (h : Arena pf strict s st) (hsz : IsSize size) (hF : s.freeListMap ≠ NULL)
    (ha : a = s.mem.lookup s.freeListMap size) (h0 : a ≠ NULL)
    (hx : strict = true → s.mem.firstWord size a ≠ NULL) :
    Alloced pf strict size st s a
      (s.setMem (s.mem.writeSlot s.freeListMap size (s.mem.firstWord size a))) := by
  have ht := h.trie hF
  have hl := h.lists hF size hsz
  rw [← ha] at hl
  have hfree : st a = .free size := hl.head_mem h0
  have h3 : s.mem.l3Of s.freeListMap size ≠ NULL := l3Of_ne_of_lookup_ne (ha ▸ h0)
  have hnode := nodes_eq_some.mp (ht.l3_out size h3)
  have hlook : ∀ k, (s.mem.writeSlot s.freeListMap size (s.mem.firstWord size a)).lookup
      s.freeListMap k = if SameKey k size then s.mem.firstWord size a
        else s.mem.lookup s.freeListMap k := fun k => ht.lookup_writeSlot h3
  have hag : ∀ b, b ≠ s.mem.l3Of s.freeListMap size →
      s.mem.AgreeAt (s.mem.writeSlot s.freeListMap size (s.mem.firstWord size a)) b :=
    fun b hb => agreeAt_putL3 hb
  have hnodes : nodes (Function.update st a (.out size)) = nodes st := by
    rw [nodes_update]
    exact Function.update_eq_self_iff.mpr (by simp [nodes, Slot.nodeSize, hfree])
  constructor
  case arena =>
    have hlay : Layout pf (s.setMem (s.mem.writeSlot s.freeListMap size
        (s.mem.firstWord size a))) st := h.toLayout.of_mem rfl rfl rfl fun _ _ => rfl
    refine ⟨hlay.relabel fun b => ?_, ?_⟩
    · by_cases hb : b = a
      · rw [hb, Function.update_self, hfree]; rfl
      · rw [Function.update_of_ne hb]
    constructor
    case absent => exact fun hF' => absurd hF' hF
    case trie =>
      rw [hnodes]
      exact fun _ => ht.writeSlot h3 (countsMap_countRel hx)
    case linked =>
      intro b sz hb
      rw [← nodes_eq_some, hnodes, nodes_eq_some] at hb
      exact (h.linked b sz hb).mono (fun _ => .inl rfl) fun _ => .inl rfl
    case unlisted =>
      intro _ k hk
      rw [State.setMem_mem, State.setMem_freeListMap, hlook, if_neg (hk size hsz)]
      exact h.unlisted hF k hk
    case lists =>
      intro _ sz hsz'
      have hword : ∀ b, st b = .free sz → (s.mem.writeSlot s.freeListMap size
          (s.mem.firstWord size a)).firstWord sz b = s.mem.firstWord sz b := fun b hb =>
        firstWord_agreeAt (hag b fun he => by rw [he, hnode] at hb; simp at hb)
      change ChainOf NULL _ ((s.mem.writeSlot s.freeListMap size _).lookup s.freeListMap sz) _
      rw [hlook]
      by_cases he : sz = size
      · subst he
        rw [if_pos (SameKey.refl sz)]
        refine (hl.pop h0).congr (fun b hb => hword b hb.1) fun b => ?_
        by_cases hb : b = a
        · simp [hb]
        · simp [hb]
      · rw [if_neg fun hs => he (hsz'.eq_of_sameKey hsz hs)]
        refine (h.lists hF sz hsz').congr hword fun b => ?_
        by_cases hb : b = a
        · rw [hb, Function.update_self, hfree]
          simpa using Ne.symm he
        · rw [Function.update_of_ne hb]
  case source => exact .inr ⟨hfree, hF⟩
  case agree =>
    refine fun b hb => hag b fun he => hb ?_
    rw [he]
    exact outs_of_nodes (by rw [ht.l3_out size h3]; simp)
  case freeListMap => rfl
  case undisturbed => exact .setMem _ _
  case l2Of_eq => exact fun _ _ => rfl
  case l3Of_eq => exact fun _ _ => rfl
  case lookup_eq =>
    rintro - k (hk | hk)
    · exact (hlook k).trans (if_neg hk)
    · exact absurd (ha.trans hk) h0
  case mapped =>
    intro hs _ k hk
    rw [State.setMem_mem, hlook]
    split
    · exact hx hs
    · exact hk

/-- The paths of the map of free lists are kept, and all it holds but the
lists of nodes. -/
def ListsKept (s s' : State) : Prop := s.freeListMap ≠ NULL →
  s'.freeListMap = s.freeListMap ∧
  (∀ k, s.mem.l3Of s.freeListMap k ≠ NULL →
    s'.mem.l3Of s.freeListMap k = s.mem.l3Of s.freeListMap k) ∧
  ∀ k, (∀ sz, IsNodeSize sz → ¬ SameKey k sz) →
    s'.mem.lookup s.freeListMap k = s.mem.lookup s.freeListMap k

theorem ListsKept.refl (s : State) : ListsKept s s :=
  fun _ => ⟨rfl, fun _ _ => rfl, fun _ _ => rfl⟩

theorem ListsKept.trans {s₁ s₂ s₃ : State} (h : ListsKept s₁ s₂) (h' : ListsKept s₂ s₃) :
    ListsKept s₁ s₃ := by
  intro hF
  obtain ⟨e₁, l₁, k₁⟩ := h hF
  obtain ⟨e₂, l₂, k₂⟩ := h' (by rwa [e₁])
  rw [e₁] at e₂ l₂ k₂
  exact ⟨e₂, fun k hk => (l₂ k (by rwa [l₁ k hk])).trans (l₁ k hk),
    fun k hk => (k₂ k hk).trans (k₁ k hk)⟩

theorem Alloced.listsKept (h : Alloced pf strict size st s a s') (hsz : IsNodeSize size) :
    ListsKept s s' := fun hF =>
  ⟨h.freeListMap, fun k _ => h.l3Of_eq hF k, fun k hk => h.lookup_eq hF k (.inl (hk size hsz))⟩

/-- What agrees on the nodes of the map of free lists keeps the lists. -/
theorem Arena.listsKept (h : Arena pf strict s st) (hF : s'.freeListMap = s.freeListMap)
    (hag : Agree (nodes st) s.mem s'.mem) : ListsKept s s' := fun h0 =>
  ⟨hF, fun _ _ => (h.trie h0).l3Of_agree hag, fun _ _ => (h.trie h0).lookup_agree hag⟩

theorem cmallocAllocMetadataAt_spec (h : Arena pf strict s st) (hsz : IsSize size) (depth : Nat)
    (hI : ∀ m', Agree (outs st) s.mem m' → I m') :
    Spec (Allowed strict) (onStore I) (cmallocAllocMetadataAt pf (depth + 1) size) s
      fun a s' => Alloced pf strict size st s a s' := by
  refine Spec.global_bind ?_
  refine Spec.bind (Q := fun v s' => s = s' ∧
    v = if s.freeListMap = NULL then NULL else s.mem.lookup s.freeListMap size) ?_ ?_
  · refine Spec.ite (fun h0 => Spec.pure ⟨rfl, (if_pos h0).symm⟩) fun hF => ?_
    have hp := h.validPath hF size
    exact Spec.of_run (run_cmallocGet hp.root hp.l2 hp.l3) (by simp) ⟨rfl, (if_neg hF).symm⟩
  rintro v _ ⟨rfl, hv⟩
  refine Spec.ite (fun _ => ?_) fun h0 => ?_
  · exact (bumpMetadata_spec h.toLayout hsz (fun hf => hf) fun m' hm => hI m' hm.outs).mono
      fun a s' hb => hb.alloced h
  · have hF : s.freeListMap ≠ NULL := fun hF => h0 (hv.trans (if_pos hF))
    rw [if_neg hF] at hv
    have h3 : s.mem.l3Of s.freeListMap size ≠ NULL := l3Of_ne_of_lookup_ne (hv ▸ h0)
    have hnode := (h.trie hF).l3_out size h3
    have hfree : st v = .free size := by
      have hl := h.lists hF size hsz
      rw [← hv] at hl
      exact hl.head_mem h0
    have hag : ∀ n : L3Node, Agree (outs st) s.mem (s.mem.putL3 (s.mem.l3Of s.freeListMap size) n) :=
      fun n b hb => agreeAt_putL3 fun he => hb (by
        rw [he]; exact outs_of_nodes (by rw [hnode]; simp))
    refine Spec.load_bind (h.valid (by simp [hfree, Slot.size])) ?_
    refine Spec.bind (Q := fun _ s' => s' = s.setMem (s.mem.writeSlot s.freeListMap size
      (s.mem.firstWord size v))) (cmallocMapWith_present_spec (h.validPath hF size) h3
        (hI _ (hag _)) (hI _ (hag _)) rfl) ?_
    rintro _ _ rfl
    by_cases hnext : s.mem.firstWord size v = NULL
    · rw [if_pos hnext]
      cases hs : strict with
      | true => exact Spec.emit_bind_of_not (by simp [Allowed])
      | false =>
        subst hs
        exact Spec.emit_bind (fun _ => trivial) (Spec.pure (h.pop hsz hF hv h0 (by simp)))
    · rw [if_neg hnext]
      exact Spec.pure_bind (Spec.pure (h.pop hsz hF hv h0 fun _ => hnext))

end

end FastAlloc
