/-
FastAlloc.Threads.Foreign — the critical sections leave a thread's share alone.

A critical section is `Within` the outside of any share: what is in the bins
of the thread and in the inner fields of its spans makes no difference to it,
and it writes to neither. It may come to the records of its spans, as
neighbours of what it splits or frees, but there it keeps to the outer
fields. The one thing it sets up from the inside is the span it takes from
the pool, which is in no share before.

A fresh mapping is all zero, so the records of the share have to lie in
memory that is mapped (`Share.InMaps`): in chunks of the metadata arena,
which are never unmapped.
-/
import FastAlloc.Arena.System
import FastAlloc.Threads.Share

namespace FastAlloc

open Lib Mem

/-! ## The outside of a share -/

/-- The records of the share are in mapped chunks of the arena. -/
def Share.InMaps (S : Share) (s : State) : Prop :=
  ∀ a, S.span a → ∃ r ∈ s.maps, r.len = metaChunkSize ∧ r.base ≤ a ∧ a < r.base + r.len

/-- All but the share. -/
abbrev Share.outside (S : Share) : Scope State Event := S.foreign S.InMaps

/-- The state with other spans, user data and bins. -/
def State.withShare (s : State) (sp : Nat → Span) (bytes : Nat → UInt8) (bins : Tid → Int → Nat) :
    State :=
  { s with mem := { s.mem with span := sp }, bytes := bytes, threadLocalBin := bins }

section

variable {S : Share} {s s' : State} {sp : Nat → Span} {bytes : Nat → UInt8} {bins : Tid → Int → Nat}

theorem Share.Others.exists_withShare (h : S.Others s s') :
    ∃ sp bytes bins, s' = s.withShare sp bytes bins := ⟨_, _, _, h.state⟩

end

/-! ## Primitive steps -/

section

variable {α : Type} {S : Share} {pf : Platform} {p q a n len key r value size : Nat} {site : Site}
  {s s' : State} {alloc : Nat → M Nat} {free : Nat → Nat → M Unit}

/-- A read of what is no span. -/
theorem within_load_node {f : Mem → α} (hf : ∀ m sp, f { m with span := sp } = f m) :
    Within S.outside (load p f) := by
  intro s _ s' hs' hss
  obtain ⟨sp, bytes, bins, rfl⟩ := hss.exists_withShare
  by_cases hv : Valid p
  · rw [run_load hv, run_load hv]
    exact ⟨⟨congrArg Except.ok (hf s.mem sp).symm, hss, .nil⟩, S.mine_equivalence.refl _, hs'⟩
  · rw [run_load_of_not hv, run_load_of_not hv]
    exact ⟨⟨rfl, hss, .nil⟩, S.mine_equivalence.refl _, hs'⟩

/-- A read of the outer fields of a span. -/
theorem within_load_outer {f : Span → α} (hf : ∀ sp, f sp.outer = f sp) :
    Within S.outside (load p fun m => f (m.span q)) := by
  intro s _ s' hs' hss
  by_cases hv : Valid p
  · rw [run_load hv, run_load hv, ← hf (s.mem.span q), ← hf (s'.mem.span q), hss.span q]
    exact ⟨⟨rfl, hss, .nil⟩, S.mine_equivalence.refl _, hs'⟩
  · rw [run_load_of_not hv, run_load_of_not hv]
    exact ⟨⟨rfl, hss, .nil⟩, S.mine_equivalence.refl _, hs'⟩

theorem within_loadSpan_bind {g : Span → M α} (hg : ∀ sp, g sp.outer = g sp)
    (h : ∀ sp, Within S.outside (g sp)) : Within S.outside (loadSpan p >>= g) := by
  rw [loadSpan_bind_eq hg]
  exact .bind (within_load_outer fun _ => rfl) h

/-- A store to what is no span. -/
theorem within_store_node {f : Mem → Mem} (hf : ∀ m sp, f { m with span := sp } = { f m with span := sp }) :
    Within S.outside (store p f) := by
  intro s _ s' hs' hss
  have hspan : ∀ m : Mem, (f m).span = m.span := fun m => by
    have h := congrArg Mem.span (hf m m.span)
    exact h
  obtain ⟨sp, bytes, bins, rfl⟩ := hss.exists_withShare
  have hmem : f (s.withShare sp bytes bins).mem = { f s.mem with span := sp } := hf s.mem sp
  by_cases hv : Valid p
  · rw [run_store hv, run_store hv, hmem]
    refine ⟨⟨rfl, ⟨rfl, fun a => ?_, fun a ha => ?_, hss.bins⟩, .cons Iff.rfl .nil⟩,
      ⟨fun _ _ => rfl, fun _ _ => rfl⟩, hs'⟩
    · rw [State.setMem_mem, State.setMem_mem, hspan]
      exact hss.span a
    · rw [State.setMem_mem, State.setMem_mem, hspan]
      exact hss.other a ha
  · rw [run_store_of_not hv, run_store_of_not hv]
    exact ⟨⟨rfl, hss, .nil⟩, S.mine_equivalence.refl _, hs'⟩

/-- A store to a span: to its outer fields, or to one that is not in the share. -/
theorem within_storeSpan {f : Span → Span} (hin : ∀ sp, S.span p → (f sp).inner = sp.inner)
    (hout : ∀ sp, S.span p → (f sp).outer = (f sp.outer).outer) :
    Within S.outside (storeSpan p f) := by
  intro s _ s' hs' hss
  have hself : ∀ m : Mem, (m.setSpan p f).span p = f (m.span p) := fun m => Function.update_self ..
  have hne : ∀ (m : Mem) a, a ≠ p → (m.setSpan p f).span a = m.span a := fun m a ha =>
    Function.update_of_ne ha _ _
  rw [storeSpan]
  by_cases hv : Valid p
  · rw [run_store hv, run_store hv]
    refine ⟨⟨rfl, ⟨?_, fun a => ?_, fun a ha => ?_, hss.bins⟩, .cons Iff.rfl .nil⟩,
      ⟨fun a ha => ?_, fun _ _ => rfl⟩, hs'⟩
    · obtain ⟨sp, bytes, bins, rfl⟩ := hss.exists_withShare
      rfl
    · rw [State.setMem_mem, State.setMem_mem]
      by_cases hap : a = p
      · subst hap
        rw [hself, hself]
        by_cases ha : S.span a
        · rw [hout _ ha, hout (s.mem.span a) ha, hss.span a]
        · rw [hss.other a ha]
      · rw [hne _ a hap, hne _ a hap, hss.span a]
    · rw [State.setMem_mem, State.setMem_mem]
      by_cases hap : a = p
      · rw [hap, hself, hself, hss.other p (hap ▸ ha)]
      · rw [hne _ a hap, hne _ a hap, hss.other a ha]
    · rw [State.setMem_mem]
      by_cases hap : a = p
      · rw [hap, hself, hin _ (hap ▸ ha)]
      · rw [hne _ a hap]
  · rw [run_store_of_not hv, run_store_of_not hv]
    exact ⟨⟨rfl, hss, .nil⟩, S.mine_equivalence.refl _, hs'⟩

theorem within_storeSpan_outer {f : Span → Span} (hin : ∀ sp, (f sp).inner = sp.inner)
    (hout : ∀ sp, (f sp).outer = (f sp.outer).outer) : Within S.outside (storeSpan p f) :=
  within_storeSpan (fun sp _ => hin sp) fun sp _ => hout sp

theorem within_storeSpan_of_not {f : Span → Span} (hp : ¬ S.span p) :
    Within S.outside (storeSpan p f) :=
  within_storeSpan (fun _ h => absurd h hp) fun _ h => absurd h hp

theorem within_global {f : State → α} (hf : ∀ s sp bytes bins, f (s.withShare sp bytes bins) = f s) :
    Within S.outside (global f) := by
  intro s _ s' hs' hss
  obtain ⟨sp, bytes, bins, rfl⟩ := hss.exists_withShare
  exact ⟨⟨congrArg Except.ok (hf s sp bytes bins).symm, hss, .nil⟩, S.mine_equivalence.refl _, hs'⟩

/-- An assignment to what is no span and no bin. -/
theorem within_setGlobal {f : State → State}
    (hf : ∀ s sp bytes bins, f (s.withShare sp bytes bins) = (f s).withShare sp bytes bins)
    (hmaps : ∀ s, S.InMaps s → S.InMaps (f s)) : Within S.outside (setGlobal f) := by
  intro s _ s' hs' hss
  have hself : ∀ s, f s = (f s).withShare s.mem.span s.bytes s.threadLocalBin := fun s => hf s ..
  have hspan : ∀ s, (f s).mem.span = s.mem.span := fun s => by rw [hself]; rfl
  have hbins : ∀ s, (f s).threadLocalBin = s.threadLocalBin := fun s => by rw [hself]; rfl
  rw [run_setGlobal, run_setGlobal]
  refine ⟨⟨rfl, ⟨?_, fun a => ?_, fun a ha => ?_, fun t ht => ?_⟩, .nil⟩, ⟨fun a _ => ?_, fun t _ => ?_⟩,
    hmaps _ hs'⟩
  · obtain ⟨sp, bytes, bins, rfl⟩ := hss.exists_withShare
    dsimp only
    rw [hf]
    rfl
  · rw [hspan, hspan]
    exact hss.span a
  · rw [hspan, hspan]
    exact hss.other a ha
  · rw [hbins, hbins]
    exact hss.bins t ht
  · rw [hspan]
  · rw [hbins]

theorem within_assertThat {P : Prop} [Decidable P] : Within S.outside (assertThat P) :=
  .ite (fun _ => .pure _) fun _ => .fault _

/-- A `memset` is a store, seen word by word. -/
theorem within_stores {f : Mem → Mem} {g : Mem → Nat → Mem} {mset : M Unit}
    (hrun : ∀ s, Valid p → mset.run s =
      ⟨.ok (), s.setMem (f s.mem), (List.range n).map fun i => .store (g s.mem i)⟩)
    (hfault : ∀ s, ¬ Valid p → mset.run s = ⟨.error .segfault, s, []⟩)
    (hf : ∀ m sp, f { m with span := sp } = { f m with span := sp }) : Within S.outside mset := by
  intro s hs s' hs' hss
  have hstore := (within_store_node (p := p) hf) s hs s' hs' hss
  by_cases hv : Valid p
  · rw [run_store hv, run_store hv] at hstore
    rw [hrun s hv, hrun s' hv]
    obtain ⟨⟨-, hstate, -⟩, hrest, hok⟩ := hstore
    refine ⟨⟨rfl, hstate, ?_⟩, hrest, hok⟩
    exact List.forall₂_map_left_iff.mpr (List.forall₂_map_right_iff.mpr
      (List.forall₂_same.mpr fun _ _ => Iff.rfl))
  · rw [hfault s hv, hfault s' hv]
    exact ⟨⟨rfl, hss, .nil⟩, S.mine_equivalence.refl _, hs'⟩

theorem within_memsetL2 : Within S.outside (memsetL2 p) :=
  within_stores (f := fun m => m.clearL2 p (l2Size + 1)) (g := fun m i => m.clearL2 p (i + 1))
    (fun _ hv => run_memsetL2 hv) (fun _ hv => run_memsetL2_of_not hv) fun _ _ => rfl

theorem within_memsetL3 : Within S.outside (memsetL3 p) :=
  within_stores (f := fun m => m.clearL3 p (l3Size + 1)) (g := fun m i => m.clearL3 p (i + 1))
    (fun _ hv => run_memsetL3 hv) (fun _ hv => run_memsetL3_of_not hv) fun _ _ => rfl

/-- A fresh region misses the records of the share. -/
theorem Share.InMaps.not_mem (h : S.InMaps s) {fresh : Region} (hr : pf.FreshRegion s.maps fresh)
    (ha : S.span a) : ¬ (fresh.base ≤ a ∧ a < fresh.base + fresh.len) := by
  obtain ⟨r', hr', -, h₁, h₂⟩ := h a ha
  have hdisj : fresh.base + fresh.len ≤ r'.base ∨ r'.base + r'.len ≤ fresh.base := hr.2.2.2.2 r' hr'
  omega

theorem within_mmap : Within S.outside (mmap pf site len) := by
  intro s hs s' hs' hss
  have hspan : ∀ (s : State) (r : Region) a, (s.mapped r).mem.span a =
      if r.base ≤ a ∧ a < r.base + r.len then .zero else s.mem.span a := fun _ _ _ => rfl
  obtain ⟨sp, bytes, bins, rfl⟩ := hss.exists_withShare
  obtain ⟨fresh, hfresh⟩ : ∃ r : Region, r = ⟨s.proposals s.calls, len, site⟩ := ⟨_, rfl⟩
  by_cases hr : pf.FreshRegion s.maps fresh
  · have hmap : (mmap pf site len).run s = ⟨.ok fresh.base, s.mapped fresh, []⟩ := by
      subst hfresh
      exact if_pos hr
    have hmap' : (mmap pf site len).run (s.withShare sp bytes bins) =
        ⟨.ok fresh.base, (s.withShare sp bytes bins).mapped fresh, []⟩ := by
      subst hfresh
      exact if_pos hr
    rw [hmap, hmap']
    refine ⟨⟨rfl, ⟨rfl, fun a => ?_, fun a ha => ?_, hss.bins⟩, .nil⟩, ⟨fun a ha => ?_, fun _ _ => rfl⟩,
      fun a ha => ?_⟩
    · rw [hspan, hspan]
      split
      · rfl
      · exact hss.span a
    · rw [hspan, hspan]
      split
      · rfl
      · exact hss.other a ha
    · rw [hspan, if_neg (hs.not_mem hr ha)]
    · obtain ⟨r', hr', h⟩ := hs' a ha
      exact ⟨r', List.mem_cons_of_mem _ hr', h⟩
  · have hmap : (mmap pf site len).run s =
        ⟨.ok MAP_FAILED, { s with calls := s.calls + 1 }, [.mmapFailed site]⟩ := by
      subst hfresh
      exact if_neg hr
    have hmap' : (mmap pf site len).run (s.withShare sp bytes bins) = ⟨.ok MAP_FAILED,
        { s.withShare sp bytes bins with calls := s.calls + 1 }, [.mmapFailed site]⟩ := by
      subst hfresh
      exact if_neg hr
    rw [hmap, hmap']
    exact ⟨⟨rfl, ⟨rfl, hss.span, hss.other, hss.bins⟩, .cons Iff.rfl .nil⟩,
      ⟨fun _ _ => rfl, fun _ _ => rfl⟩, hs'⟩

/-- Only chunks of the arena have their length. -/
theorem within_munmap (hlen : len ≠ metaChunkSize) : Within S.outside (munmap p len) := by
  refine within_setGlobal (fun _ _ _ _ => rfl) fun s hs a ha => ?_
  obtain ⟨r, hr, hlr, h⟩ := hs a ha
  refine ⟨r, List.mem_filter.mpr ⟨hr, ?_⟩, hlr, h⟩
  simp only [not_and, decide_eq_true_eq]
  exact fun _ hc => hlen (hc.symm.trans hlr)

/-! ## Range maps and metadata -/

theorem within_cmallocGet (r key : Nat) : Within S.outside (cmallocGet r key) :=
  .bind (within_load_node fun _ _ => rfl) fun _ => .ite (fun _ => .pure _) fun _ =>
    .bind (within_load_node fun _ _ => rfl) fun _ => .ite (fun _ => .pure _) fun _ =>
      within_load_node fun _ _ => rfl

theorem within_ensureL2Node (halloc : ∀ size, Within S.outside (alloc size)) :
    Within S.outside (ensureL2Node alloc r key) :=
  .bind (within_load_node fun _ _ => rfl) fun _ => .ite (fun _ => .bind (halloc _) fun _ =>
    .bind (within_store_node fun _ _ => rfl) fun _ => within_memsetL2) fun _ => .pure _

theorem within_ensureL3Node (halloc : ∀ size, Within S.outside (alloc size)) :
    Within S.outside (ensureL3Node alloc r key) :=
  .bind (within_load_node fun _ _ => rfl) fun _ => .bind (within_load_node fun _ _ => rfl) fun _ =>
    .ite (fun _ => .bind (halloc _) fun _ => .bind (within_store_node fun _ _ => rfl) fun _ =>
      .bind within_memsetL3 fun _ => .bind (within_load_node fun _ _ => rfl) fun _ =>
        within_store_node fun _ _ => rfl) fun _ => .pure _

theorem within_storeSlot : Within S.outside (storeSlot r value key) :=
  .bind (within_load_node fun _ _ => rfl) fun _ => .bind (within_load_node fun _ _ => rfl) fun _ =>
    .bind (within_load_node fun _ _ => rfl) fun _ => .ite (fun _ =>
      .bind (within_load_node fun _ _ => rfl) fun _ => .bind (within_store_node fun _ _ => rfl) fun _ =>
        within_store_node fun _ _ => rfl) fun _ => within_store_node fun _ _ => rfl

theorem within_cmallocMapWith (halloc : ∀ size, Within S.outside (alloc size)) (r value key : Nat) :
    Within S.outside (cmallocMapWith alloc r value key) :=
  .bind (within_ensureL2Node halloc) fun _ => .bind (within_ensureL3Node halloc) fun _ =>
    within_storeSlot

theorem within_dropEmptyL2 (hfree : ∀ p size, Within S.outside (free p size)) :
    Within S.outside (dropEmptyL2 free r key p) :=
  .bind (within_load_node fun _ _ => rfl) fun _ => .ite (fun _ => .bind (hfree _ _) fun _ =>
    within_store_node fun _ _ => rfl) fun _ => .pure _

theorem within_cmallocUnmapWith (hfree : ∀ p size, Within S.outside (free p size)) (r key : Nat) :
    Within S.outside (cmallocUnmapWith free r key) :=
  .bind (within_load_node fun _ _ => rfl) fun _ => .bind within_assertThat fun _ =>
    .bind (within_load_node fun _ _ => rfl) fun _ => .bind within_assertThat fun _ =>
    .bind (within_load_node fun _ _ => rfl) fun _ => .bind within_assertThat fun _ =>
    .bind (within_store_node fun _ _ => rfl) fun _ => .bind (within_load_node fun _ _ => rfl) fun _ =>
    .bind (within_store_node fun _ _ => rfl) fun _ => .bind (within_load_node fun _ _ => rfl) fun _ =>
    .ite (fun _ => .bind (hfree _ _) fun _ => .bind (within_store_node fun _ _ => rfl) fun _ =>
      .bind (within_load_node fun _ _ => rfl) fun _ => .bind (within_store_node fun _ _ => rfl) fun _ =>
        within_dropEmptyL2 hfree) fun _ => within_dropEmptyL2 hfree

theorem within_takeFromArena : Within S.outside (takeFromArena size) :=
  .bind (within_global fun _ _ _ _ => rfl) fun _ => .bind (within_load_node fun _ _ => rfl) fun _ =>
    .bind (within_store_node fun _ _ => rfl) fun _ => .pure _

theorem within_bumpMetadata : Within S.outside (bumpMetadata pf size) := by
  refine .bind (within_global fun _ _ _ _ => rfl) fun arena => .bind (.ite (fun _ => .pure _)
    fun _ => within_load_node fun _ _ => rfl) fun full => .ite (fun _ => ?_) fun _ => within_takeFromArena
  refine .bind within_mmap fun chunk => .bind (within_setGlobal (fun _ _ _ _ => rfl) fun _ h => h)
    fun _ => .ite (fun _ => .pure _) fun _ => ?_
  exact .bind (within_store_node fun _ _ => rfl) fun _ => .bind (within_store_node fun _ _ => rfl)
    fun _ => .bind (within_store_node fun _ _ => rfl) fun _ => within_takeFromArena

theorem firstWord_withSpan (m : Mem) {sp : Nat → Span} (hp : (sp p).outer = (m.span p).outer) :
    { m with span := sp }.firstWord size p = m.firstWord size p := by
  have hnext := congrArg Span.physNext hp
  simp only [Span.outer] at hnext
  simp only [firstWord, hnext]

theorem within_load_firstWord : Within S.outside (load p (·.firstWord size p)) := by
  intro s _ s' hs' hss
  have hspan := hss.span p
  obtain ⟨sp, bytes, bins, rfl⟩ := hss.exists_withShare
  by_cases hv : Valid p
  · rw [run_load hv, run_load hv]
    exact ⟨⟨congrArg Except.ok (firstWord_withSpan s.mem hspan).symm, hss, .nil⟩,
      S.mine_equivalence.refl _, hs'⟩
  · rw [run_load_of_not hv, run_load_of_not hv]
    exact ⟨⟨rfl, hss, .nil⟩, S.mine_equivalence.refl _, hs'⟩

theorem within_store_firstWord : Within S.outside (store p (·.setFirstWord size p value)) := by
  by_cases h : size = sizeofSpan
  · have heq : store p (·.setFirstWord size p value) = storeSpan p fun sp => { sp with physNext := value } := by
      simp only [storeSpan, setFirstWord, if_pos h]
    rw [heq]
    exact within_storeSpan_outer (fun _ => rfl) fun _ => rfl
  · refine within_store_node fun m sp => ?_
    simp only [setFirstWord, if_neg h]
    split_ifs
    · rfl
    · rfl
    · rfl
    · rfl
    · rfl

theorem within_cmallocAllocMetadata (pf : Platform) (size : Nat) :
    Within S.outside (cmallocAllocMetadata pf size) := by
  rw [cmallocAllocMetadata_eq]
  refine .bind (within_global fun _ _ _ _ => rfl) fun _ => .bind (.ite (fun _ => .pure _)
    fun _ => within_cmallocGet _ _) fun _ => .ite (fun _ => within_bumpMetadata) fun _ => ?_
  exact .bind within_load_firstWord fun _ => .bind (within_cmallocMapWith (fun _ => .fault _) _ _ _)
    fun _ => .bind (.ite (fun _ => .emit Iff.rfl) fun _ => .pure _) fun _ => .pure _

theorem within_cmallocInitializeRangeMap : Within S.outside (cmallocInitializeRangeMap pf) :=
  within_cmallocAllocMetadata pf _

theorem within_cmallocFreeMetadata (pf : Platform) (p size : Nat) :
    Within S.outside (cmallocFreeMetadata pf p size) := by
  refine .bind (.bind (within_global fun _ _ _ _ => rfl) fun _ => .ite (fun _ =>
    .bind within_cmallocInitializeRangeMap fun _ => within_setGlobal (fun _ _ _ _ => rfl) fun _ h => h)
    fun _ => .pure _) fun _ => ?_
  exact .bind (within_global fun _ _ _ _ => rfl) fun _ => .bind (within_cmallocGet _ _) fun _ =>
    .bind within_store_firstWord fun _ => within_cmallocMapWith (within_cmallocAllocMetadata pf) _ _ _

theorem within_cmallocMapRange (pf : Platform) (r value p q : Nat) :
    Within S.outside (cmallocMapRange pf r value p q) :=
  .loop (fun _ => within_cmallocMapWith (within_cmallocAllocMetadata pf) _ _ _) _ _

theorem within_cmallocUnmapRange (pf : Platform) (r p q : Nat) :
    Within S.outside (cmallocUnmapRange pf r p q) :=
  .loop (fun _ => within_cmallocUnmapWith (within_cmallocFreeMetadata pf) _ _) _ _

/-! ## The pool -/

theorem within_setUninitilizedSpanBin : Within S.outside (setUninitilizedSpanBin n p) :=
  within_setGlobal (fun _ _ _ _ => rfl) fun _ h => h

theorem within_markBinnedSpanNonEmpty : Within S.outside (markBinnedSpanNonEmpty n) :=
  within_setGlobal (fun _ _ _ _ => rfl) fun _ h => h

theorem within_popUninitilizedSpanBin : Within S.outside (popUninitilizedSpanBin n) :=
  .bind (within_global fun _ _ _ _ => rfl) fun _ =>
    .bind (within_load_outer (f := Span.nextInUninitializedBin) fun _ => rfl) fun _ =>
    .bind within_setUninitilizedSpanBin fun _ => .bind (.ite (fun _ =>
      within_setGlobal (fun _ _ _ _ => rfl) fun _ h => h) fun _ => .pure _) fun _ => .pure _

theorem within_mapSpanPages : Within S.outside (mapSpanPages pf a) :=
  .bind (within_global fun _ _ _ _ => rfl) fun _ => within_loadSpan_bind (fun _ => rfl) fun _ =>
    within_cmallocMapRange _ _ _ _ _

theorem within_allocDirectSpan : Within S.outside (allocDirectSpan pf n) := by
  refine .bind (within_cmallocAllocMetadata _ _) fun span => .bind within_mmap fun base => ?_
  exact .bind (within_storeSpan_outer (fun _ => rfl) fun _ => rfl) fun _ =>
    .bind (within_storeSpan_outer (fun _ => rfl) fun _ => rfl) fun _ =>
    .bind (within_storeSpan_outer (fun _ => rfl) fun _ => rfl) fun _ =>
    .bind within_mapSpanPages fun _ => .pure _

theorem within_splitBestFit {m : Nat} : Within S.outside (splitBestFit pf n m) := by
  refine .bind within_popUninitilizedSpanBin fun fit =>
    .bind (within_storeSpan_outer (fun _ => rfl) fun _ => rfl) fun _ =>
    .bind (within_cmallocAllocMetadata _ _) fun split => within_loadSpan_bind (fun _ => rfl) fun sp => ?_
  refine .bind (within_global fun _ _ _ _ => rfl) fun head =>
    .bind (within_storeSpan_outer (fun _ => rfl) fun _ => rfl) fun _ =>
    .bind (within_storeSpan_outer (fun _ => rfl) fun _ => rfl) fun _ =>
    .bind (within_storeSpan_outer (fun _ => rfl) fun _ => rfl) fun _ =>
    .bind (within_storeSpan_outer (fun _ => rfl) fun _ => rfl) fun _ =>
    .bind (within_storeSpan_outer (fun _ => rfl) fun _ => rfl) fun _ =>
    .bind (within_storeSpan_outer (fun _ => rfl) fun _ => rfl) fun _ => ?_
  exact .bind within_setUninitilizedSpanBin fun _ => .bind within_mapSpanPages fun _ =>
    .bind within_markBinnedSpanNonEmpty fun _ =>
    .bind (within_load_outer (f := Span.physNext) fun _ => rfl) fun _ => .bind (.ite (fun _ =>
      within_storeSpan_outer (fun _ => rfl) fun _ => rfl) fun _ => .pure _) fun _ =>
    .bind (within_storeSpan_outer (fun _ => rfl) fun _ => rfl) fun _ => .pure _

theorem within_cacheRemainder : Within S.outside (cacheRemainder pf p q n) := by
  refine .bind (within_cmallocAllocMetadata _ _) fun split =>
    .bind (within_storeSpan_outer (fun _ => rfl) fun _ => rfl) fun _ =>
    .bind (within_storeSpan_outer (fun _ => rfl) fun _ => rfl) fun _ =>
    .bind (within_storeSpan_outer (fun _ => rfl) fun _ => rfl) fun _ => ?_
  exact .bind within_mapSpanPages fun _ =>
    .bind (within_storeSpan_outer (fun _ => rfl) fun _ => rfl) fun _ =>
    .bind (within_storeSpan_outer (fun _ => rfl) fun _ => rfl) fun _ =>
    .bind (within_storeSpan_outer (fun _ => rfl) fun _ => rfl) fun _ =>
    .bind (within_global fun _ _ _ _ => rfl) fun _ =>
    .bind (within_storeSpan_outer (fun _ => rfl) fun _ => rfl) fun _ =>
    .bind within_setUninitilizedSpanBin fun _ => within_markBinnedSpanNonEmpty

theorem within_allocFreshChunk : Within S.outside (allocFreshChunk pf n) := by
  refine .bind (within_global fun _ _ _ _ => rfl) fun prev =>
    .bind (within_cmallocAllocMetadata _ _) fun chunk =>
    .bind (within_setGlobal (fun _ _ _ _ => rfl) fun _ h => h) fun _ =>
    .bind (within_store_node fun _ _ => rfl) fun _ => .bind within_mmap fun base =>
    .bind (within_store_node fun _ _ => rfl) fun _ => .ite (fun _ =>
      .bind (within_setGlobal (fun _ _ _ _ => rfl) fun _ h => h) fun _ => .pure _) fun _ =>
    .bind (within_cmallocAllocMetadata _ _) fun fit => ?_
  exact .bind (within_storeSpan_outer (fun _ => rfl) fun _ => rfl) fun _ =>
    .bind (within_storeSpan_outer (fun _ => rfl) fun _ => rfl) fun _ =>
    .bind (within_storeSpan_outer (fun _ => rfl) fun _ => rfl) fun _ =>
    .bind (within_storeSpan_outer (fun _ => rfl) fun _ => rfl) fun _ =>
    .bind within_mapSpanPages fun _ =>
    .bind (within_storeSpan_outer (fun _ => rfl) fun _ => rfl) fun _ =>
    .bind (within_storeSpan_outer (fun _ => rfl) fun _ => rfl) fun _ =>
    .bind (.ite (fun _ => within_cacheRemainder) fun _ => .pure _) fun _ => .pure _

/-- `alloc_span` leaves every share alone. -/
theorem within_allocSpan (pf : Platform) (size : Nat) : Within S.outside (allocSpan pf size) := by
  refine .bind (.bind (within_global fun _ _ _ _ => rfl) fun _ => .ite (fun _ =>
    .bind within_cmallocInitializeRangeMap fun _ => within_setGlobal (fun _ _ _ _ => rfl) fun _ h => h)
    fun _ => .pure _) fun _ => .ite (fun _ => within_allocDirectSpan) fun _ => ?_
  exact .bind (within_global fun _ _ _ _ => rfl) fun _ => .bind (within_global fun _ _ _ _ => rfl)
    fun _ => .ite (fun _ => .ite (fun _ => within_popUninitilizedSpanBin) fun _ => within_splitBestFit)
      fun _ => within_allocFreshChunk

/-- So does `cmalloc_cache_span`. -/
theorem within_cmallocCacheSpan (pf : Platform) (a : Nat) :
    Within S.outside (cmallocCacheSpan pf a) := by
  refine within_loadSpan_bind (fun _ => rfl) fun sp => .ite (fun hbig => ?_) fun _ => ?_
  · refine .bind (within_global fun _ _ _ _ => rfl) fun _ => .bind (within_cmallocUnmapRange _ _ _ _)
      fun _ => .bind (within_munmap ?_) fun _ => within_cmallocFreeMetadata _ _ _
    -- a direct span is longer than a chunk of the arena
    have hshift : 2 ^ 12 ≤ 2 ^ pf.pageShift := Nat.pow_le_pow_right (by decide) pf.twelve_le
    have hlen : 8193 * 2 ^ 12 ≤ sp.pageCount * 2 ^ pf.pageShift := Nat.mul_le_mul hbig hshift
    have hchunk : metaChunkSize = 2 ^ 22 := rfl
    rw [Nat.shiftLeft_eq]
    omega
  · exact .bind (within_storeSpan_outer (fun _ => rfl) fun _ => rfl) fun _ =>
      .bind (within_global fun _ _ _ _ => rfl) fun _ =>
      .bind (within_storeSpan_outer (fun _ => rfl) fun _ => rfl) fun _ =>
      .bind within_setUninitilizedSpanBin fun _ => within_markBinnedSpanNonEmpty

/-- The span that `cmalloc_initialize_span` sets up is in no share. -/
theorem within_initializeBitmaps (ha : ¬ S.span a) : Within S.outside (initializeBitmaps a n) :=
  .bind (within_storeSpan_of_not ha) fun _ => .bind (.loop (fun _ => within_storeSpan_of_not ha) _ _)
    fun _ => .loop (fun _ => .bind (within_storeSpan_of_not ha) fun _ => within_storeSpan_of_not ha) _ _

/-- A run of `cmalloc_initialize_span` whose span is in no share leaves every
share alone. -/
theorem within_cmallocInitializeSpan {c : Int} {t : List Event}
    (hrun : (cmallocInitializeSpan pf c size).run s = ⟨.ok a, s', t⟩) (ha : ¬ S.span a) :
    WithinAt S.outside (cmallocInitializeSpan pf c size) s := by
  obtain ⟨b, s₁, t₁, t₂, halloc, hrest, rfl⟩ := Program.run_bind_inv hrun
  obtain ⟨_, s₂, t₃, t₄, hassert, hstores, rfl⟩ := Program.run_bind_inv hrest
  obtain rfl : b = a := by
    obtain ⟨_, _, _, _, -, h, -⟩ := Program.run_bind_inv hstores
    obtain ⟨_, _, _, _, -, h, -⟩ := Program.run_bind_inv h
    obtain ⟨_, _, _, _, -, h, -⟩ := Program.run_bind_inv h
    obtain ⟨_, _, _, _, -, h, -⟩ := Program.run_bind_inv h
    obtain ⟨_, _, _, _, -, h, -⟩ := Program.run_bind_inv h
    obtain ⟨_, _, _, _, -, h, -⟩ := Program.run_bind_inv h
    cases h
    rfl
  refine (within_allocSpan _ _ s).bind fun b' s₁' t' _ halloc' => ?_
  rw [halloc] at halloc'
  cases halloc'
  exact Within.bind within_assertThat (fun _ => .bind (within_storeSpan_of_not ha) fun _ =>
    .bind (within_storeSpan_of_not ha) fun _ => .bind (within_storeSpan_of_not ha) fun _ =>
    .bind (within_storeSpan_of_not ha) fun _ => .bind (within_storeSpan_of_not ha) fun _ =>
    .bind (within_initializeBitmaps ha) fun _ => .pure _) s₁

end

end FastAlloc
