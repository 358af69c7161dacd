/-
FastAlloc.Threads.Direct — direct spans mapped and given back, as runs.

The smallest direct span has 8193 pages, so a run with one is evaluated leaf
by leaf; that its `mmap`s succeed is again a matter of the proposals.
-/
import FastAlloc.Arena.Proposals
import FastAlloc.RangeMap.Leaf
import FastAlloc.Threads.Calls

namespace FastAlloc

open Lib

/-! ## Leaf by leaf -/

section

variable {pf : Platform}

theorem cmallocMapRange_byLeaf (leaves r value start stop : Nat) :
    cmallocMapRange pf r value start stop =
      mapByLeaf (cmallocAllocMetadata pf) r value leaves start (stop - start) :=
  (mapByLeaf_eq _ _ _ leaves _ _).symm

theorem cmallocUnmapRange_byLeaf (leaves r start stop : Nat) :
    cmallocUnmapRange pf r start stop =
      unmapByLeaf (cmallocFreeMetadata pf) r leaves start (stop - start) :=
  (unmapByLeaf_eq _ _ leaves _ _).symm

end

/-! ## Few calls to `mmap` -/

section

variable {pf : Platform} {s : State} {a n size : Nat} {t : Tid}

theorem fewMmaps_allocateBlock : FewMmaps 0 (allocateBlock a) s :=
  .then_bind .load fun _ _ _ _ => .ite (fun _ => .pure _) fun _ => .then_bind .store fun _ _ _ _ =>
    .then_bind .load fun _ _ _ _ => .then_bind .store fun _ _ _ _ => .then_bind .load fun _ _ _ _ =>
      .then_bind (.ite (fun _ => .store) fun _ => .pure _) fun _ _ _ _ =>
        .then_bind .load fun _ _ _ _ => .pure _

theorem fewMmaps_initializeBitmaps : FewMmaps 0 (initializeBitmaps a n) s :=
  .then_bind .store fun _ _ _ _ =>
    .then_bind ((FewMmaps.loop (k := 0) (fun _ _ => .store) _ _ _).mono (by omega)) fun _ _ _ _ =>
      (FewMmaps.loop (k := 0) (fun _ _ => .then_bind .store fun _ _ _ _ => .store) _ _ _).mono
        (by omega)

variable (hpf : pf.pageShift ≤ 27)
include hpf

theorem fewMmaps_mapSpanPages (hn : (s.mem.span a).pageCount = n) :
    FewMmaps (n * 2) (mapSpanPages pf a) s := by
  refine .then_bind .global fun r s₁ t₁ h₁ => .then_bind .load fun sp s₂ t₂ h₂ => ?_
  cases h₁
  obtain ⟨-, rfl, -⟩ := run_load_inv h₂
  rw [← hn]
  exact (fewMmaps_cmallocMapRange hpf).mono (by omega)

theorem fewMmaps_ensurePageMap : FewMmaps 1 (ensurePageMap pf) s :=
  .then_bind .global fun _ _ _ _ => .ite (fun _ => FewMmaps.bind (k := 0)
    (fewMmaps_cmallocAllocMetadata hpf _) fun _ _ _ _ => .setGlobal rfl (fun _ h => h) rfl)
    fun _ => .pure _

theorem fewMmaps_allocDirectSpan (h0 : n ≠ 0) (hn : n <<< pf.pageShift ≤ 2 ^ 27) :
    FewMmaps (n * 2 + 2) (allocDirectSpan pf n) s := by
  have hlen : n <<< pf.pageShift ≠ 0 := by
    rw [pf.shiftLeft_pageShift]
    exact Nat.mul_ne_zero h0 pf.pageSize_pos.ne'
  refine (FewMmaps.bind (k := n * 2 + 1) (fewMmaps_cmallocAllocMetadata hpf _) fun a s₁ _ _ =>
    (FewMmaps.bind (k := n * 2) (.mmap hlen hn hpf) fun base s₂ _ _ => ?_).mono (by omega)).mono
      (by omega)
  refine .then_bind .store fun _ s₃ _ _ => .then_bind .store fun _ s₄ _ h₄ =>
    .then_bind .store fun _ s₅ _ h₅ => FewMmaps.bind (k := 0) (fewMmaps_mapSpanPages hpf ?_)
      fun _ _ _ _ => .pure _
  rw [run_store_inv h₅, run_store_inv h₄]
  simp [Mem.setSpan]

theorem fewMmaps_allocSpan_direct (hn : maxBinnedPages ≤ pf.roundUpPage size >>> pf.pageShift)
    (hlen : (pf.roundUpPage size >>> pf.pageShift) <<< pf.pageShift ≤ 2 ^ 27) :
    FewMmaps ((pf.roundUpPage size >>> pf.pageShift) * 2 + 3) (allocSpan pf size) s := by
  have hpos : pf.roundUpPage size >>> pf.pageShift ≠ 0 := by
    have : maxBinnedPages = 8193 := rfl
    omega
  have hdirect : ∀ s, FewMmaps ((pf.roundUpPage size >>> pf.pageShift) * 2 + 2)
      (allocDirectSpan pf (pf.roundUpPage size >>> pf.pageShift)) s := fun _ =>
    fewMmaps_allocDirectSpan hpf hpos hlen
  refine (FewMmaps.bind (fewMmaps_ensurePageMap hpf) fun _ s' _ _ => ?_).mono (Nat.add_comm _ _).le
  rw [if_pos hn]
  exact hdirect s'

/-- `cmalloc` of a direct span. -/
theorem fewMmaps_cmalloc_direct (hsize : size > maxSizeClass)
    (hn : maxBinnedPages ≤ pf.roundUpPage size >>> pf.pageShift)
    (hlen : (pf.roundUpPage size >>> pf.pageShift) <<< pf.pageShift ≤ 2 ^ 27) :
    FewMmaps ((pf.roundUpPage size >>> pf.pageShift) * 2 + 3) (cmalloc pf t size) s := by
  have hcls : getSizeClassIndex size = largeClassSizeIndex := if_pos hsize
  have hbin : cmallocFromBin t largeClassSizeIndex = pure none := rfl
  unfold cmalloc
  simp only [hcls, hbin, pure_bind]
  refine FewMmaps.bind (k := 0) ?_ fun a _ _ _ => .then_bind (.pure _) fun _ _ _ _ =>
    fewMmaps_allocateBlock
  refine FewMmaps.bind (k := 0) (fewMmaps_allocSpan_direct hpf hn hlen) fun a _ _ _ => ?_
  exact .then_bind .assertThat fun _ _ _ _ => .then_bind .store fun _ _ _ _ =>
    .then_bind .store fun _ _ _ _ => .then_bind .store fun _ _ _ _ => .then_bind .store fun _ _ _ _ =>
      .then_bind .store fun _ _ _ _ => .then_bind fewMmaps_initializeBitmaps fun _ _ _ _ => .pure _

/-- Caching a span of at most `n` pages. -/
theorem fewMmaps_cmallocCacheSpan (hn : (s.mem.span a).pageCount ≤ n) :
    FewMmaps (n * 6 + 3) (cmallocCacheSpan pf a) s := by
  refine .then_bind .load fun sp s₁ _ h₁ => .ite (fun _ => ?_) fun _ => ?_
  · obtain ⟨-, rfl, rfl, -⟩ := run_load_inv h₁
    refine .then_bind .global fun _ _ _ _ => FewMmaps.bind (k := 3) ?_ fun _ _ _ _ => ?_
    · exact (fewMmaps_cmallocUnmapRange hpf).mono (by omega)
    · refine .then_bind (.setGlobal rfl (fun r hr => List.mem_of_mem_filter hr) rfl) fun _ _ _ _ =>
        fewMmaps_cmallocFreeMetadata hpf _ _
  · exact .then_bind .store fun _ _ _ _ => .then_bind .global fun _ _ _ _ =>
      .then_bind .store fun _ _ _ _ => .then_bind (.setGlobal rfl (fun _ h => h) rfl) fun _ _ _ _ =>
        .setGlobal rfl (fun _ h => h) rfl

/-- Freeing a large block of at most `n` pages. -/
theorem fewMmaps_cfree_large {p : Nat} (hget : ((cmallocGetSpan pf p).run s).result = .ok a)
    (ha : a ≠ NULL) (hl : (s.mem.span a).sizeClassIndex = largeClassSizeIndex)
    (hn : (s.mem.span a).pageCount ≤ n) : FewMmaps (n * 6 + 3) (cfree pf t p) s := by
  have hfound : ∀ b s' tr, (cmallocGetSpan pf p).run s = ⟨.ok b, s', tr⟩ → b = a ∧ s' = s := by
    intro b s' tr h
    obtain rfl : b = a := Except.ok.inj ((congrArg Outcome.result h).symm.trans hget)
    obtain ⟨r, s₁, t₁, t₂, hr, hrun, -⟩ := Program.run_bind_inv h
    cases hr
    exact ⟨rfl, (run_cmallocGet_found hrun ha).1.symm⟩
  unfold cfree
  refine .ite (fun _ => .pure _) fun _ => .then_bind ?_ fun o s₁ t₁ h₁ => ?_
  · refine .then_bind (.then_bind .global fun _ _ _ _ => fewMmaps_cmallocGet) fun b s₁ t₁ h₁ => ?_
    obtain ⟨rfl, rfl⟩ := hfound b s₁ t₁ h₁
    refine .then_bind .load fun c s₂ t₂ h₂ => .ite (fun _ => .pure _) fun hc => ?_
    obtain ⟨-, rfl, -⟩ := run_load_inv h₂
    exact absurd hl hc
  · obtain ⟨b, s₂, t₂, t₃, hb, hload, -⟩ := Program.run_bind_inv h₁
    obtain ⟨rfl, rfl⟩ := hfound b s₂ t₂ hb
    obtain ⟨c, s₃, t₄, t₅, hc, hrest, -⟩ := Program.run_bind_inv hload
    obtain ⟨-, rfl, rfl, -⟩ := run_load_inv hc
    rw [if_pos hl] at hrest
    cases hrest
    exact fewMmaps_cmallocCacheSpan hpf hn

end

/-! ## A direct span comes and goes, on 4 KiB pages -/

/-- The smallest request for a direct span. -/
abbrev directSize : Nat := 8193 * 2 ^ 12

theorem direct_result :
    ((cmalloc .smallPages 0 directSize).run (.initial spaced)).result = .ok (2 ^ 28) := by
  simp only [cmalloc, cmallocInitializeSpan, allocSpan, allocDirectSpan, mapSpanPages,
    cmallocMapRange_byLeaf 5]
  decide +kernel

theorem direct_span :
    ((cmallocGetSpan .smallPages (2 ^ 28)).run
      ((cmalloc .smallPages 0 directSize).run (.initial spaced)).state).result = .ok 134250528 ∧
    (((cmalloc .smallPages 0 directSize).run (.initial spaced)).state.mem.span
      134250528).sizeClassIndex = largeClassSizeIndex ∧
    (((cmalloc .smallPages 0 directSize).run (.initial spaced)).state.mem.span
      134250528).pageCount = 8193 := by
  simp only [cmalloc, cmallocInitializeSpan, allocSpan, allocDirectSpan, mapSpanPages,
    cmallocMapRange_byLeaf 5]
  decide +kernel

theorem fewMmaps_directSize {s : State} {t : Tid} :
    FewMmaps 16389 (cmalloc .smallPages t directSize) s := by
  have hpages : Platform.smallPages.roundUpPage directSize >>> Platform.smallPages.pageShift
      = 8193 := by decide +kernel
  refine (fewMmaps_cmalloc_direct (by decide) (by decide) ?_ ?_).mono ?_
  · exact hpages.ge
  · rw [hpages]
    decide
  · rw [hpages]

/-- The start, as a world of which only the state is known. -/
theorem Reachable.start (pf : Platform) (proposals : Nat → Nat) : ∃ w, Reachable pf w ∧
    (∀ t, w.pc t = none) ∧ w.state = .initial proposals :=
  ⟨.initial proposals, ⟨_, .refl⟩, fun _ => rfl, rfl⟩

/-- A direct span is handed out, -/
theorem Reachable.direct : ∃ w, Reachable .smallPages w ∧ w.live (2 ^ 28) = some (0, directSize) ∧
    (∀ t, w.pc t = none) ∧ Spaced w.state ∧ w.state.calls ≤ 16389 ∧
    w.state = ((FastAlloc.cmalloc .smallPages 0 directSize).run (.initial spaced)).state := by
  obtain ⟨w₀, hw₀, hpc₀, hs₀⟩ := Reachable.start .smallPages spaced
  have hres := direct_result
  have hspaced : Spaced w₀.state := hs₀ ▸ .initial
  have hcalls : w₀.state.calls = 0 := hs₀ ▸ rfl
  rw [← hs₀] at hres ⊢
  obtain ⟨hm, hs, hc⟩ := fewMmaps_directSize (t := 0) hspaced (by omega)
  obtain ⟨q, w, hq, hw, hstate, hpc, -, hlive⟩ := hw₀.cmalloc (hpc₀ 0) (by decide) hm
  obtain rfl : q = 2 ^ 28 := Except.ok.inj (hq.symm.trans hres)
  refine ⟨w, hw, by rw [hlive]; exact Function.update_self .., fun t => (congrFun hpc t).trans
    (hpc₀ t), ?_⟩
  rw [hstate]
  exact ⟨hs, by omega, rfl⟩

/-- given back, -/
theorem Reachable.directFreed : ∃ w, Reachable .smallPages w ∧ (∀ t, w.pc t = none) ∧
    Spaced w.state ∧ w.state.calls ≤ 65550 ∧
    w.state = ((FastAlloc.cfree .smallPages 0 (2 ^ 28)).run
      ((FastAlloc.cmalloc .smallPages 0 directSize).run (.initial spaced)).state).state := by
  obtain ⟨w, hw, hlive, hpc, hs, hc, hstate⟩ := Reachable.direct
  have hspan := direct_span
  rw [← hstate] at hspan ⊢
  obtain ⟨hm, hs', hc'⟩ := fewMmaps_cfree_large (t := 0) (by decide) hspan.1 (by decide) hspan.2.1
    hspan.2.2.le hs (by omega)
  obtain ⟨w', -, hw', hstate', hpc', -⟩ := hw.cfree (hpc 0) hlive hm
  refine ⟨w', hw', fun t => (congrFun hpc' t).trans (hpc t), ?_⟩
  rw [hstate']
  exact ⟨hs', by omega, rfl⟩

/-- and handed out again. -/
theorem Reachable.directAgain : ∃ w, Reachable .smallPages w ∧ (∀ t, w.pc t = none) ∧
    w.state = ((FastAlloc.cmalloc .smallPages 0 directSize).run
      ((FastAlloc.cfree .smallPages 0 (2 ^ 28)).run
        ((FastAlloc.cmalloc .smallPages 0 directSize).run (.initial spaced)).state).state).state := by
  obtain ⟨w, hw, hpc, hs, hc, hstate⟩ := Reachable.directFreed
  generalize ((FastAlloc.cfree .smallPages 0 (2 ^ 28)).run
    ((FastAlloc.cmalloc .smallPages 0 directSize).run (.initial spaced)).state).state = s at *
  subst hstate
  obtain ⟨hm, -⟩ := fewMmaps_directSize (t := 0) hs (by omega)
  obtain ⟨q, w', -, hw', hstate', hpc', -⟩ := hw.cmalloc (hpc 0) (by decide) hm
  exact ⟨w', hw', fun t => (congrFun hpc' t).trans (hpc t), hstate'⟩

/-- By then the free list of spans has been emptied through `cmalloc_map`: its
leaf is counted as holding one entry and holds none. -/
theorem direct_again : let s := ((cmalloc .smallPages 0 directSize).run
      ((cfree .smallPages 0 (2 ^ 28)).run
        ((cmalloc .smallPages 0 directSize).run (.initial spaced)).state).state).state
    s.freeListMap ≠ NULL ∧ s.mem.l3Of s.freeListMap sizeofSpan ≠ NULL ∧
      (s.leaf s.freeListMap sizeofSpan).count = 1 ∧
      (List.range l3Size).all fun i => decide ((s.leaf s.freeListMap sizeofSpan).l3 i = NULL) := by
  simp only [cfree, cmalloc, cmallocInitializeSpan, allocSpan, allocDirectSpan, mapSpanPages,
    cmallocMapRange_byLeaf 5, cmallocCacheSpan, cmallocUnmapRange_byLeaf 5]
  decide +kernel

end FastAlloc
