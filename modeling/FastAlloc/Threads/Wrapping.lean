/-
FastAlloc.Threads.Wrapping — requests in the wrap-around window of
`round_up_page`.

There `round_up_page` is 0, so `alloc_span` makes a span of no pages: the
whole cached span it cut from, or the whole fresh chunk, goes on under
another record, which stays cached. The block handed out starts on its
first page. `cmalloc_fits_iff` says that these requests, and the one failure
`cmalloc` does not look at, are all that can go wrong with the extent of a
block.
-/
import FastAlloc.Threads.OutOfMemory

namespace FastAlloc

open Lib Mem View

/-- A size that leaves no room to round up is rounded to 0. -/
theorem Platform.roundUpPage_wraps {pf : Platform} {size : Nat} (h : ¬ pf.NonWrapping size)
    (hlt : size < 2 ^ 64) : pf.roundUpPage size = 0 := by
  have hshift := pf.shift_lt
  have hle : pf.pageSize ≤ 2 ^ 63 := Nat.pow_le_pow_right Nat.two_pos (by omega)
  have hpos := pf.pageSize_pos
  have hgt : 2 ^ 64 - pf.pageSize < size := Nat.lt_of_not_le h
  have hmod : (size + (pf.pageSize - 1)) % 2 ^ 64 = size + (pf.pageSize - 1) - 2 ^ 64 := by
    rw [Nat.mod_eq_sub_mod (by omega), Nat.mod_eq_of_lt (by omega)]
  have hmask := and_mask (size + (pf.pageSize - 1) - 2 ^ 64) pf.pageShift (by omega) (by omega)
  unfold Platform.roundUpPage bitNot
  rw [hmod]
  change (_ &&& (2 ^ 64 - 1 - (2 ^ pf.pageShift - 1))) = _
  rw [hmask, Nat.div_eq_of_lt (by change _ < pf.pageSize; omega), Nat.zero_mul]

/-- The span `a` has no pages, and the page it starts on is one of a span
that is cached. -/
def View.ZeroSpan (pf : Platform) (v : View) (a : Nat) : Prop :=
  v.root ≠ NULL ∧ ∃ sp, v.span a = some sp ∧ sp.pageCount = 0 ∧
    pf.roundDownPageIndex sp.base < 2 ^ 35 ∧
    ∃ b x, b ≠ a ∧ v.span b = some x ∧ x.isInitialized = false ∧
      v.look (pf.roundDownPageIndex sp.base) = b

section

variable {pf : Platform} {strict : Bool} {W : Watch} {s s' : State} {v v' : View}
  {a m p size split : Nat} {sp sp' : Span} {t : Tid} {tr : List Event}

theorem View.ZeroSpan.setSpan (h : v.ZeroSpan pf a) (ha : v.span a = some sp)
    (hbase : sp'.base = sp.base) (hpages : sp'.pageCount = sp.pageCount) :
    (v.setSpan a sp').ZeroSpan pf a := by
  obtain ⟨hr, x, hx, h0, hkey, b, y, hb, hy, hi, hlook⟩ := h
  obtain rfl := Option.some.inj (ha.symm.trans hx)
  refine ⟨hr, sp', span_set_self, hpages.trans h0, hbase ▸ hkey, b, y, hb, ?_, hi, hbase ▸ hlook⟩
  rwa [span_set_of_ne hb]

/-- Cutting nothing off the best fit. -/
theorem SplitBest.zeroSpan (hs : SplitBest pf v 0 m split v') (hok : v.Ok pf fun _ => False)
    (hr : v.root ≠ NULL) : v'.ZeroSpan pf (v.bin m) := by
  obtain ⟨sp, hsp, -, hcut⟩ := hs.splits
  obtain ⟨x, hx, hxb, hxn, -⟩ := hcut.front
  obtain ⟨y, hy, -⟩ := hcut.rest
  have hpos := (hok.placed _ sp hsp).pages
  have hcov : sp.Covers pf (pf.roundDownPageIndex sp.base) := ⟨le_rfl, by omega⟩
  have hinit := hs.split_uninit
  rw [record_of hy] at hinit
  refine ⟨hs.root ▸ hr, x, hx, hxn, hxb ▸ hok.key_lt hsp hcov, split, y, ne_of_span hsp hs.none, hy,
    hinit, ?_⟩
  rw [hxb, hcut.look]
  exact if_pos hcov

/-- Taking nothing from a fresh chunk. -/
theorem ChunkRest.zeroSpan {c base : Nat} {f : Span} {v₁ : View}
    (hrest : ChunkRest pf 0 a base f v₁ v') (hc : ChunkFront pf v 0 c a base f v₁)
    (hr : v.root ≠ NULL) : v'.ZeroSpan pf a := by
  have hlen := hc.fresh.1
  have hstop := hc.fresh.stop_le rfl
  dsimp only at hlen hstop
  have hpos : pf.chunkPages 0 ≠ 0 := (Nat.mul_ne_zero_iff.mp hlen).1
  rcases hrest with ⟨hlt, split, hrem⟩ | ⟨he, -⟩
  · obtain ⟨y, hy, -, -, -, -, hi⟩ := hrem.rest
    refine ⟨?_, _, hrem.front, hc.pages, ?_, split, y, ne_of_span hc.span_self hrem.none, hy, hi, ?_⟩
    · rw [hrem.root, hc.root]
      exact hr
    · change pf.roundDownPageIndex f.base < 2 ^ 35
      rw [hc.starts]
      omega
    · change v'.look (pf.roundDownPageIndex f.base) = split
      rw [hrem.look, hc.starts, Nat.zero_mul, Nat.add_zero, if_pos ⟨le_rfl, by omega⟩]
  · exact absurd he.symm hpos

/-- No cached span has no pages. -/
theorem View.Ok.bin_zero (hok : v.Ok pf fun _ => False) : v.bin 0 = NULL := by
  by_contra hne
  obtain ⟨sp, hsp, -, hpages, -⟩ := (hok.bins 0 (by decide)).head_mem hne
  have hpos := (hok.placed _ sp hsp).pages
  omega

theorem allocSpan_wraps (h : Shows pf strict .none s v) (hok : v.Ok pf fun _ => False)
    (hsize : ¬ pf.NonWrapping size) (hlt : size < 2 ^ 64) :
    Spec (Allowed strict) (onStore Watch.none.Ok) (allocSpan pf size) s fun a s' =>
      ∃ v', Shows pf strict .none s' v' ∧ v'.ZeroSpan pf a := by
  have hn : pf.roundUpPage size >>> pf.pageShift = 0 := by
    rw [Platform.roundUpPage_wraps hsize hlt, Nat.zero_shiftRight]
  unfold allocSpan
  rw [hn]
  refine Spec.bind h.ensurePageMap ?_
  rintro _ s₁ ⟨root, hr, -, h₁⟩
  have hok₁ : View.Ok pf (fun _ => False) { v with root := root } :=
    ⟨hok.toGeometry.of_eq rfl rfl rfl rfl rfl, hok.toPool.of_eq rfl rfl rfl⟩
  refine Spec.ite (fun hbig => absurd hbig (by decide)) fun _ => ?_
  refine Spec.bind (findBestFittingUninitializedSpan_spec h₁ hok₁.toPool (by decide)) ?_
  rintro m _ ⟨rfl, hbest⟩
  refine Spec.global_bind (Spec.ite (fun hfit => ?_) fun _ => ?_)
  · rcases hbest with ⟨hm, -, h0, -⟩ | ⟨hm, -⟩
    · have hne : 0 ≠ m := by
        rintro rfl
        exact h0 hok₁.bin_zero
      refine Spec.ite (fun he => absurd he hne) fun _ => ?_
      refine (splitBestFit_spec h₁ hok₁ hr hm h0 (Nat.pos_of_ne_zero hne.symm) fun _ hk => hk.elim).mono ?_
      rintro _ s' ⟨rfl, split, v', h', hs⟩
      exact ⟨v', h', hs.zeroSpan hok₁ hr⟩
    · exact absurd hm hfit.2
  · refine (allocFreshChunk_front_spec h₁ hok₁ hr (by decide)).mono ?_
    rintro a s' ⟨c, base, f, v₁, v', h', hc, hrest⟩
    exact ⟨v', h', hrest.zeroSpan hc hr⟩

/-- The span is made ready for one block. -/
theorem cmallocInitializeSpan_wraps (h : Shows pf strict .none s v) (hok : v.Ok pf fun _ => False)
    (hsize : ¬ pf.NonWrapping size) (hlt : size < 2 ^ 64) :
    Spec (Allowed strict) (onStore Watch.none.Ok) (cmallocInitializeSpan pf largeClassSizeIndex size) s
      fun a s' => ∃ v' sp, Shows pf strict .none s' v' ∧ v'.ZeroSpan pf a ∧ v'.span a = some sp ∧
        sp.isInitialized = true ∧ sp.BlocksOk ∧ sp.AllFree 1 := by
  refine Spec.bind (allocSpan_wraps h hok hsize hlt) ?_
  rintro a s₁ ⟨v₁, h₁, hz⟩
  obtain ⟨sp, hsp⟩ : ∃ sp, v₁.span a = some sp := hz.2.imp fun _ hx => hx.1
  refine Spec.assert_bind (h₁.valid_span hsp).1 ?_
  refine h₁.storeSpan_bind hsp fun s₂ h₂ => h₂.restore_bind fun s₃ h₃ => h₃.restore_bind
    fun s₄ h₄ => h₄.restore_bind fun s₅ h₅ => h₅.restore_bind fun s₆ h₆ => ?_
  refine Spec.bind (h₆.initializeBitmaps Nat.one_pos (by decide)) ?_
  rintro _ s' ⟨nf, bm, h', hall⟩
  exact Spec.pure ⟨_, _, h', hz.setSpan hsp rfl rfl, span_set_self, rfl,
    hall.blocksOk (by decide) rfl rfl, hall⟩

/-- The lowest block of a span of one block is its first. -/
theorem Span.AllFree.lowest (h : sp.AllFree 1) : sp.nonfullBitmap ≠ 0 ∧ sp.firstFree = 0 := by
  have hbits : sp.nonfullBitmap ≠ 0 := by
    intro h0
    have hone := (h.summary 0 (by decide)).mpr fun hw => ?_
    · simp [h0] at hone
    · have hbit := (h.bit 0 (by decide)).mpr Nat.one_pos
      simp [bitAt, hw] at hbit
  exact ⟨hbits, Nat.lt_one_iff.mp ((h.bit _ (lowestBit_lt h.summary hbits)).mp
    (bitAt_lowestBit h.summary hbits))⟩

/-- A wrapping request gets the start of a span of no pages. -/
theorem cmalloc_wraps (h : Shows pf strict .none s v) (hok : v.Ok pf fun _ => False)
    (hsize : ¬ pf.NonWrapping size) (hlt : size < 2 ^ 64) :
    Spec (Allowed strict) (onStore Watch.none.Ok) (cmalloc pf t size) s fun p s' => ∃ v' a sp,
      Shows pf strict .none s' v' ∧ v'.ZeroSpan pf a ∧ v'.span a = some sp ∧
        sp.isInitialized = true ∧ p = sp.base := by
  have hshift := pf.shift_lt
  have hle : pf.pageSize ≤ 2 ^ 63 := Nat.pow_le_pow_right Nat.two_pos (by omega)
  have hgt : 2 ^ 64 - pf.pageSize < size := Nat.lt_of_not_le hsize
  have hbig : size > maxSizeClass := by
    change 32768 < size
    omega
  have hcls : getSizeClassIndex size = largeClassSizeIndex := if_pos hbig
  unfold cmalloc
  dsimp only
  rw [hcls]
  refine Spec.bind (Spec.pure (Q := fun o s' => o = none ∧ s' = s) ⟨rfl, rfl⟩) ?_
  rintro _ _ ⟨rfl, rfl⟩
  refine Spec.bind (cmallocInitializeSpan_wraps h hok hsize hlt) ?_
  rintro a s₁ ⟨v₁, sp, h₁, hz, hsp, hi, hblocks, hall⟩
  obtain ⟨hbits, hfirst⟩ := hall.lowest
  refine (allocateBlock_tracks (.refl h₁) hsp hblocks hbits).mono ?_
  rintro p s' ⟨rfl, htr⟩
  have hself : (v₁.allocBlock a).span a = some sp.takeBlock := by
    rw [View.allocBlock, record_of hsp]
    exact span_set_self
  have hzero : (v₁.allocBlock a).ZeroSpan pf a := by
    rw [View.allocBlock, record_of hsp]
    exact hz.setSpan hsp rfl rfl
  refine ⟨_, a, _, htr.shows, hzero, hself, hi, ?_⟩
  rw [hfirst]
  change sp.base + 0 * sp.blockSize = sp.base
  rw [Nat.zero_mul, Nat.add_zero]

end

/-! ## The extent of a block -/

/-- The span `cmalloc_get_span` finds for `p` is initialised, has a page at
least, and holds `[p, p + size)` without wrapping around. -/
def State.FitsAt (pf : Platform) (s : State) (p size : Nat) : Prop :=
  ∃ a, ((cmallocGetSpan pf p).run s).result = .ok a ∧ (s.mem.span a).isInitialized = true ∧
    1 ≤ (s.mem.span a).pageCount ∧ (s.mem.span a).base ≤ p ∧ p + size < 2 ^ 64 ∧
    p + size ≤ (s.mem.span a).base + (s.mem.span a).size pf

section

variable {pf : Platform} {w : World} {t : Tid} {size p : Nat} {s' : State} {tr : List Event}

/-- What `cmalloc` returns lies in a span that holds it, exactly if the
request did not wrap and the mapping for it did not fail. -/
theorem cmalloc_fits_iff (h : Reachable pf w) (hpc : w.pc t = none) (hlt : size < 2 ^ 64)
    (hrun : (cmalloc pf t size).run w.state = ⟨.ok p, s', tr⟩) :
    s'.FitsAt pf p size ↔ pf.NonWrapping size ∧ .mmapFailed .direct ∉ tr := by
  obtain ⟨v, hv⟩ := h.inv
  by_cases hsize : pf.NonWrapping size
  · rw [and_iff_right hsize]
    by_cases hm : ∀ e ∈ tr, e.Mapped
    · refine iff_of_true ?_ fun hmem => hm _ hmem
      obtain ⟨⟨w', v', rfl, hout⟩, -⟩ := (hv.cmalloc_spec hpc hsize).elim hrun fun e he =>
        allowed_of_mapped (hm e he)
      have hlive : w'.live p = some (t, size) := by
        rw [hout.live]
        exact if_pos rfl
      obtain ⟨a, sp, i, hsp, hi, -, hblock, -, hle⟩ := hout.ran.inv.live_record hlive
      have hinv := hout.ran.inv.heap
      have hend := (hinv.heap.sound a _ hblock.use).block_le hblock.lt
      rw [← hblock.eq] at hend
      have hplaced := hinv.sound.placed a sp hsp
      obtain ⟨-, htop, -⟩ := hinv.sound.bounds hsp
      have hin : p + sp.blockSize ≤ sp.base + sp.size pf := hend
      refine ⟨a, by rw [hout.ran.inv.run_getSpan_live hblock], ?_⟩
      rw [hinv.shows.record_eq hsp]
      have hbase : sp.base ≤ p := hblock.eq ▸ Nat.le_add_right _ _
      exact ⟨hi, hplaced.pages, hbase, by omega, by omega⟩
    · obtain ⟨rfl, hfailed, hbig⟩ := cmalloc_failed h hrun hm
      refine iff_of_false ?_ fun hno => hno hfailed
      rintro ⟨a, -, -, -, -, hwrap, -⟩
      have hmax : MAP_FAILED = 2 ^ 64 - 1 := rfl
      have h0 : 1 ≤ size := by
        by_contra h0
        obtain rfl : size = 0 := by omega
        rw [Platform.roundUpPage_pages hsize, Nat.div_eq_of_lt (by have := pf.pageSize_pos; omega)] at hbig
        exact absurd hbig (by decide)
      omega
  · refine iff_of_false ?_ fun hc => hsize hc.1
    have hm : ∀ e ∈ tr, e.Mapped := by
      by_contra hm
      have hbig := (cmalloc_failed h hrun hm).2.2
      rw [Platform.roundUpPage_wraps hsize hlt, Nat.zero_shiftRight] at hbig
      exact absurd hbig (by decide)
    obtain ⟨⟨v', a, sp, hs, ⟨hr, x, hx, h0, hkey, b, y, hb, hy, hi, hlook⟩, hsp, -, rfl⟩, -⟩ :=
      (cmalloc_wraps hv.heap.shows hv.heap.sound.toOk hsize hlt).elim hrun fun e he =>
        allowed_of_mapped (hm e he)
    obtain rfl := Option.some.inj (hsp.symm.trans hx)
    rintro ⟨c, hget, hinit, -⟩
    have hfound : (cmallocGetSpan pf sp.base).run s' = ⟨.ok b, s', []⟩ := by
      refine Program.run_bind_read run_global ?_
      rw [hs.run_get hr hkey, hlook]
    rw [hfound] at hget
    cases hget
    rw [hs.record_eq hy, hi] at hinit
    cases hinit

theorem cmalloc_fits_iff_wraps : ∃ s tr, (cmalloc .hugePages 0 (2 ^ 64 - 1)).run
    (.initial fun n => 2 ^ 30 * (n + 1)) = ⟨.ok (2 ^ 31), s, tr⟩ ∧
      ¬ s.FitsAt .hugePages (2 ^ 31) (2 ^ 64 - 1) := by
  obtain ⟨w, hw, hpc, hs⟩ := Reachable.start .hugePages fun n => 2 ^ 30 * (n + 1)
  have hres : ((cmalloc .hugePages 0 (2 ^ 64 - 1)).run
      (.initial fun n => 2 ^ 30 * (n + 1))).result = .ok (2 ^ 31) := by decide +kernel
  rw [← hs] at hres ⊢
  have hrun := Program.run_of_result hres
  refine ⟨_, _, hrun, fun hfits => ?_⟩
  have hwrap := ((cmalloc_fits_iff hw (hpc 0) (by decide) hrun).mp hfits).1
  exact absurd hwrap (by decide)

end

end FastAlloc
