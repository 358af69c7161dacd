/-
FastAlloc.Spans.Supply — `alloc_span` as a whole.

`Supply` lists the four ways a request of `n` pages is met, each with what
it does. `Supplied` is what they have in common and all that the callers of
`alloc_span` need.
-/
import FastAlloc.Spans.FreshChunk

namespace FastAlloc

open Lib Mem View

/-- How `alloc_span` came to the span `a` of `n` pages. -/
inductive Supply (pf : Platform) (v : View) (n a : Nat) (v' : View) : Prop
  /-- mapped for this request alone -/
  | direct (hn : maxBinnedPages ≤ n) (hd : DirectSpan pf v n a v')
  /-- cached with as many pages -/
  | «exact» (hn : n < maxBinnedPages) (h0 : v.bin n ≠ NULL) (ha : a = v.bin n) (hv : v' = v.popBin n)
  /-- cut from the smallest cached span with more pages -/
  | split (m rest : Nat) (hn : n < m) (hm : m < maxBinnedPages) (h0 : v.bin m ≠ NULL)
      (hbest : ∀ i, n ≤ i → i < m → v.bin i = NULL) (ha : a = v.bin m)
      (hs : SplitBest pf v n m rest v')
  /-- cut from a fresh data chunk, no cached span being big enough -/
  | fresh (hn : n < maxBinnedPages) (hbest : ∀ i, n ≤ i → i < maxBinnedPages → v.bin i = NULL)
      (hf : FreshChunk pf v n a v')

/-- What a caller of `alloc_span` relies on. -/
structure Supplied (pf : Platform) (v : View) (n a : Nat) (v' : View) : Prop where
  ok : v'.Ok pf fun b => b = a
  span : ∃ sp, v'.span a = some sp ∧ sp.pageCount = n ∧ sp.isInitialized = false
  taken : ∀ sp, v.span a = some sp → sp.isInitialized = false
  kept : ∀ b sp, b ≠ a → v.span b = some sp → ∃ p, v'.span b = some { sp with physPrev := p }
  made : ∀ b sp, b ≠ a → v.span b = none → v'.span b = some sp → sp.isInitialized = false
  root : v'.root = v.root
  localBin : v'.localBin = v.localBin
  region : ∀ r, v.region r → v'.region r
  bytes : ∀ r, v.region r → ∀ p, r.base ≤ p → p < r.base + r.len → v'.bytes p = v.bytes p

section

variable {pf : Platform} {strict : Bool} {W : Watch} {s : State} {v v' : View} {n m a : Nat}

theorem DirectSpan.supplied (hd : DirectSpan pf v n a v') (hok : v.Ok pf fun _ => False)
    (hn : maxBinnedPages ≤ n) : Supplied pf v n a v' := by
  obtain ⟨base, sp, hg, hpages, hi⟩ := hd.gains
  have hpool : (v.setSpan a sp).Pool fun b => False ∨ b = a := hok.toPool.hold fun x hx => by
    rw [hg.none] at hx
    cases hx
  refine ⟨⟨hg.direct hok.toGeometry rfl (hpages ▸ hn) hd.chunk hd.dataArena, ?_⟩,
    ⟨sp, hg.span_self, hpages, hi⟩, fun x hx => ?_, fun b x hb hx => ⟨x.physPrev, ?_⟩,
    fun b x hb hx hx' => ?_, hd.root, hd.localBin, fun r hr => (hg.region r).mpr (.inr hr), hd.bytes⟩
  · exact (hpool.of_eq hg.span hd.bin hd.bitmap).congr_held fun b => by simp
  · rw [hg.none] at hx
    cases hx
  · rw [hg.span_of_ne hb, hx]
  · rw [hg.span_of_ne hb, hx] at hx'
    cases hx'

theorem supplied_popBin (hok : v.Ok pf fun _ => False) (hn : n < maxBinnedPages)
    (h0 : v.bin n ≠ NULL) : Supplied pf v n (v.bin n) (v.popBin n) := by
  obtain ⟨sp, hsp, hi, hpages, -⟩ := (hok.bins n hn).head_mem h0
  refine ⟨⟨hok.toGeometry.of_eq rfl rfl rfl rfl rfl, hok.toPool.popBin hn h0⟩, ⟨sp, hsp, hpages, hi⟩,
    fun x hx => ?_, fun b x _ hx => ⟨x.physPrev, hx⟩, fun b x _ hx hx' => ?_, rfl, rfl, fun _ hr => hr,
    fun _ _ _ _ _ => rfl⟩
  · rw [hsp] at hx
    cases hx
    exact hi
  · change v.span b = some x at hx'
    rw [hx] at hx'
    cases hx'

theorem SplitBest.supplied {rest : Nat} (hs : SplitBest pf v n m rest v')
    (hok : v.Ok pf fun _ => False) (hn0 : 0 < n) (hn : n < m) (hm : m < maxBinnedPages)
    (h0 : v.bin m ≠ NULL) : Supplied pf v n (v.bin m) v' := by
  have hsound := hs.ok hok hn0 hn hm
  obtain ⟨sp, hsp, hpages, hcut⟩ := hs.splits
  obtain ⟨sp', hsp', hi, -⟩ := (hok.bins m hm).head_mem h0
  obtain ⟨x, hx, -, hxn, -⟩ := hcut.front
  have hxi := hs.fit_uninit
  rw [record_of hx] at hxi
  have hne := (ne_of_span hsp hs.none)
  refine ⟨hsound, ⟨x, hx, hxn, hxi⟩, fun y hy => ?_, fun b y hb hy => ?_, fun b y hb hy hy' => ?_,
    hs.root, hs.localBin, fun r hr => hcut.region ▸ hr, fun r _ p _ _ => by rw [hs.bytes]⟩
  · rw [hsp'] at hy
    cases hy
    exact hi
  · have hbr : b ≠ rest := by
      rintro rfl
      rw [hs.none] at hy
      cases hy
    rcases hcut.kept hok.toGeometry hsp (hpages ▸ hm) hb hbr with he | ⟨-, -, z, hz, hz'⟩
    · exact ⟨y.physPrev, he.trans hy⟩
    · obtain rfl : z = y := Option.some.inj (hz.symm.trans hy)
      exact ⟨rest, hz'⟩
  · by_cases hbr : b = rest
    · rw [← hs.split_uninit, ← hbr, record_of hy']
    · rcases hcut.kept hok.toGeometry hsp (hpages ▸ hm) hb hbr with he | ⟨-, -, z, hz, -⟩
      · rw [he, hy] at hy'
        cases hy'
      · rw [hy] at hz
        cases hz

theorem FreshChunk.supplied (hf : FreshChunk pf v n a v') (hn : n ≤ pf.chunkPages n) :
    Supplied pf v n a v' := by
  obtain ⟨base, hfresh, hregion, ⟨x, hx, -, hxn, hxi⟩, hlt, heq⟩ := hf.chunk
  refine ⟨hf.ok, ⟨x, hx, hxn, hxi⟩, fun y hy => ?_, fun b y hb hy => ⟨y.physPrev, ?_⟩,
    fun b y hb hy hy' => ?_, hf.root, hf.localBin, fun r hr => (hregion r).mpr (.inr hr), hf.bytes⟩
  · rw [hf.none] at hy
    cases hy
  · rcases hn.lt_or_eq with h | h
    · obtain ⟨split, z, -, hnone, -, -, -, -, hother⟩ := hlt h
      have hbs : b ≠ split := by
        rintro rfl
        rw [hnone] at hy
        cases hy
      exact (hother b hb hbs).trans hy
    · exact (heq h b hb).trans hy
  · rcases hn.lt_or_eq with h | h
    · obtain ⟨split, z, -, hnone, hz, -, -, hzi, hother⟩ := hlt h
      by_cases hbs : b = split
      · rw [hbs, hz] at hy'
        cases hy'
        exact hzi
      · rw [hother b hb hbs, hy] at hy'
        cases hy'
    · rw [heq h b hb, hy] at hy'
      cases hy'

theorem Supply.supplied (hs : Supply pf v n a v') (hok : v.Ok pf fun _ => False) (hn0 : 0 < n) :
    Supplied pf v n a v' := by
  cases hs with
  | direct hn hd => exact hd.supplied hok hn
  | «exact» hn h0 ha hv => rw [ha, hv]; exact supplied_popBin hok hn h0
  | split m rest hn hm h0 hbest ha hs => rw [ha]; exact hs.supplied hok hn0 hn hm h0
  | fresh hn hbest hf => exact hf.supplied (Nat.le_max_right ..)

/-- Without a data chunk there is no cached span. -/
theorem View.Ok.bin_eq_null (hok : v.Ok pf fun _ => False) (h0 : v.dataArena = NULL)
    (hn : n < maxBinnedPages) : v.bin n = NULL := by
  by_contra hne
  obtain ⟨sp, hsp, -, hpages, -⟩ := (hok.bins n hn).head_mem hne
  obtain ⟨r, hr, hsite, -⟩ := (hok.placed _ sp hsp).chunk (hpages ▸ hn)
  obtain ⟨c, d, hd, -⟩ := hok.region_header r hr hsite
  have hempty := hok.headers
  rw [h0] at hempty
  exact hempty.eq_null_iff.mp rfl c ⟨d, hd⟩

/-- `alloc_span` of a request of `n` pages. -/
theorem allocSpan_spec {size : Nat} (h : Shows pf strict W s v) (hok : v.Ok pf fun _ => False)
    (hkeys : ∀ k, W.keys k → ∃ a sp, v.span a = some sp ∧ sp.isInitialized = true ∧ sp.Covers pf k)
    (hn : pf.roundUpPage size >>> pf.pageShift = n) (hn0 : 0 < n) :
    Spec (Allowed strict) (onStore W.Ok) (allocSpan pf size) s fun a s' => ∃ root v', root ≠ NULL ∧
      (v.root ≠ NULL → root = v.root) ∧ Shows pf strict W s' v' ∧
      Supply pf { v with root := root } n a v' := by
  unfold allocSpan
  rw [hn]
  refine Spec.bind h.ensurePageMap ?_
  rintro _ s₁ ⟨root, hr, hroot, h₁⟩
  have hok₁ : View.Ok pf (fun _ => False) { v with root := root } :=
    ⟨hok.toGeometry.of_eq rfl rfl rfl rfl rfl, hok.toPool.of_eq rfl rfl rfl⟩
  refine Spec.ite (fun hbig => ?_) fun hsmall => ?_
  · refine (allocDirectSpan_spec h₁ hok₁.toGeometry hr).mono ?_
    rintro a s' ⟨v', h', hd⟩
    exact ⟨root, v', hr, hroot, h', .direct hbig hd⟩
  have hlt : n < maxBinnedPages := Nat.lt_of_not_le hsmall
  refine Spec.bind (findBestFittingUninitializedSpan_spec h₁ hok₁.toPool hlt) ?_
  rintro m _ ⟨rfl, hbest⟩
  refine Spec.global_bind (Spec.ite (fun hfit => ?_) fun hfit => ?_)
  · rcases hbest with ⟨hm, hnm, h0, hmin⟩ | ⟨hm, -⟩
    · refine Spec.ite (fun he => ?_) fun hne => ?_
      · subst he
        obtain ⟨sp, hsp, -⟩ := (hok₁.bins n hlt).head_mem h0
        refine (popUninitilizedSpanBin_spec h₁ hsp).mono ?_
        rintro a s' ⟨ha, h'⟩
        exact ⟨root, _, hr, hroot, h', .exact hlt h0 ha rfl⟩
      · have hnm' : n < m := Nat.lt_of_le_of_ne hnm hne
        refine (splitBestFit_spec h₁ hok₁ hr hm h0 hnm' ?_).mono ?_
        · -- a watched page belongs to a span in use
          intro k hk a sp hsp hi hcov
          obtain ⟨b, sp', hsp', hi', hcov'⟩ := hkeys k hk
          obtain rfl := hok.eq_of_covers hsp hsp' hcov hcov'
          obtain rfl : sp = sp' := Option.some.inj (hsp.symm.trans hsp')
          rw [hi] at hi'
          cases hi'
        · rintro a s' ⟨ha, split, v', h', hs⟩
          exact ⟨root, v', hr, hroot, h', .split m split hnm' hm h0 hmin ha hs⟩
    · exact absurd hm hfit.2
  · refine (allocFreshChunk_spec h₁ hok₁ hr hn0 hlt).mono ?_
    rintro a s' ⟨v', h', hf⟩
    refine ⟨root, v', hr, hroot, h', .fresh hlt (fun i hi hlt' => ?_) hf⟩
    rcases hbest with ⟨hm, -, h0, -⟩ | ⟨-, hnone⟩
    · -- then there is no data chunk at all
      have harena : v.dataArena = NULL := by
        by_contra hne
        rw [h₁.dataArena_eq] at hfit
        exact hfit ⟨hne, fun he => by rw [he] at hm; exact absurd hm (by decide)⟩
      exact hok₁.bin_eq_null harena hlt'
    · exact hnone i hi hlt'

end

end FastAlloc
