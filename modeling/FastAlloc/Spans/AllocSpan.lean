/-
FastAlloc.Spans.AllocSpan — the four ways of `alloc_span` to a span: an
exact fit, the best fit cut in two, the front of a fresh data chunk, and
pages mapped for one big request.

Each way is specified by the view it leaves.
-/
import FastAlloc.Spans.BestFit
import FastAlloc.Spans.Geometry

namespace FastAlloc

open Lib Mem View

section

variable {pf : Platform} {strict : Bool} {W : Watch} {s : State} {v : View} {n : Nat}
  {A : Event → Prop}

/-- One more store to a record. -/
theorem Shows.restore_bind {α : Type} {p : Nat} {sp : Span} {f : Span → Span} {G : Unit → M α}
    {Q : α → State → Prop} (h : Shows pf strict W s (v.setSpan p sp))
    (hg : ∀ s', Shows pf strict W s' (v.setSpan p (f sp)) → Spec A (onStore W.Ok) (G ()) s' Q) :
    Spec A (onStore W.Ok) (FastAlloc.storeSpan p f >>= G) s Q :=
  h.storeSpan_bind span_set_self fun s' h' => hg s' (by rwa [set_set] at h')

theorem pageBitmap_bit (n : Nat) :
    pageBitmapWordIndex n = n / 64 ∧ pageBitmapBitIndex n = n % 64 :=
  ⟨Nat.shiftRight_eq_div_pow n 6, Nat.and_two_pow_sub_one_eq_mod n 6⟩

theorem markBinnedSpanEmpty_spec (h : Shows pf strict W s v) (n : Nat) :
    Spec A (onStore W.Ok) (markBinnedSpanEmpty n) s
      fun _ s' => Shows pf strict W s' { v with bitmap := clearBit v.bitmap n } := by
  refine Spec.setGlobal ?_
  rw [(pageBitmap_bit n).1, (pageBitmap_bit n).2, h.bitmap_eq]
  exact h.setBitmap

theorem markBinnedSpanNonEmpty_spec (h : Shows pf strict W s v) (n : Nat) :
    Spec A (onStore W.Ok) (markBinnedSpanNonEmpty n) s
      fun _ s' => Shows pf strict W s' { v with bitmap := setBit v.bitmap n } := by
  refine Spec.setGlobal ?_
  rw [(pageBitmap_bit n).1, (pageBitmap_bit n).2, h.bitmap_eq]
  exact h.setBitmap

/-- Taking the first span of a bin. -/
theorem popUninitilizedSpanBin_spec (h : Shows pf strict W s v)
    {sp : Span} (hsp : v.span (v.bin n) = some sp) :
    Spec A (onStore W.Ok) (popUninitilizedSpanBin n) s
      fun a s' => a = v.bin n ∧ Shows pf strict W s' (v.popBin n) := by
  refine Spec.global_bind ?_
  rw [h.bin_eq]
  refine h.load_bind hsp (Spec.setGlobal_bind ?_)
  have hrec : (v.record (v.bin n)).nextInUninitializedBin = sp.nextInUninitializedBin := by
    rw [record_of hsp]
  have hset := h.setBin n sp.nextInUninitializedBin
  refine Spec.bind (Q := fun _ s' => Shows pf strict W s' (v.popBin n)) ?_
    fun _ s' h' => Spec.pure ⟨rfl, h'⟩
  unfold View.popBin
  rw [hrec]
  refine Spec.ite (fun h0 => ?_) fun h0 => Spec.pure ?_
  · rw [if_pos h0]
    exact markBinnedSpanEmpty_spec hset n
  · rw [if_neg h0]
    exact hset

/-- Recording the pages of a span. -/
theorem mapSpanPages_spec {a : Nat} {sp : Span} (h : Shows pf strict W s v) (hr : v.root ≠ NULL)
    (ha : v.span a = some sp) (hstop : pf.roundDownPageIndex sp.base + sp.pageCount ≤ 2 ^ 35)
    (hkeys : ∀ k, W.keys k → ¬ sp.Covers pf k) :
    Spec (Allowed strict) (onStore W.Ok) (mapSpanPages pf a) s
      fun _ s' => Shows pf strict W s' (v.mapRange a (pf.roundDownPageIndex sp.base)
        (pf.roundDownPageIndex sp.base + sp.pageCount)) := by
  refine Spec.global_bind (h.loadSpan_bind ha ?_)
  have hv := (h.valid_span ha).1
  obtain ⟨st, hs⟩ := h
  rw [hs.root]
  exact hs.mapRange_spec hr hv hstop hkeys

/-! ## The best fit, cut in two -/

/-- What cutting the best-fitting span, of `m` pages, does. -/
structure SplitBest (pf : Platform) (v : View) (n m split : Nat) (v' : View) : Prop where
  none : v.span split = none
  ne_null : split ≠ NULL
  splits : ∃ sp, v.span (v.bin m) = some sp ∧ sp.pageCount = m ∧
    Splits pf v (v.bin m) split n sp v'
  pool : v'.Pool fun a => a = v.bin m
  fit_uninit : (v'.record (v.bin m)).isInitialized = false
  split_uninit : (v'.record split).isInitialized = false
  root : v'.root = v.root
  localBin : v'.localBin = v.localBin
  bytes : v'.bytes = v.bytes

theorem Platform.page_add (pf : Platform) (b n : Nat) :
    pf.roundDownPageIndex (b + n <<< pf.pageShift) = pf.roundDownPageIndex b + n := by
  rw [pf.shiftLeft_pageShift, pf.roundDownPageIndex_eq, pf.roundDownPageIndex_eq,
    Nat.add_mul_div_right _ _ pf.pageSize_pos]

/-- Every page of a span, and the one after the last, is at most `2 ^ 35`. -/
theorem View.Geometry.stop_le (h : v.Geometry pf) {a : Nat} {sp : Span} (ha : v.span a = some sp) :
    pf.roundDownPageIndex sp.base + sp.pageCount ≤ 2 ^ 35 := by
  have hpos := (h.placed a sp ha).pages
  have hlast : sp.Covers pf (pf.roundDownPageIndex sp.base + sp.pageCount - 1) := by
    rw [Span.Covers]
    omega
  have := h.key_lt ha hlast
  omega

/-- `if (next) next->phys_prev = a`. -/
def View.relink (v : View) (next a : Nat) : View :=
  if next = NULL then v else v.setSpan next { v.record next with physPrev := a }

theorem relink_spec (h : Shows pf strict W s v) {next a : Nat}
    (hnext : next ≠ NULL → ∃ sp, v.span next = some sp) :
    Spec A (onStore W.Ok) (if next ≠ NULL then storeSpan next fun sp => { sp with physPrev := a }
      else pure ()) s fun _ s' => Shows pf strict W s' (v.relink next a) := by
  refine Spec.ite (fun h0 => ?_) fun h0 => Spec.pure ?_
  · obtain ⟨sp, hsp⟩ := hnext h0
    refine h.storeSpan hsp fun s' h' => ?_
    rwa [View.relink, if_neg h0, record_of hsp]
  · rwa [View.relink, if_pos (not_not.mp h0)]

theorem View.relink_span {v : View} {next a b : Nat} (hb : next ≠ NULL → b ≠ next) :
    (v.relink next a).span b = v.span b := by
  unfold View.relink
  split
  · rfl
  · exact span_set_of_ne (hb ‹_›)

theorem View.Pool.relink {v : View} {next a : Nat} {held : Nat → Prop} (h : v.Pool held)
    (hnext : next ≠ NULL → ∃ sp, v.span next = some sp) : (v.relink next a).Pool held := by
  unfold View.relink
  split
  · exact h
  · obtain ⟨sp, hsp⟩ := hnext ‹_›
    exact h.setSpan hsp (by rw [record_of hsp]; exact ⟨rfl, rfl, rfl⟩)

/-- A view is relinked in its span records only. -/
theorem View.relink_eq (v : View) (next a : Nat) :
    v.relink next a = { v with span := (v.relink next a).span } := by
  unfold View.relink
  split <;> rfl

/-- A new span is put in a bin. -/
theorem View.Pool.cacheNew {v v' : View} {held : Nat → Prop} {split k : Nat} {x : Span}
    (h : v.Pool held) (hnone : v.span split = none) (hheld : ¬ held split) (h0 : split ≠ NULL)
    (hk : k < maxBinnedPages) (hspan : v'.span = Function.update v.span split (some x))
    (hbin : v'.bin = Function.update v.bin k split) (hbitmap : v'.bitmap = setBit v.bitmap k)
    (hi : x.isInitialized = false) (hpages : x.pageCount = k)
    (hnext : x.nextInUninitializedBin = v.bin k) : v'.Pool held := by
  have hold : (v.setSpan split x).Pool fun b => held b ∨ b = split := h.hold fun y hy => by
    rw [hnone] at hy
    cases hy
  have hpush := hold.pushBin span_set_self (.inr rfl) hi hnext hpages hk h0
  refine (hpush.of_eq hspan hbin hbitmap).congr_held fun b => ?_
  constructor
  · intro hb
    refine ⟨.inl hb, ?_⟩
    rintro rfl
    exact hheld hb
  · rintro ⟨hb | hb, hne⟩
    · exact hb
    · exact absurd hb hne

/-- The view once the rest of `fit` has been cached and mapped, and before
the two are linked. -/
structure CutOff (pf : Platform) (v : View) (fit split n : Nat) (sp : Span) (v₁ : View) : Prop where
  none : v.span split = none
  ne_null : split ≠ NULL
  front : v₁.span fit = some { sp with pageCount := n }
  rest : ∃ x, v₁.span split = some x ∧ x.base = sp.base + n * pf.pageSize ∧
    x.pageCount = sp.pageCount - n ∧ x.physNext = sp.physNext ∧ x.physPrev = fit ∧
    x.isInitialized = false
  other : ∀ b, b ≠ fit → b ≠ split → v₁.span b = v.span b
  look : ∀ k, v₁.look k = if pf.roundDownPageIndex sp.base + n ≤ k ∧
    k < pf.roundDownPageIndex sp.base + sp.pageCount then split else v.look k
  pool : v₁.Pool fun a => a = fit
  root : v₁.root = v.root
  localBin : v₁.localBin = v.localBin
  bytes : v₁.bytes = v.bytes
  region : v₁.region = v.region
  chunk : v₁.chunk = v.chunk
  dataArena : v₁.dataArena = v.dataArena

/-- The end of the third branch of `alloc_span`. -/
theorem linkRest_spec {fit split m : Nat} {sp : Span} {v₁ : View} (h : Shows pf strict W s v₁)
    (hok : v.Ok pf fun _ => False) (hfit : v.bin m = fit) (hsp : v.span fit = some sp)
    (hpages : sp.pageCount = m) (hinit : sp.isInitialized = false) (hm : m < maxBinnedPages)
    (hc : CutOff pf v fit split n sp v₁) :
    Spec A (onStore W.Ok) (do
        let next ← load fit fun m => (m.span fit).physNext
        (if next ≠ NULL then storeSpan next fun sp => { sp with physPrev := split } else pure ())
        storeSpan fit fun sp => { sp with physNext := split }
        pure fit) s
      fun a s' => a = fit ∧ ∃ split v', Shows pf strict W s' v' ∧ SplitBest pf v n m split v' := by
  have hne : split ≠ fit := ne_of_span hsp hc.none
  -- the neighbour behind, if there is one, is another span
  have hnext : sp.physNext ≠ NULL → sp.physNext ≠ fit ∧ sp.physNext ≠ split ∧
      ∃ x, v.span sp.physNext = some x := by
    intro h0
    obtain ⟨h₁, h₂⟩ := hok.next_ne hsp hc.none (hpages ▸ hm) h0
    obtain ⟨r, -, -, -, ⟨x, hx, -⟩, -⟩ := hok.next_span hsp (hpages ▸ hm) h0
    exact ⟨h₁, h₂, x, hx⟩
  have hnext₁ : sp.physNext ≠ NULL → ∃ x, v₁.span sp.physNext = some x := by
    intro h0
    obtain ⟨h₁, h₂, x, hx⟩ := hnext h0
    exact ⟨x, (hc.other _ h₁ h₂).trans hx⟩
  refine h.load_bind hc.front (Spec.bind (relink_spec h hnext₁) ?_)
  rintro _ s₂ h₂
  have hfit₂ : (v₁.relink sp.physNext split).span fit = some { sp with pageCount := n } :=
    (relink_span fun h0 => (hnext h0).1.symm).trans hc.front
  refine h₂.storeSpan_bind hfit₂ fun s' h' => Spec.pure ⟨rfl, split, _, h', ?_⟩
  obtain ⟨x, hx, hxb, hxn, hxnext, hxprev, hxi⟩ := hc.rest
  have hx' : ((v₁.relink sp.physNext split).setSpan fit
      { { sp with pageCount := n } with physNext := split }).span split = some x :=
    (span_set_of_ne hne).trans ((relink_span fun h0 => (hnext h0).2.1.symm).trans hx)
  rw [relink_eq] at hx' ⊢
  refine ⟨hc.none, hc.ne_null, ⟨sp, hfit ▸ hsp, hpages, ?_⟩, ?_, ?_, ?_, hc.root, hc.localBin, hc.bytes⟩
  · rw [hfit]
    refine ⟨⟨_, span_set_self, rfl, rfl, rfl, rfl⟩, ⟨x, hx', hxb, hxn, hxnext, hxprev⟩, fun h0 => ?_,
      fun b hb hb' hb'' => ?_, hc.look, hc.region, hc.chunk, hc.dataArena⟩
    · obtain ⟨h₁, h₂, y, hy⟩ := hnext h0
      refine (span_set_of_ne h₁).trans ?_
      have hy₁ : v₁.span sp.physNext = some y := (hc.other _ h₁ h₂).trans hy
      change (v₁.relink sp.physNext split).span sp.physNext = _
      rw [relink, if_neg h0, span_set_self, record_of hy₁, record_of hy]
    · exact (span_set_of_ne hb).trans ((relink_span hb'').trans (hc.other b hb hb'))
  · rw [hfit, ← relink_eq]
    exact (hc.pool.relink hnext₁).setHeld rfl
  · rw [hfit, record_of span_set_self]
    exact hinit
  · rw [record_of hx']
    exact hxi

theorem splitBestFit_spec {m : Nat} (h : Shows pf strict W s v) (hok : v.Ok pf fun _ => False)
    (hr : v.root ≠ NULL) (hm : m < maxBinnedPages) (h0 : v.bin m ≠ NULL) (hn : n < m)
    (hkeys : ∀ k, W.keys k → ∀ a sp, v.span a = some sp → sp.isInitialized = false →
      ¬ sp.Covers pf k) :
    Spec (Allowed strict) (onStore W.Ok) (splitBestFit pf n m) s
      fun a s' => a = v.bin m ∧ ∃ split v', Shows pf strict W s' v' ∧ SplitBest pf v n m split v' := by
  obtain ⟨sp, hsp, hinit, hpages, -⟩ := (hok.bins m hm).head_mem h0
  obtain ⟨fit, hfit⟩ : ∃ fit, fit = v.bin m := ⟨_, rfl⟩
  have hpool := hok.toPool.popBin hm h0
  refine Spec.bind (popUninitilizedSpanBin_spec h hsp) ?_
  rintro _ s₁ ⟨rfl, h₁⟩
  rw [← hfit] at h0 hsp hpool ⊢
  -- the span is shrunk, and a record made for the rest
  refine h₁.storeSpan_bind hsp fun s₂ h₂ => h₂.allocSpan_bind fun split g s₃ hnone h₃ => ?_
  have hne : split ≠ fit := ne_of_span span_set_self hnone
  rw [span_set_of_ne hne] at hnone
  refine h₃.loadSpan_bind ((span_set_of_ne hne.symm).trans span_set_self) (Spec.global_bind ?_)
  rw [h₃.bin_eq]
  refine h₃.restore_bind fun s₄ h₄ => h₄.restore_bind fun s₅ h₅ => h₅.restore_bind fun s₆ h₆ =>
    h₆.restore_bind fun s₇ h₇ => h₇.restore_bind fun s₈ h₈ => h₈.restore_bind fun s₉ h₉ => ?_
  have h₁₀ := h₉.setBin (m - n) split
  refine Spec.setGlobal_bind (Spec.bind (mapSpanPages_spec h₁₀ hr span_set_self ?_ ?_) ?_)
  · have hstop := hok.stop_le hsp
    change pf.roundDownPageIndex (sp.base + n <<< pf.pageShift) + (m - n) ≤ 2 ^ 35
    rw [pf.page_add]
    omega
  · intro k hk hcov
    refine hkeys k hk fit sp hsp hinit ?_
    change pf.roundDownPageIndex (sp.base + n <<< pf.pageShift) ≤ k ∧
      k < pf.roundDownPageIndex (sp.base + n <<< pf.pageShift) + (m - n) at hcov
    rw [pf.page_add] at hcov
    rw [Span.Covers]
    omega
  rintro _ s₁₁ h₁₁
  refine Spec.bind (markBinnedSpanNonEmpty_spec h₁₁ (m - n)) ?_
  rintro _ s₁₂ h₁₂
  refine linkRest_spec h₁₂ hok hfit.symm hsp hpages hinit hm ⟨hnone, (h₉.valid_span span_set_self).1,
    (span_set_of_ne hne.symm).trans span_set_self, ⟨_, span_set_self, ?_, ?_, rfl, rfl, rfl⟩,
    fun b hb hb' => (span_set_of_ne hb').trans (span_set_of_ne hb), fun k => ?_, ?_, rfl, rfl, rfl, rfl,
    rfl, rfl⟩
  · exact congrArg (sp.base + ·) (pf.shiftLeft_pageShift n)
  · exact congrArg (· - n) hpages.symm
  · change (if pf.roundDownPageIndex (sp.base + n <<< pf.pageShift) ≤ k ∧
      k < pf.roundDownPageIndex (sp.base + n <<< pf.pageShift) + (m - n) then split else v.look k)
      = if _ then split else v.look k
    exact if_congr (by rw [pf.page_add, hpages]; omega) rfl rfl
  · have hp₂ : ((v.popBin m).setSpan fit { sp with pageCount := n }).Pool fun a => a = fit :=
      hpool.setHeld rfl
    have hnone₂ : ((v.popBin m).setSpan fit { sp with pageCount := n }).span split = none :=
      (span_set_of_ne hne).trans hnone
    have hnull := (h₉.valid_span span_set_self).1
    exact hp₂.cacheNew hnone₂ hne hnull (show m - n < maxBinnedPages by omega) rfl rfl rfl rfl rfl rfl

/-- The cut leaves a sound view. -/
theorem SplitBest.ok {m split : Nat} {v' : View} (hs : SplitBest pf v n m split v')
    (hok : v.Ok pf fun _ => False) (hn0 : 0 < n) (hn : n < m) (hm : m < maxBinnedPages) :
    v'.Ok pf fun a => a = v.bin m := by
  obtain ⟨sp, hsp, hpages, hcut⟩ := hs.splits
  refine ⟨hcut.geometry hok.toGeometry hsp hs.none hn0 (hpages ▸ hn) (hpages ▸ hm) hs.ne_null ?_,
    hs.pool⟩
  rw [hcut.other NULL (hok.ne_null hsp).symm hs.ne_null.symm fun h0 => h0.symm, hok.null]

/-! ## Pages mapped for one request -/

/-- What mapping a span of `n` pages for itself does. -/
structure DirectSpan (pf : Platform) (v : View) (n a : Nat) (v' : View) : Prop where
  gains : ∃ base sp, Gains pf v a sp ⟨base, n * pf.pageSize, .direct⟩ v' ∧ sp.pageCount = n ∧
    sp.isInitialized = false
  bin : v'.bin = v.bin
  bitmap : v'.bitmap = v.bitmap
  root : v'.root = v.root
  localBin : v'.localBin = v.localBin
  chunk : v'.chunk = v.chunk
  dataArena : v'.dataArena = v.dataArena
  bytes : ∀ r, v.region r → ∀ p, r.base ≤ p → p < r.base + r.len → v'.bytes p = v.bytes p

/-- The pages of a fresh region lie below `2 ^ 35`. -/
theorem Platform.FreshFor.stop_le {r : Region} (hr : pf.FreshFor v r)
    (hlen : r.len = n * pf.pageSize) : pf.roundDownPageIndex r.base + n ≤ 2 ^ 35 := by
  obtain ⟨hne, -, hal, hle, -⟩ := hr
  have hpos := pf.pageSize_pos
  have hn : n ≠ 0 := by
    rintro rfl
    exact hne (by rw [hlen, Nat.zero_mul])
  obtain ⟨k, rfl⟩ := Nat.exists_eq_succ_of_ne_zero hn
  -- the last page starts below the end of the region
  have hlast := pf.page_lt (p := r.base + k * pf.pageSize) (by
    rw [hlen, Nat.succ_mul] at hle
    omega)
  rw [pf.roundDownPageIndex_eq, Nat.add_mul_div_right _ _ hpos, ← pf.roundDownPageIndex_eq] at hlast
  omega

/-- No page of a fresh region is mapped. -/
theorem Platform.FreshFor.unmapped {r : Region} (hr : pf.FreshFor v r) (hgeo : v.Geometry pf)
    (hlen : r.len = n * pf.pageSize) {k : Nat} (h₁ : pf.roundDownPageIndex r.base ≤ k)
    (h₂ : k < pf.roundDownPageIndex r.base + n) : v.look k = NULL := by
  by_contra hne
  have hstop := hr.stop_le hlen
  obtain ⟨sp, hsp, hcov⟩ := (hgeo.look k (by omega) _ hne).mp rfl
  obtain ⟨r', hr', hb, he⟩ := hgeo.exists_region hsp
  have hpos := pf.pageSize_pos
  have hpage : pf.roundDownPageIndex (k * pf.pageSize) = k := by
    rw [pf.roundDownPageIndex_eq, Nat.mul_div_cancel _ hpos]
  have hin := (Span.covers_page_iff (hgeo.placed _ sp hsp).aligned).mp (by rwa [hpage])
  -- the page starts in the fresh region too
  have hcov' : Span.Covers pf { Span.zero with base := r.base, pageCount := n } k := ⟨h₁, h₂⟩
  have hin' := (Span.covers_page_iff hr.2.2.1).mp (hpage.symm ▸ hcov')
  change r.base ≤ _ ∧ _ < r.base + n * pf.pageSize at hin'
  rcases hr.2.2.2.2 r' hr' with hd | hd <;> omega

/-- Nothing in an old region changes when a fresh one is mapped. -/
theorem Platform.FreshFor.bytes_addRegion {r r' : Region} (hr : pf.FreshFor v r) (hr' : v.region r')
    {p : Nat} (h₁ : r'.base ≤ p) (h₂ : p < r'.base + r'.len) : (v.addRegion r).bytes p = v.bytes p := by
  refine if_neg ?_
  rintro ⟨h₃, h₄⟩
  rcases hr.2.2.2.2 r' hr' with hd | hd <;> omega

theorem allocDirectSpan_spec (h : Shows pf strict W s v) (hgeo : v.Geometry pf) (hr : v.root ≠ NULL) :
    Spec (Allowed strict) (onStore W.Ok) (allocDirectSpan pf n) s
      fun a s' => ∃ v', Shows pf strict W s' v' ∧ DirectSpan pf v n a v' := by
  unfold allocDirectSpan
  rw [pf.shiftLeft_pageShift]
  refine h.allocSpan_bind fun a g s₁ hnone h₁ => h₁.mmap_bind (by decide) fun base s₂ hfresh h₂ => ?_
  have hself : ((v.setSpan a g).addRegion ⟨base, n * pf.pageSize, .direct⟩).span a = some g :=
    span_set_self
  refine h₂.storeSpan_bind hself fun s₃ h₃ => h₃.restore_bind fun s₄ h₄ => h₄.restore_bind
    fun s₅ h₅ => ?_
  have hfresh' : pf.FreshFor v ⟨base, n * pf.pageSize, .direct⟩ := hfresh
  refine Spec.bind (mapSpanPages_spec h₅ hr span_set_self (hfresh'.stop_le rfl) ?_) ?_
  · intro k hk hcov
    obtain ⟨st, hst⟩ := h
    exact (hst.watched k hk).2.2.2 (hfresh'.unmapped hgeo rfl hcov.1 hcov.2)
  rintro _ s' h'
  refine Spec.pure ⟨_, h', ⟨base, _, ⟨hfresh', hnone, (h₅.valid_span span_set_self).1, rfl, rfl, ?_,
    fun k => rfl, fun x => Iff.rfl⟩, rfl, rfl⟩, rfl, rfl, rfl, rfl, rfl, rfl, fun r hr p h₁ h₂ => ?_⟩
  · exact Function.update_idem ..
  · exact hfresh'.bytes_addRegion hr h₁ h₂

end

end FastAlloc
