/-
FastAlloc.Spans.FreshChunk — the last way of `alloc_span`: a fresh data
chunk, whose front is the span asked for and whose other pages are cached as
one span.
-/
import FastAlloc.Spans.AllocSpan

namespace FastAlloc

open Lib Mem View

section

variable {pf : Platform} {strict : Bool} {W : Watch} {s : State} {v : View} {n k fit base : Nat}
  {f : Span}

/-! ## The remainder -/

/-- What caching `k` pages from `base` on behind the span `fit` does. -/
structure Remainder (pf : Platform) (v : View) (fit base k : Nat) (f : Span) (split : Nat)
    (v' : View) : Prop where
  none : v.span split = none
  ne_null : split ≠ NULL
  front : v'.span fit = some { f with physNext := split }
  rest : ∃ x, v'.span split = some x ∧ x.base = base ∧ x.pageCount = k ∧ x.physNext = NULL ∧
    x.physPrev = fit ∧ x.isInitialized = false
  other : ∀ b, b ≠ fit → b ≠ split → v'.span b = v.span b
  look : ∀ j, v'.look j = if pf.roundDownPageIndex base ≤ j ∧ j < pf.roundDownPageIndex base + k
    then split else v.look j
  pool : v'.Pool fun a => a = fit
  root : v'.root = v.root
  localBin : v'.localBin = v.localBin
  bytes : v'.bytes = v.bytes
  region : v'.region = v.region
  chunk : v'.chunk = v.chunk
  dataArena : v'.dataArena = v.dataArena

theorem cacheRemainder_spec (h : Shows pf strict W s v) (hfit : v.span fit = some f)
    (hpool : v.Pool fun a => a = fit) (hr : v.root ≠ NULL) (hk : k < maxBinnedPages)
    (hstop : pf.roundDownPageIndex base + k ≤ 2 ^ 35)
    (hkeys : ∀ j, W.keys j → ¬ (pf.roundDownPageIndex base ≤ j ∧ j < pf.roundDownPageIndex base + k)) :
    Spec (Allowed strict) (onStore W.Ok) (cacheRemainder pf fit base k) s
      fun _ s' => ∃ split v', Shows pf strict W s' v' ∧ Remainder pf v fit base k f split v' := by
  refine h.allocSpan_bind fun split g s₁ hnone h₁ => ?_
  have hne : split ≠ fit := ne_of_span hfit hnone
  have hnull : split ≠ NULL := (h₁.valid_span span_set_self).1
  refine h₁.restore_bind fun s₂ h₂ => h₂.restore_bind fun s₃ h₃ => h₃.restore_bind fun s₄ h₄ => ?_
  refine Spec.bind (mapSpanPages_spec h₄ hr span_set_self hstop hkeys) ?_
  rintro _ s₅ h₅
  -- the two are linked
  refine h₅.storeSpan_bind ((span_set_of_ne hne.symm).trans hfit) fun s₆ h₆ =>
    h₆.storeSpan_bind ((span_set_of_ne hne).trans span_set_self) fun s₇ h₇ =>
    h₇.restore_bind fun s₈ h₈ => Spec.global_bind ?_
  rw [h₈.bin_eq]
  refine h₈.restore_bind fun s₉ h₉ => Spec.setGlobal_bind ?_
  refine (markBinnedSpanNonEmpty_spec (h₉.setBin k split) k).mono fun _ s' h' =>
    ⟨split, _, h', hnone, hnull, (span_set_of_ne hne.symm).trans span_set_self,
      ⟨_, span_set_self, rfl, rfl, rfl, rfl, rfl⟩, fun b hb hb' => ?_, fun j => rfl, ?_, rfl, rfl, rfl,
      rfl, rfl, rfl⟩
  · exact (span_set_of_ne hb').trans ((span_set_of_ne hb).trans (span_set_of_ne hb'))
  · have hnone' : (v.setSpan fit { f with physNext := split }).span split = none :=
      (span_set_of_ne hne).trans hnone
    have hpool' : (v.setSpan fit { f with physNext := split }).Pool fun a => a = fit :=
      hpool.setHeld rfl
    exact hpool'.cacheNew hnone' hne hnull hk ((congrArg (Function.update · split _)
      (Function.update_comm hne _ _ _)).trans (Function.update_idem ..)) rfl rfl rfl rfl rfl

/-! ## The chunk -/

/-- The pages of a fresh chunk for a request of `n` pages. -/
def Platform.chunkPages (pf : Platform) (n : Nat) : Nat := max pf.dataChunkPageCount n

theorem Platform.chunkPages_lt (hn : n < maxBinnedPages) : pf.chunkPages n < maxBinnedPages := by
  have hmax : maxBinnedPages = 8193 := rfl
  have hle : pf.dataChunkPageCount ≤ 8192 := by
    unfold Platform.dataChunkPageCount
    rw [Nat.shiftRight_eq_div_pow]
    exact (Nat.div_le_div_left pf.pageSize_ge (by decide)).trans (by decide)
  unfold Platform.chunkPages
  omega

/-- The view once the chunk `⟨base, …⟩`, of header `c`, has been mapped and
its first `n` pages recorded as the span `fit`. -/
structure ChunkFront (pf : Platform) (v : View) (n c fit base : Nat) (f : Span) (v₁ : View) : Prop where
  fresh : pf.FreshFor v ⟨base, pf.chunkPages n * pf.pageSize, .dataChunk⟩
  header : v.chunk c = none
  header_ne : c ≠ NULL
  none : v.span fit = none
  ne_null : fit ≠ NULL
  span : v₁.span = Function.update v.span fit (some f)
  starts : f.base = base
  pages : f.pageCount = n
  next : f.physNext = NULL
  prev : f.physPrev = NULL
  uninit : f.isInitialized = false
  look : ∀ k, v₁.look k = if pf.roundDownPageIndex base ≤ k ∧ k < pf.roundDownPageIndex base + n
    then fit else v.look k
  region : ∀ x, v₁.region x ↔ x = ⟨base, pf.chunkPages n * pf.pageSize, .dataChunk⟩ ∨ v.region x
  chunk : v₁.chunk = Function.update v.chunk c (some ⟨base, v.dataArena⟩)
  dataArena : v₁.dataArena = c
  bin : v₁.bin = v.bin
  bitmap : v₁.bitmap = v.bitmap
  root : v₁.root = v.root
  localBin : v₁.localBin = v.localBin
  bytes : ∀ r, v.region r → ∀ p, r.base ≤ p → p < r.base + r.len → v₁.bytes p = v.bytes p

/-- What taking `n` pages from a fresh chunk does. -/
structure FreshChunk (pf : Platform) (v : View) (n fit : Nat) (v' : View) : Prop where
  ok : v'.Ok pf fun a => a = fit
  none : v.span fit = none
  chunk : ∃ base, pf.FreshFor v ⟨base, pf.chunkPages n * pf.pageSize, .dataChunk⟩ ∧
    (∀ x, v'.region x ↔ x = ⟨base, pf.chunkPages n * pf.pageSize, .dataChunk⟩ ∨ v.region x) ∧
    (∃ x, v'.span fit = some x ∧ x.base = base ∧ x.pageCount = n ∧ x.isInitialized = false) ∧
    (n < pf.chunkPages n → ∃ split x, split ≠ fit ∧ v.span split = Option.none ∧
      v'.span split = some x ∧ x.base = base + n * pf.pageSize ∧ x.pageCount = pf.chunkPages n - n ∧
      x.isInitialized = false ∧ ∀ b, b ≠ fit → b ≠ split → v'.span b = v.span b) ∧
    (n = pf.chunkPages n → ∀ b, b ≠ fit → v'.span b = v.span b)
  root : v'.root = v.root
  localBin : v'.localBin = v.localBin
  bytes : ∀ r, v.region r → ∀ p, r.base ≤ p → p < r.base + r.len → v'.bytes p = v.bytes p

section

variable {c : Nat} {v₁ : View} (hok : v.Ok pf fun _ => False)
  (hc : ChunkFront pf v n c fit base f v₁)
include hc

theorem ChunkFront.span_of_ne {b : Nat} (hb : b ≠ fit) : v₁.span b = v.span b := by
  rw [hc.span, Function.update_of_ne hb]

theorem ChunkFront.span_self : v₁.span fit = some f := by
  rw [hc.span, Function.update_self]

include hok

theorem ChunkFront.pool : v₁.Pool fun a => a = fit := by
  have hold : (v.setSpan fit f).Pool fun b => False ∨ b = fit := hok.toPool.hold fun sp hsp => by
    rw [hc.none] at hsp
    cases hsp
  exact (hold.of_eq hc.span hc.bin hc.bitmap).congr_held fun b => by simp

/-- The whole chunk as one span. -/
theorem ChunkFront.whole (hn : n < maxBinnedPages) {v₂ : View} (hspan : v₂.span =
      Function.update v.span fit (some { f with pageCount := pf.chunkPages n }))
    (hlook : ∀ k, v₂.look k = if pf.roundDownPageIndex base ≤ k ∧
      k < pf.roundDownPageIndex base + pf.chunkPages n then fit else v.look k)
    (hregion : v₂.region = v₁.region) (hchunk : v₂.chunk = v₁.chunk)
    (harena : v₂.dataArena = v₁.dataArena) : v₂.Geometry pf := by
  have hg : Gains pf v fit { f with pageCount := pf.chunkPages n }
      ⟨base, pf.chunkPages n * pf.pageSize, .dataChunk⟩ v₂ :=
    ⟨hc.fresh, hc.none, hc.ne_null, hc.starts, rfl, hspan, hlook, fun x => hregion ▸ hc.region x⟩
  exact hg.chunk hok.toGeometry rfl (pf.chunkPages_lt hn) hc.next hc.prev hc.header hc.header_ne
    (hchunk.trans hc.chunk) (harena.trans hc.dataArena)

/-- A chunk that is all asked for. -/
theorem ChunkFront.fresh_of_eq (hn : n < maxBinnedPages) (he : n = pf.chunkPages n) :
    FreshChunk pf v n fit v₁ := by
  have hf : { f with pageCount := pf.chunkPages n } = f := by rw [← he, ← hc.pages]
  refine ⟨⟨hc.whole hok hn (by rw [hf, hc.span]) (he ▸ hc.look) rfl rfl rfl, hc.pool hok⟩, hc.none,
    ⟨base, hc.fresh, hc.region, ⟨f, hc.span_self, hc.starts, hc.pages, hc.uninit⟩,
      fun hlt => absurd he hlt.ne, fun _ b hb => hc.span_of_ne hb⟩, hc.root, hc.localBin, hc.bytes⟩

/-- A chunk whose other pages were cached as one span. -/
theorem ChunkFront.fresh_of_lt {split : Nat} {v' : View} (hn0 : 0 < n) (hn : n < maxBinnedPages)
    (hlt : n < pf.chunkPages n)
    (hrest : Remainder pf v₁ fit (base + n * pf.pageSize) (pf.chunkPages n - n) f split v') :
    FreshChunk pf v n fit v' := by
  obtain ⟨v₂, hv₂⟩ : ∃ v₂ : View, v₂ = { v₁ with
      span := Function.update v.span fit (some { f with pageCount := pf.chunkPages n })
      look := fun k => if pf.roundDownPageIndex base ≤ k ∧
        k < pf.roundDownPageIndex base + pf.chunkPages n then fit else v.look k } := ⟨_, rfl⟩
  have hspan₂ : v₂.span = Function.update v.span fit (some { f with pageCount := pf.chunkPages n }) := by
    rw [hv₂]
  have hlook₂ : ∀ k, v₂.look k = if pf.roundDownPageIndex base ≤ k ∧
      k < pf.roundDownPageIndex base + pf.chunkPages n then fit else v.look k := by
    rw [hv₂]
    exact fun _ => rfl
  have hgeo : v₂.Geometry pf :=
    hc.whole hok hn hspan₂ hlook₂ (by rw [hv₂]) (by rw [hv₂]) (by rw [hv₂])
  have hfit₂ : v₂.span fit = some { f with pageCount := pf.chunkPages n } := by
    rw [hspan₂, Function.update_self]
  have hne : split ≠ fit := ne_of_span (hc.span_self) hrest.none
  have hother₂ : ∀ b, b ≠ fit → v₂.span b = v₁.span b := fun b hb => by
    rw [hspan₂, Function.update_of_ne hb, hc.span_of_ne hb]
  obtain ⟨x, hx, hxb, hxn, hxnext, hxprev, hxi⟩ := hrest.rest
  have hpage : pf.roundDownPageIndex (base + n * pf.pageSize) = pf.roundDownPageIndex base + n := by
    rw [← pf.shiftLeft_pageShift, pf.page_add]
  have hcut : Splits pf v₂ fit split n { f with pageCount := pf.chunkPages n } v' := by
    refine ⟨⟨_, hrest.front, rfl, hc.pages, rfl, rfl⟩, ⟨x, hx, ?_, hxn, ?_, hxprev⟩, fun h0 => ?_,
      fun b hb hb' _ => ?_, fun k => ?_, ?_, ?_, ?_⟩
    · rw [hxb, hc.starts]
    · rw [hxnext, hc.next]
    · exact absurd hc.next h0
    · rw [hrest.other b hb hb', hother₂ b hb]
    · -- the pages of the rest went from the whole chunk's span to the new one's
      rw [hrest.look k, hc.look k, hlook₂ k, hpage, hc.starts]
      dsimp only
      by_cases h₁ : pf.roundDownPageIndex base + n ≤ k ∧
          k < pf.roundDownPageIndex base + pf.chunkPages n
      · rw [if_pos (by omega), if_pos h₁]
      · rw [if_neg (by omega), if_neg h₁]
        exact if_congr (by omega) rfl rfl
    · rw [hrest.region, hv₂]
    · rw [hrest.chunk, hv₂]
    · rw [hrest.dataArena, hv₂]
  have hnone₂ : v₂.span split = Option.none := by rw [hother₂ split hne, hrest.none]
  have hnull : v'.span NULL = Option.none := by
    rw [hrest.other NULL hc.ne_null.symm hrest.ne_null.symm, ← hother₂ NULL hc.ne_null.symm, hgeo.null]
  refine ⟨⟨hcut.geometry hgeo hfit₂ hnone₂ hn0 hlt (pf.chunkPages_lt hn) hrest.ne_null hnull,
    hrest.pool⟩, hc.none, ⟨base, hc.fresh, fun y => hrest.region ▸ hc.region y,
    ⟨_, hrest.front, hc.starts, hc.pages, hc.uninit⟩, fun _ => ⟨split, x, hne, ?_, hx, hxb, hxn, hxi, ?_⟩,
    fun he => absurd he hlt.ne⟩, hrest.root.trans hc.root, hrest.localBin.trans hc.localBin, ?_⟩
  · rw [← hc.span_of_ne hne, hrest.none]
  · intro b hb hb'
    rw [hrest.other b hb hb', hc.span_of_ne hb]
  · intro r hr p h₁ h₂
    rw [hrest.bytes, hc.bytes r hr p h₁ h₂]

end

/-- What became of the rest of the chunk: it is cached behind `fit`, or there
is none. -/
def ChunkRest (pf : Platform) (n fit base : Nat) (f : Span) (v₁ v' : View) : Prop :=
  (n < pf.chunkPages n ∧ ∃ split, Remainder pf v₁ fit (base + n * pf.pageSize) (pf.chunkPages n - n) f
    split v') ∨ (n = pf.chunkPages n ∧ v' = v₁)

theorem ChunkFront.freshChunk {c : Nat} {v₁ v' : View} (hok : v.Ok pf fun _ => False)
    (hc : ChunkFront pf v n c fit base f v₁) (hrest : ChunkRest pf n fit base f v₁ v')
    (hn0 : 0 < n) (hn : n < maxBinnedPages) : FreshChunk pf v n fit v' := by
  rcases hrest with ⟨hlt, split, hrem⟩ | ⟨he, rfl⟩
  · exact hc.fresh_of_lt hok hn0 hn hlt hrem
  · exact hc.fresh_of_eq hok hn he

/-- The end of the last branch of `alloc_span`. -/
theorem chunkRest_spec {c : Nat} {v₁ : View} (h : Shows pf strict W s v₁)
    (hok : v.Ok pf fun _ => False) (hc : ChunkFront pf v n c fit base f v₁) (hr : v.root ≠ NULL)
    (hn : n < maxBinnedPages) (hkeys : ∀ k, W.keys k → v.look k ≠ NULL) :
    Spec (Allowed strict) (onStore W.Ok) (do
        (if pf.chunkPages n - n > 0 ∧ pf.chunkPages n - n < maxBinnedPages then
          cacheRemainder pf fit (base + (n <<< pf.pageShift)) (pf.chunkPages n - n)
        else pure ())
        pure fit) s
      fun a s' => ∃ c base f v₁ v', Shows pf strict W s' v' ∧ ChunkFront pf v n c a base f v₁ ∧
        ChunkRest pf n a base f v₁ v' := by
  have hlt := pf.chunkPages_lt hn
  have hge : n ≤ pf.chunkPages n := Nat.le_max_right ..
  rw [pf.shiftLeft_pageShift]
  have hpage : pf.roundDownPageIndex (base + n * pf.pageSize) = pf.roundDownPageIndex base + n := by
    rw [← pf.shiftLeft_pageShift, pf.page_add]
  refine Spec.bind (Q := fun _ s' => ∃ v', Shows pf strict W s' v' ∧ ChunkRest pf n fit base f v₁ v')
    (Spec.ite (fun hrem => ?_) fun hrem => ?_)
    fun _ s' ⟨v', h', hrest⟩ => Spec.pure ⟨c, base, f, v₁, v', h', hc, hrest⟩
  · have hstop := hc.fresh.stop_le rfl
    dsimp only at hstop
    refine (cacheRemainder_spec h hc.span_self (hc.pool hok) (hc.root ▸ hr) hrem.2 ?_ ?_).mono ?_
    · rw [hpage]
      omega
    · intro j hj hin
      rw [hpage] at hin
      exact hkeys j hj (hc.fresh.unmapped hok.toGeometry rfl (by dsimp only; omega)
        (by dsimp only; omega))
    · rintro _ s' ⟨split, v', h', hrest⟩
      exact ⟨v', h', .inl ⟨by omega, split, hrest⟩⟩
  · exact Spec.pure ⟨v₁, h, .inr ⟨by omega, rfl⟩⟩

/-- The chunk and what became of it, for any number of pages. -/
theorem allocFreshChunk_front_spec (h : Shows pf strict W s v) (hok : v.Ok pf fun _ => False)
    (hr : v.root ≠ NULL) (hn : n < maxBinnedPages) :
    Spec (Allowed strict) (onStore W.Ok) (allocFreshChunk pf n) s
      fun a s' => ∃ c base f v₁ v', Shows pf strict W s' v' ∧ ChunkFront pf v n c a base f v₁ ∧
        ChunkRest pf n a base f v₁ v' := by
  have hkeys : ∀ k, W.keys k → v.look k ≠ NULL := fun k hk => by
    obtain ⟨st, hst⟩ := h
    exact (hst.watched k hk).2.2.2
  unfold allocFreshChunk
  refine Spec.global_bind (h.allocChunk_bind fun c g s₁ hnone h₁ => Spec.setGlobal_bind ?_)
  rw [h.dataArena_eq, pf.shiftLeft_pageShift]
  have hc0 : c ≠ NULL := (h₁.choose_spec.valid_chunk (Function.update_self ..)).1
  refine (h₁.setDataArena c).storeChunk_bind (Function.update_self ..) fun s₂ h₂ =>
    h₂.mmap_bind (by decide) fun base s₃ hfresh h₃ => h₃.storeChunk_bind (Function.update_self ..)
    fun s₄ h₄ => Spec.ite (fun hf => ?_) fun _ => ?_
  · -- a fresh region does not start at `MAP_FAILED`
    have hle := hfresh.2.2.2.1
    dsimp only at hle
    have hmax : MAP_FAILED = 2 ^ 64 - 1 := rfl
    omega
  have hfresh' : pf.FreshFor v ⟨base, pf.chunkPages n * pf.pageSize, .dataChunk⟩ := hfresh
  refine h₄.allocSpan_bind fun fit g' s₅ hnone' h₅ => ?_
  refine h₅.restore_bind fun s₆ h₆ => h₆.restore_bind fun s₇ h₇ => h₇.restore_bind fun s₈ h₈ =>
    h₈.restore_bind fun s₉ h₉ => ?_
  have hge : pf.roundDownPageIndex base + n ≤ pf.roundDownPageIndex base + pf.chunkPages n :=
    Nat.add_le_add_left (Nat.le_max_right ..) _
  refine Spec.bind (mapSpanPages_spec h₉ hr span_set_self (hge.trans (hfresh'.stop_le rfl))
    fun k hk hcov => hkeys k hk (hfresh'.unmapped hok.toGeometry rfl hcov.1
    (hcov.2.trans_le hge))) ?_
  rintro _ s₁₀ h₁₀
  refine h₁₀.storeSpan_bind span_set_self fun s₁₁ h₁₁ => h₁₁.restore_bind fun s₁₂ h₁₂ => ?_
  refine chunkRest_spec (c := c) h₁₂ hok ⟨hfresh', hnone, hc0, hnone',
    (h₅.valid_span span_set_self).1, Function.update_idem .., rfl, rfl, rfl, rfl, rfl, fun k => rfl,
    fun x => Iff.rfl, (Function.update_idem ..).trans (Function.update_idem ..), rfl, rfl, rfl, rfl, rfl,
    fun r hr p h₁ h₂ => hfresh'.bytes_addRegion hr h₁ h₂⟩ hr hn hkeys

theorem allocFreshChunk_spec (h : Shows pf strict W s v) (hok : v.Ok pf fun _ => False)
    (hr : v.root ≠ NULL) (hn0 : 0 < n) (hn : n < maxBinnedPages) :
    Spec (Allowed strict) (onStore W.Ok) (allocFreshChunk pf n) s
      fun a s' => ∃ v', Shows pf strict W s' v' ∧ FreshChunk pf v n a v' := by
  refine (allocFreshChunk_front_spec h hok hr hn).mono ?_
  rintro a s' ⟨c, base, f, v₁, v', h', hc, hrest⟩
  exact ⟨v', h', hc.freshChunk hok hrest hn0 hn⟩

end

end FastAlloc
