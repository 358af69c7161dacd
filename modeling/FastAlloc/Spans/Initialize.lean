/-
FastAlloc.Spans.Initialize — `cmalloc_initialize_span`: the sizes behind a
request, the bitmaps of a span whose blocks are all free, and the whole
critical section.
-/
import FastAlloc.Spans.Blocks
import FastAlloc.Spans.Supply
import FastAlloc.Model.System

namespace FastAlloc

open Lib Mem View

/-! ## Requests -/

/-- The bytes `cmalloc_initialize_span` asks `alloc_span` for. -/
def requestBytes (c : Int) (size : Nat) : Nat :=
  if c = largeClassSizeIndex then size else sizeClassSpanSize.getD c.toNat 0

/-- The `block_size` it sets. -/
def requestBlockSize (c : Int) (size : Nat) : Nat :=
  if c = largeClassSizeIndex then size else sizeClasses.getD c.toNat 0

/-- The `block_count` it sets. -/
def requestBlockCount (c : Int) : Nat :=
  if c = largeClassSizeIndex then 1 else sizeClassBlockCount.getD c.toNat 0

/-- The pages of its span. -/
def Platform.requestPages (pf : Platform) (c : Int) (size : Nat) : Nat :=
  pf.roundUpPage (requestBytes c size) >>> pf.pageShift

/-- The arguments it is made for: a size class, or the large class and a
size that is not 0 and does not wrap. -/
def Platform.Request (pf : Platform) (c : Int) (size : Nat) : Prop :=
  (c = largeClassSizeIndex ∧ 0 < size ∧ pf.NonWrapping size) ∨ (0 ≤ c ∧ c < sizeClassCount)

theorem Platform.roundUpPage_pages {pf : Platform} {size : Nat} (h : pf.NonWrapping size) :
    pf.roundUpPage size >>> pf.pageShift = (size + (pf.pageSize - 1)) / pf.pageSize := by
  have hpos := pf.pageSize_pos
  have hlt := pf.shift_lt
  have hle : pf.pageSize ≤ 2 ^ 63 := Nat.pow_le_pow_right Nat.two_pos (by omega)
  have hwrap : size ≤ 2 ^ 64 - pf.pageSize := h
  have hsum : size + (pf.pageSize - 1) < 2 ^ 64 := by omega
  have hmask := and_mask (size + (pf.pageSize - 1)) pf.pageShift (by omega) hsum
  unfold Platform.roundUpPage bitNot
  rw [Nat.mod_eq_of_lt hsum]
  change (_ &&& (2 ^ 64 - 1 - (2 ^ pf.pageShift - 1))) >>> _ = _
  rw [hmask, Nat.shiftRight_eq_div_pow]
  exact Nat.mul_div_cancel _ hpos

/-- A request is met by at least one page and by as many bytes as it asks for. -/
theorem Platform.pages_of_nonWrapping {pf : Platform} {size : Nat} (h : pf.NonWrapping size)
    (h0 : 0 < size) : 0 < pf.roundUpPage size >>> pf.pageShift ∧
      size ≤ (pf.roundUpPage size >>> pf.pageShift) * pf.pageSize := by
  have hpos := pf.pageSize_pos
  rw [pf.roundUpPage_pages h]
  have hdiv := Nat.div_add_mod (size + (pf.pageSize - 1)) pf.pageSize
  have hmod := Nat.mod_lt (size + (pf.pageSize - 1)) hpos
  refine ⟨Nat.div_pos (by omega) hpos, ?_⟩
  rw [Nat.mul_comm]
  omega

/-- The blocks of every size class fit its span, are multiples of 16 bytes
and no more than the bitmap holds. -/
theorem sizeClass_fits : ∀ i < sizeClassCount,
    0 < sizeClasses.getD i 0 ∧ sizeClasses.getD i 0 % byteAlignment = 0 ∧
    0 < sizeClassBlockCount.getD i 0 ∧ sizeClassBlockCount.getD i 0 ≤ maxSpanBlockCount ∧
    sizeClassBlockCount.getD i 0 * sizeClasses.getD i 0 ≤ sizeClassSpanSize.getD i 0 ∧
    sizeClassSpanSize.getD i 0 ≤ 2 ^ 20 := by
  decide

/-- What a request leads to. -/
structure Platform.Sized (pf : Platform) (c : Int) (size : Nat) : Prop where
  pages : 0 < pf.requestPages c size
  blockSize : 0 < requestBlockSize c size
  aligned : c ≠ largeClassSizeIndex → requestBlockSize c size % byteAlignment = 0
  blockCount : 0 < requestBlockCount c
  count_le : requestBlockCount c ≤ maxSpanBlockCount
  fits : requestBlockCount c * requestBlockSize c size ≤ pf.requestPages c size * pf.pageSize

theorem Platform.Request.sized {pf : Platform} {c : Int} {size : Nat} (h : pf.Request c size) :
    pf.Sized c size := by
  have hle : pf.pageSize ≤ 2 ^ 63 := by
    have := pf.shift_lt
    exact Nat.pow_le_pow_right Nat.two_pos (by omega)
  rcases h with ⟨rfl, h0, hwrap⟩ | ⟨h0, hlt⟩
  · obtain ⟨h₁, h₂⟩ := Platform.pages_of_nonWrapping hwrap h0
    refine ⟨h₁, h0, fun hc => absurd rfl hc, Nat.one_pos, by decide, ?_⟩
    change 1 * size ≤ _
    rw [Nat.one_mul]
    exact h₂
  · have hc : c ≠ largeClassSizeIndex := by
      have : largeClassSizeIndex = -1 := rfl
      omega
    obtain ⟨h₁, h₂, h₃, h₄, h₅, h₆⟩ := sizeClass_fits c.toNat (by omega)
    have hpos : 0 < sizeClassSpanSize.getD c.toNat 0 := (Nat.mul_pos h₃ h₁).trans_le h₅
    have hwrap : pf.NonWrapping (sizeClassSpanSize.getD c.toNat 0) := h₆.trans (by omega)
    obtain ⟨h₇, h₈⟩ := Platform.pages_of_nonWrapping hwrap hpos
    have hbytes : requestBytes c size = sizeClassSpanSize.getD c.toNat 0 := if_neg hc
    have hsize : requestBlockSize c size = sizeClasses.getD c.toNat 0 := if_neg hc
    have hcount : requestBlockCount c = sizeClassBlockCount.getD c.toNat 0 := if_neg hc
    refine ⟨?_, hsize ▸ h₁, fun _ => hsize ▸ h₂, hcount ▸ h₃, hcount ▸ h₄, ?_⟩
    · unfold Platform.requestPages
      rwa [hbytes]
    · unfold Platform.requestPages
      rw [hbytes, hsize, hcount]
      exact h₅.trans h₈

/-! ## All blocks free -/

theorem getLsbD_ones {b j : Nat} (hb : b < 64) :
    ((1#64 <<< b) - 1#64).getLsbD j = decide (j < b) := by
  have hpow : 2 ^ b < 2 ^ 64 := Nat.pow_lt_pow_right (by decide) hb
  have hpos := Nat.two_pow_pos b
  have hval : ((1#64 <<< b) - 1#64).toNat = 2 ^ b - 1 := by
    rw [BitVec.toNat_sub, BitVec.toNat_shiftLeft, BitVec.toNat_ofNat, Nat.shiftLeft_eq]
    omega
  rw [BitVec.getLsbD, hval, Nat.testBit_two_pow_sub_one]

/-- The words `cmalloc_initialize_span` writes have a bit for each block. -/
theorem getLsbD_freeBlocksWord {n w b : Nat} (hn : 0 < n) (hw : w < (n + 63) / 64) (hb : b < 64) :
    (freeBlocksWord ((n + 63) / 64) (n - ((n + 63) / 64 - 1) * 64) w).getLsbD b
      = decide (w * 64 + b < n) := by
  unfold freeBlocksWord
  split
  · rename_i hlast
    obtain ⟨hw', hlt⟩ := hlast
    have hlt' : n - ((n + 63) / 64 - 1) * 64 < 64 := hlt
    rw [getLsbD_ones hlt']
    exact decide_eq_decide.mpr (by omega)
  · rename_i hlast
    have hall : w * 64 + b < n := by
      by_contra hge
      refine hlast ⟨by omega, ?_⟩
      change n - ((n + 63) / 64 - 1) * 64 < 64
      omega
    rw [BitVec.getLsbD_allOnes]
    simp [hb, hall]

/-- Both bitmaps of a span say that its first `n` blocks are free. -/
structure Span.AllFree (n : Nat) (sp : Span) : Prop where
  summary : Summary sp.nonfullBitmap sp.blockBitmap
  bit : ∀ i < maxSpanBlockCount, (bitAt sp.blockBitmap i = true ↔ i < n)

theorem Span.AllFree.freeBlocks {n : Nat} {sp : Span} (h : sp.AllFree n)
    (hn : n ≤ maxSpanBlockCount) : sp.freeBlocks = Finset.range n := by
  ext i
  rw [Span.mem_freeBlocks, Finset.mem_range]
  constructor
  · rintro ⟨hi, hb⟩
    exact (h.bit i hi).mp hb
  · intro hi
    exact ⟨hi.trans_le hn, (h.bit i (hi.trans_le hn)).mpr hi⟩

theorem Span.AllFree.blocksOk {n : Nat} {sp : Span} (h : sp.AllFree n) (hn : n ≤ maxSpanBlockCount)
    (hcount : sp.blockCount = n) (hfree : sp.freeCount = n) : sp.BlocksOk where
  count_le := hcount ▸ hn
  bit_lt i hi hb := hcount ▸ (h.bit i hi).mp hb
  summary := h.summary
  freeCount := by rw [h.freeBlocks hn, Finset.card_range, hfree]

section

variable {pf : Platform} {strict : Bool} {W : Watch} {s : State} {v : View} {p n : Nat} {sp : Span}
  {A : Event → Prop}

theorem initializeBitmaps_spec {I : Mem → Prop} (hv : Valid p) (hn : 0 < n)
    (hle : n ≤ maxSpanBlockCount) (hI : ∀ f, I (s.mem.setSpan p f)) :
    Spec A (onStore I) (initializeBitmaps p n) s fun _ s' => ∃ nf bm,
      s' = s.setMem (s.mem.setSpan p fun sp => { sp with nonfullBitmap := nf, blockBitmap := bm }) ∧
      Span.AllFree n { s.mem.span p with nonfullBitmap := nf, blockBitmap := bm } := by
  have hmax : maxSpanBlockCount = 4096 := rfl
  have hwords : spanBlockBitmapWordCount = 64 := by decide
  unfold initializeBitmaps
  refine Spec.store_bind hv (hI _) ?_
  -- clear the words
  refine Spec.bind (Spec.loop (P := fun i s' => ∃ bm, (∀ w < i, bm w = 0) ∧ s' = s.setMem
    (s.mem.setSpan p fun sp => { sp with nonfullBitmap := 0, blockBitmap := bm }))
    spanBlockBitmapWordCount 0 _ ⟨(s.mem.span p).blockBitmap, fun w hw => absurd hw (Nat.not_lt_zero w),
      congrArg s.setMem (setSpan_congr rfl)⟩ ?_) ?_
  · rintro j _ - - ⟨bm, hbm, rfl⟩
    refine Spec.store hv (by rw [State.setMem_mem, setSpan_setSpan]; exact hI _)
      ⟨Function.update bm j 0, fun w hw => ?_, ?_⟩
    · by_cases hj : w = j
      · rw [hj, Function.update_self]
      · rw [Function.update_of_ne hj, hbm w (by omega)]
    · rw [State.setMem_setMem, State.setMem_mem, setSpan_setSpan]
      rfl
  rintro _ s₂ ⟨bm, hbm, rfl⟩
  -- then set the words in use, and their bits in the summary
  refine Spec.mono (Spec.loop (P := fun i s' => ∃ nf bm,
    (∀ w < 64, bm w = if w < i then freeBlocksWord ((n + 63) / 64)
      (n - ((n + 63) / 64 - 1) * 64) w else 0) ∧ (∀ w < 64, (nf.getLsbD w = true ↔ w < i)) ∧
    s' = s.setMem (s.mem.setSpan p fun sp => { sp with nonfullBitmap := nf, blockBitmap := bm }))
    ((n + 63) / 64) 0 _ ⟨0, bm, fun w hw => ?_, fun w hw => ?_, rfl⟩ ?_) ?_
  · rw [if_neg (Nat.not_lt_zero w)]
    exact hbm w (by omega)
  · simp
  · rintro j _ - hj ⟨nf, bm, hbm, hnf, rfl⟩
    have hj64 : j < 64 := by omega
    have hbit : spanBlockBitmapBit j = 1#64 <<< j := by
      rw [spanBlockBitmapBit, and_sixtyThree, Nat.mod_eq_of_lt hj64]
    refine Spec.store_bind hv (by rw [State.setMem_mem, setSpan_setSpan]; exact hI _)
      (Spec.store hv (by simp only [State.setMem_mem, setSpan_setSpan]; exact hI _)
      ⟨nf ||| spanBlockBitmapBit j, Function.update bm j (freeBlocksWord ((n + 63) / 64)
        (n - ((n + 63) / 64 - 1) * 64) j), fun w hw => ?_, fun w hw => ?_, ?_⟩)
    · by_cases hw' : w = j
      · rw [hw', if_pos (Nat.lt_succ_self j)]
        exact Function.update_self ..
      · rw [Function.update_of_ne hw', hbm w hw]
        exact if_congr (by omega) rfl rfl
    · rw [hbit, BitVec.getLsbD_or, getLsbD_one_shiftLeft hw, Bool.or_eq_true, hnf w hw,
        decide_eq_true_iff]
      omega
    · simp only [State.setMem_setMem, State.setMem_mem, setSpan_setSpan]
      rfl
  · rintro _ s' ⟨nf, bm, hbm, hnf, h'⟩
    rw [Nat.zero_add] at hbm hnf
    have hbit : ∀ w < 64, ∀ b < 64, bitAt bm (w * 64 + b) = decide (w * 64 + b < n) := by
      intro w hw b hb
      rw [bitAt, show (w * 64 + b) / 64 = w by omega, show (w * 64 + b) % 64 = b by omega, hbm w hw]
      split
      · exact getLsbD_freeBlocksWord hn ‹_› hb
      · have hge : ¬ w * 64 + b < n := by omega
        change (0#64).getLsbD b = _
        simp [hge]
    refine ⟨nf, bm, h', fun w hw => ?_, fun i hi => ?_⟩
    · change nf.getLsbD w = true ↔ bm w ≠ 0
      rw [hnf w hw]
      constructor
      · intro hlt h0
        have hfirst := hbit w hw 0 (by decide)
        rw [word_eq_zero_iff.mp h0 0 (by decide)] at hfirst
        exact absurd hfirst.symm (by simp; omega)
      · intro h0
        by_contra hge
        exact h0 ((hbm w hw).trans (if_neg hge))
    · have := hbit (i / 64) (by omega) (i % 64) (by omega)
      rw [show i / 64 * 64 + i % 64 = i by omega] at this
      change bitAt bm i = true ↔ _
      rw [this, decide_eq_true_iff]

theorem Shows.initializeBitmaps (h : Shows pf strict W s (v.setSpan p sp)) (hn : 0 < n)
    (hle : n ≤ maxSpanBlockCount) :
    Spec A (onStore W.Ok) (initializeBitmaps p n) s fun _ s' => ∃ nf bm,
      Shows pf strict W s' (v.setSpan p { sp with nonfullBitmap := nf, blockBitmap := bm }) ∧
      Span.AllFree n { sp with nonfullBitmap := nf, blockBitmap := bm } := by
  have hrec := h.record_eq span_set_self
  have hvalid := h.valid_span span_set_self
  obtain ⟨st, h⟩ := h
  refine (initializeBitmaps_spec hvalid hn hle fun f => (h.setSpan f span_set_self).watch).mono ?_
  rintro _ s' ⟨nf, bm, rfl, hall⟩
  have h' := h.setSpan (fun sp => { sp with nonfullBitmap := nf, blockBitmap := bm }) span_set_self
  rw [set_set] at h'
  exact ⟨nf, bm, ⟨st, h'⟩, hrec ▸ hall⟩

/-! ## The critical section -/

/-- The record `sp'` of a span just initialised for a request, `sp` being
what `alloc_span` left. -/
structure Span.Prepared (c : Int) (size : Nat) (sp sp' : Span) : Prop where
  pages : SamePages sp sp'
  isInitialized : sp'.isInitialized = true
  sizeClassIndex : sp'.sizeClassIndex = c
  blockSize : sp'.blockSize = requestBlockSize c size
  blockCount : sp'.blockCount = requestBlockCount c
  blocks : sp'.BlocksOk
  freeBlocks : sp'.freeBlocks = Finset.range sp'.blockCount

/-- What `cmalloc_initialize_span` does to a view. -/
def View.Initialized (pf : Platform) (v : View) (c : Int) (size a : Nat) (v' : View) : Prop :=
  ∃ root v₁ sp sp', root ≠ NULL ∧ (v.root ≠ NULL → root = v.root) ∧
    Supply pf { v with root := root } (pf.requestPages c size) a v₁ ∧ v₁.span a = some sp ∧
    sp.Prepared c size sp' ∧ v' = v₁.setSpan a sp'

theorem cmallocInitializeSpan_spec {c : Int} {size : Nat} (h : Shows pf strict W s v)
    (hok : v.Ok pf fun _ => False)
    (hkeys : ∀ k, W.keys k → ∃ a sp, v.span a = some sp ∧ sp.isInitialized = true ∧ sp.Covers pf k)
    (hreq : pf.Request c size) :
    Spec (Allowed strict) (onStore W.Ok) (cmallocInitializeSpan pf c size) s fun a s' =>
      ∃ v', Shows pf strict W s' v' ∧ v.Initialized pf c size a v' := by
  have hsized := hreq.sized
  have hbytes : (if decide (c = largeClassSizeIndex) = true then size
      else sizeClassSpanSize.getD c.toNat 0) = requestBytes c size := by
    simp [requestBytes]
  have hsize : (if decide (c = largeClassSizeIndex) = true then size
      else sizeClasses.getD c.toNat 0) = requestBlockSize c size := by
    simp [requestBlockSize]
  have hcount : (if decide (c = largeClassSizeIndex) = true then 1
      else sizeClassBlockCount.getD c.toNat 0) = requestBlockCount c := by
    simp [requestBlockCount]
  unfold cmallocInitializeSpan
  dsimp only
  rw [hbytes, hsize, hcount]
  refine Spec.bind (allocSpan_spec h hok hkeys rfl hsized.pages) ?_
  rintro a s₁ ⟨root, v₁, hr, hroot, h₁, hsup⟩
  have hok' : View.Ok pf (fun _ => False) { v with root := root } :=
    ⟨hok.toGeometry.of_eq rfl rfl rfl rfl rfl, hok.toPool.of_eq rfl rfl rfl⟩
  have hs := hsup.supplied hok' hsized.pages
  obtain ⟨sp, hsp, -, -⟩ := hs.span
  refine Spec.assert_bind (hs.ok.ne_null hsp) ?_
  refine h₁.storeSpan_bind hsp fun s₂ h₂ => h₂.restore_bind fun s₃ h₃ => h₃.restore_bind
    fun s₄ h₄ => h₄.restore_bind fun s₅ h₅ => h₅.restore_bind fun s₆ h₆ => ?_
  refine Spec.bind (h₆.initializeBitmaps hsized.blockCount hsized.count_le) ?_
  rintro _ s' ⟨nf, bm, h', hall⟩
  refine Spec.pure ⟨_, h', root, v₁, sp, _, hr, hroot, hsup, hsp, ?_, rfl⟩
  exact ⟨⟨rfl, rfl, rfl, rfl⟩, rfl, rfl, rfl, rfl, hall.blocksOk hsized.count_le rfl rfl,
    hall.freeBlocks hsized.count_le⟩

/-- The view after it is sound. -/
theorem View.Initialized.ok {c : Int} {size a : Nat} {v' : View} (h : v.Initialized pf c size a v')
    (hok : v.Ok pf fun _ => False) (hreq : pf.Request c size) : v'.Ok pf fun _ => False := by
  obtain ⟨root, v₁, sp, sp', hr, hroot, hsup, hsp, hprep, rfl⟩ := h
  have hok' : View.Ok pf (fun _ => False) { v with root := root } :=
    ⟨hok.toGeometry.of_eq rfl rfl rfl rfl rfl, hok.toPool.of_eq rfl rfl rfl⟩
  have hs := hsup.supplied hok' hreq.sized.pages
  refine ⟨hs.ok.toGeometry.setSpan hsp hprep.pages, ?_⟩
  refine (hs.ok.toPool.release rfl hprep.isInitialized).congr_held fun b => ?_
  exact iff_of_false id fun hb => hb.2 hb.1

/-! ## Giving a span up -/

/-- The view after the pages of the big span `a` were unmapped. -/
def View.unmapSpan (pf : Platform) (v : View) (a : Nat) (sp : Span) : View :=
  { v with
    span := Function.update v.span a none
    look := fun k => if pf.roundDownPageIndex sp.base ≤ k ∧
      k < pf.roundDownPageIndex sp.base + sp.pageCount then NULL else v.look k
    region := fun r => v.region r ∧ r ≠ ⟨sp.base, sp.size pf, .direct⟩ }

/-- The view after the span `a` was put in its bin. -/
def View.cacheSpan (v : View) (a : Nat) (sp : Span) : View :=
  (v.setSpan a
    { sp with isInitialized := false, nextInUninitializedBin := v.bin sp.pageCount }).pushBin
    sp.pageCount a

/-- What `cmalloc_cache_span` does to a view. -/
def View.retire (pf : Platform) (v : View) (a : Nat) (sp : Span) : View :=
  if sp.pageCount ≥ maxBinnedPages then v.unmapSpan pf a sp else v.cacheSpan a sp

section

variable {a : Nat}

/-- Where there is a span there is a page map. -/
theorem Shows.root_ne (h : Shows pf strict W s v) (hgeo : v.Geometry pf) (ha : v.span a = some sp) :
    v.root ≠ NULL := by
  intro h0
  obtain ⟨st, hst⟩ := h
  have hpos := (hgeo.placed a sp ha).pages
  have hcov : sp.Covers pf (pf.roundDownPageIndex sp.base) := ⟨le_rfl, by omega⟩
  have hlook := hst.look _ (hgeo.key_lt ha hcov)
  rw [h0, lookup_zero hst.arena.l1_null, hgeo.look_of_covers ha hcov] at hlook
  exact hgeo.ne_null ha hlook.symm

theorem cmallocCacheSpan_spec (h : Shows pf strict W s v) (hgeo : v.Geometry pf)
    (ha : v.span a = some sp) (hkeys : ∀ k, W.keys k → ¬ sp.Covers pf k) :
    Spec (Allowed strict) (onStore W.Ok) (cmallocCacheSpan pf a) s
      fun _ s' => Shows pf strict W s' (v.retire pf a sp) := by
  have hr := h.root_ne hgeo ha
  unfold View.retire
  refine h.loadSpan_bind ha (Spec.ite (fun hbig => ?_) fun hsmall => ?_)
  · rw [if_pos hbig]
    refine Spec.global_bind ?_
    rw [h.root_eq, pf.shiftLeft_pageShift]
    have hmapped : ∀ k, pf.roundDownPageIndex sp.base ≤ k →
        k < pf.roundDownPageIndex sp.base + sp.pageCount → v.look k ≠ NULL := by
      intro k h₁ h₂
      rw [hgeo.look_of_covers ha ⟨h₁, h₂⟩]
      exact hgeo.ne_null ha
    obtain ⟨st, hst⟩ := h
    refine Spec.bind (hst.unmapRange_spec hr (hgeo.stop_le ha) hmapped hkeys) ?_
    rintro _ s₁ h₁
    refine Spec.bind (h₁.munmap ((hgeo.placed a sp ha).direct hbig)) ?_
    rintro _ s₂ h₂
    exact h₂.freeSpan ha hr
  · rw [if_neg hsmall]
    refine h.storeSpan_bind ha fun s₁ h₁ => Spec.global_bind ?_
    rw [h₁.bin_eq]
    refine h₁.restore_bind fun s₂ h₂ => Spec.setGlobal_bind ?_
    exact markBinnedSpanNonEmpty_spec (h₂.setBin sp.pageCount a) sp.pageCount

/-- The view after it is sound. -/
theorem View.Ok.retire (hok : v.Ok pf fun _ => False) (ha : v.span a = some sp)
    (hi : sp.isInitialized = true) : (v.retire pf a sp).Ok pf fun _ => False := by
  have huse : ∀ x, v.span a = some x → x.isInitialized = true := by
    intro x hx
    rw [ha] at hx
    cases hx
    exact hi
  unfold View.retire
  split
  · rename_i hbig
    refine ⟨hok.toGeometry.drop ha hbig rfl (fun _ => rfl) (fun _ => Iff.rfl) rfl rfl, ?_⟩
    have hold : (v.setSpan a sp).Pool fun b => False ∨ b = a := hok.toPool.hold huse
    have hdrop := hold.drop (.inr rfl)
    have hpool : (v.unmapSpan pf a sp).Pool _ := hdrop.of_eq (Function.update_idem ..).symm rfl rfl
    exact hpool.congr_held fun b => by simp
  · rename_i hsmall
    have hlt : sp.pageCount < maxBinnedPages := Nat.lt_of_not_le hsmall
    obtain ⟨x, hx⟩ : ∃ x : Span, x =
        { sp with isInitialized := false, nextInUninitializedBin := v.bin sp.pageCount } := ⟨_, rfl⟩
    have hpages : SamePages sp x := hx ▸ ⟨rfl, rfl, rfl, rfl⟩
    have hold : (v.setSpan a x).Pool fun b => False ∨ b = a := hok.toPool.hold huse
    have hpush := hold.pushBin span_set_self (.inr rfl) (by rw [hx]) (by rw [hx]; rfl) hpages.pageCount
      hlt (hok.ne_null ha)
    unfold View.cacheSpan
    rw [← hx]
    exact ⟨(hok.toGeometry.setSpan ha hpages).of_eq rfl rfl rfl rfl rfl, hpush.congr_held fun b => by simp⟩

end

end

end FastAlloc
