/-
FastAlloc.Threads.Parts — the unlocked parts of the calls, as moves of the
abstract heap: `cmalloc` from a bin and from a span just initialised, and
`cfree` up to its lock.
-/
import FastAlloc.Spans.BlockRuns
import FastAlloc.Threads.Inv
import FastAlloc.Threads.Sizes

namespace FastAlloc

open Lib Mem View

/-- The view after `allocate_block` on a span that has a free block. -/
def View.allocBlock (v : View) (a : Nat) : View := v.setSpan a (v.record a).takeBlock

/-- The view after `cmalloc` took a block from the head of a bin. -/
def View.takeFromBin (v : View) (t : Tid) (c : Int) : View :=
  (if (v.record (v.localBin t c)).freeCount = 1 then v.binRemove t c (v.localBin t c) else v).allocBlock
    (v.localBin t c)

/-- The view after `cmalloc` took a block from a span just initialised. -/
def View.takeFromSpan (v : View) (t : Tid) (c : Int) (a : Nat) : View :=
  (if c ≠ largeClassSizeIndex then v.binPush t c a else v).allocBlock a

/-- Block `i` of `a` is free and its span is thread `t`'s, fit for `size` bytes. -/
structure Heap.Offers (H : Heap) (t : Tid) (size a : Nat) (u : Usage) (i : Nat) : Prop where
  use : H.use a = some u
  owner : H.owner a = t
  free : i ∈ u.free
  size_le : size ≤ u.blockSize

section

variable {pf : Platform} {strict : Bool} {W : Watch} {s₀ s s' : State} {v v₁ : View} {H : Heap}
  {a i n p q size : Nat} {sp : Span} {u : Usage} {t : Tid} {c : Int} {A : Event → Prop}
  {client : Client}

/-- `allocate_block` on a span that has a free block. -/
theorem allocateBlock_tracks (h : Tracks pf strict W s₀ s v) (ha : v.span a = some sp)
    (hb : sp.BlocksOk) (h0 : sp.nonfullBitmap ≠ 0) :
    Spec A (onStore W.Ok) (allocateBlock a) s fun p s' =>
      p = sp.use.block sp.firstFree ∧ Tracks pf strict W s₀ s' (v.allocBlock a) := by
  have hrec := h.shows.record_eq ha
  refine allocateBlock_spec (h.shows.valid_span ha) ?_ (fun f => h.watch_setSpan f ha) (fun hz => ?_)
    fun _ => ?_
  · rw [hrec]
    exact hb.summary
  · rw [hrec] at hz
    exact absurd hz h0
  · rw [hrec]
    refine ⟨rfl, ?_⟩
    rw [View.allocBlock, record_of ha]
    exact h.setSpan Span.takeBlock ha

namespace HeapInv

variable (h : HeapInv pf strict W s v H)
include h

/-- Taking a block, once the links are as they should be after it. -/
theorem take {next prev : Nat → Nat} {bins : Tid → Int → Nat} (ha : v.span a = some sp)
    (hi : sp.isInitialized = true) (h0 : sp.nonfullBitmap ≠ 0) (ho : H.owner a = t)
    (hn : n ≤ sp.blockSize) (hpc : ∀ pc b, H.pc t = some pc → pc.span = some b → b = a)
    (hb : (v.withLinks next prev bins).Bins (H.take t a sp.use sp.firstFree n).bin)
    (hs : Shows pf strict W s' ((v.withLinks next prev bins).allocBlock a)) :
    HeapInv pf strict W s' ((v.withLinks next prev bins).allocBlock a)
      (H.take t a sp.use sp.firstFree n) := by
  have hself : (v.withLinks next prev bins).span a = _ := span_withLinks ha
  have huse := h.of_span ha hi
  have hfree := (h.sound.blocks a sp ha hi).firstFree_mem h0
  rw [View.allocBlock, record_of hself] at hs ⊢
  refine ⟨hs, h.sound.withLinks.takeBlock hself hi h0, ?_, h.heap.take huse ho hfree hn hpc,
    hb.setSpan hself rfl rfl⟩
  rw [use_setSpan (by exact hi), use_withLinks, h.use, Span.use_takeBlock]
  rfl

/-- The bins after a block was taken from the head of one. -/
theorem takeFromBin (h0 : v.localBin t c ≠ NULL) (ho : H.owner (v.localBin t c) = t)
    (hn : n ≤ (v.record (v.localBin t c)).blockSize) (hpc : H.pc t = none)
    (hs : Shows pf strict W s' (v.takeFromBin t c)) :
    HeapInv pf strict W s' (v.takeFromBin t c) (H.take t (v.localBin t c)
      (v.record (v.localBin t c)).use (v.record (v.localBin t c)).firstFree n) := by
  obtain ⟨sp, hsp, hi, hblocks, huse, hpos, hlt, -, hc⟩ := h.head h0
  have hne := hblocks.nonfull_ne_zero_iff.mpr hpos
  have hfree := hblocks.firstFree_mem hne
  have hcard : sp.use.free.card = sp.freeCount := hblocks.freeCount.symm
  have hbin : H.bin (v.localBin t c) = some (t, c) := h.bins.lists.head_mem (i := (t, c)) h0
  have hbins := Heap.bin_take (t := t) (n := n) h.heap huse hfree
  have hpc' : ∀ pc b, H.pc t = some pc → pc.span = some b → b = v.localBin t c := by
    intro pc b hpc'
    rw [hpc] at hpc'
    cases hpc'
  unfold View.takeFromBin at hs ⊢
  rw [record_of hsp] at hs hn ⊢
  by_cases hone : sp.freeCount = 1
  · -- its last block: out of the bin
    rw [if_pos hone] at hs ⊢
    rw [if_neg (by omega)] at hbins
    refine h.take hsp hi hne ho hn hpc' ?_ hs
    rw [hbins]
    exact h.bins.remove hbin
  · rw [if_neg hone, ← v.withLinks_self] at hs ⊢
    rw [if_pos (by omega), ho, show sp.use.cls = c from hc, ← hbin, Function.update_eq_self] at hbins
    refine h.take hsp hi hne ho hn hpc' ?_ hs
    rw [withLinks_self, hbins]
    exact h.bins

/-- The bins after a block was taken from a span just initialised. -/
theorem takeFromSpan (ha : v.span a = some sp) (hi : sp.isInitialized = true)
    (hall : sp.use.AllFree) (hc : sp.sizeClassIndex = c) (ho : H.owner a = t) (htr : H.Transit a)
    (hn : n ≤ sp.blockSize) (hpc : ∀ pc b, H.pc t = some pc → pc.span = some b → b = a)
    (hs : Shows pf strict W s' (v.takeFromSpan t c a)) :
    HeapInv pf strict W s' (v.takeFromSpan t c a) (H.take t a sp.use sp.firstFree n) := by
  have huse := h.of_span ha hi
  have hsound := h.heap.sound a _ huse
  have hblocks := h.sound.blocks a sp ha hi
  have hcard : sp.use.free.card = sp.blockCount := hall
  have hpos : 0 < sp.blockCount := hsound.blockCount_pos
  have hne : sp.nonfullBitmap ≠ 0 := by
    rw [hblocks.nonfull_ne_zero_iff, hblocks.freeCount]
    exact hcard ▸ hpos
  have hbins := Heap.bin_take (t := t) (n := n) h.heap huse (hblocks.firstFree_mem hne)
  have hnone := Heap.bin_of_transit h.heap htr
  unfold View.takeFromSpan at hs ⊢
  by_cases hl : c = largeClassSizeIndex
  · -- the one block of a large span: in no bin
    have hone : sp.blockCount = 1 := hsound.blockCount_large (hc.trans hl)
    rw [if_neg (by omega), ← hnone, Function.update_eq_self] at hbins
    rw [if_neg (not_not_intro hl), ← v.withLinks_self] at hs ⊢
    refine h.take ha hi hne ho hn hpc ?_ hs
    rw [withLinks_self, hbins]
    exact h.bins
  · have htwo : 2 ≤ sp.blockCount := hsound.two_le_blockCount fun he => hl (hc.symm.trans he)
    rw [if_pos (by omega), ho, show sp.use.cls = c from hc] at hbins
    rw [if_pos hl] at hs ⊢
    refine h.take ha hi hne ho hn hpc ?_ hs
    rw [hbins]
    exact h.bins.push ha (h.sound.ne_null ha) hnone

end HeapInv

/-! ## Taking a block -/

/-- `cmalloc` up to its lock. -/
theorem cmallocFromBin_tracks (h : HeapInv pf strict W s v H) :
    Spec A (onStore W.Ok) (cmallocFromBin t c) s fun r s' =>
      ((c = largeClassSizeIndex ∨ v.localBin t c = NULL) ∧ r = none ∧ s' = s) ∨
      ((c ≠ largeClassSizeIndex ∧ v.localBin t c ≠ NULL) ∧
        r = some ((v.record (v.localBin t c)).use.block (v.record (v.localBin t c)).firstFree) ∧
        Tracks pf strict W s s' (v.takeFromBin t c)) := by
  unfold cmallocFromBin
  refine Spec.ite (fun hc => ?_) fun hc => Spec.pure (.inl ⟨.inl (not_not.mp hc), rfl, rfl⟩)
  refine Spec.global_bind ?_
  rw [show s.threadLocalBin = v.localBin from h.shows.localBin_eq]
  refine Spec.ite (fun h0 => ?_) fun h0 => Spec.pure (.inl ⟨.inr (not_not.mp h0), rfl, rfl⟩)
  obtain ⟨sp, hsp, hi, hblocks, -, hpos, -⟩ := h.head h0
  have hne := hblocks.nonfull_ne_zero_iff.mpr hpos
  have hbin : H.bin (v.localBin t c) = some (t, c) := h.bins.lists.head_mem (i := (t, c)) h0
  refine h.shows.load_bind (F := Span.freeCount) hsp ?_
  unfold View.takeFromBin
  rw [record_of hsp]
  have hrefl := Tracks.refl h.shows
  by_cases hone : sp.freeCount = 1
  · rw [if_pos hone, if_pos hone]
    refine Spec.bind (binRemove_spec hrefl h.bins h.null hsp hbin) fun _ s₁ h₁ => ?_
    have hself : (v.binRemove t c (v.localBin t c)).span (v.localBin t c) = _ := span_withLinks hsp
    have hblocks' := h.sound.withLinks.blocks _ _ hself hi
    refine Spec.bind (allocateBlock_tracks h₁ hself hblocks' hne) ?_
    rintro p s' ⟨rfl, h'⟩
    exact Spec.pure (.inr ⟨⟨hc, h0⟩, rfl, h'⟩)
  · rw [if_neg hone, if_neg hone]
    refine Spec.pure_bind (Spec.bind (allocateBlock_tracks hrefl hsp hblocks hne) ?_)
    rintro p s' ⟨rfl, h'⟩
    exact Spec.pure (.inr ⟨⟨hc, h0⟩, rfl, h'⟩)

/-- A thread is handed the block `p` for `size` bytes. -/
def TakesBlock (pf : Platform) (strict : Bool) (W : Watch) (s : State) (H : Heap) (t : Tid)
    (size p : Nat) (s' : State) : Prop :=
  ∃ a u i v', H.Offers t size a u i ∧ p = u.block i ∧ Tracks pf strict W s s' v' ∧
    HeapInv pf strict W s' v' (H.take t a u i size)

/-- A block of the class of a size has room for it. -/
theorem Usage.Sound.size_le (hu : u.Sound pf) (hcls : u.cls = getSizeClassIndex size)
    (hc : getSizeClassIndex size ≠ largeClassSizeIndex) : size ≤ u.blockSize := by
  obtain ⟨x, -, hs, -⟩ := hu.request
  have hle := (getSizeClassIndex_small (getSizeClassIndex_ne_large_iff.mp hc)).2.2
  rw [hcls, requestBlockSize, if_neg hc] at hs
  exact hle.trans_eq hs.symm

theorem cmallocFromBin_spec (h : HeapInv pf strict W s v H) (hpc : H.pc t = none) :
    Spec A (onStore W.Ok) (cmallocFromBin t (getSizeClassIndex size)) s fun r s' =>
      (r = none ∧ s' = s) ∨ ∃ p, r = some p ∧ TakesBlock pf strict W s H t size p s' := by
  refine (cmallocFromBin_tracks h).mono ?_
  rintro r s' (⟨-, rfl, rfl⟩ | ⟨⟨hc, h0⟩, rfl, h'⟩)
  · exact .inl ⟨rfl, rfl⟩
  obtain ⟨sp, hsp, hi, hblocks, huse, hpos, hlt, ho, hcls⟩ := h.head h0
  have hfree := hblocks.firstFree_mem (hblocks.nonfull_ne_zero_iff.mpr hpos)
  have hsize : size ≤ sp.blockSize := (h.heap.sound _ _ huse).size_le hcls hc
  have hinv := h.takeFromBin (n := size) h0 ho (by rw [record_of hsp]; exact hsize) hpc h'.shows
  rw [record_of hsp] at hinv ⊢
  exact .inr ⟨_, rfl, _, _, _, _, ⟨huse, ho, hfree, hsize⟩, rfl, h', hinv⟩

/-- A span that is all free says so. -/
theorem HeapInv.nonfull_of_allFree (h : HeapInv pf strict W s v H) (ha : v.span a = some sp)
    (hi : sp.isInitialized = true) (hall : sp.use.AllFree) : sp.nonfullBitmap ≠ 0 := by
  have hblocks := h.sound.blocks a sp ha hi
  have hpos : 0 < sp.blockCount := (h.heap.sound a _ (h.of_span ha hi)).blockCount_pos
  rw [hblocks.nonfull_ne_zero_iff, hblocks.freeCount]
  exact (show sp.freeBlocks.card = sp.blockCount from hall) ▸ hpos

/-- `cmalloc` after its critical section. -/
theorem cmallocFromSpan_tracks (h : HeapInv pf strict W s v H)
    (hpc : H.pc t = some (.allocate client size a)) :
    Spec A (onStore W.Ok) (cmallocFromSpan t (getSizeClassIndex size) a) s fun p s' =>
      p = (v.record a).use.block (v.record a).firstFree ∧
        Tracks pf strict W s s' (v.takeFromSpan t (getSizeClassIndex size) a) := by
  obtain ⟨-, -, u, hu, hall, -⟩ := h.heap.pcs t _ hpc
  obtain ⟨sp, hsp, hi, rfl, hblocks⟩ := h.record hu
  have hne := h.nonfull_of_allFree hsp hi hall
  have hrefl := Tracks.refl h.shows
  rw [record_of hsp]
  unfold cmallocFromSpan View.takeFromSpan
  by_cases hl : getSizeClassIndex size = largeClassSizeIndex
  · rw [if_neg (not_not_intro hl), if_neg (not_not_intro hl)]
    exact Spec.pure_bind (allocateBlock_tracks hrefl hsp hblocks hne)
  · rw [if_pos hl, if_pos hl]
    refine Spec.bind (binPush_spec hrefl h.bins h.null hsp
      (Heap.bin_of_transit h.heap ⟨t, _, hpc, rfl⟩)) fun _ s₁ h₁ => ?_
    have hself : (v.binPush t (getSizeClassIndex size) a).span a = _ := span_withLinks hsp
    have hblocks' := h.sound.withLinks.blocks _ _ hself hi
    exact (allocateBlock_tracks h₁ hself hblocks' hne).mono fun _ _ hp => hp

/-- It hands out the lowest block of the span. -/
theorem HeapInv.takesFirst (h : HeapInv pf strict W s v H)
    (hpc : H.pc t = some (.allocate client size a))
    (hs : Shows pf strict W s' (v.takeFromSpan t (getSizeClassIndex size) a)) :
    H.Offers t size a (v.record a).use (v.record a).firstFree ∧
      HeapInv pf strict W s' (v.takeFromSpan t (getSizeClassIndex size) a)
        (H.take t a (v.record a).use (v.record a).firstFree size) := by
  obtain ⟨ho, -, u, hu, hall, hcls, hsize⟩ := h.heap.pcs t _ hpc
  obtain ⟨sp, hsp, hi, rfl, hblocks⟩ := h.record hu
  have hne := h.nonfull_of_allFree hsp hi hall
  have hpc' : ∀ pc b, H.pc t = some pc → pc.span = some b → b = a := by
    intro pc b hpc' hsp
    rw [hpc] at hpc'
    cases hpc'
    exact (Option.some.inj hsp).symm
  rw [record_of hsp]
  exact ⟨⟨hu, ho, hblocks.firstFree_mem hne, hsize⟩,
    h.takeFromSpan hsp hi hall hcls ho ⟨t, _, hpc, rfl⟩ hsize hpc' hs⟩

theorem cmallocFromSpan_spec (h : HeapInv pf strict W s v H)
    (hpc : H.pc t = some (.allocate client size a)) :
    Spec A (onStore W.Ok) (cmallocFromSpan t (getSizeClassIndex size) a) s fun p s' =>
      TakesBlock pf strict W s H t size p s' := by
  refine (cmallocFromSpan_tracks h hpc).mono ?_
  rintro p s' ⟨rfl, ht⟩
  obtain ⟨hoffers, hinv⟩ := h.takesFirst hpc ht.shows
  exact ⟨a, _, _, _, hoffers, rfl, ht, hinv⟩

/-! ## Giving back a block -/

/-- The view after `free_block` of block `i`. -/
def View.giveBack (v : View) (a i : Nat) : View := v.setSpan a ((v.record a).giveBlock i)

/-- The view after `cfree` up to its lock. -/
def View.freeUnlocked (v : View) (t : Tid) (a i : Nat) : View :=
  if (v.record a).sizeClassIndex = largeClassSizeIndex then v
  else if (v.record a).freeCount = 0 then (v.binPush t (v.record a).sizeClassIndex a).giveBack a i
  else if (v.record a).freeCount + 1 = (v.record a).blockCount then
    (v.giveBack a i).binRemove t (v.record a).sizeClassIndex a
  else v.giveBack a i

theorem freeBlock_tracks (h : Tracks pf strict W s₀ s v) (ha : v.span a = some sp)
    (hi : i < maxSpanBlockCount) (h₁ : sp.use.block i ≤ p) (h₂ : p < sp.use.block i + sp.blockSize) :
    Spec A (onStore W.Ok) (freeBlock p a) s fun _ s' =>
      Tracks pf strict W s₀ s' (v.giveBack a i) := by
  refine freeBlock_spec (h.shows.valid_span ha) ?_ hi (fun f => h.watch_setSpan f ha) ?_
  · rw [h.shows.record_eq ha]
    exact Span.block_div h₁ h₂
  · rw [View.giveBack, record_of ha]
    exact h.setSpan (Span.giveBlock i) ha

/-- `cmalloc_get_span` of an address inside a block. -/
theorem HeapInv.run_getSpan (h : HeapInv pf strict W s v H) (hb : H.IsBlock q a u i) (h₁ : q ≤ p)
    (h₂ : p < q + u.blockSize) : (cmallocGetSpan pf p).run s = ⟨.ok a, s, []⟩ := by
  obtain ⟨sp, hsp, -, rfl, -⟩ := h.record hb.use
  have hle := (h.heap.sound a _ hb.use).block_le hb.lt
  have heq := hb.eq
  have hbase : sp.base ≤ sp.use.block i := Nat.le_add_right _ _
  refine h.shows.run_getSpan h.sound.toGeometry hsp (by omega) ?_
  change sp.use.block i + sp.use.blockSize ≤ sp.base + sp.size pf at hle
  omega

theorem HeapInv.getSpan_bind {α : Type} {g : Nat → M α} {Q : α → State → Prop}
    (h : HeapInv pf strict W s v H) (hb : H.IsBlock q a u i) (h₁ : q ≤ p)
    (h₂ : p < q + u.blockSize) (hg : Spec A (onStore W.Ok) (g a) s Q) :
    Spec A (onStore W.Ok) (cmallocGetSpan pf p >>= g) s Q := by
  refine Spec.bind (Q := fun b s' => b = a ∧ s' = s)
    (Spec.of_run (h.run_getSpan hb h₁ h₂) (by simp) ⟨rfl, rfl⟩) ?_
  rintro _ _ ⟨rfl, rfl⟩
  exact hg

section

variable (h : HeapInv pf strict W s v H) (ha : v.span a = some sp) (hi : sp.isInitialized = true)
  (hlt : i < sp.blockCount) (hf : i ∉ sp.freeBlocks) (hcls : sp.sizeClassIndex ≠ largeClassSizeIndex)
include h ha hi hlt hf hcls

omit hf in
theorem HeapInv.use_giveBack :
    (v.giveBack a i).use = Function.update H.use a (some (sp.use.give i)) := by
  have hmax := hlt.trans_le (h.sound.blocks a sp ha hi).count_le
  rw [View.giveBack, record_of ha, use_setSpan (by exact hi), h.use, Span.use_giveBlock hmax hcls]

/-- A block goes back to a span that had none. -/
theorem HeapInv.giveFull (h0 : sp.freeCount = 0)
    (hheap : HeapOk pf (H.give t a sp.use i q))
    (hs : Shows pf strict W s' ((v.binPush t sp.sizeClassIndex a).giveBack a i)) :
    HeapInv pf strict W s' ((v.binPush t sp.sizeClassIndex a).giveBack a i)
      (H.give t a sp.use i q) := by
  have huse := h.of_span ha hi
  have hblocks := h.sound.blocks a sp ha hi
  have hmax := hlt.trans_le hblocks.count_le
  have hcard : sp.use.free.card = 0 := hblocks.freeCount.symm.trans h0
  have htwo : 2 ≤ sp.use.blockCount := (h.heap.sound a _ huse).two_le_blockCount hcls
  have hbins := Heap.bin_give (t := t) (q := q) h.heap huse hf
  rw [if_pos ⟨hcls, by omega⟩, if_pos (Finset.card_eq_zero.mp hcard)] at hbins
  have hnone : H.bin a = none := by
    rw [Heap.bin_of huse, if_neg (by omega)]
  have hself : (v.binPush t sp.sizeClassIndex a).span a = _ := span_withLinks ha
  have hpush : (v.binPush t sp.sizeClassIndex a).Bins _ :=
    h.bins.push ha (h.sound.ne_null ha) hnone
  unfold View.giveBack at hs ⊢
  rw [record_of hself] at hs ⊢
  refine ⟨hs, h.sound.withLinks.giveBlock hself hi hlt hf, ?_, hheap, ?_⟩
  · rw [use_setSpan (by exact hi), View.binPush, use_withLinks, h.use]
    exact congrArg (fun u => Function.update H.use a (some u)) (Span.use_giveBlock hmax hcls)
  · rw [hbins]
    exact hpush.setSpan hself rfl rfl

/-- A block goes back to a span that has others, and more out. -/
theorem HeapInv.giveMore (h0 : sp.freeCount ≠ 0) (hlast : sp.freeCount + 1 ≠ sp.blockCount)
    (hheap : HeapOk pf (H.give t a sp.use i q)) (hs : Shows pf strict W s' (v.giveBack a i)) :
    HeapInv pf strict W s' (v.giveBack a i) (H.give t a sp.use i q) := by
  have huse := h.of_span ha hi
  have hblocks := h.sound.blocks a sp ha hi
  have hcard : sp.use.free.card = sp.freeCount := hblocks.freeCount.symm
  have hcount : sp.use.blockCount = sp.blockCount := rfl
  have hlt' := (h.heap.sound a _ huse).card_lt hlt hf
  have hbins := Heap.bin_give (t := t) (q := q) h.heap huse hf
  have hne : sp.use.free ≠ ∅ := fun he => h0 (hcard ▸ he ▸ Finset.card_empty)
  have hold : H.bin a = some (H.owner a, sp.use.cls) := by
    rw [Heap.bin_of huse, if_pos ⟨by omega, hlt'⟩]
  rw [if_pos ⟨hcls, by omega⟩, if_neg hne, ← hold, Function.update_eq_self] at hbins
  refine ⟨hs, ?_, h.use_giveBack ha hi hlt hcls, hheap, ?_⟩
  · rw [View.giveBack, record_of ha]
    exact h.sound.giveBlock ha hi hlt hf
  · rw [hbins, View.giveBack, record_of ha]
    exact h.bins.setSpan ha rfl rfl

/-- The last block goes back to a span. -/
theorem HeapInv.giveLast (h0 : sp.freeCount ≠ 0) (hlast : sp.freeCount + 1 = sp.blockCount)
    (ho : H.owner a = t) (hheap : HeapOk pf (H.give t a sp.use i q))
    (hs : Shows pf strict W s' ((v.giveBack a i).binRemove t sp.sizeClassIndex a)) :
    HeapInv pf strict W s' ((v.giveBack a i).binRemove t sp.sizeClassIndex a)
      (H.give t a sp.use i q) := by
  have huse := h.of_span ha hi
  have hblocks := h.sound.blocks a sp ha hi
  have hcard : sp.use.free.card = sp.freeCount := hblocks.freeCount.symm
  have hcount : sp.use.blockCount = sp.blockCount := rfl
  have hbins := Heap.bin_give (t := t) (q := q) h.heap huse hf
  have hold : H.bin a = some (t, sp.sizeClassIndex) := by
    rw [Heap.bin_of huse, if_pos ⟨by omega, by omega⟩, ho]
    rfl
  rw [if_neg fun hc => by omega] at hbins
  have hgave : (v.giveBack a i).Bins H.bin := by
    rw [View.giveBack, record_of ha]
    exact h.bins.setSpan ha rfl rfl
  refine ⟨hs, ?_, ?_, hheap, ?_⟩
  · rw [View.binRemove, View.giveBack, record_of ha]
    exact (h.sound.giveBlock ha hi hlt hf).withLinks
  · rw [View.binRemove, use_withLinks]
    exact h.use_giveBack ha hi hlt hcls
  · rw [hbins]
    exact hgave.remove hold

end

/-- The counts of a live block's span, as `cfree` meets them. -/
theorem HeapInv.give_counts {x : Tid × Nat} (h : HeapInv pf strict W s v H)
    (hb : H.IsBlock q a sp.use i) (hp : H.live q = some x) (ha : v.span a = some sp)
    (hi : sp.isInitialized = true) (hcls : sp.sizeClassIndex ≠ largeClassSizeIndex) :
    sp.use.free.card = sp.freeCount ∧ sp.freeCount < sp.blockCount ∧ 2 ≤ sp.blockCount ∧
      (sp.giveBlock i).freeCount = sp.freeCount + 1 ∧
      (sp.use.cls = largeClassSizeIndex ∨ (sp.use.give i).AllFree ↔
        sp.freeCount + 1 = sp.blockCount) := by
  have hblocks := h.sound.blocks a sp ha hi
  obtain ⟨hf, -⟩ := (h.heap.out q a _ i hb).mp ⟨x, hp⟩
  have hsound := h.heap.sound a _ hb.use
  have hcard : sp.use.free.card = sp.freeCount := hblocks.freeCount.symm
  have hgive : (sp.use.give i).free.card = sp.freeCount + 1 := by
    rw [Usage.give, if_neg (show sp.use.cls ≠ largeClassSizeIndex from hcls)]
    exact (Finset.card_insert_of_notMem hf).trans (by rw [hcard])
  refine ⟨hcard, hcard ▸ hsound.card_lt hb.lt hf, hsound.two_le_blockCount hcls,
    hblocks.freeCount_giveBlock, ?_⟩
  rw [Usage.AllFree, hgive]
  exact ⟨fun hc => hc.resolve_left hcls, .inr⟩

/-- `cfree` up to its lock, of any address inside a live block: what it
writes, whichever thread calls. -/
theorem cfreeUnlocked_tracks {x : Tid × Nat} (h : HeapInv pf strict W s v H)
    (hb : H.IsBlock q a u i) (hp : H.live q = some x) (h₁ : q ≤ p) (h₂ : p < q + u.blockSize) :
    Spec A (onStore W.Ok) (cfreeUnlocked pf t p) s fun o s' =>
      o = (if u.cls = largeClassSizeIndex ∨ (u.give i).AllFree then some a else none) ∧
      Tracks pf strict W s s' (v.freeUnlocked t a i) := by
  obtain ⟨sp, hsp, hi, rfl, hblocks⟩ := h.record hb.use
  obtain ⟨hf, -⟩ := (h.heap.out q a _ i hb).mp ⟨x, hp⟩
  have hmax := hb.lt.trans_le hblocks.count_le
  rw [hb.eq] at h₁ h₂
  have hrefl := Tracks.refl h.shows
  unfold cfreeUnlocked View.freeUnlocked
  rw [record_of hsp]
  refine h.getSpan_bind ⟨hb.use, hb.lt, rfl⟩ h₁ h₂ ?_
  refine h.shows.load_bind (F := Span.sizeClassIndex) hsp ?_
  by_cases hcls : sp.sizeClassIndex = largeClassSizeIndex
  · rw [if_pos hcls, if_pos hcls, if_pos (.inl hcls)]
    exact Spec.pure ⟨rfl, hrefl⟩
  obtain ⟨hcard, hlt', htwo, hfreeCount, hall⟩ := h.give_counts hb hp hsp hi hcls
  have hcount : sp.use.blockCount = sp.blockCount := rfl
  rw [if_neg hcls, if_neg hcls]
  refine h.shows.load_bind (F := Span.freeCount) hsp ?_
  by_cases h0 : sp.freeCount = 0
  · rw [if_pos h0, if_pos h0, if_neg fun hc => by have := hall.mp hc; omega]
    have hnone : H.bin a = none := by
      rw [Heap.bin_of hb.use, if_neg (by omega)]
    refine Spec.bind (binPush_spec hrefl h.bins h.null hsp hnone) fun _ s₁ t₁ => ?_
    have hself : (v.binPush t sp.sizeClassIndex a).span a = _ := span_withLinks hsp
    refine Spec.bind (freeBlock_tracks t₁ hself hmax h₁ h₂) fun _ s₂ t₂ => ?_
    have t₂' := t₂
    rw [View.giveBack, record_of hself] at t₂'
    refine t₂'.shows.loadSpan_bind span_set_self (Spec.ite (fun hc => ?_) fun _ => ?_)
    · have hend : sp.freeCount + 1 = sp.blockCount := hfreeCount.symm.trans hc
      omega
    · exact Spec.pure ⟨rfl, t₂⟩
  · rw [if_neg h0, if_neg h0]
    refine Spec.pure_bind (Spec.bind (freeBlock_tracks hrefl hsp hmax h₁ h₂) fun _ s₁ t₁ => ?_)
    have t₁' := t₁
    rw [View.giveBack, record_of hsp] at t₁'
    refine t₁'.shows.loadSpan_bind span_set_self (Spec.ite (fun hc => ?_) fun hc => ?_)
    · have hend : sp.freeCount + 1 = sp.blockCount := hfreeCount.symm.trans hc
      rw [if_pos hend, if_pos (hall.mpr hend)]
      have hold : H.bin a = some (H.owner a, sp.sizeClassIndex) := by
        rw [Heap.bin_of hb.use, if_pos ⟨by omega, by omega⟩]
        rfl
      have hbins : (v.giveBack a i).Bins H.bin := by
        rw [View.giveBack, record_of hsp]
        exact h.bins.setSpan hsp rfl rfl
      have hself : (v.giveBack a i).span a = some (sp.giveBlock i) := by
        rw [View.giveBack, record_of hsp, span_set_self]
      have hnull : (v.giveBack a i).span NULL = none := by
        rw [View.giveBack]
        exact h.sound.span_setSpan_ne_null hsp
      exact Spec.bind (binRemove_spec t₁ hbins hnull hself hold) fun _ s₂ t₂ => Spec.pure ⟨rfl, t₂⟩
    · have hend : sp.freeCount + 1 ≠ sp.blockCount := fun he => hc (hfreeCount.trans he)
      rw [if_neg hend, if_neg fun hx => hend (hall.mp hx)]
      exact Spec.pure ⟨rfl, t₁⟩

/-- If the thread owns a span it gives the last block back to, the heap is in
order after that. -/
theorem HeapInv.freeUnlocked {x : Tid × Nat} (h : HeapInv pf strict W s v H)
    (hb : H.IsBlock q a u i) (hp : H.live q = some x)
    (hlast : u.free ≠ ∅ → (u.give i).AllFree → H.owner a = t) {r : Nat}
    (hheap : HeapOk pf (H.give t a u i r)) (hs : Shows pf strict W s' (v.freeUnlocked t a i)) :
    HeapInv pf strict W s' (v.freeUnlocked t a i) (H.give t a u i r) := by
  obtain ⟨sp, hsp, hi, rfl, hblocks⟩ := h.record hb.use
  obtain ⟨hf, -⟩ := (h.heap.out q a _ i hb).mp ⟨x, hp⟩
  have hlt : i < sp.blockCount := hb.lt
  unfold View.freeUnlocked at hs ⊢
  rw [record_of hsp] at hs ⊢
  by_cases hcls : sp.sizeClassIndex = largeClassSizeIndex
  · rw [if_pos hcls] at hs ⊢
    refine ⟨hs, h.sound, ?_, hheap, ?_⟩
    · -- the bitmap of a large span is not touched
      have hgive : sp.use.give i = sp.use := by
        rw [Usage.give, if_pos (show sp.use.cls = largeClassSizeIndex from hcls)]
      rw [h.use]
      change H.use = Function.update H.use a (some (sp.use.give i))
      rw [hgive, ← hb.use, Function.update_eq_self]
    · have hbins := Heap.bin_give (t := t) (q := r) h.heap hb.use hf
      have hone : sp.use.blockCount = 1 := (h.heap.sound a _ hb.use).blockCount_large hcls
      have hnone : H.bin a = none := by
        rw [Heap.bin_of hb.use, if_neg (by omega)]
      rw [if_neg fun hc => hc.1 hcls, ← hnone, Function.update_eq_self] at hbins
      rw [hbins]
      exact h.bins
  obtain ⟨hcard, -, -, -, hall⟩ := h.give_counts hb hp hsp hi hcls
  rw [if_neg hcls] at hs ⊢
  by_cases h0 : sp.freeCount = 0
  · rw [if_pos h0] at hs ⊢
    exact h.giveFull hsp hi hlt hf hcls h0 hheap hs
  · rw [if_neg h0] at hs ⊢
    by_cases hend : sp.freeCount + 1 = sp.blockCount
    · rw [if_pos hend] at hs ⊢
      have ho := hlast (fun he => h0 (by rw [← hcard, he, Finset.card_empty]))
        ((hall.mpr hend).resolve_left hcls)
      exact h.giveLast hsp hi hlt hf hcls h0 hend ho hheap hs
    · rw [if_neg hend] at hs ⊢
      exact h.giveMore hsp hi hlt hf hcls h0 hend hheap hs

/-- The two together. -/
theorem cfreeUnlocked_spec {x : Tid × Nat} (h : HeapInv pf strict W s v H) (hb : H.IsBlock q a u i)
    (hp : H.live q = some x) (h₁ : q ≤ p) (h₂ : p < q + u.blockSize)
    (hlast : u.free ≠ ∅ → (u.give i).AllFree → H.owner a = t) (r : Nat)
    (hheap : HeapOk pf (H.give t a u i r)) :
    Spec A (onStore W.Ok) (cfreeUnlocked pf t p) s fun o s' =>
      o = (if u.cls = largeClassSizeIndex ∨ (u.give i).AllFree then some a else none) ∧
      Tracks pf strict W s s' (v.freeUnlocked t a i) ∧
      HeapInv pf strict W s' (v.freeUnlocked t a i) (H.give t a u i r) := by
  refine (cfreeUnlocked_tracks h hb hp h₁ h₂).mono fun o s' ho => ?_
  exact ⟨ho.1, ho.2, h.freeUnlocked hb hp hlast hheap ho.2.shows⟩

end

end FastAlloc
