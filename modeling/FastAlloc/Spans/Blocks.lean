/-
FastAlloc.Spans.Blocks — the blocks of one span: `allocate_block`,
`free_block` and the bitmaps `cmalloc_initialize_span` sets up.

Bit `i` of `block_bitmap` says that block `i` is free; `nonfull_bitmap` is
the summary of its words, and `free_count` the number of free blocks. The
specifications say that the only object written is the span.
-/
import FastAlloc.Lib.Bitmap
import FastAlloc.Model.Rules
import FastAlloc.Model.Span
import Mathlib.Data.Finset.Card
import Mathlib.Order.Interval.Finset.Nat

namespace FastAlloc

open Lib Mem

/-- The free blocks of a span. -/
def Span.freeBlocks (sp : Span) : Finset Nat :=
  (Finset.range maxSpanBlockCount).filter fun i => bitAt sp.blockBitmap i = true

/-- The two bitmaps and the counter of a span agree. -/
structure Span.BlocksOk (sp : Span) : Prop where
  count_le : sp.blockCount ≤ maxSpanBlockCount
  bit_lt : ∀ i < maxSpanBlockCount, bitAt sp.blockBitmap i = true → i < sp.blockCount
  summary : Summary sp.nonfullBitmap sp.blockBitmap
  freeCount : sp.freeCount = sp.freeBlocks.card

/-- The span after `allocate_block` took its lowest free block. -/
def Span.takeBlock (sp : Span) : Span :=
  let i := lowestBit sp.nonfullBitmap sp.blockBitmap
  { sp with
    freeCount := sizeDec sp.freeCount
    blockBitmap := clearBit sp.blockBitmap i
    nonfullBitmap := if clearBit sp.blockBitmap i (i / 64) = 0
      then sp.nonfullBitmap &&& ~~~ (1#64 <<< (i / 64)) else sp.nonfullBitmap }

@[simp] theorem Span.takeBlock_base (sp : Span) : sp.takeBlock.base = sp.base := rfl
@[simp] theorem Span.takeBlock_blockSize (sp : Span) : sp.takeBlock.blockSize = sp.blockSize := rfl

/-- The span after `free_block` gave back block `i`. -/
def Span.giveBlock (i : Nat) (sp : Span) : Span :=
  { sp with
    freeCount := sizeInc sp.freeCount
    blockBitmap := setBit sp.blockBitmap i
    nonfullBitmap := sp.nonfullBitmap ||| 1#64 <<< (i / 64) }

namespace Mem

variable {m : Mem} {p a : Nat} {f g : Span → Span}

@[simp] theorem setSpan_setSpan : (m.setSpan p f).setSpan p g = m.setSpan p (g ∘ f) := by
  simp [Mem.setSpan]

@[simp] theorem span_setSpan_self : (m.setSpan p f).span p = f (m.span p) := by
  simp [Mem.setSpan]

theorem span_setSpan_of_ne (h : a ≠ p) : (m.setSpan p f).span a = m.span a := by
  simp [Mem.setSpan, h]

theorem setSpan_congr (h : f (m.span p) = g (m.span p)) : m.setSpan p f = m.setSpan p g := by
  simp [Mem.setSpan, h]

theorem setSpan_self (h : f (m.span p) = m.span p) : m.setSpan p f = m := by
  simp [Mem.setSpan, h]

end Mem

theorem builtinCtzll_eq : builtinCtzll = lowest := rfl

theorem and_sixtyThree (i : Nat) : i &&& 63 = i % 64 := Nat.and_two_pow_sub_one_eq_mod i 6

section

variable {A : Event → Prop} {I : Mem → Prop} {s : State} {span : Nat}

/-- `allocate_block` returns NULL without a store when the summary is empty,
and the lowest free block otherwise. -/
theorem allocateBlock_spec {Q : Nat → State → Prop} (hv : Valid span)
    (hs : Summary (s.mem.span span).nonfullBitmap (s.mem.span span).blockBitmap)
    (hI : ∀ f, I (s.mem.setSpan span f))
    (hnull : (s.mem.span span).nonfullBitmap = 0 → Q NULL s)
    (hQ : (s.mem.span span).nonfullBitmap ≠ 0 →
      Q ((s.mem.span span).base
          + lowestBit (s.mem.span span).nonfullBitmap (s.mem.span span).blockBitmap
            * (s.mem.span span).blockSize)
        (s.setMem (s.mem.setSpan span Span.takeBlock))) :
    Spec A (onStore I) (allocateBlock span) s Q := by
  refine Spec.load_bind hv (Spec.ite (fun h0 => Spec.pure (hnull h0)) fun h0 => ?_)
  have hdiv := lowestBit_div hs h0
  have hmod := lowestBit_mod hs h0
  have hlt := lowest_lt h0
  have hword : lowest ((s.mem.span span).blockBitmap (lowest (s.mem.span span).nonfullBitmap))
      + lowest (s.mem.span span).nonfullBitmap * spanBlockBitmapBitsPerWord
      = lowestBit (s.mem.span span).nonfullBitmap (s.mem.span span).blockBitmap := rfl
  refine Spec.store_bind hv (hI _) (Spec.load_bind hv ?_)
  simp only [State.setMem_mem, span_setSpan_self, builtinCtzll_eq, hword]
  refine Spec.store_bind hv ?_ (Spec.load_bind hv ?_)
  · simp only [State.setMem_mem, setSpan_setSpan]
    exact hI _
  simp only [State.setMem_mem, State.setMem_setMem, span_setSpan_self, setSpan_setSpan,
    Function.comp]
  have hbit : spanBlockBitmapBit (lowest (s.mem.span span).nonfullBitmap)
      = 1#64 <<< (lowestBit (s.mem.span span).nonfullBitmap (s.mem.span span).blockBitmap / 64) := by
    rw [hdiv, spanBlockBitmapBit, and_sixtyThree, Nat.mod_eq_of_lt hlt]
  have hclear' : ∀ bm : Nat → BitVec 64, ∀ i, Function.update bm (i / 64)
      (bm (i / 64) &&& ~~~ spanBlockBitmapBit i) = clearBit bm i := fun bm i => by
    rw [clearBit, spanBlockBitmapBit, and_sixtyThree]
  rw [hbit, ← hdiv, hclear']
  refine Spec.bind (Q := fun _ s' => s' = s.setMem (s.mem.setSpan span Span.takeBlock)) ?_ ?_
  · refine Spec.ite (fun hz => Spec.store hv ?_ ?_) fun hz => Spec.pure ?_
    · simp only [State.setMem_mem, setSpan_setSpan]
      exact hI _
    · simp only [State.setMem_mem, State.setMem_setMem, setSpan_setSpan]
      congr 1
      refine setSpan_congr ?_
      simp only [Span.takeBlock, Function.comp, hclear', if_pos hz]
    · congr 1
      refine setSpan_congr ?_
      simp only [Span.takeBlock, Function.comp, hclear', if_neg hz]
  · rintro _ _ rfl
    refine Spec.load_bind hv (Spec.pure ?_)
    rw [State.setMem_mem, span_setSpan_self, Span.takeBlock_base, Span.takeBlock_blockSize]
    exact hQ h0

/-- `free_block` gives back the block an address lies in. -/
theorem freeBlock_spec {Q : Unit → State → Prop} {block i : Nat} (hv : Valid span)
    (hi : (block - (s.mem.span span).base) / (s.mem.span span).blockSize = i)
    (hlt : i < maxSpanBlockCount) (hI : ∀ f, I (s.mem.setSpan span f))
    (hQ : Q () (s.setMem (s.mem.setSpan span (Span.giveBlock i)))) :
    Spec A (onStore I) (freeBlock block span) s Q := by
  have hword : spanBlockBitmapWordIndex i = i / 64 := Nat.shiftRight_eq_div_pow i 6
  have hbit : spanBlockBitmapBit i = 1#64 <<< (i % 64) := by
    rw [spanBlockBitmapBit, and_sixtyThree]
  have hbit' : spanBlockBitmapBit (i / 64) = 1#64 <<< (i / 64) := by
    have hmax : maxSpanBlockCount = 4096 := rfl
    rw [spanBlockBitmapBit, and_sixtyThree, Nat.mod_eq_of_lt (by omega)]
  refine Spec.store_bind hv (hI _) (Spec.load_bind hv ?_)
  simp only [State.setMem_mem, span_setSpan_self, hi, hword, hbit, hbit']
  refine Spec.store_bind hv ?_ (Spec.store hv ?_ ?_)
  · simp only [State.setMem_mem, setSpan_setSpan]
    exact hI _
  · simp only [State.setMem_mem, setSpan_setSpan]
    exact hI _
  · simp only [State.setMem_mem, State.setMem_setMem, setSpan_setSpan]
    have he : s.mem.setSpan span (Span.giveBlock i) = _ := setSpan_congr rfl
    rw [he] at hQ
    exact hQ

end

/-! ## The bitmaps and the set of free blocks -/

namespace Span

variable {sp : Span} {i j : Nat}

theorem mem_freeBlocks : i ∈ sp.freeBlocks ↔ i < maxSpanBlockCount ∧ bitAt sp.blockBitmap i = true := by
  simp [freeBlocks]

/-- The block `allocate_block` takes. -/
def firstFree (sp : Span) : Nat := lowestBit sp.nonfullBitmap sp.blockBitmap

theorem freeBlocks_takeBlock : sp.takeBlock.freeBlocks = sp.freeBlocks.erase sp.firstFree := by
  ext j
  simp only [Finset.mem_erase, mem_freeBlocks]
  change _ ∧ bitAt (clearBit sp.blockBitmap sp.firstFree) j = true ↔ _
  rw [bitAt_clearBit]
  by_cases hj : j = sp.firstFree
  · simp [hj]
  · simp [hj]

theorem freeBlocks_giveBlock (hi : i < maxSpanBlockCount) :
    (sp.giveBlock i).freeBlocks = insert i sp.freeBlocks := by
  ext j
  simp only [Finset.mem_insert, mem_freeBlocks]
  change _ ∧ bitAt (setBit sp.blockBitmap i) j = true ↔ _
  rw [bitAt_setBit]
  by_cases hj : j = i
  · simp [hj, hi]
  · simp [hj]

namespace BlocksOk

variable (h : sp.BlocksOk)
include h

theorem lt_of_mem (hi : i ∈ sp.freeBlocks) : i < sp.blockCount :=
  h.bit_lt i (mem_freeBlocks.mp hi).1 (mem_freeBlocks.mp hi).2

theorem freeBlocks_subset : sp.freeBlocks ⊆ Finset.range sp.blockCount := fun _ hi =>
  Finset.mem_range.mpr (h.lt_of_mem hi)

theorem freeCount_le : sp.freeCount ≤ sp.blockCount := by
  rw [h.freeCount]
  simpa using Finset.card_le_card h.freeBlocks_subset

theorem nonfull_eq_zero_iff : sp.nonfullBitmap = 0 ↔ sp.freeBlocks = ∅ := by
  rw [h.summary.eq_zero_iff, Finset.eq_empty_iff_forall_notMem]
  simp only [mem_freeBlocks, not_and, Bool.not_eq_true]

theorem nonfull_ne_zero_iff : sp.nonfullBitmap ≠ 0 ↔ 0 < sp.freeCount := by
  rw [h.freeCount, Finset.card_pos, Finset.nonempty_iff_ne_empty, ne_eq, h.nonfull_eq_zero_iff]

theorem firstFree_mem (h0 : sp.nonfullBitmap ≠ 0) : sp.firstFree ∈ sp.freeBlocks :=
  mem_freeBlocks.mpr ⟨lowestBit_lt h.summary h0, bitAt_lowestBit h.summary h0⟩

theorem firstFree_le (h0 : sp.nonfullBitmap ≠ 0) (hi : i ∈ sp.freeBlocks) : sp.firstFree ≤ i := by
  by_contra hlt
  have := bitAt_of_lt_lowestBit h.summary h0 (show i < lowestBit _ _ from Nat.lt_of_not_le hlt)
  rw [(mem_freeBlocks.mp hi).2] at this
  simp at this

theorem takeBlock (h0 : sp.nonfullBitmap ≠ 0) : sp.takeBlock.BlocksOk where
  count_le := h.count_le
  bit_lt i hi hb := by
    have : i ∈ sp.takeBlock.freeBlocks := mem_freeBlocks.mpr ⟨hi, hb⟩
    rw [freeBlocks_takeBlock] at this
    exact h.lt_of_mem (Finset.mem_of_mem_erase this)
  summary := h.summary.clearBit
  freeCount := by
    have hpos := h.nonfull_ne_zero_iff.mp h0
    obtain ⟨n, hn⟩ := Nat.exists_eq_succ_of_ne_zero (Nat.pos_iff_ne_zero.mp hpos)
    change sizeDec sp.freeCount = _
    rw [freeBlocks_takeBlock, Finset.card_erase_of_mem (h.firstFree_mem h0), ← h.freeCount, hn]
    exact sizeDec_succ n

theorem freeCount_takeBlock (h0 : sp.nonfullBitmap ≠ 0) :
    sp.takeBlock.freeCount + 1 = sp.freeCount := by
  have hpos := h.nonfull_ne_zero_iff.mp h0
  rw [(h.takeBlock h0).freeCount, freeBlocks_takeBlock,
    Finset.card_erase_of_mem (h.firstFree_mem h0), ← h.freeCount]
  omega

theorem freeCount_giveBlock : (sp.giveBlock i).freeCount = sp.freeCount + 1 := by
  have hle := h.freeCount_le
  have hc := h.count_le
  change sizeInc sp.freeCount = _
  exact sizeInc_of_lt (by simp only [maxSpanBlockCount] at hc; omega)

theorem giveBlock (hi : i < sp.blockCount) (hn : i ∉ sp.freeBlocks) :
    (sp.giveBlock i).BlocksOk where
  count_le := h.count_le
  bit_lt j hj hb := by
    have : j ∈ (sp.giveBlock i).freeBlocks := mem_freeBlocks.mpr ⟨hj, hb⟩
    rw [freeBlocks_giveBlock (hi.trans_le h.count_le), Finset.mem_insert] at this
    rcases this with rfl | hj
    · exact hi
    · exact h.lt_of_mem hj
  summary := h.summary.setBit
  freeCount := by
    rw [h.freeCount_giveBlock, freeBlocks_giveBlock (hi.trans_le h.count_le),
      Finset.card_insert_of_notMem hn, h.freeCount]

/-- Giving back the block just taken restores the span. -/
theorem giveBlock_takeBlock (h0 : sp.nonfullBitmap ≠ 0) :
    sp.takeBlock.giveBlock sp.firstFree = sp := by
  have hbit := bitAt_lowestBit h.summary h0
  have hpos := h.nonfull_ne_zero_iff.mp h0
  have hlt := lowest_lt h0
  have hcount : sizeInc sp.takeBlock.freeCount = sp.freeCount := by
    have hle := h.freeCount_le
    have hc := h.count_le
    have := h.freeCount_takeBlock h0
    rw [sizeInc_of_lt (by simp only [maxSpanBlockCount] at hc; omega), this]
  have hmap : setBit (clearBit sp.blockBitmap sp.firstFree) sp.firstFree = sp.blockBitmap :=
    setBit_clearBit hbit
  have hsum : sp.takeBlock.nonfullBitmap ||| 1#64 <<< (sp.firstFree / 64) = sp.nonfullBitmap := by
    have hs := (h.takeBlock h0).summary.setBit (i := sp.firstFree)
    refine BitVec.eq_of_getLsbD_eq fun w hw => ?_
    rw [Bool.eq_iff_iff, hs w hw, h.summary w hw]
    change setBit (clearBit sp.blockBitmap sp.firstFree) sp.firstFree w ≠ 0 ↔ _
    rw [hmap]
  rw [Span.giveBlock, hcount, hsum]
  change ({ sp with blockBitmap := setBit (clearBit sp.blockBitmap sp.firstFree) sp.firstFree } : Span)
    = sp
  rw [hmap]

end BlocksOk

end Span

end FastAlloc
