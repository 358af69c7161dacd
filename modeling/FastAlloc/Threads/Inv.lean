/-
FastAlloc.Threads.Inv — the faithful library state refines the abstract heap.

`HeapInv pf strict W s v H` says that state `s` has a sound view `v` and that
`v` represents the heap `H`: the spans in use are those of `H`, and the
thread-local bin of a thread holds the spans it owns that are neither full
nor all free. The moves of the heap are matched by changes of the view.
-/
import FastAlloc.Threads.Links
import FastAlloc.Threads.Moves

namespace FastAlloc

open Lib Mem View

/-! ## Spans in use -/

def Span.use (sp : Span) : Usage where
  cls := sp.sizeClassIndex
  base := sp.base
  pages := sp.pageCount
  blockSize := sp.blockSize
  blockCount := sp.blockCount
  free := sp.freeBlocks

/-- The spans in use, as the heap sees them. -/
def View.use (v : View) (a : Nat) : Option Usage :=
  (v.span a).bind fun sp => if sp.isInitialized then some sp.use else none

/-- The bin a span belongs in. -/
def Heap.bin (H : Heap) (a : Nat) : Option (Tid × Int) :=
  (H.use a).bind fun u =>
    if 0 < u.free.card ∧ u.free.card < u.blockCount then some (H.owner a, u.cls) else none

/-- A view whose spans in use have sound bitmaps. -/
structure View.Sound (pf : Platform) (v : View) : Prop extends v.Ok pf fun _ => False where
  blocks : ∀ a sp, v.span a = some sp → sp.isInitialized = true → sp.BlocksOk

structure HeapInv (pf : Platform) (strict : Bool) (W : Watch) (s : State) (v : View) (H : Heap) :
    Prop where
  shows : Shows pf strict W s v
  sound : v.Sound pf
  use : v.use = H.use
  heap : HeapOk pf H
  bins : v.Bins H.bin

section

variable {pf : Platform} {strict : Bool} {W : Watch} {s : State} {v : View} {H : Heap}
  {a i n q : Nat} {sp sp' : Span} {u : Usage} {t : Tid} {c : Int}

namespace View

theorem use_eq_some :
    v.use a = some u ↔ ∃ sp, v.span a = some sp ∧ sp.isInitialized = true ∧ sp.use = u := by
  rw [use]
  rcases v.span a with _ | sp
  · simp
  · rcases hi : sp.isInitialized with _ | _
    · simp [hi]
    · simp [hi]

theorem use_of (ha : v.span a = some sp) (hi : sp.isInitialized = true) : v.use a = some sp.use :=
  use_eq_some.mpr ⟨sp, ha, hi, rfl⟩

theorem use_setSpan (hi : sp.isInitialized = true) :
    (v.setSpan a sp).use = Function.update v.use a (some sp.use) := by
  funext b
  by_cases hb : b = a
  · rw [hb, Function.update_self, use_of span_set_self hi]
  · rw [Function.update_of_ne hb, use, span_set_of_ne hb, use]

theorem use_withLinks {next prev : Nat → Nat} {bins : Tid → Int → Nat} :
    (v.withLinks next prev bins).use = v.use := by
  funext b
  rcases hb : v.span b with _ | sp
  · rw [use, span_withLinks_none hb, use, hb]
  · rw [use, span_withLinks hb, use, hb]
    rfl

namespace Sound

theorem withLinks {next prev : Nat → Nat} {bins : Tid → Int → Nat} (h : v.Sound pf) :
    (v.withLinks next prev bins).Sound pf :=
  ⟨h.toOk.withLinks, forall_withLinks h.blocks fun _ _ _ _ hb hi =>
    have hblocks := hb hi
    ⟨hblocks.count_le, hblocks.bit_lt, hblocks.summary, hblocks.freeCount⟩⟩

theorem takeBlock (h : v.Sound pf) (ha : v.span a = some sp) (hi : sp.isInitialized = true)
    (h0 : sp.nonfullBitmap ≠ 0) : (v.setSpan a sp.takeBlock).Sound pf :=
  ⟨h.toOk.setSpan ha ⟨rfl, rfl, rfl, rfl⟩ ⟨rfl, rfl, rfl⟩,
    forall_setSpan (fun b x _ => h.blocks b x) fun _ => (h.blocks a sp ha hi).takeBlock h0⟩

theorem giveBlock (h : v.Sound pf) (ha : v.span a = some sp) (hi : sp.isInitialized = true)
    (hlt : i < sp.blockCount) (hf : i ∉ sp.freeBlocks) : (v.setSpan a (sp.giveBlock i)).Sound pf :=
  ⟨h.toOk.setSpan ha ⟨rfl, rfl, rfl, rfl⟩ ⟨rfl, rfl, rfl⟩,
    forall_setSpan (fun b x _ => h.blocks b x) fun _ => (h.blocks a sp ha hi).giveBlock hlt hf⟩

end Sound

end View

theorem Span.use_takeBlock : sp.takeBlock.use = sp.use.take sp.firstFree := by
  unfold Span.use Usage.take
  rw [Span.freeBlocks_takeBlock]
  rfl

theorem Span.use_giveBlock (hi : i < maxSpanBlockCount) (hc : sp.sizeClassIndex ≠ largeClassSizeIndex) :
    (sp.giveBlock i).use = sp.use.give i := by
  unfold Span.use Usage.give
  rw [Span.freeBlocks_giveBlock hi, if_neg hc]
  rfl

/-! ## Bins of the heap -/

namespace Heap

theorem bin_eq_some : H.bin a = some (t, c) ↔ ∃ u, H.use a = some u ∧ 0 < u.free.card ∧
    u.free.card < u.blockCount ∧ H.owner a = t ∧ u.cls = c := by
  rw [bin]
  rcases H.use a with _ | u
  · simp
  · simp only [Option.bind_some, Option.some.injEq, exists_eq_left']
    split
    · rename_i h
      simp [h]
    · rename_i h
      refine iff_of_false (fun h' => nomatch h') fun h' => h ⟨h'.1, h'.2.1⟩

theorem bin_of (ha : H.use a = some u) : H.bin a =
    if 0 < u.free.card ∧ u.free.card < u.blockCount then some (H.owner a, u.cls) else none := by
  rw [bin, ha]
  rfl

theorem bin_of_none (ha : H.use a = none) : H.bin a = none := by
  rw [bin, ha]
  rfl

theorem bin_congr {H' : Heap} (hu : H'.use a = H.use a) (ho : H'.owner a = H.owner a) :
    H'.bin a = H.bin a := by
  rw [bin, hu, ho, bin]

/-- A span in transit is in no bin. -/
theorem bin_of_transit (h : HeapOk pf H) (ht : H.Transit a) : H.bin a = none := by
  rcases ha : H.use a with _ | u
  · exact bin_of_none ha
  · rw [bin_of ha, if_neg]
    rintro ⟨hpos, hlt⟩
    by_cases hl : u.cls = largeClassSizeIndex
    · have hone := (h.sound a u ha).blockCount_large hl
      omega
    · exact h.not_transit ha hl hlt ht

theorem bin_take (h : HeapOk pf H) (ha : H.use a = some u) (hi : i ∈ u.free) :
    (H.take t a u i n).bin =
      Function.update H.bin a (if 1 < u.free.card then some (H.owner a, u.cls) else none) := by
  have hcard : (u.take i).free.card = u.free.card - 1 := Finset.card_erase_of_mem hi
  have hle := (h.sound a u ha).card_le
  have hpos := Finset.card_pos.mpr ⟨i, hi⟩
  funext b
  by_cases hb : b = a
  · rw [hb, Function.update_self, bin_of take_use_self, hcard]
    refine if_congr ?_ rfl rfl
    change 0 < u.free.card - 1 ∧ u.free.card - 1 < u.blockCount ↔ _
    omega
  · rw [Function.update_of_ne hb]
    exact bin_congr (Function.update_of_ne hb _ _) rfl

theorem bin_give (h : HeapOk pf H) (ha : H.use a = some u) (hi : i ∉ u.free) :
    (H.give t a u i q).bin = Function.update H.bin a
      (if u.cls ≠ largeClassSizeIndex ∧ u.free.card + 1 < u.blockCount then
        some (if u.free = ∅ then t else H.owner a, u.cls) else none) := by
  funext b
  by_cases hb : b = a
  · have howner : (H.give t a u i q).owner a = if u.free = ∅ then t else H.owner a := by
      change (if u.free = ∅ then Function.update H.owner a t else H.owner) a = _
      split
      · exact Function.update_self ..
      · rfl
    rw [hb, Function.update_self, bin_of give_use_self, howner]
    refine if_congr ?_ rfl rfl
    change (0 < (if u.cls = largeClassSizeIndex then u.free else insert i u.free).card ∧
      (if u.cls = largeClassSizeIndex then u.free else insert i u.free).card < u.blockCount) ↔ _
    by_cases hl : u.cls = largeClassSizeIndex
    · have hone := (h.sound a u ha).blockCount_large hl
      rw [if_pos hl]
      simp only [hl, ne_eq, not_true_eq_false, false_and, iff_false]
      omega
    · rw [if_neg hl, Finset.card_insert_of_notMem hi]
      simp [hl]
  · rw [Function.update_of_ne hb]
    refine bin_congr (Function.update_of_ne hb _ _) ?_
    change (if u.free = ∅ then Function.update H.owner a t else H.owner) b = _
    split
    · exact Function.update_of_ne hb _ _
    · rfl

end Heap

/-! ## Reading the invariant -/

namespace HeapInv

variable (h : HeapInv pf strict W s v H)
include h

theorem null : v.span NULL = none := h.sound.null

/-- The record of a span in use. -/
theorem record (ha : H.use a = some u) :
    ∃ sp, v.span a = some sp ∧ sp.isInitialized = true ∧ sp.use = u ∧ sp.BlocksOk := by
  rw [← h.use] at ha
  obtain ⟨sp, hsp, hi, hu⟩ := use_eq_some.mp ha
  exact ⟨sp, hsp, hi, hu, h.sound.blocks a sp hsp hi⟩

theorem of_span (ha : v.span a = some sp) (hi : sp.isInitialized = true) : H.use a = some sp.use :=
  h.use ▸ use_of ha hi

/-- The head of a bin is a span of its thread with a free block. -/
theorem head (h0 : v.localBin t c ≠ NULL) : ∃ sp, v.span (v.localBin t c) = some sp ∧
    sp.isInitialized = true ∧ sp.BlocksOk ∧ H.use (v.localBin t c) = some sp.use ∧
    0 < sp.freeCount ∧ sp.freeCount < sp.blockCount ∧ H.owner (v.localBin t c) = t ∧
    sp.sizeClassIndex = c := by
  have hbin : H.bin (v.localBin t c) = some (t, c) := h.bins.lists.head_mem (i := (t, c)) h0
  obtain ⟨u, hu, hpos, hlt, ho, hc⟩ := Heap.bin_eq_some.mp hbin
  obtain ⟨sp, hsp, hi, rfl, hblocks⟩ := h.record hu
  have hcount := hblocks.freeCount
  exact ⟨sp, hsp, hi, hblocks, hu, hcount ▸ hpos, hcount ▸ hlt, ho, hc⟩

end HeapInv

end

end FastAlloc
