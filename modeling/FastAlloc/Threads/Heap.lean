/-
FastAlloc.Threads.Heap — what the allocator is for, as an abstract machine:
spans in use with their free blocks, the blocks that are out, and where the
threads stand in their calls.

A thread hands out a block (`take`), gets one back (`give`), asks for a span
(`ask`), receives it (`start`) and gives it up (`drop`). A span named by a
thread's `Pc` is in transit: it belongs to that call alone. `HeapOk` is kept
by all five, and nothing here says how memory represents a heap.
-/
import FastAlloc.Spans.Initialize

namespace FastAlloc

theorem ne_null_of_le {p q : Nat} (hq : q ≠ NULL) (h : q ≤ p) : p ≠ NULL := by
  change q ≠ 0 at hq
  change p ≠ 0
  omega

/-- What a span in use says of its blocks. -/
structure Usage where
  cls : Int
  base : Nat
  pages : Nat
  blockSize : Nat
  blockCount : Nat
  free : Finset Nat

namespace Usage

/-- Block `i`. -/
def block (u : Usage) (i : Nat) : Nat := u.base + i * u.blockSize

def size (u : Usage) (pf : Platform) : Nat := u.pages * pf.pageSize

/-- All blocks are free. -/
def AllFree (u : Usage) : Prop := u.free.card = u.blockCount

instance (u : Usage) : Decidable u.AllFree := inferInstanceAs (Decidable (_ = _))

/-- The blocks lie on the pages of the span, as its size class says. -/
structure Sound (pf : Platform) (u : Usage) : Prop where
  request : ∃ size, pf.Request u.cls size ∧ u.blockSize = requestBlockSize u.cls size ∧
    u.pages = pf.requestPages u.cls size
  blockCount : u.blockCount = requestBlockCount u.cls
  base : u.base ≠ NULL
  aligned : u.base % pf.pageSize = 0
  free : ∀ i ∈ u.free, i < u.blockCount

variable {pf : Platform} {u w : Usage} {i j p : Nat}

/-- Distinct blocks of one span share no byte. -/
theorem block_apart (hij : i ≠ j) :
    u.block i + u.blockSize ≤ u.block j ∨ u.block j + u.blockSize ≤ u.block i := by
  unfold block
  rcases Nat.lt_or_gt_of_ne hij with hlt | hlt
  · have hmul : (i + 1) * u.blockSize ≤ j * u.blockSize := Nat.mul_le_mul_right _ hlt
    rw [Nat.add_mul, Nat.one_mul] at hmul
    omega
  · have hmul : (j + 1) * u.blockSize ≤ i * u.blockSize := Nat.mul_le_mul_right _ hlt
    rw [Nat.add_mul, Nat.one_mul] at hmul
    omega

namespace Sound

variable (h : u.Sound pf)
include h

theorem blockSize_pos : 0 < u.blockSize := by
  obtain ⟨size, hreq, hs, -⟩ := h.request
  exact hs ▸ hreq.sized.blockSize

theorem blockCount_pos : 0 < u.blockCount := by
  obtain ⟨size, hreq, -⟩ := h.request
  exact h.blockCount ▸ hreq.sized.blockCount

theorem blockCount_le : u.blockCount ≤ maxSpanBlockCount := by
  obtain ⟨size, hreq, -⟩ := h.request
  exact h.blockCount ▸ hreq.sized.count_le

theorem fits : u.blockCount * u.blockSize ≤ u.size pf := by
  obtain ⟨size, hreq, hs, hp⟩ := h.request
  rw [h.blockCount, hs, Usage.size, hp]
  exact hreq.sized.fits

/-- Every block ends inside the span. -/
theorem block_le (hi : i < u.blockCount) : u.block i + u.blockSize ≤ u.base + u.size pf := by
  have hmul : (i + 1) * u.blockSize ≤ u.blockCount * u.blockSize := Nat.mul_le_mul_right _ hi
  have hfits := h.fits
  rw [Nat.add_mul, Nat.one_mul] at hmul
  unfold block
  omega

theorem block_ne_null : u.block i ≠ NULL := by
  have hb := h.base
  change u.base + i * u.blockSize ≠ 0
  change u.base ≠ 0 at hb
  omega

theorem block_inj (hij : u.block i = u.block j) : i = j := by
  unfold block at hij
  exact Nat.eq_of_mul_eq_mul_right h.blockSize_pos (by omega)

theorem card_le : u.free.card ≤ u.blockCount := by
  have hsub : u.free ⊆ Finset.range u.blockCount := fun i hi => Finset.mem_range.mpr (h.free i hi)
  simpa using Finset.card_le_card hsub

theorem mem_of_allFree (hf : u.AllFree) (hi : i < u.blockCount) : i ∈ u.free := by
  have hsub : u.free ⊆ Finset.range u.blockCount := fun i hi => Finset.mem_range.mpr (h.free i hi)
  have heq := Finset.eq_of_subset_of_card_le hsub (by rw [Finset.card_range, hf])
  rw [heq]
  exact Finset.mem_range.mpr hi

/-- A block that is not free keeps the span from being all free. -/
theorem card_lt (hi : i < u.blockCount) (hf : i ∉ u.free) : u.free.card < u.blockCount :=
  Nat.lt_of_le_of_ne h.card_le fun he => hf (h.mem_of_allFree he hi)

theorem blockCount_large (hl : u.cls = largeClassSizeIndex) : u.blockCount = 1 := by
  rw [h.blockCount, requestBlockCount, if_pos hl]

theorem cls_range (hl : u.cls ≠ largeClassSizeIndex) : 0 ≤ u.cls ∧ u.cls < sizeClassCount := by
  obtain ⟨size, hreq, -⟩ := h.request
  cases hreq with
  | inl hreq => exact absurd hreq.1 hl
  | inr hreq => exact hreq

theorem two_le_blockCount (hl : u.cls ≠ largeClassSizeIndex) : 2 ≤ u.blockCount := by
  have hcounts : ∀ c < sizeClassCount, 2 ≤ sizeClassBlockCount.getD c 0 := by decide
  obtain ⟨h₀, h₁⟩ := h.cls_range hl
  rw [h.blockCount, requestBlockCount, if_neg hl]
  exact hcounts u.cls.toNat (by omega)

/-- Every block starts at a multiple of 16. -/
theorem block_aligned (hi : i < u.blockCount) : u.block i % byteAlignment = 0 := by
  have hpage : byteAlignment ∣ pf.pageSize :=
    (show byteAlignment = 2 ^ 4 by rfl) ▸ Nat.pow_dvd_pow 2 (by have := pf.twelve_le; omega)
  have hbase : byteAlignment ∣ u.base := hpage.trans (Nat.dvd_of_mod_eq_zero h.aligned)
  refine Nat.mod_eq_zero_of_dvd (Nat.dvd_add hbase ?_)
  by_cases hl : u.cls = largeClassSizeIndex
  · have hone := h.blockCount_large hl
    obtain rfl : i = 0 := by omega
    simp
  · obtain ⟨size, hreq, hs, -⟩ := h.request
    rw [hs]
    exact Nat.dvd_mul_left_of_dvd (Nat.dvd_of_mod_eq_zero (hreq.sized.aligned hl)) i

end Sound

/-- The span with block `i` handed out. -/
def take (u : Usage) (i : Nat) : Usage := { u with free := u.free.erase i }

/-- The span with block `i` given back; `cfree` leaves the bitmap of a large
span as it is. -/
def give (u : Usage) (i : Nat) : Usage :=
  { u with free := if u.cls = largeClassSizeIndex then u.free else insert i u.free }

@[simp] theorem take_block : (u.take i).block j = u.block j := rfl
@[simp] theorem give_block : (u.give i).block j = u.block j := rfl

theorem Sound.take (h : u.Sound pf) : (u.take i).Sound pf :=
  ⟨h.request, h.blockCount, h.base, h.aligned, fun j hj => h.free j (Finset.mem_of_mem_erase hj)⟩

theorem Sound.give (h : u.Sound pf) (hi : i < u.blockCount) : (u.give i).Sound pf := by
  refine ⟨h.request, h.blockCount, h.base, h.aligned, fun j hj => ?_⟩
  change j ∈ if u.cls = largeClassSizeIndex then u.free else insert i u.free at hj
  split at hj
  · exact h.free j hj
  · cases Finset.mem_insert.mp hj with
    | inl he => exact he ▸ hi
    | inr hj => exact h.free j hj

/-- Blocks of spans that share no byte share none either. -/
theorem Sound.blocks_apart (h : u.Sound pf) (h' : w.Sound pf) (hi : i < u.blockCount)
    (hj : j < w.blockCount)
    (hd : u.base + u.size pf ≤ w.base ∨ w.base + w.size pf ≤ u.base) :
    u.block i + u.blockSize ≤ w.block j ∨ w.block j + w.blockSize ≤ u.block i := by
  have hle := h.block_le hi
  have hle' := h'.block_le hj
  unfold block at hle hle' ⊢
  cases hd with
  | inl hd => exact .inl (by omega)
  | inr hd => exact .inr (by omega)

theorem Sound.block_ne (h : u.Sound pf) (h' : w.Sound pf) (hi : i < u.blockCount)
    (hj : j < w.blockCount)
    (hd : u.base + u.size pf ≤ w.base ∨ w.base + w.size pf ≤ u.base) : u.block i ≠ w.block j := by
  have hpos := h.blockSize_pos
  have hpos' := h'.blockSize_pos
  cases h.blocks_apart h' hi hj hd with
  | inl hd => omega
  | inr hd => omega

end Usage

/-! ## Heaps -/

/-- The span a call has taken for itself. -/
def Pc.span : Pc → Option Nat
  | .initSpan _ _ => none
  | .allocate _ _ a => some a
  | .cache a _ => some a

structure Heap where
  use : Nat → Option Usage
  owner : Nat → Tid
  live : Nat → Option (Tid × Nat)
  pc : Tid → Option Pc

namespace Heap

/-- `p` is block `i` of the span `a`. -/
structure IsBlock (H : Heap) (p a : Nat) (u : Usage) (i : Nat) : Prop where
  use : H.use a = some u
  lt : i < u.blockCount
  eq : p = u.block i

/-- Some call has the span `a` for itself. -/
def Transit (H : Heap) (a : Nat) : Prop := ∃ t pc, H.pc t = some pc ∧ pc.span = some a

/-- What a `cmalloc` inside a call of thread `t` relies on: the block that a
`crealloc` will copy stays live. -/
def ClientOk (H : Heap) (t : Tid) (size : Nat) : Client → Prop
  | .malloc => True
  | .calloc => True
  | .realloc ptr a => (∃ n, H.live ptr = some (t, n)) ∧ H.owner a = t ∧
      ∃ u i, H.IsBlock ptr a u i ∧ u.blockSize < size

/-- What a thread relies on at a `Pc`. -/
def PcOk (pf : Platform) (H : Heap) (t : Tid) : Pc → Prop
  | .initSpan client size => pf.NonWrapping size ∧ H.ClientOk t size client
  | .allocate client size a => H.owner a = t ∧ H.ClientOk t size client ∧
      ∃ u, H.use a = some u ∧ u.AllFree ∧ u.cls = getSizeClassIndex size ∧ size ≤ u.blockSize
  | .cache a _ => H.owner a = t ∧
      ∃ u, H.use a = some u ∧ (u.cls = largeClassSizeIndex ∨ u.AllFree)

end Heap

/-- The invariant of heaps. -/
structure HeapOk (pf : Platform) (H : Heap) : Prop where
  sound : ∀ a u, H.use a = some u → u.Sound pf
  apart : ∀ a b u w, H.use a = some u → H.use b = some w → a ≠ b →
    u.base + u.size pf ≤ w.base ∨ w.base + w.size pf ≤ u.base
  place : ∀ p x, H.live p = some x → ∃ a u i, H.IsBlock p a u i
  out : ∀ p a u i, H.IsBlock p a u i →
    ((∃ x, H.live p = some x) ↔ i ∉ u.free ∧ ¬ H.Transit a)
  fits : ∀ p a u i t n, H.IsBlock p a u i → H.live p = some (t, n) → n ≤ u.blockSize
  full : ∀ a u, H.use a = some u → u.AllFree → H.Transit a
  pcs : ∀ t pc, H.pc t = some pc → H.PcOk pf t pc

/-- Every live block belongs to the thread whose span it is in. -/
def Heap.Owned (H : Heap) : Prop :=
  ∀ p a u i t n, H.IsBlock p a u i → H.live p = some (t, n) → H.owner a = t

namespace HeapOk

variable {pf : Platform} {H H' : Heap} {t t' : Tid} {a b p q i j n size : Nat} {u w : Usage}
  {client : Client}

section

variable (h : HeapOk pf H)
include h

/-- An address is a block of one span at most. -/
theorem block_unique (h₁ : H.IsBlock p a u i) (h₂ : H.IsBlock p b w j) : a = b ∧ u = w ∧ i = j := by
  have hs := h.sound a u h₁.use
  have hs' := h.sound b w h₂.use
  by_cases hab : a = b
  · subst hab
    obtain rfl : u = w := Option.some.inj (h₁.use.symm.trans h₂.use)
    exact ⟨rfl, rfl, hs.block_inj (h₁.eq.symm.trans h₂.eq)⟩
  · have hne := hs.block_ne hs' h₁.lt h₂.lt (h.apart a b u w h₁.use h₂.use hab)
    exact absurd (h₁.eq.symm.trans h₂.eq) hne

/-- The blocks of two spans, or two blocks of one, share no byte. -/
theorem blocks_apart (h₁ : H.IsBlock p a u i) (h₂ : H.IsBlock q b w j) (hne : p ≠ q) :
    p + u.blockSize ≤ q ∨ q + w.blockSize ≤ p := by
  have hs := h.sound a u h₁.use
  have hs' := h.sound b w h₂.use
  by_cases hab : a = b
  · subst hab
    obtain rfl : u = w := Option.some.inj (h₁.use.symm.trans h₂.use)
    have hij : i ≠ j := fun he => hne (by rw [h₁.eq, h₂.eq, he])
    rw [h₁.eq, h₂.eq]
    exact Usage.block_apart hij
  · rw [h₁.eq, h₂.eq]
    exact hs.blocks_apart hs' h₁.lt h₂.lt (h.apart a b u w h₁.use h₂.use hab)

/-- A live block, with its span. -/
theorem live_block (hp : H.live p = some (t, n)) :
    ∃ a u i, H.IsBlock p a u i ∧ i ∉ u.free ∧ ¬ H.Transit a ∧ n ≤ u.blockSize := by
  obtain ⟨a, u, i, hb⟩ := h.place p _ hp
  obtain ⟨hi, ht⟩ := (h.out p a u i hb).mp ⟨_, hp⟩
  exact ⟨a, u, i, hb, hi, ht, h.fits p a u i t n hb hp⟩

theorem live_ne_null {x : Tid × Nat} (hp : H.live p = some x) : p ≠ NULL := by
  obtain ⟨a, u, i, hb⟩ := h.place p x hp
  rw [hb.eq]
  exact (h.sound a u hb.use).block_ne_null

/-- A span that is neither full nor all free is in no transit. -/
theorem not_transit (ha : H.use a = some u) (hc : u.cls ≠ largeClassSizeIndex)
    (hf : u.free.card < u.blockCount) : ¬ H.Transit a := by
  rintro ⟨t, pc, hpc, hsp⟩
  have hok := h.pcs t pc hpc
  cases pc with
  | initSpan client size => cases hsp
  | allocate client size b =>
    obtain rfl : b = a := Option.some.inj hsp
    obtain ⟨-, -, w, hw, hall, -⟩ := hok
    obtain rfl : u = w := Option.some.inj (ha.symm.trans hw)
    exact hf.ne hall
  | cache b q =>
    obtain rfl : b = a := Option.some.inj hsp
    obtain ⟨-, w, hw, hall⟩ := hok
    obtain rfl : u = w := Option.some.inj (ha.symm.trans hw)
    exact hf.ne (hall.resolve_left hc)

/-- Who has a span in transit owns it. -/
theorem transit_owner (ht : H.Transit a) : ∃ pc, H.pc (H.owner a) = some pc ∧ pc.span = some a := by
  obtain ⟨t, pc, hpc, hsp⟩ := ht
  have hok := h.pcs t pc hpc
  have howner : H.owner a = t := by
    cases pc with
    | initSpan client size => cases hsp
    | allocate client size b => exact Option.some.inj hsp ▸ hok.1
    | cache b q => exact Option.some.inj hsp ▸ hok.1
  exact ⟨pc, howner ▸ hpc, hsp⟩

end

end HeapOk

end FastAlloc
