/-
FastAlloc.Spans.BlockRuns — one span over any sequence of `allocate_block`
and `free_block`.

The client holds the blocks it was handed out and frees them by any address
inside them. The bitmaps, the counter and what it holds always agree.
-/
import FastAlloc.Spans.System

namespace FastAlloc

open Lib Mem

/-- Block `i` of a span. -/
def Span.block (sp : Span) (i : Nat) : Nat := sp.base + i * sp.blockSize

/-- The library state, and the blocks of one span that are out. -/
structure BlockWorld where
  state : State
  out : Finset Nat

/-- One operation on the span `a`. -/
inductive BlockStep (a : Nat) : BlockWorld → Unit → BlockWorld → Prop
  | allocate {b : BlockWorld} {p : Nat} {s : State} {t : List Event} :
      (allocateBlock a).run b.state = ⟨.ok p, s, t⟩ →
      BlockStep a b () ⟨s, if p = NULL then b.out else insert p b.out⟩
  | free {b : BlockWorld} {p q : Nat} {s : State} {t : List Event} :
      p ∈ b.out → p ≤ q → q < p + (b.state.mem.span a).blockSize →
      (freeBlock q a).run b.state = ⟨.ok (), s, t⟩ → BlockStep a b () ⟨s, b.out.erase p⟩

/-- What the record `sp` of a span says of the blocks that are out. -/
structure Span.Represents (sp : Span) (out : Finset Nat) : Prop where
  base : sp.base ≠ NULL
  size : 0 < sp.blockSize
  blocks : sp.BlocksOk
  free : ∀ i, i ∈ sp.freeBlocks ↔ i < sp.blockCount ∧ sp.block i ∉ out
  out : ∀ p ∈ out, ∃ i < sp.blockCount, p = sp.block i

namespace Span

variable {sp : Span} {out : Finset Nat} {i j p q : Nat}

theorem block_inj (h : 0 < sp.blockSize) (hij : sp.block i = sp.block j) : i = j := by
  unfold block at hij
  exact Nat.eq_of_mul_eq_mul_right h (by omega)

/-- An address inside block `i` divides back to it. -/
theorem block_div (h₁ : sp.block i ≤ q) (h₂ : q < sp.block i + sp.blockSize) :
    (q - sp.base) / sp.blockSize = i := by
  unfold block at h₁ h₂
  obtain ⟨r, rfl⟩ := Nat.exists_eq_add_of_le h₁
  have hq : sp.base + i * sp.blockSize + r - sp.base = sp.blockSize * i + r := by
    rw [Nat.mul_comm]
    omega
  rw [hq, Nat.mul_add_div (by omega), Nat.div_eq_of_lt (by omega), Nat.add_zero]

theorem block_ne_null (h : sp.base ≠ NULL) : sp.block i ≠ NULL := by
  change sp.base + i * sp.blockSize ≠ 0
  change sp.base ≠ 0 at h
  omega

namespace Represents

variable (h : sp.Represents out)
include h

theorem takeBlock (h0 : sp.nonfullBitmap ≠ 0) :
    sp.takeBlock.Represents (insert (sp.block sp.firstFree) out) := by
  have hmem := h.blocks.firstFree_mem h0
  refine ⟨h.base, h.size, h.blocks.takeBlock h0, fun i => ?_, fun p hp => ?_⟩
  · change i ∈ sp.takeBlock.freeBlocks ↔ i < sp.blockCount ∧ sp.block i ∉ _
    rw [freeBlocks_takeBlock, Finset.mem_erase, h.free i, Finset.mem_insert, not_or]
    constructor
    · rintro ⟨hne, hi, hout⟩
      exact ⟨hi, fun he => hne (block_inj h.size he), hout⟩
    · rintro ⟨hi, hne, hout⟩
      exact ⟨fun he => hne (he ▸ rfl), hi, hout⟩
  · cases Finset.mem_insert.mp hp with
    | inl hp => exact ⟨sp.firstFree, h.blocks.lt_of_mem hmem, hp⟩
    | inr hp => exact h.out p hp

theorem giveBlock (hi : i < sp.blockCount) (hout : sp.block i ∈ out) :
    (sp.giveBlock i).Represents (out.erase (sp.block i)) := by
  have hnot : i ∉ sp.freeBlocks := fun hf => ((h.free i).mp hf).2 hout
  refine ⟨h.base, h.size, h.blocks.giveBlock hi hnot, fun j => ?_, fun p hp => ?_⟩
  · change j ∈ (sp.giveBlock i).freeBlocks ↔ j < sp.blockCount ∧ sp.block j ∉ _
    rw [freeBlocks_giveBlock (hi.trans_le h.blocks.count_le), Finset.mem_insert, h.free j,
      Finset.mem_erase]
    constructor
    · rintro (rfl | ⟨hj, hjout⟩)
      · exact ⟨hi, fun he => he.1 rfl⟩
      · exact ⟨hj, fun he => hjout he.2⟩
    · rintro ⟨hj, hjout⟩
      by_cases hji : j = i
      · exact .inl hji
      · exact .inr ⟨hj, fun he => hjout ⟨fun hb => hji (block_inj h.size hb), he⟩⟩
  · exact h.out p (Finset.mem_of_mem_erase hp)

/-- Each block is free or out. -/
theorem card : sp.freeCount + out.card = sp.blockCount := by
  have hout : (Finset.range sp.blockCount \ sp.freeBlocks).image sp.block = out := by
    ext p
    simp only [Finset.mem_image, Finset.mem_sdiff, Finset.mem_range, h.free, not_and, not_not]
    constructor
    · rintro ⟨i, ⟨hi, hmem⟩, rfl⟩
      exact hmem hi
    · intro hp
      obtain ⟨i, hi, rfl⟩ := h.out p hp
      exact ⟨i, ⟨hi, fun _ => hp⟩, rfl⟩
  have hinj : Function.Injective sp.block := fun i j => block_inj h.size
  have hsub := h.blocks.freeBlocks_subset
  have hcard := Finset.card_sdiff_add_card_eq_card hsub
  rw [Finset.card_range] at hcard
  rw [← hout, Finset.card_image_of_injective _ hinj, h.blocks.freeCount]
  omega

/-- The summary is empty when every block is out. -/
theorem nonfull_eq_zero_iff : sp.nonfullBitmap = 0 ↔ ∀ i < sp.blockCount, sp.block i ∈ out := by
  rw [h.blocks.nonfull_eq_zero_iff, Finset.eq_empty_iff_forall_notMem]
  simp only [h.free, not_and, not_not]

/-- The block taken is the lowest free one. -/
theorem firstFree_eq (hi : i < sp.blockCount) (hout : sp.block i ∉ out)
    (hmin : ∀ j < i, sp.block j ∈ out) : sp.nonfullBitmap ≠ 0 ∧ sp.firstFree = i := by
  have hne : sp.nonfullBitmap ≠ 0 := fun h0 => hout (h.nonfull_eq_zero_iff.mp h0 i hi)
  have hle := h.blocks.firstFree_le hne ((h.free i).mpr ⟨hi, hout⟩)
  have hfree := ((h.free _).mp (h.blocks.firstFree_mem hne)).2
  refine ⟨hne, Nat.le_antisymm hle ?_⟩
  by_contra hlt
  exact hfree (hmin _ (Nat.lt_of_not_le hlt))

end Represents

end Span

section

variable {a : Nat} {b b' : BlockWorld} {s s' : State} {p q i : Nat} {t : List Event}

/-- What `allocate_block` does, as a run. -/
theorem run_allocateBlock (hv : Valid a) (hok : (s.mem.span a).BlocksOk) :
    ((s.mem.span a).nonfullBitmap = 0 → (allocateBlock a).run s = ⟨.ok NULL, s, []⟩) ∧
    ((s.mem.span a).nonfullBitmap ≠ 0 → ∃ t, (allocateBlock a).run s =
      ⟨.ok ((s.mem.span a).block (s.mem.span a).firstFree),
        s.setMem (s.mem.setSpan a Span.takeBlock), t⟩) := by
  refine ⟨fun h0 => ?_, fun h0 => ?_⟩
  · exact Program.run_bind_read (run_load hv) (by rw [if_pos h0]; rfl)
  · have hspec : Spec (fun _ => True) (onStore fun _ => True) (allocateBlock a) s fun p s' =>
        p = (s.mem.span a).block (s.mem.span a).firstFree ∧
          s' = s.setMem (s.mem.setSpan a Span.takeBlock) :=
      allocateBlock_spec hv hok.summary (fun _ => trivial) (fun hz => absurd hz h0)
        fun _ => ⟨rfl, rfl⟩
    obtain ⟨⟨p, hp, rfl, hs⟩, -⟩ := hspec fun _ _ => trivial
    exact ⟨_, hs ▸ Program.run_of_result hp⟩

/-- What `free_block` does, as a run. -/
theorem run_freeBlock (hv : Valid a) (hi : i < maxSpanBlockCount) (h₁ : (s.mem.span a).block i ≤ q)
    (h₂ : q < (s.mem.span a).block i + (s.mem.span a).blockSize) :
    ∃ t, (freeBlock q a).run s = ⟨.ok (), s.setMem (s.mem.setSpan a (Span.giveBlock i)), t⟩ := by
  have hspec : Spec (fun _ => True) (onStore fun _ => True) (freeBlock q a) s fun _ s' =>
      s' = s.setMem (s.mem.setSpan a (Span.giveBlock i)) :=
    freeBlock_spec hv (Span.block_div h₁ h₂) hi (fun _ => trivial) rfl
  obtain ⟨⟨_, hp, hs⟩, -⟩ := hspec fun _ _ => trivial
  exact ⟨_, hs ▸ Program.run_of_result hp⟩

/-- Every operation keeps the representation. -/
theorem BlockStep.represents (hv : Valid a) (h : (b.state.mem.span a).Represents b.out)
    (hst : BlockStep a b () b') : (b'.state.mem.span a).Represents b'.out ∧
      (b'.state.mem.span a).base = (b.state.mem.span a).base ∧
      (b'.state.mem.span a).blockSize = (b.state.mem.span a).blockSize ∧
      (b'.state.mem.span a).blockCount = (b.state.mem.span a).blockCount := by
  obtain ⟨hnull, htake⟩ := run_allocateBlock hv h.blocks
  cases hst with
  | allocate hrun =>
    by_cases h0 : (b.state.mem.span a).nonfullBitmap = 0
    · rw [hnull h0] at hrun
      cases hrun
      exact ⟨h, rfl, rfl, rfl⟩
    · obtain ⟨t, ht⟩ := htake h0
      rw [ht] at hrun
      cases hrun
      simp only [State.setMem_mem, span_setSpan_self, if_neg (Span.block_ne_null h.base)]
      exact ⟨h.takeBlock h0, rfl, rfl, rfl⟩
  | free hp h₁ h₂ hrun =>
    obtain ⟨i, hi, rfl⟩ := h.out _ hp
    obtain ⟨t, ht⟩ := run_freeBlock hv (hi.trans_le h.blocks.count_le) h₁ h₂
    rw [ht] at hrun
    cases hrun
    simp only [State.setMem_mem, span_setSpan_self]
    exact ⟨h.giveBlock hi hp, rfl, rfl, rfl⟩

end

/-- The bitmaps and the counter of the span `a`, and what the operations on
it will do. `sp` is the record it started with. -/
structure BlocksSound (a : Nat) (sp : Span) (b : BlockWorld) : Prop where
  shape : (b.state.mem.span a).base = sp.base ∧ (b.state.mem.span a).blockSize = sp.blockSize ∧
    (b.state.mem.span a).blockCount = sp.blockCount
  summary : ∀ w < spanBlockBitmapWordCount, ((b.state.mem.span a).nonfullBitmap.getLsbD w = true ↔
    (b.state.mem.span a).blockBitmap w ≠ 0)
  bits : ∀ i < maxSpanBlockCount, (bitAt (b.state.mem.span a).blockBitmap i = true ↔
    i < sp.blockCount ∧ sp.block i ∉ b.out)
  out : ∀ p ∈ b.out, ∃ i < sp.blockCount, p = sp.block i
  freeCount : (b.state.mem.span a).freeCount = ((Finset.range maxSpanBlockCount).filter
    fun i => bitAt (b.state.mem.span a).blockBitmap i = true).card
  count : (b.state.mem.span a).freeCount + b.out.card = sp.blockCount
  full : (∀ i < sp.blockCount, sp.block i ∈ b.out) →
    (allocateBlock a).run b.state = ⟨.ok NULL, b.state, []⟩
  lowest : ∀ i < sp.blockCount, sp.block i ∉ b.out → (∀ j < i, sp.block j ∈ b.out) →
    sp.block i ≠ NULL ∧ ∃ s t, (allocateBlock a).run b.state = ⟨.ok (sp.block i), s, t⟩ ∧
      ∀ q, sp.block i ≤ q → q < sp.block i + sp.blockSize →
        ∃ t', (freeBlock q a).run s = ⟨.ok (), b.state, t'⟩
  free : ∀ p ∈ b.out, ∀ q, p ≤ q → q < p + sp.blockSize →
    ∃ s t, (freeBlock q a).run b.state = ⟨.ok (), s, t⟩

theorem Span.Represents.sound {a : Nat} {sp : Span} {b : BlockWorld} (hv : Valid a)
    (h : (b.state.mem.span a).Represents b.out)
    (hshape : (b.state.mem.span a).base = sp.base ∧ (b.state.mem.span a).blockSize = sp.blockSize ∧
      (b.state.mem.span a).blockCount = sp.blockCount) : BlocksSound a sp b := by
  obtain ⟨hbase, hsize, hcount⟩ := hshape
  obtain ⟨hnull, htake⟩ := run_allocateBlock hv h.blocks
  have hblock : ∀ i, sp.block i = (b.state.mem.span a).block i := fun i => by
    rw [Span.block, Span.block, hbase, hsize]
  constructor
  case shape => exact ⟨hbase, hsize, hcount⟩
  case summary => exact h.blocks.summary
  case bits =>
    intro i hi
    rw [← hcount, hblock, ← h.free i, Span.mem_freeBlocks]
    simp [hi]
  case out =>
    intro p hp
    obtain ⟨i, hi, rfl⟩ := h.out p hp
    exact ⟨i, hcount ▸ hi, (hblock i).symm⟩
  case freeCount => exact h.blocks.freeCount
  case count => rw [← hcount, h.card]
  case full =>
    intro hall
    refine hnull (h.nonfull_eq_zero_iff.mpr fun i hi => ?_)
    rw [← hblock]
    exact hall i (hcount ▸ hi)
  case lowest =>
    intro i hi hout hmin
    rw [hblock] at hout
    obtain ⟨hne, hfirst⟩ := h.firstFree_eq (hcount ▸ hi) hout fun j hj => hblock j ▸ hmin j hj
    obtain ⟨t, ht⟩ := htake hne
    rw [hfirst] at ht
    refine ⟨Span.block_ne_null (hbase ▸ h.base), _, t, hblock i ▸ ht, fun q h₁ h₂ => ?_⟩
    have hmax : i < maxSpanBlockCount := hi.trans_le (hcount ▸ h.blocks.count_le)
    obtain ⟨t', ht'⟩ := run_freeBlock (s := b.state.setMem (b.state.mem.setSpan a Span.takeBlock))
      (q := q) hv hmax (by
        simp only [State.setMem_mem, span_setSpan_self]
        exact hblock i ▸ h₁) (by
        simp only [State.setMem_mem, span_setSpan_self]
        rw [hblock, ← hsize] at h₂
        exact h₂)
    refine ⟨t', ht'.trans ?_⟩
    -- the block given back is the one taken
    simp only [State.setMem_mem, State.setMem_setMem, setSpan_setSpan]
    rw [setSpan_self, State.setMem_self]
    rw [Function.comp, ← hfirst]
    exact h.blocks.giveBlock_takeBlock hne
  case free =>
    intro p hp q h₁ h₂
    obtain ⟨i, hi, rfl⟩ := h.out p hp
    obtain ⟨t, ht⟩ := run_freeBlock hv (hi.trans_le h.blocks.count_le) h₁ (hsize ▸ h₂)
    exact ⟨_, t, ht⟩

/-- A span just initialised has every block free. -/
theorem SpanInv.represents {pf : Platform} {w : SpanWorld} {v : View} {c : Int} {size a : Nat}
    {s : State} {t : List Event} (h : SpanInv pf w v) (hreq : pf.Request c size)
    (hrun : (cmallocInitializeSpan pf c size).run w.state = ⟨.ok a, s, t⟩)
    (hgood : ∀ e ∈ t, e.Mapped) : Valid a ∧ (s.mem.span a).Represents ∅ := by
  have hspec := cmallocInitializeSpan_spec h.shows h.ok (fun _ hk => hk.elim) hreq
  obtain ⟨v', h', hinit⟩ := (hspec.elim hrun fun e he => allowed_of_mapped (hgood e he)).1
  have hok := hinit.ok h.ok hreq
  obtain ⟨root, v₁, sp, sp', hr, hroot, hsup, hsp, hprep, rfl⟩ := hinit
  have hself : (v₁.setSpan a sp').span a = some sp' := View.span_set_self
  rw [h'.record_eq hself]
  refine ⟨h'.valid_span hself, (hok.bounds hself).1, ?_, hprep.blocks, fun i => ?_, fun p hp => ?_⟩
  · rw [hprep.blockSize]
    exact hreq.sized.blockSize
  · rw [hprep.freeBlocks]
    simp
  · simp at hp

/-- For every span `cmalloc_initialize_span` returns and every sequence of
block operations on it, the bitmaps and the counter represent the set of
blocks that are out. -/
theorem blocks_represented {pf : Platform} {w : SpanWorld} {c : Int} {size a : Nat} {s : State}
    {t : List Event} {b : BlockWorld} (h : SpanReachable pf w) (hreq : pf.Request c size)
    (hrun : (cmallocInitializeSpan pf c size).run w.state = ⟨.ok a, s, t⟩)
    (hgood : ∀ e ∈ t, e.Mapped) (hb : Run (BlockStep a) (fun _ => True) ⟨s, ∅⟩ b) :
    BlocksSound a (s.mem.span a) b := by
  obtain ⟨v, hv⟩ := h.inv
  obtain ⟨hvalid, hrep⟩ := hv.represents hreq hrun hgood
  have hinv := hb.invariant (P := fun b => (b.state.mem.span a).Represents b.out ∧
      (b.state.mem.span a).base = (s.mem.span a).base ∧
      (b.state.mem.span a).blockSize = (s.mem.span a).blockSize ∧
      (b.state.mem.span a).blockCount = (s.mem.span a).blockCount) ⟨hrep, rfl, rfl, rfl⟩ ?_
  · exact hinv.1.sound hvalid hinv.2
  · intro b₁ l b₂ hP hst _
    obtain ⟨hR, h₁, h₂, h₃⟩ := hst.represents hvalid hP.1
    exact ⟨hR, h₁.trans hP.2.1, h₂.trans hP.2.2.1, h₃.trans hP.2.2.2⟩

/-- A span of the smallest size class after one block was taken. -/
theorem blocks_represented_first : ∃ sp b, b.out = {2 ^ 31} ∧ BlocksSound (2 ^ 30 + 32816) sp b :=
  have hres : ((cmallocInitializeSpan .hugePages 0 16).run
      (.initial fun n => 2 ^ 30 * (n + 1))).result = .ok (2 ^ 30 + 32816) := by decide +kernel
  have htrace : (((cmallocInitializeSpan .hugePages 0 16).run
      (.initial fun n => 2 ^ 30 * (n + 1))).trace.all fun e => decide e.Mapped) = true := by
    decide +kernel
  have htake : ((allocateBlock (2 ^ 30 + 32816)).run ((cmallocInitializeSpan .hugePages 0 16).run
      (.initial fun n => 2 ^ 30 * (n + 1))).state).result = .ok (2 ^ 31) := by decide +kernel
  ⟨_, ⟨_, if 2 ^ 31 = NULL then ∅ else insert (2 ^ 31) ∅⟩, by simp, blocks_represented
    (w := .initial fun n => 2 ^ 30 * (n + 1)) ⟨_, .refl⟩ (.inr (by decide)) (Program.run_of_result hres)
    (mapped_of_all htrace) (.tail .refl (.allocate (Program.run_of_result htake)) trivial)⟩

end FastAlloc
