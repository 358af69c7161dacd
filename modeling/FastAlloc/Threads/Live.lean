/-
FastAlloc.Threads.Live — the live blocks of a reachable world, as memory has
them.
-/
import FastAlloc.Spans.Conserve
import FastAlloc.Threads.Calls

namespace FastAlloc

open Lib Mem View

/-- The block at `p`, out for `n` bytes, is one of the span `a`, and no other
span has any of it. -/
structure BlockAt (pf : Platform) (s : State) (p n a : Nat) : Prop where
  initialized : (s.mem.span a).isInitialized = true
  block : ∃ i < (s.mem.span a).blockCount,
    p = (s.mem.span a).base + i * (s.mem.span a).blockSize
  inside : (s.mem.span a).base ≤ p ∧
    p + (s.mem.span a).blockSize ≤ (s.mem.span a).base + (s.mem.span a).size pf
  lookup : ∀ x, p ≤ x → x < p + (s.mem.span a).blockSize →
    ((cmallocGetSpan pf x).run s).result = .ok a
  only : ∀ b, IsChunkSpan pf s b → (s.mem.span b).base < p + (s.mem.span a).blockSize →
    p < (s.mem.span b).base + (s.mem.span b).size pf → b = a
  not_cached : ∀ k, ¬ Cached s k a
  aligned : p % byteAlignment = 0
  size_le : n ≤ (s.mem.span a).blockSize

/-- The live blocks share no byte, and no part of a call hands out one that
is live; `crealloc` in place gives its client the block it had. -/
structure World.BlocksOk (pf : Platform) (w : World) : Prop where
  block : ∀ p t n, w.live p = some (t, n) → ∃ a, BlockAt pf w.state p n a
  apart : ∀ p q a b, w.live p ≠ none → w.live q ≠ none → p ≠ q →
    ((cmallocGetSpan pf p).run w.state).result = .ok a →
    ((cmallocGetSpan pf q).run w.state).result = .ok b →
    p + (w.state.mem.span a).blockSize ≤ q ∨ q + (w.state.mem.span b).blockSize ≤ p
  fresh : ∀ t o f, NextPart pf w t o f → ∀ r s tr, f.run w.state = ⟨.ok r, s, tr⟩ →
    (∀ e ∈ tr, e.Mapped) → ∀ q n, r.gained = some (q, n) →
      w.live q = none ∨ o = some (.realloc q n)

section

variable {pf : Platform} {strict : Bool} {w : World} {v : View} {a i n p : Nat} {sp : Span} {u : Usage}
  {t : Tid}

/-- A live block, with the record of its span. -/
theorem WorldInv.live_record (h : WorldInv pf strict w v) (hp : w.live p = some (t, n)) :
    ∃ a sp i, v.span a = some sp ∧ sp.isInitialized = true ∧ sp.BlocksOk ∧
      (w.heap v).IsBlock p a sp.use i ∧ i ∉ sp.freeBlocks ∧ n ≤ sp.blockSize := by
  obtain ⟨a, u, i, hb, hi, -, hle⟩ := h.heap.heap.live_block hp
  obtain ⟨sp, hsp, hinit, rfl, hblocks⟩ := h.heap.record hb.use
  exact ⟨a, sp, i, hsp, hinit, hblocks, hb, hi, hle⟩

theorem WorldInv.run_getSpan_live (h : WorldInv pf strict w v)
    (hb : (w.heap v).IsBlock p a u i) : (cmallocGetSpan pf p).run w.state = ⟨.ok a, w.state, []⟩ :=
  h.heap.run_getSpan hb le_rfl
    (Nat.lt_add_of_pos_right (h.heap.heap.sound a u hb.use).blockSize_pos)

theorem WorldInv.blockAt (h : WorldInv pf strict w v) (hp : w.live p = some (t, n)) :
    ∃ a, BlockAt pf w.state p n a := by
  obtain ⟨a, sp, i, hsp, hinit, -, hb, -, hle⟩ := h.live_record hp
  have hsound := h.heap.heap.sound a _ hb.use
  have hend := hsound.block_le hb.lt
  have halign := hsound.block_aligned hb.lt
  rw [← hb.eq] at hend halign
  have hin : sp.base ≤ p ∧ p + sp.blockSize ≤ sp.base + sp.size pf :=
    ⟨hb.eq ▸ Nat.le_add_right _ _, hend⟩
  have hrec := h.heap.shows.record_eq hsp
  refine ⟨a, ?_⟩
  constructor
  all_goals try rw [hrec]
  case initialized => exact hinit
  case block => exact ⟨i, hb.lt, hb.eq⟩
  case inside => exact hin
  case lookup =>
    intro x h₁ h₂
    rw [h.heap.run_getSpan hb h₁ h₂]
  case only =>
    intro b hchunk h₁ h₂
    obtain ⟨sp', hsp', -⟩ := (h.heap.shows.isChunkSpan_iff h.heap.sound.toGeometry).mp hchunk
    rw [h.heap.shows.record_eq hsp'] at h₁ h₂
    by_contra hne
    cases h.heap.sound.apart hsp' hsp hne with
    | inl hd => omega
    | inr hd => omega
  case not_cached =>
    intro k hk
    obtain ⟨-, x, hx, hno, -⟩ := (h.heap.shows.cached_iff h.heap.sound.toPool k a).mp hk
    obtain rfl := Option.some.inj (hsp.symm.trans hx)
    rw [hinit] at hno
    cases hno
  case aligned => exact halign
  case size_le => exact hle

/-- In every reachable world the live blocks lie apart, each in its span. -/
theorem live_blocks_sound (h : Reachable pf w) : w.BlocksOk pf := by
  obtain ⟨v, hv⟩ := h.inv
  constructor
  case block => exact fun p t n hp => hv.blockAt hp
  case apart =>
    intro p q a b hp hq hne ha hb
    obtain ⟨⟨t, n⟩, hp⟩ := Option.ne_none_iff_exists'.mp hp
    obtain ⟨⟨t', n'⟩, hq⟩ := Option.ne_none_iff_exists'.mp hq
    obtain ⟨a', sp, i, hsp, -, -, hblock, -⟩ := hv.live_record hp
    obtain ⟨b', sp', j, hsp', -, -, hblock', -⟩ := hv.live_record hq
    rw [hv.run_getSpan_live hblock] at ha
    rw [hv.run_getSpan_live hblock'] at hb
    cases ha
    cases hb
    rw [hv.heap.shows.record_eq hsp, hv.heap.shows.record_eq hsp']
    exact hv.heap.heap.blocks_apart hblock hblock' hne
  case fresh =>
    intro t o f hf r s tr hrun hm q n hg
    exact ((hv.part hf).elim hrun fun e he => allowed_of_mapped (hm e he)).1.2 q n hg

theorem live_blocks_sound_first : ∃ w : World, w.live (2 ^ 31) = some (0, 16) ∧
    w.BlocksOk .hugePages :=
  have ⟨w, hw, hlive, _⟩ := Reachable.first
  ⟨w, hlive, live_blocks_sound hw⟩

end

end FastAlloc
