/-
FastAlloc.Threads.Shim — over-aligned blocks without a header.

`shim_memalign` shifts a block's address up to the alignment. The shifted
address stays inside the block, so `cfree` divides it back to the block and
ends in the state it would have reached from the block's own address.
-/
import FastAlloc.Model.Shim
import FastAlloc.Threads.Contents

namespace FastAlloc

open Lib Mem View

section

variable {pf : Platform} {strict : Bool} {W : Watch} {s : State} {v : View} {H : Heap} {w : World}
  {a i k n p q raw size alignment : Nat} {u : Usage} {t : Tid} {x : Tid × Nat}

/-! ## The shifted address -/

/-- The size `shim_memalign` asks `cmalloc` for. -/
def memalignRequest (alignment size : Nat) : Nat :=
  if alignment ≤ 16 then size else size + alignment - 1

/-- The address it returns for the block `raw`. -/
def memalignAddress (alignment raw : Nat) : Nat :=
  if alignment ≤ 16 then raw else alignedAddress alignment raw

theorem alignedAddress_spec (hk : k ≤ 46) (hraw : raw < 2 ^ 47) :
    alignedAddress (2 ^ k) raw % 2 ^ k = 0 ∧ raw ≤ alignedAddress (2 ^ k) raw ∧
      alignedAddress (2 ^ k) raw < raw + 2 ^ k := by
  have hpos : 0 < 2 ^ k := Nat.two_pow_pos k
  have hle : 2 ^ k ≤ 2 ^ 46 := Nat.pow_le_pow_right Nat.two_pos hk
  have hsum : raw + 2 ^ k - 1 < 2 ^ 64 := by omega
  have hmask := and_mask (raw + 2 ^ k - 1) k (by omega) hsum
  rw [alignedAddress, bitNot, Nat.mod_eq_of_lt hsum, hmask]
  have hdiv := Nat.div_add_mod (raw + 2 ^ k - 1) (2 ^ k)
  have hmod := Nat.mod_lt (raw + 2 ^ k - 1) hpos
  rw [Nat.mul_comm] at hdiv
  exact ⟨Nat.mul_mod_left _ _, by omega, by omega⟩

/-- A block that starts at a multiple of 16 holds its shifted address. -/
theorem memalignAddress_spec (size : Nat) (hk : k ≤ 46) (hraw : raw < 2 ^ 47) (h16 : raw % byteAlignment = 0) :
    memalignAddress (2 ^ k) raw % 2 ^ k = 0 ∧ raw ≤ memalignAddress (2 ^ k) raw ∧
      memalignAddress (2 ^ k) raw + size ≤ raw + memalignRequest (2 ^ k) size ∧
      (memalignAddress (2 ^ k) raw = raw ∨
        memalignAddress (2 ^ k) raw < raw + memalignRequest (2 ^ k) size) := by
  unfold memalignAddress memalignRequest
  by_cases hle : 2 ^ k ≤ 16
  · rw [if_pos hle, if_pos hle]
    have hk4 : k ≤ 4 := (Nat.pow_le_pow_iff_right (by decide)).mp (show 2 ^ k ≤ 2 ^ 4 from hle)
    have hdvd : 2 ^ k ∣ byteAlignment := Nat.pow_dvd_pow 2 hk4
    exact ⟨Nat.mod_eq_zero_of_dvd (hdvd.trans (Nat.dvd_of_mod_eq_zero h16)), le_rfl, le_rfl, .inl rfl⟩
  · rw [if_neg hle, if_neg hle]
    obtain ⟨hmod, h₁, h₂⟩ := alignedAddress_spec hk hraw
    -- both ends of the shift are multiples of 16
    have hk4 : 4 ≤ k := by
      by_contra hlt
      exact hle ((Nat.pow_le_pow_right Nat.two_pos (Nat.le_of_not_le hlt)).trans (by decide))
    have hdvd : 16 ∣ 2 ^ k := Nat.pow_dvd_pow 2 hk4
    have hp16 : 16 ∣ alignedAddress (2 ^ k) raw := hdvd.trans (Nat.dvd_of_mod_eq_zero hmod)
    have hr16 : 16 ∣ raw := Nat.dvd_of_mod_eq_zero h16
    exact ⟨hmod, h₁, by omega, .inr (by omega)⟩

/-- Without overflow `shim_memalign` is one `cmalloc` and a shift. -/
theorem shimMemalign_eq (h : size ≤ 2 ^ 64 - 1 - alignment) :
    shimMemalign pf t alignment size = cmalloc pf t (memalignRequest alignment size) >>= fun raw =>
      if raw = NULL then pure NULL else pure (memalignAddress alignment raw) := by
  unfold shimMemalign memalignRequest memalignAddress
  by_cases hle : alignment ≤ 16
  · simp only [if_pos hle]
    refine (bind_pure (cmalloc pf t size)).symm.trans (bind_congr fun p => ?_)
    split
    · rename_i h0
      rw [h0]
    · rfl
  · simp only [if_neg hle, if_neg (Nat.not_lt.mpr h)]

/-! ## Addresses inside a block -/

/-- `cm_usable` counts what is left of the block. -/
theorem HeapInv.run_cmUsable (h : HeapInv pf strict W s v H) (hb : H.IsBlock q a u i) (h₁ : q ≤ p)
    (h₂ : p < q + u.blockSize) :
    (cmUsable pf p).run s = ⟨.ok (u.blockSize - (p - q)), s, []⟩ := by
  obtain ⟨sp, hsp, hi, rfl, -⟩ := h.record hb.use
  have hq : q ≠ NULL := by
    rw [hb.eq]
    exact (h.heap.sound a _ hb.use).block_ne_null
  have hp : p ≠ NULL := ne_null_of_le hq h₁
  have hload : (loadSpan a).run s = ⟨.ok sp, s, []⟩ := by
    rw [loadSpan, run_load (h.shows.valid_span hsp), h.shows.record_eq hsp]
  have heq : q = sp.block i := hb.eq
  have hsize : sp.use.blockSize = sp.blockSize := rfl
  rw [heq] at h₁ h₂
  unfold cmUsable
  rw [if_neg hp]
  refine Program.run_bind_read (h.run_getSpan hb (heq ▸ h₁) (heq ▸ h₂)) ?_
  rw [if_neg (h.sound.ne_null hsp)]
  refine Program.run_bind_read hload ?_
  rw [hi, if_neg (by decide)]
  dsimp only
  rw [Span.block_div h₁ h₂, heq]
  rfl

/-- `cfree` of an address inside a block ends as `cfree` of the block does. -/
theorem HeapInv.cfree_inside (h : HeapInv pf strict W s v H) (hown : H.Owned) (hpc : H.pc t = none)
    (hb : H.IsBlock q a u i) (hq : H.live q = some (t, n)) (h₁ : q ≤ p) (h₂ : p < q + u.blockSize) :
    ((cfree pf t p).run s).result = ((cfree pf t q).run s).result ∧
      ((cfree pf t p).run s).state = ((cfree pf t q).run s).state := by
  have hq0 : q ≠ NULL := h.heap.live_ne_null hq
  have hp0 : p ≠ NULL := ne_null_of_le hq0 h₁
  have hpos := (h.heap.sound a u hb.use).blockSize_pos
  have ho := hown q a u i t n hb hq
  have hheap := h.heap.give (q := 0) hb hq hpc (fun _ _ => ho) (.inl ⟨ho, rfl⟩)
  -- up to the lock both runs come to one view, so to one state
  have hspec : ∀ r, q ≤ r → r < q + u.blockSize → ∃ s' tr,
      (cfreeUnlocked pf t r).run s = ⟨.ok (if u.cls = largeClassSizeIndex ∨ (u.give i).AllFree then
        some a else none), s', tr⟩ ∧ Tracks pf strict W s s' (v.freeUnlocked t a i) := by
    intro r hr₁ hr₂
    have hall := cfreeUnlocked_spec (A := fun _ => True) h hb hq hr₁ hr₂ (fun _ _ => ho) 0 hheap
    obtain ⟨⟨o, hres, rfl, ht, -⟩, -⟩ := hall fun _ _ => trivial
    exact ⟨_, _, Program.run_of_result hres, ht⟩
  obtain ⟨s₁, tr₁, hrun₁, ht₁⟩ := hspec p h₁ h₂
  obtain ⟨s₂, tr₂, hrun₂, ht₂⟩ := hspec q le_rfl (Nat.lt_add_of_pos_right hpos)
  obtain rfl : s₁ = s₂ := ht₁.eq ht₂ rfl rfl
  unfold cfree
  rw [if_neg hp0, if_neg hq0, Program.run_bind_ok hrun₁, Program.run_bind_ok hrun₂]
  exact ⟨rfl, rfl⟩

/-! ## Over-aligned blocks -/

/-- `raw` is a block in which `p` is a good address for `size` bytes. -/
structure OverAligned (pf : Platform) (s : State) (t : Tid) (alignment size raw p : Nat) :
    Prop where
  aligned : p % alignment = 0
  inside : ∃ a i, ((cmallocGetSpan pf raw).run s).result = .ok a ∧ i < (s.mem.span a).blockCount ∧
    raw = (s.mem.span a).base + i * (s.mem.span a).blockSize ∧ raw ≤ p ∧
    p < raw + (s.mem.span a).blockSize ∧ p + size ≤ raw + (s.mem.span a).blockSize
  usable : ∃ n, (shimUsableSize pf p).run s = ⟨.ok n, s, []⟩ ∧ size ≤ n
  free : ((shimFree pf t p).run s).result = ((cfree pf t raw).run s).result ∧
    ((shimFree pf t p).run s).state = ((cfree pf t raw).run s).state

/-- The block that `shim_memalign` had from `cmalloc`, with its shifted address. -/
theorem WorldInv.memalign_block (h : WorldInv pf strict w v)
    (hlive : w.live raw = some (t, memalignRequest (2 ^ k) size)) : k ≤ 46 ∧ ∃ a u i,
      (w.heap v).IsBlock raw a u i ∧ memalignAddress (2 ^ k) raw % 2 ^ k = 0 ∧
      raw ≤ memalignAddress (2 ^ k) raw ∧ memalignAddress (2 ^ k) raw < raw + u.blockSize ∧
      memalignAddress (2 ^ k) raw + size ≤ raw + u.blockSize := by
  obtain ⟨a, u, i, hb, -, -, hle⟩ := h.heap.heap.live_block hlive
  obtain ⟨sp, hsp, -, rfl, -⟩ := h.heap.record hb.use
  have hsound := h.heap.heap.sound a _ hb.use
  have hpos : 0 < sp.use.blockSize := hsound.blockSize_pos
  have hend := hsound.block_le hb.lt
  have h16 : sp.use.block i % 16 = 0 := hsound.block_aligned hb.lt
  have hne : raw ≠ 0 := hb.eq ▸ hsound.block_ne_null
  have hbound := (h.heap.sound.bounds hsp).2.1
  rw [← hb.eq] at hend h16
  have hspan : sp.use.base + sp.use.size pf = sp.base + sp.size pf := rfl
  -- no block is big enough for a larger alignment
  have hk : k ≤ 46 := by
    by_contra hk
    have hpow : 2 ^ 47 ≤ 2 ^ k := Nat.pow_le_pow_right Nat.two_pos (Nat.lt_of_not_le hk)
    rw [memalignRequest, if_neg (by omega)] at hle
    omega
  obtain ⟨h₁, h₂, h₃, h₄⟩ := memalignAddress_spec size hk (by omega) h16
  refine ⟨hk, a, sp.use, i, hb, h₁, h₂, ?_, by omega⟩
  cases h₄ with
  | inl he => omega
  | inr hlt => omega

theorem WorldInv.overAligned (h : WorldInv pf strict w v) (hpc : w.pc t = none)
    (hlive : w.live raw = some (t, memalignRequest (2 ^ k) size)) :
    OverAligned pf w.state t (2 ^ k) size raw (memalignAddress (2 ^ k) raw) := by
  obtain ⟨-, a, u, i, hb, h₁, h₂, h₃, h₄⟩ := h.memalign_block hlive
  obtain ⟨sp, hsp, -, rfl, -⟩ := h.heap.record hb.use
  have hsize : sp.use.blockSize = sp.blockSize := rfl
  have hpos := (h.heap.heap.sound a _ hb.use).blockSize_pos
  have hlookup := h.heap.run_getSpan hb le_rfl (Nat.lt_add_of_pos_right hpos)
  refine ⟨h₁, ⟨a, i, by rw [hlookup], ?_⟩, ⟨_, h.heap.run_cmUsable hb h₂ h₃, by omega⟩,
    h.heap.cfree_inside h.owned hpc hb hlive h₂ h₃⟩
  rw [h.heap.shows.record_eq hsp]
  exact ⟨hb.lt, hb.eq, h₂, h₃, h₄⟩

/-- `shim_memalign` returns a good address in the block `cmalloc` handed it,
and that address stays good as long as the block is out for that request. -/
theorem shimMemalign_overAligned (h : Reachable pf w) (hpc : w.pc t = none)
    (hsize : pf.NonWrapping (size + 2 ^ k - 1))
    (hmapped : ∀ e ∈ ((shimMemalign pf t (2 ^ k) size).run w.state).trace, e.Mapped) :
    ∃ p raw s tr, (shimMemalign pf t (2 ^ k) size).run w.state = ⟨.ok p, s, tr⟩ ∧
      (cmalloc pf t (memalignRequest (2 ^ k) size)).run w.state = ⟨.ok raw, s, tr⟩ ∧
      OverAligned pf s t (2 ^ k) size raw p ∧
      ∀ w', Reachable pf w' → w'.pc t = none →
        w'.live raw = some (t, memalignRequest (2 ^ k) size) →
        OverAligned pf w'.state t (2 ^ k) size raw p := by
  obtain ⟨v, hv⟩ := h.inv
  have hpos : 0 < 2 ^ k := Nat.two_pow_pos k
  have hpage := pf.pageSize_ge
  have hwrap : size + 2 ^ k - 1 ≤ 2 ^ 64 - pf.pageSize := hsize
  have hreq : pf.NonWrapping (memalignRequest (2 ^ k) size) := by
    unfold memalignRequest
    split
    · exact le_trans (by omega) hwrap
    · exact hsize
  rw [shimMemalign_eq (by omega)] at hmapped ⊢
  have hspec := (hv.cmalloc_spec hpc hreq).with_run
  rcases hrun : (cmalloc pf t (memalignRequest (2 ^ k) size)).run w.state with ⟨r, s, tr⟩
  have hall : ∀ e ∈ tr, Allowed false e := by
    intro e he
    refine allowed_of_mapped (hmapped e ?_)
    cases r with
    | error f => rwa [Program.run_bind_error hrun]
    | ok raw =>
      rw [Program.run_bind_ok hrun]
      exact List.mem_append_left _ he
  unfold Spec at hspec
  rw [hrun] at hspec
  obtain ⟨⟨raw, hr, ⟨w', v', hs, hout⟩, -⟩, -⟩ := hspec hall
  obtain rfl : r = .ok raw := hr
  obtain rfl : w'.state = s := hs
  have hlive : w'.live raw = some (t, memalignRequest (2 ^ k) size) := by
    rw [hout.live]
    exact if_pos rfl
  have hne := hout.ran.inv.heap.heap.live_ne_null hlive
  refine ⟨memalignAddress (2 ^ k) raw, raw, w'.state, tr, ?_, rfl,
    hout.ran.inv.overAligned hout.idle hlive, fun w'' h'' hpc'' hlive'' => ?_⟩
  · rw [Program.run_bind_ok hrun, if_neg hne, Program.run_pure, List.append_nil]
  · obtain ⟨v'', hv''⟩ := h''.inv
    exact hv''.overAligned hpc'' hlive''

/-- 100 bytes at a multiple of 64, on 32 MiB pages. -/
theorem shimMemalign_overAligned_first : ∃ p raw s tr, (shimMemalign .hugePages 0 (2 ^ 6) 100).run
      (.initial fun n => 2 ^ 30 * (n + 1)) = ⟨.ok p, s, tr⟩ ∧
    OverAligned .hugePages s 0 (2 ^ 6) 100 raw p :=
  have htrace : (((shimMemalign .hugePages 0 (2 ^ 6) 100).run
      (.initial fun n => 2 ^ 30 * (n + 1))).trace.all fun e => decide e.Mapped) = true := by
    decide +kernel
  have ⟨p, raw, s, tr, hrun, _, hp, _⟩ := shimMemalign_overAligned
    (w := .initial fun n => 2 ^ 30 * (n + 1)) ⟨_, .refl⟩ rfl (by decide)
    (mapped_of_all htrace)
  ⟨p, raw, s, tr, hrun, hp⟩

/-! ## Resizing -/

/-- The start of the block of `sp` that `p` is in, as `cm_usable` has it. -/
def Span.blockStart (sp : Span) (p : Nat) : Nat := sp.base + (p - sp.base) / sp.blockSize * sp.blockSize

/-- `shim_realloc` of the over-aligned `p`, out for `size` bytes, is as safe
as its caller expects: the result has room for `newSize` bytes and the bytes
of `p`, and the copy, when there is one, reads the block of `p` only. -/
structure ReallocSafe (pf : Platform) (s : State) (t : Tid) (size p newSize : Nat) : Prop where
  result : ∃ q s' tr n, (shimRealloc pf t p newSize).run s = ⟨.ok q, s', tr⟩ ∧ q ≠ NULL ∧
    (shimUsableSize pf q).run s' = ⟨.ok n, s', []⟩ ∧ newSize ≤ n ∧
    ∀ b < min size newSize, s'.bytes (q + b) = s.bytes (p + b)
  reads : ∀ a, ((cmallocGetSpan pf p).run s).result = .ok a → (s.mem.span a).blockSize < newSize →
    ∀ x, p ≤ x → x < p + (s.mem.span a).blockSize → (s.mem.span a).blockStart p ≤ x ∧
      x < (s.mem.span a).blockStart p + (s.mem.span a).blockSize

/-- `p` is the start of its block, or its block has room after `p`. -/
def ReallocFits (pf : Platform) (s : State) (p newSize : Nat) : Prop :=
  (∃ a, ((cmallocGetSpan pf p).run s).result = .ok a ∧ p = (s.mem.span a).blockStart p) ∨
    ∃ n, (shimUsableSize pf p).run s = ⟨.ok n, s, []⟩ ∧ newSize ≤ n

section

variable {newSize : Nat}

/-- What is known of an address inside a live block. -/
theorem WorldInv.inside_block (h : WorldInv pf strict w v) (hb : (w.heap v).IsBlock raw a u i)
    (h₁ : raw ≤ p) (h₂ : p < raw + u.blockSize) :
    (cmallocGetSpan pf p).run w.state = ⟨.ok a, w.state, []⟩ ∧
      (w.state.mem.span a).blockSize = u.blockSize ∧ (w.state.mem.span a).blockStart p = raw ∧
      (shimUsableSize pf p).run w.state = ⟨.ok (u.blockSize - (p - raw)), w.state, []⟩ := by
  obtain ⟨sp, hsp, -, rfl, -⟩ := h.heap.record hb.use
  have heq : raw = sp.block i := hb.eq
  refine ⟨h.heap.run_getSpan hb h₁ h₂, ?_, ?_, h.heap.run_cmUsable hb h₁ h₂⟩
  · rw [h.heap.shows.record_eq hsp]
    rfl
  · rw [h.heap.shows.record_eq hsp, Span.blockStart, Span.block_div (heq ▸ h₁) (heq ▸ h₂), heq]
    rfl

/-- Past the start of its block, and with less room than asked for, an
address is not resized safely. -/
theorem WorldInv.not_reallocSafe (h : WorldInv pf strict w v) (hb : (w.heap v).IsBlock raw a u i)
    (h₁ : raw < p) (h₂ : p < raw + u.blockSize) (hlt : u.blockSize - (p - raw) < newSize) :
    ¬ ReallocSafe pf w.state t size p newSize := by
  obtain ⟨hget, hsize, hstart, husable⟩ := h.inside_block hb h₁.le h₂
  rintro ⟨⟨q, s', tr, n, hrun, -, hn, hle, -⟩, hreads⟩
  by_cases hroom : newSize ≤ u.blockSize
  · -- in place, without the room
    rw [shimRealloc, h.run_crealloc hb h₁.le h₂ (by omega) hroom] at hrun
    cases hrun
    rw [husable] at hn
    cases hn
    omega
  · -- the copy runs past the block
    have hend := (hreads a (by rw [hget]) (by omega) (p + u.blockSize - 1) (by omega) (by omega)).2
    omega

/-- A block's own address is resized safely. -/
theorem WorldInv.reallocSafe_start (h : WorldInv pf strict w v) (hpc : w.pc t = none)
    (hb : (w.heap v).IsBlock raw a u i) (hlive : w.live raw = some (t, n)) (hle : size ≤ u.blockSize)
    (h0 : 0 < newSize) (hn : pf.NonWrapping newSize)
    (hA : ∀ e ∈ ((shimRealloc pf t raw newSize).run w.state).trace, Allowed strict e) :
    ReallocSafe pf w.state t size raw newSize := by
  have hpos := (h.heap.heap.sound a u hb.use).blockSize_pos
  obtain ⟨hget, hsize, hstart, husable⟩ := h.inside_block hb le_rfl (Nat.lt_add_of_pos_right hpos)
  constructor
  case reads =>
    intro b hb' _ x hx hx'
    rw [hget] at hb'
    cases hb'
    rw [hstart]
    exact ⟨hx, hx'⟩
  case result =>
    by_cases hroom : newSize ≤ u.blockSize
    · refine ⟨raw, w.state, [], _, ?_, h.heap.heap.live_ne_null hlive, husable, by omega, fun _ _ => rfl⟩
      exact h.run_crealloc hb le_rfl (Nat.lt_add_of_pos_right hpos) h0 hroom
    · obtain ⟨⟨q, hq, w', v', hs, hout⟩, -⟩ := h.crealloc_spec hpc hb hlive hn
        (Nat.lt_of_not_le hroom) hA
      have hself : w'.live q = some (t, newSize) := by
        rw [hout.live]
        exact if_pos rfl
      obtain ⟨b, x, j, hblock, -, -, hfit⟩ := hout.ran.inv.heap.heap.live_block hself
      have hpos' := (hout.ran.inv.heap.heap.sound b x hblock.use).blockSize_pos
      obtain ⟨-, -, -, husable'⟩ := hout.ran.inv.inside_block hblock le_rfl
        (Nat.lt_add_of_pos_right hpos')
      refine ⟨q, w'.state, _, _, hs ▸ Program.run_of_result hq,
        hout.ran.inv.heap.heap.live_ne_null hself, husable', by omega, fun b hb' => ?_⟩
      exact hout.fills u hb.use b (by omega)

end

end

end FastAlloc
