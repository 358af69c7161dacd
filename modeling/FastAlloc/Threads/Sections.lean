/-
FastAlloc.Threads.Sections — the two critical sections as moves of the
abstract heap, and stores to user data, which it does not see.
-/
import FastAlloc.Threads.Parts

namespace FastAlloc

open Lib Mem View

section

variable {pf : Platform} {strict : Bool} {W : Watch} {s s' : State} {v v' : View} {H H' : Heap}
  {a b i n p q size : Nat} {sp : Span} {u : Usage} {t : Tid} {client : Client} {bytes : Nat → UInt8}

/-! ## Changes the heap does not see -/

/-- The heap may say otherwise where its threads stand and who owns its
blocks. -/
theorem HeapInv.of_heap (h : HeapInv pf strict W s v H) (hok : HeapOk pf H') (hu : H'.use = H.use)
    (hb : H'.bin = H.bin) : HeapInv pf strict W s v H' :=
  ⟨h.shows, h.sound, h.use.trans hu.symm, hok, hb ▸ h.bins⟩

theorem Shows.setBytes (h : Shows pf strict W s v) (bytes : Nat → UInt8) :
    Shows pf strict W { s with bytes := bytes } { v with bytes := bytes } := by
  obtain ⟨st, h⟩ := h
  exact ⟨st, h.arena.of_eq rfl rfl rfl rfl, h.settled, h.fresh, h.root, h.trie, h.noEmptyNode, h.span,
    h.chunk, h.look, h.bin, h.bitmap, h.dataArena, h.localBin, h.region, fun _ _ _ _ _ => rfl, h.watch,
    h.watched⟩

/-- User data is written. -/
theorem HeapInv.setBytes (h : HeapInv pf strict W s v H) (bytes : Nat → UInt8) :
    HeapInv pf strict W { s with bytes := bytes } { v with bytes := bytes } H :=
  ⟨h.shows.setBytes bytes,
    ⟨⟨h.sound.toGeometry.of_eq rfl rfl rfl rfl rfl, h.sound.toPool.of_eq rfl rfl rfl⟩, h.sound.blocks⟩,
    h.use, h.heap, h.bins.lists, h.bins.span⟩

/-- The bytes of the spans in use are as they were. -/
def KeepsBytes (pf : Platform) (H : Heap) (s s' : State) : Prop :=
  ∀ a u, H.use a = some u → ∀ p, u.base ≤ p → p < u.base + u.size pf → s'.bytes p = s.bytes p

theorem KeepsBytes.of_eq (h : s'.bytes = s.bytes) : KeepsBytes pf H s s' := fun _ _ _ _ _ _ => by
  rw [h]

/-- So are those of their blocks. -/
theorem KeepsBytes.block (hk : KeepsBytes pf H s s') (h : HeapOk pf H) (hb : H.IsBlock p a u i)
    (h₁ : p ≤ q) (h₂ : q < p + u.blockSize) : s'.bytes q = s.bytes q := by
  have hle := (h.sound a u hb.use).block_le hb.lt
  have heq := hb.eq
  have hbase : u.base ≤ u.block i := Nat.le_add_right _ _
  exact hk a u hb.use q (by omega) (by omega)

/-- Two views agree on the bytes of the spans whose regions both have. -/
theorem HeapInv.keepsBytes (h : HeapInv pf strict W s v H) (hs : Shows pf strict W s' v')
    (hsub : ∀ b u, H'.use b = some u → H.use b = some u)
    (hr : ∀ b u sp r, H'.use b = some u → v.span b = some sp → v.region r → r.base ≤ sp.base →
      sp.base + sp.size pf ≤ r.base + r.len → v'.region r)
    (hbytes : ∀ r, v.region r → ∀ p, r.base ≤ p → p < r.base + r.len → v'.bytes p = v.bytes p) :
    KeepsBytes pf H' s s' := by
  intro b u hb p h₁ h₂
  obtain ⟨sp, hsp, -, rfl, -⟩ := h.record (hsub b u hb)
  obtain ⟨r, hreg, h₃, h₄⟩ := h.sound.exists_region hsp
  have hr₁ : r.base ≤ p := h₃.trans h₁
  have hr₂ : p < r.base + r.len := Nat.lt_of_lt_of_le h₂ h₄
  obtain ⟨st, hst⟩ := h.shows
  obtain ⟨st', hst'⟩ := hs
  rw [hst'.bytes r (hr b _ sp r hb hsp hreg h₃ h₄) p hr₁ hr₂, hbytes r hreg p hr₁ hr₂,
    hst.bytes r hreg p hr₁ hr₂]

/-! ## A span is initialised -/

/-- What a span just initialised is to the heap. -/
theorem HeapInv.start (h : HeapInv pf strict W s v H) (hpc : H.pc t = some (.initSpan client size))
    (hinit : v.Initialized pf (getSizeClassIndex size) size a v') (hs : Shows pf strict W s' v') :
    H.use a = none ∧ HeapInv pf strict W s' v' (H.start t a (v'.record a).use client size) ∧
      KeepsBytes pf H s s' := by
  have hreq := request_of_nonWrapping (h.heap.pcs t _ hpc).1
  have hok := hinit.ok h.sound.toOk hreq
  obtain ⟨root, v₁, sp, sp', hr, hroot, hsup, hsp, hprep, rfl⟩ := hinit
  have hok' : View.Ok pf (fun _ => False) { v with root := root } :=
    ⟨h.sound.toGeometry.of_eq rfl rfl rfl rfl rfl, h.sound.toPool.of_eq rfl rfl rfl⟩
  have hsupplied := hsup.supplied hok' hreq.sized.pages
  have hself : (v₁.setSpan a sp').span a = some sp' := span_set_self
  obtain ⟨x, hx, hpages, -⟩ := hsupplied.span
  obtain rfl : sp = x := Option.some.inj (hsp.symm.trans hx)
  -- it was not in use before
  have hnone : H.use a = none := by
    rw [← h.use]
    by_contra hne
    obtain ⟨u, hu⟩ := Option.ne_none_iff_exists'.mp hne
    obtain ⟨y, hy, hi, -⟩ := use_eq_some.mp hu
    rw [hsupplied.taken y hy] at hi
    cases hi
  have hcount : sp'.freeBlocks.card = sp'.blockCount := by
    rw [hprep.freeBlocks, Finset.card_range]
  have hsound : sp'.use.Sound pf := by
    refine ⟨⟨size, ?_, ?_, ?_⟩, ?_, (hok.bounds hself).1, (hok.placed a sp' hself).aligned, fun i hi => ?_⟩
    · rw [show sp'.use.cls = getSizeClassIndex size from hprep.sizeClassIndex]
      exact hreq
    · exact hprep.blockSize.trans (by rw [Span.use, hprep.sizeClassIndex])
    · exact (hprep.pages.pageCount.trans hpages).trans (by rw [Span.use, hprep.sizeClassIndex])
    · exact hprep.blockCount.trans (by rw [Span.use, hprep.sizeClassIndex])
    · exact hprep.blocks.lt_of_mem hi
  -- the other spans keep their blocks and their links
  have hother : ∀ b, b ≠ a → (v₁.setSpan a sp').use b = H.use b := by
    intro b hb
    rw [View.use, span_set_of_ne hb, ← h.use]
    rcases hv : v.span b with _ | y
    · rw [View.use, hv]
      rcases hv₁ : v₁.span b with _ | z
      · rfl
      · have hz := hsupplied.made b z hb hv hv₁
        simp [hz]
    · obtain ⟨p, hp⟩ := hsupplied.kept b y hb hv
      rw [hp, View.use, hv]
      rfl
  have huse : (v₁.setSpan a sp').use = (H.start t a sp'.use client size).use := by
    funext b
    by_cases hb : b = a
    · rw [hb, Heap.start_use_self, use_of hself hprep.isInitialized]
    · rw [hother b hb]
      exact (Function.update_of_ne hb _ _).symm
  have hbin : (H.start t a sp'.use client size).bin = H.bin := by
    funext b
    by_cases hb : b = a
    · rw [hb, Heap.bin_of Heap.start_use_self, Heap.bin_of_none hnone, if_neg]
      intro hlt
      have hlt' : sp'.freeBlocks.card < sp'.blockCount := hlt.2
      omega
    · exact Heap.bin_congr (Function.update_of_ne hb _ _) (Function.update_of_ne hb _ _)
  rw [record_of hself]
  refine ⟨hnone, ⟨hs, ⟨hok, ?_⟩, huse, ?_, ?_⟩, ?_⟩
  · refine forall_setSpan (fun b y hb hy hi => ?_) fun _ => hprep.blocks
    rcases hv : v.span b with _ | z
    · rw [hsupplied.made b y hb hv hy] at hi
      cases hi
    · obtain ⟨p, hp⟩ := hsupplied.kept b z hb hv
      obtain rfl := Option.some.inj (hp.symm.trans hy)
      have hblocks := h.sound.blocks b z hv hi
      exact ⟨hblocks.count_le, hblocks.bit_lt, hblocks.summary, hblocks.freeCount⟩
  · refine h.heap.start hnone hpc hsound hcount hprep.sizeClassIndex ?_ fun b w hb hw => ?_
    · exact size_le_requestBlockSize.trans_eq hprep.blockSize.symm
    · rw [← hother b hb] at hw
      obtain ⟨y, hy, -, rfl⟩ := use_eq_some.mp hw
      exact hok.apart hself hy hb.symm
  · rw [hbin]
    have hlink : ∀ b i, H.bin b = some i → ∃ y p, v.span b = some y ∧
        (v₁.setSpan a sp').span b = some { y with physPrev := p } := by
      intro b i hb
      have hba : b ≠ a := by
        rintro rfl
        rw [Heap.bin_of_none hnone] at hb
        cases hb
      obtain ⟨y, hy⟩ := h.bins.span b i hb
      obtain ⟨p, hp⟩ := hsupplied.kept b y hba hy
      exact ⟨y, p, hy, (span_set_of_ne hba).trans hp⟩
    refine ⟨h.bins.lists.congr (fun b i hb => ?_) (fun i => ?_) fun _ => rfl, fun b i hb => ?_⟩
    · obtain ⟨y, p, hy, hy'⟩ := hlink b i hb
      rw [nextLink_of hy', prevLink_of hy', nextLink_of hy, prevLink_of hy]
      exact ⟨rfl, rfl⟩
    · change v₁.localBin i.1 i.2 = v.localBin i.1 i.2
      rw [hsupplied.localBin]
    · obtain ⟨y, p, -, hy'⟩ := hlink b i hb
      exact ⟨_, hy'⟩
  · exact h.keepsBytes hs (fun _ _ hb => hb) (fun _ _ _ r _ _ hr _ _ => hsupplied.region r hr)
      hsupplied.bytes

/-! ## A span is given up -/

theorem HeapInv.drop (h : HeapInv pf strict W s v H) (hpc : H.pc t = some (.cache a q))
    (ha : v.span a = some sp) (hs : Shows pf strict W s' (v.retire pf a sp)) :
    HeapInv pf strict W s' (v.retire pf a sp) (H.drop t a) := by
  obtain ⟨-, u, hu, -⟩ := h.heap.pcs t _ hpc
  obtain ⟨x, hx, hi, -⟩ := h.record hu
  obtain rfl : sp = x := Option.some.inj (ha.symm.trans hx)
  have hnone : H.bin a = none := Heap.bin_of_transit h.heap ⟨t, _, hpc, rfl⟩
  have hgone : ∀ x, (v.retire pf a sp).span a = some x → x.isInitialized = false := by
    intro x hx
    by_contra hi'
    have hex := (not_initialized_retire a).mp
      ⟨x, hx, Bool.eq_true_of_not_eq_false hi'⟩
    exact hex.2 rfl
  refine ⟨hs, ⟨h.sound.toOk.retire ha hi, fun b x hx hi' => ?_⟩, ?_, h.heap.drop hpc, ?_⟩
  · by_cases hb : b = a
    · subst hb
      rw [hgone x hx] at hi'
      cases hi'
    · rw [retire_span_of_ne hb] at hx
      exact h.sound.blocks b x hx hi'
  · funext b
    by_cases hb : b = a
    · rw [hb, Heap.drop_use_self, View.use]
      rcases hx : (v.retire pf a sp).span a with _ | x
      · rfl
      · simp [hgone x hx]
    · rw [View.use, retire_span_of_ne hb, ← View.use, h.use]
      exact (Function.update_of_ne hb _ _).symm
  · have hbin : (H.drop t a).bin = H.bin := by
      funext b
      by_cases hb : b = a
      · rw [hb, Heap.bin_of_none Heap.drop_use_self, hnone]
      · exact Heap.bin_congr (Function.update_of_ne hb _ _) rfl
    have hlocal : (v.retire pf a sp).localBin = v.localBin := by
      unfold View.retire
      split
      · rfl
      · rfl
    rw [hbin]
    have hne : ∀ b i, H.bin b = some i → b ≠ a := by
      rintro b i hb rfl
      rw [hnone] at hb
      cases hb
    refine ⟨h.bins.lists.congr (fun b i hb => ?_) (fun i => by rw [hlocal]) fun _ => rfl,
      fun b i hb => ?_⟩
    · have hspan : (v.retire pf a sp).record b = v.record b := by
        rw [View.record, retire_span_of_ne (hne b i hb), View.record]
      rw [nextLink, prevLink, hspan]
      exact ⟨rfl, rfl⟩
    · obtain ⟨y, hy⟩ := h.bins.span b i hb
      exact ⟨y, (retire_span_of_ne (hne b i hb)).trans hy⟩

/-- Giving up a span leaves the bytes of the others. -/
theorem HeapInv.drop_keepsBytes (h : HeapInv pf strict W s v H) (ha : v.span a = some sp)
    (hs : Shows pf strict W s' (v.retire pf a sp)) : KeepsBytes pf (H.drop t a) s s' := by
  have hne : ∀ b u, (H.drop t a).use b = some u → b ≠ a := by
    rintro b u hb rfl
    rw [Heap.drop_use_self] at hb
    cases hb
  have hbytes : (v.retire pf a sp).bytes = v.bytes := by
    unfold View.retire
    split
    · rfl
    · rfl
  refine h.keepsBytes hs (fun b u hb => (Function.update_of_ne (hne b u hb) _ _).symm.trans hb)
    (fun b u x r hb hx hreg h₁ h₂ => ?_) fun _ _ _ _ _ => by rw [hbytes]
  unfold View.retire
  split
  · -- the region that goes was the span's own
    refine ⟨hreg, ?_⟩
    rintro rfl
    have hpos := (h.sound.bounds hx).2.2
    have happart := h.sound.apart hx ha (hne b u hb)
    dsimp only at h₁ h₂
    omega
  · exact hreg

/-! ## The critical sections -/

theorem initializeSpan_inv (h : HeapInv pf strict W s v H)
    (hpc : H.pc t = some (.initSpan client size))
    (hkeys : ∀ k, W.keys k → ∃ a sp, v.span a = some sp ∧ sp.isInitialized = true ∧ sp.Covers pf k) :
    Spec (Allowed strict) (onStore W.Ok) (cmallocInitializeSpan pf (getSizeClassIndex size) size) s
      fun a s' => ∃ v', v.Initialized pf (getSizeClassIndex size) size a v' ∧ H.use a = none ∧
        HeapInv pf strict W s' v' (H.start t a (v'.record a).use client size) ∧
        KeepsBytes pf H s s' := by
  have hreq := request_of_nonWrapping (h.heap.pcs t _ hpc).1
  refine (cmallocInitializeSpan_spec h.shows h.sound.toOk hkeys hreq).mono ?_
  rintro a s' ⟨v', hs, hinit⟩
  exact ⟨v', hinit, h.start hpc hinit hs⟩

theorem cacheSpan_inv (h : HeapInv pf strict W s v H) (hpc : H.pc t = some (.cache a q))
    (hkeys : ∀ sp, v.span a = some sp → ∀ k, W.keys k → ¬ sp.Covers pf k) :
    Spec (Allowed strict) (onStore W.Ok) (cmallocCacheSpan pf a) s fun _ s' => ∃ sp,
      v.span a = some sp ∧ HeapInv pf strict W s' (v.retire pf a sp) (H.drop t a) ∧
      KeepsBytes pf (H.drop t a) s s' := by
  obtain ⟨-, u, hu, -⟩ := h.heap.pcs t _ hpc
  obtain ⟨sp, hsp, -⟩ := h.record hu
  refine (cmallocCacheSpan_spec h.shows h.sound.toGeometry hsp (hkeys sp hsp)).mono fun _ s' hs => ?_
  exact ⟨sp, hsp, h.drop hpc hsp hs, h.drop_keepsBytes hsp hs⟩

end

end FastAlloc
