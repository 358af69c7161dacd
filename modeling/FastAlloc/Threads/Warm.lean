/-
FastAlloc.Threads.Warm — taking a block from a bin and giving it back
restores the whole library state.
-/
import FastAlloc.Threads.Live

namespace FastAlloc

open Lib Mem View

section

variable {pf : Platform} {strict : Bool} {W : Watch} {s s₀ s' : State} {v v' : View} {H : Heap}
  {w : World} {a i n p q r size : Nat} {sp : Span} {t : Tid} {c : Int}

theorem Tracks.trans (h : Tracks pf strict W s₀ s v) (h' : Tracks pf strict W s s' v')
    (hs : ∀ a, v'.span a = none → v.span a = none) : Tracks pf strict W s₀ s' v' := by
  refine ⟨h'.shows, ?_, fun a ha => (h'.other a ha).trans (h.other a (hs a ha))⟩
  rw [h'.state, h.state]

/-! ## Links and blocks -/

namespace View

variable {next prev next' prev' : Nat → Nat} {bins bins' : Tid → Int → Nat}

@[simp] theorem withLinks_withLinks : (v.withLinks next prev bins).withLinks next' prev' bins' =
    v.withLinks next' prev' bins' := by
  have hspan : ((v.withLinks next prev bins).withLinks next' prev' bins').span =
      (v.withLinks next' prev' bins').span := by
    funext b
    rcases hb : v.span b with _ | sp
    · rw [span_withLinks_none hb, span_withLinks_none (span_withLinks_none hb)]
    · rw [span_withLinks hb, span_withLinks (span_withLinks hb)]
  exact congrArg (fun span => ({ v with span := span, localBin := bins' } : View)) hspan

/-- A change of one record that does not touch its links. -/
theorem update_withLinks (f : Span → Span) (ha : v.span a = some sp)
    (hf : ∀ x y, f { sp with nextInSizeClassBin := x, prevInSizeClassBin := y } =
      { f sp with nextInSizeClassBin := x, prevInSizeClassBin := y }) :
    (v.withLinks next prev bins).setSpan a (f ((v.withLinks next prev bins).record a)) =
      (v.setSpan a (f (v.record a))).withLinks next prev bins := by
  rw [record_of (span_withLinks ha), record_of ha, hf]
  have hspan : ((v.withLinks next prev bins).setSpan a
      { f sp with nextInSizeClassBin := next a, prevInSizeClassBin := prev a }).span =
      ((v.setSpan a (f sp)).withLinks next prev bins).span := by
    funext b
    by_cases hba : b = a
    · rw [hba, span_set_self, span_withLinks span_set_self]
    · rw [span_set_of_ne hba]
      rcases hb : v.span b with _ | x
      · rw [span_withLinks_none hb, span_withLinks_none ((span_set_of_ne hba).trans hb)]
      · rw [span_withLinks hb, span_withLinks ((span_set_of_ne hba).trans hb)]
  exact congrArg (fun span => ({ v with span := span, localBin := bins } : View)) hspan

theorem allocBlock_withLinks (ha : v.span a = some sp) :
    (v.withLinks next prev bins).allocBlock a = (v.allocBlock a).withLinks next prev bins :=
  update_withLinks Span.takeBlock ha fun _ _ => rfl

theorem giveBack_withLinks (ha : v.span a = some sp) :
    (v.withLinks next prev bins).giveBack a i = (v.giveBack a i).withLinks next prev bins :=
  update_withLinks (Span.giveBlock i) ha fun _ _ => rfl

theorem giveBack_allocBlock (ha : v.span a = some sp) (hr : sp.takeBlock.giveBlock i = sp) :
    (v.allocBlock a).giveBack a i = v := by
  rw [View.giveBack, View.allocBlock, record_setSpan_self, record_of ha, hr]
  have hspan : Function.update (Function.update v.span a (some sp.takeBlock)) a (some sp) = v.span := by
    rw [Function.update_idem, ← ha, Function.update_eq_self]
  exact congrArg (fun span => ({ v with span := span } : View)) hspan

theorem nextLink_withLinks (ha : v.span a = some sp) :
    (v.withLinks next prev bins).nextLink a = next a := by
  rw [nextLink_of (span_withLinks ha)]

theorem prevLink_withLinks (ha : v.span a = some sp) :
    (v.withLinks next prev bins).prevLink a = prev a := by
  rw [prevLink_of (span_withLinks ha)]

/-- A span that left its bin to hand out its last block and came back with
that block is where it was. -/
theorem giveBack_binPush (h : v.Bins H.bin) (hb : H.bin a = some (t, c)) (ha : v.localBin t c = a)
    (hsp : v.span a = some sp) (hnull : v.span NULL = none)
    (hr : sp.takeBlock.giveBlock i = sp) :
    (((v.binRemove t c a).allocBlock a).binPush t c a).giveBack a i = v := by
  have hprev : v.prevLink a = NULL := ((h.lists (t, c)).prev_eq_null_iff hb).mpr ha.symm
  have hne : ∀ b x, v.span b = some x → b ≠ NULL := by
    rintro b x hx rfl
    rw [hnull] at hx
    cases hx
  have hout : (v.binRemove t c a).allocBlock a = (v.allocBlock a).withLinks
      (Lists.removeNext NULL v.nextLink v.prevLink a) (Lists.removePrev NULL v.nextLink v.prevLink a)
      (Function.update v.localBin t (Function.update (v.localBin t) c (v.nextLink a))) := by
    rw [binRemove, allocBlock_withLinks hsp, if_pos hprev]
  have hself : (v.allocBlock a).span a = some sp.takeBlock := by
    rw [View.allocBlock, record_of hsp, span_set_self]
  have hspan : ∀ b x, v.span b = some x → ∃ y, (v.allocBlock a).span b = some y := by
    intro b x hx
    by_cases hba : b = a
    · rw [hba]
      exact ⟨_, hself⟩
    · exact ⟨x, (span_set_of_ne hba).trans hx⟩
  rw [hout, binPush, withLinks_withLinks, giveBack_withLinks hself, giveBack_allocBlock hsp hr]
  have hhead : Function.update v.localBin t (Function.update (v.localBin t) c (v.nextLink a)) t c =
      v.nextLink a := by
    simp
  have hbins : Function.update
      (Function.update v.localBin t (Function.update (v.localBin t) c (v.nextLink a))) t
      (Function.update (Function.update v.localBin t (Function.update (v.localBin t) c (v.nextLink a)) t)
        c a) = v.localBin := by
    simp [← ha]
  refine Eq.trans ?_ v.withLinks_self
  change v.withLinks (Function.update _ a
    (Function.update v.localBin t (Function.update (v.localBin t) c (v.nextLink a)) t c))
    (Lists.pushPrev NULL _
      (Function.update v.localBin t (Function.update (v.localBin t) c (v.nextLink a)) t c) a)
    (Function.update _ t (Function.update _ c a)) = _
  rw [hhead]
  refine (congrArg _ hbins).trans (withLinks_congr fun b x hx => ?_)
  obtain ⟨y, hy⟩ := hspan b x hx
  obtain ⟨hn, hp⟩ := h.lists.push_remove_head hb ha (hne b x hx)
  rw [← hn, ← hp]
  by_cases hba : b = a
  · rw [hba, Function.update_self, Function.update_self, Lists.pushPrev, Lists.pushPrev, if_pos rfl,
      if_pos rfl]
    exact ⟨rfl, rfl⟩
  · rw [Function.update_of_ne hba, Function.update_of_ne hba, nextLink_withLinks hy, Lists.pushPrev,
      Lists.pushPrev, if_neg hba, if_neg hba, prevLink_withLinks hy]
    exact ⟨rfl, rfl⟩

theorem freeUnlocked_of_full (hc : (v.record a).sizeClassIndex = c) (hl : c ≠ largeClassSizeIndex)
    (h0 : (v.record a).freeCount = 0) :
    v.freeUnlocked t a i = (v.binPush t c a).giveBack a i := by
  rw [freeUnlocked, hc, if_neg hl, if_pos h0]

theorem freeUnlocked_of_more (hl : (v.record a).sizeClassIndex ≠ largeClassSizeIndex)
    (h0 : (v.record a).freeCount ≠ 0)
    (hlast : (v.record a).freeCount + 1 ≠ (v.record a).blockCount) :
    v.freeUnlocked t a i = v.giveBack a i := by
  rw [freeUnlocked, if_neg hl, if_neg h0, if_neg hlast]

/-- The head of a bin gave a block and got it back. -/
theorem freeUnlocked_takeFromBin (h : HeapInv pf strict W s v H) (ha : v.localBin t c = a)
    (h0 : a ≠ NULL) (hsp : v.span a = some sp) :
    (v.takeFromBin t c).freeUnlocked t a sp.firstFree = v := by
  subst ha
  obtain ⟨x, hx, hi, hblocks, huse, hpos, hlt, -, hc⟩ := h.head h0
  obtain rfl := Option.some.inj (hx.symm.trans hsp)
  have hbin : H.bin (v.localBin t c) = some (t, c) := h.bins.lists.head_mem (i := (t, c)) h0
  have hne := hblocks.nonfull_ne_zero_iff.mpr hpos
  have hr := hblocks.giveBlock_takeBlock hne
  have hcount := hblocks.freeCount_takeBlock hne
  have hcls : c ≠ largeClassSizeIndex := by
    intro hl
    have hone : x.blockCount = 1 := (h.heap.sound _ _ huse).blockCount_large (hc.trans hl)
    omega
  have hrec : (v.allocBlock (v.localBin t c)).record (v.localBin t c) = x.takeBlock := by
    rw [allocBlock, record_setSpan_self, record_of hx]
  unfold takeFromBin
  rw [record_of hx]
  by_cases hlast : x.freeCount = 1
  · -- out of its bin, and back in front
    rw [if_pos hlast]
    have hc' : (((v.binRemove t c (v.localBin t c)).allocBlock (v.localBin t c)).record
        (v.localBin t c)).sizeClassIndex = c := by
      rw [binRemove, allocBlock_withLinks hx, record_withLinks_eq Span.sizeClassIndex fun _ _ _ => rfl,
        hrec]
      exact hc
    have hcount' : (((v.binRemove t c (v.localBin t c)).allocBlock (v.localBin t c)).record
        (v.localBin t c)).freeCount = 0 := by
      rw [binRemove, allocBlock_withLinks hx, record_withLinks_eq Span.freeCount fun _ _ _ => rfl, hrec]
      omega
    rw [freeUnlocked_of_full hc' hcls hcount']
    exact giveBack_binPush h.bins hbin rfl hx h.null hr
  · have hblocks' : x.takeBlock.blockCount = x.blockCount := rfl
    have hc' : x.takeBlock.sizeClassIndex = c := hc
    rw [if_neg hlast, freeUnlocked_of_more (by rw [hrec, hc']; exact hcls) (by rw [hrec]; omega)
      (by rw [hrec]; omega)]
    exact giveBack_allocBlock hx hr

theorem takeFromBin_span_none (ha : v.localBin t c = a) (hsp : v.span a = some sp)
    (hb : v.span n = none) : (v.takeFromBin t c).span n = none := by
  have hna : n ≠ a := by
    rintro rfl
    rw [hsp] at hb
    cases hb
  unfold takeFromBin
  rw [ha, allocBlock, span_set_of_ne hna]
  split
  · exact span_withLinks_none hb
  · exact hb

end View

/-! ## The warm path -/

/-- `cmalloc` from a bin that is not empty and `cfree` of any address inside
the block, neither of them entering the lock, restore the state. -/
structure WarmPair (pf : Platform) (s : State) (t : Tid) (size p : Nat) (s₁ : State) : Prop where
  malloc : ∃ tr, (cmalloc pf t size).run s = ⟨.ok p, s₁, tr⟩
  unlocked : ∃ tr, (enter pf t (.malloc size)).run s = ⟨.ok ⟨.done p, some (p, size), none⟩, s₁, tr⟩
  free : ∀ q, p ≤ q → q < p + (s.mem.span (s.threadLocalBin t (getSizeClassIndex size))).blockSize →
    (∃ tr, (cfree pf t q).run s₁ = ⟨.ok (), s, tr⟩) ∧
    ∃ tr, (enter pf t (.free q)).run s₁ = ⟨.ok ⟨.done NULL, none, some q⟩, s, tr⟩

/-- A `cmalloc` that its bin can serve, and the `cfree` of what it returned,
leave the library as it was. -/
theorem warm_pair (h : Reachable pf w) (hpc : w.pc t = none) (hsize : size ≤ maxSizeClass)
    (hbin : w.state.threadLocalBin t (getSizeClassIndex size) ≠ NULL) :
    ∃ p s₁, WarmPair pf w.state t size p s₁ := by
  obtain ⟨v, hv⟩ := h.inv
  have hcls : getSizeClassIndex size ≠ largeClassSizeIndex := getSizeClassIndex_ne_large_iff.mpr hsize
  rw [hv.heap.shows.localBin_eq] at hbin
  generalize hc : getSizeClassIndex size = c at hbin hcls
  obtain ⟨sp, hsp, hi, hblocks, huse, hpos, hlt, ho, hspc⟩ := hv.heap.head hbin
  have hfree := hblocks.firstFree_mem (hblocks.nonfull_ne_zero_iff.mpr hpos)
  have hsound := hv.heap.heap.sound _ _ huse
  have hle : size ≤ sp.blockSize := by
    obtain ⟨x, -, hs, -⟩ := hsound.request
    rw [show sp.use.cls = c from hspc, requestBlockSize, if_neg hcls] at hs
    exact ((getSizeClassIndex_small hsize).2.2.trans_eq (by rw [hc])).trans_eq hs.symm
  -- the block comes from the bin
  obtain ⟨⟨r, hr, hcase⟩, -⟩ := cmallocFromBin_tracks (A := fun _ => True) (t := t) (c := c) hv.heap
    fun _ _ => trivial
  rcases hcase with ⟨hno, -⟩ | ⟨-, rfl, ht⟩
  · exact absurd hno (not_or.mpr ⟨hcls, hbin⟩)
  have hrun := Program.run_of_result hr
  rw [record_of hsp] at hrun
  generalize ((cmallocFromBin t c).run w.state).state = s₁ at ht hrun
  generalize ((cmallocFromBin t c).run w.state).trace = tr₁ at hrun
  have hinv := hv.heap.takeFromBin (n := size) hbin ho (by rw [record_of hsp]; exact hle) hpc ht.shows
  rw [record_of hsp] at hinv
  have hp0 : sp.use.block sp.firstFree ≠ NULL := hsound.block_ne_null
  refine ⟨sp.use.block sp.firstFree, s₁, ⟨tr₁ ++ [], ?_⟩, ⟨tr₁ ++ [], ?_⟩, fun q h₁ h₂ => ?_⟩
  · unfold cmalloc
    rw [hc]
    exact Program.run_bind hrun rfl
  · simp only [enter]
    unfold mallocPart
    rw [hc]
    refine Program.run_bind hrun ?_
    dsimp only
    rw [afterMalloc, if_neg hp0]
    rfl
  -- and goes back to it
  rw [hc, hv.heap.shows.localBin_eq, hv.heap.shows.record_eq hsp] at h₂
  have hb : ((w.heap v).take t (v.localBin t c) sp.use sp.firstFree size).IsBlock
      (sp.use.block sp.firstFree) (v.localBin t c) (sp.use.take sp.firstFree) sp.firstFree :=
    ⟨Heap.take_use_self, hsound.free _ hfree, Usage.take_block.symm⟩
  have hlive : ((w.heap v).take t (v.localBin t c) sp.use sp.firstFree size).live
      (sp.use.block sp.firstFree) = some (t, size) := Heap.take_live_self
  have hheap := hinv.heap.give (q := NULL) hb hlive Heap.take_pc_self (fun _ _ => ho) (.inl ⟨ho, rfl⟩)
  obtain ⟨⟨o, hres, rfl, ht', -⟩, -⟩ := cfreeUnlocked_spec (A := fun _ => True) hinv hb hlive h₁ h₂
    (fun _ _ => ho) NULL hheap fun _ _ => trivial
  have hmore : ¬ ((sp.use.take sp.firstFree).cls = largeClassSizeIndex ∨
      ((sp.use.take sp.firstFree).give sp.firstFree).AllFree) := by
    rintro (hl | hall)
    · exact hcls (hspc.symm.trans hl)
    · have hsame : ((sp.use.take sp.firstFree).give sp.firstFree).free = sp.freeBlocks := by
        change (if sp.sizeClassIndex = largeClassSizeIndex then _ else
          insert sp.firstFree (sp.freeBlocks.erase sp.firstFree)) = _
        rw [if_neg fun hl => hcls (hspc.symm.trans hl)]
        exact Finset.insert_erase hfree
      have hcard : sp.freeBlocks.card = sp.blockCount := hsame ▸ hall
      have hcount := hblocks.freeCount
      omega
  rw [View.freeUnlocked_takeFromBin hv.heap rfl hbin hsp] at ht'
  have hback := (ht.trans ht' fun x hx => View.takeFromBin_span_none rfl hsp hx).eq
    (Tracks.refl hv.heap.shows) rfl rfl
  rw [if_neg hmore] at hres
  have hrun' := Program.run_of_result hres
  rw [hback] at hrun'
  generalize ((cfreeUnlocked pf t q).run s₁).trace = tr₂ at hrun'
  have hq0 : q ≠ NULL := ne_null_of_le hp0 h₁
  refine ⟨⟨tr₂ ++ [], ?_⟩, ⟨tr₂ ++ [], ?_⟩⟩
  · unfold cfree
    rw [if_neg hq0]
    exact Program.run_bind hrun' rfl
  · simp only [enter]
    rw [if_neg hq0]
    exact Program.run_bind hrun' rfl

/-- A second block of 16 bytes, on 32 MiB pages. -/
theorem warm_pair_first : ∃ (w : World) (p : Nat) (s₁ : State),
    w.live (2 ^ 31) = some (0, 16) ∧ WarmPair .hugePages w.state 0 16 p s₁ :=
  have hbin : ((cmalloc .hugePages 0 16).run
      (.initial fun n => 2 ^ 30 * (n + 1))).state.threadLocalBin 0 (getSizeClassIndex 16) ≠ NULL := by
    decide +kernel
  have ⟨w, hw, hlive, hpc, hs⟩ := Reachable.first
  have ⟨p, s₁, h⟩ := warm_pair hw (hpc 0) (by decide) (hs ▸ hbin)
  ⟨w, p, s₁, hlive, h⟩

end

end FastAlloc
