/-
FastAlloc.Threads.Whole — `cmalloc` and `cfree` as whole moves of the heap,
and what they do to the places of the spans.

The specifications of `Calls` say what a whole call leaves of the world;
these say what it does to the view, which is needed where the order of calls
or the supply of spans matters.
-/
import FastAlloc.Threads.Alike

namespace FastAlloc

open Lib Mem View

/-- A usage, but for its free blocks. -/
def Usage.shape (u : Usage) : Usage := { u with free := ∅ }

/-- The heap after a whole `cfree` of block `i` of `a`. -/
def Heap.free (H : Heap) (t : Tid) (a : Nat) (u : Usage) (i : Nat) : Heap :=
  if u.cls = largeClassSizeIndex ∨ (u.give i).AllFree then (H.give t a u i NULL).drop t a
  else H.give t a u i NULL

/-- What a `cfree` does to the places: a span mapped for one request goes,
with its region. -/
structure View.Releases (pf : Platform) (v : View) (a : Nat) (u : Usage) (v' : View) : Prop where
  place : v'.place = if maxBinnedPages ≤ u.pages then Function.update v.place a none else v.place
  region : ∀ r, v'.region r ↔
    v.region r ∧ ¬ (maxBinnedPages ≤ u.pages ∧ r = ⟨u.base, u.size pf, .direct⟩)

/-- Thread `t` got the block `p` from its bin. -/
structure Heap.TakesBinned (H : Heap) (v : View) (t : Tid) (size p a : Nat) (u : Usage) (i : Nat)
    (v' : View) (H' : Heap) : Prop where
  offers : H.Offers t size a u i
  block : p = u.block i
  small : getSizeClassIndex size ≠ largeClassSizeIndex
  head : H.bin a = some (t, getSizeClassIndex size)
  place : v'.place = v.place
  region : v'.region = v.region
  heap : H' = H.take t a u i size

/-- Thread `t` got the block `p` from the span `a`, initialised for it. -/
structure Heap.TakesFresh (pf : Platform) (H : Heap) (v : View) (t : Tid) (size p a : Nat) (u : Usage)
    (i : Nat) (v' : View) (H' : Heap) : Prop where
  none : H.use a = none
  bin : getSizeClassIndex size = largeClassSizeIndex ∨
    ∀ b, H.bin b ≠ some (t, getSizeClassIndex size)
  initialized : ∃ v₁, v.Initialized pf (getSizeClassIndex size) size a v₁ ∧ v'.place = v₁.place ∧
    v'.region = v₁.region
  sound : u.Sound pf
  allFree : u.AllFree
  cls : u.cls = getSizeClassIndex size
  pages : u.pages = pf.requestPages (getSizeClassIndex size) size
  free : i ∈ u.free
  block : p = u.block i
  heap : H' = (H.start t a u .malloc size).take t a u i size

/-- From `H` to `H'` thread `t` took spans and blocks, and nothing was given
back. -/
structure Heap.Grows (H : Heap) (t : Tid) (H' : Heap) : Prop where
  kept : ∀ a u, H.use a = some u →
    ∃ u', H'.use a = some u' ∧ u'.shape = u.shape ∧ H'.owner a = H.owner a
  fresh : ∀ a u, H'.use a = some u → H.use a = none → H'.owner a = t

/-- Thread `t` got the block `p`, number `i` of `a`, from its bin or not. -/
structure Heap.Takes (pf : Platform) (H : Heap) (t : Tid) (size p a : Nat) (u : Usage) (i : Nat)
    (H' : Heap) : Prop where
  block : H'.IsBlock p a (u.take i) i
  pages : u.pages = pf.requestPages (getSizeClassIndex size) size
  free : ∀ u, H.use a = some u → i ∈ u.free
  live : H'.live = Function.update H.live p (some (t, size))
  pc : H'.pc = Function.update H.pc t none
  grows : H.Grows t H'

section

variable {pf : Platform} {strict : Bool} {s s' : State} {v v' : View} {H H' : Heap}
  {a b i j n p size : Nat} {u x : Usage} {sp : Span} {t t' o : Tid} {c : Int}

/-! ## Places -/

namespace View

theorem place_allocBlock (ha : v.span a = some sp) : (v.allocBlock a).place = v.place := by
  rw [allocBlock, record_of ha]
  exact place_setSpan ha rfl rfl

theorem place_giveBack (ha : v.span a = some sp) : (v.giveBack a i).place = v.place := by
  rw [giveBack, record_of ha]
  exact place_setSpan ha rfl rfl

theorem place_takeFromBin (ha : v.span (v.localBin t c) = some sp) :
    (v.takeFromBin t c).place = v.place := by
  unfold takeFromBin
  split
  · have hself : (v.binRemove t c (v.localBin t c)).span (v.localBin t c) = _ := span_withLinks ha
    exact (place_allocBlock hself).trans place_withLinks
  · exact place_allocBlock ha

theorem place_takeFromSpan (ha : v.span a = some sp) : (v.takeFromSpan t c a).place = v.place := by
  unfold takeFromSpan
  split
  · have hself : (v.binPush t c a).span a = _ := span_withLinks ha
    exact (place_allocBlock hself).trans place_withLinks
  · exact place_allocBlock ha

theorem place_freeUnlocked (ha : v.span a = some sp) : (v.freeUnlocked t a i).place = v.place := by
  unfold freeUnlocked
  split
  · rfl
  · split
    · have hself : (v.binPush t (v.record a).sizeClassIndex a).span a = _ := span_withLinks ha
      exact (place_giveBack hself).trans place_withLinks
    · split
      · exact place_withLinks.trans (place_giveBack ha)
      · exact place_giveBack ha

theorem region_takeFromBin : (v.takeFromBin t c).region = v.region := by
  unfold takeFromBin
  split
  · rfl
  · rfl

theorem region_takeFromSpan : (v.takeFromSpan t c a).region = v.region := by
  unfold takeFromSpan
  split
  · rfl
  · rfl

theorem region_freeUnlocked : (v.freeUnlocked t a i).region = v.region := by
  unfold freeUnlocked
  split
  · rfl
  · split
    · rfl
    · split
      · rfl
      · rfl

theorem place_retire (ha : v.span a = some sp) : (v.retire pf a sp).place =
    if maxBinnedPages ≤ sp.pageCount then Function.update v.place a none else v.place := by
  unfold retire
  by_cases hbig : maxBinnedPages ≤ sp.pageCount
  · rw [if_pos hbig, if_pos hbig]
    funext b
    by_cases hb : b = a
    · rw [hb, Function.update_self, place_eq_none]
      exact Function.update_self ..
    · rw [Function.update_of_ne hb]
      exact congrArg (Option.map fun sp : Span => (sp.base, sp.pageCount)) (Function.update_of_ne hb _ _)
  · rw [if_neg hbig, if_neg hbig]
    exact place_setSpan ha rfl rfl

theorem region_retire (r : Region) : (v.retire pf a sp).region r ↔
    v.region r ∧ ¬ (maxBinnedPages ≤ sp.pageCount ∧ r = ⟨sp.base, sp.size pf, .direct⟩) := by
  unfold retire
  by_cases hbig : maxBinnedPages ≤ sp.pageCount
  · rw [if_pos hbig]
    simp only [hbig, true_and]
    rfl
  · rw [if_neg hbig]
    simp only [hbig, false_and, not_false_eq_true, and_true]
    rfl

end View

/-! ## A whole `cfree` -/

/-- `cfree` of a live block by a thread that leaves the links as thread `o`
would, whose the span is if this is its last block. -/
theorem HeapInv.cfreeAs (h : HeapInv pf strict .none s v H) (hpc : H.pc o = none)
    (hb : H.IsBlock p a u i) (hp : H.live p = some (t', n))
    (hlast : u.free ≠ ∅ → (u.give i).AllFree → H.owner a = o)
    (hothers : H.owner a = o ∧ t' = o ∨ ∀ t', H.pc t' = none)
    (hact : v.freeUnlocked t a i = v.freeUnlocked o a i) :
    Spec (Allowed strict) (onStore Watch.none.Ok) (FastAlloc.cfree pf t p) s fun _ s' => ∃ v',
      v.Releases pf a u v' ∧ HeapInv pf strict .none s' v' (H.free o a u i) := by
  have hsound := h.heap.sound a u hb.use
  have hpos := hsound.blockSize_pos
  obtain ⟨sp, hsp, hi, rfl, -⟩ := h.record hb.use
  have hheap := h.heap.give (q := NULL) hb hp hpc hlast hothers
  unfold FastAlloc.cfree Heap.free
  rw [if_neg (h.heap.live_ne_null hp)]
  refine Spec.bind (cfreeUnlocked_tracks h hb hp le_rfl (Nat.lt_add_of_pos_right hpos))
    fun r s₁ hr => ?_
  obtain ⟨rfl, ht⟩ := hr
  rw [hact] at ht
  have hinv := h.freeUnlocked hb hp hlast hheap ht.shows
  by_cases hc : sp.use.cls = largeClassSizeIndex ∨ (sp.use.give i).AllFree
  · rw [if_pos hc, if_pos hc]
    have hpc' : (H.give o a sp.use i NULL).pc o = some (.cache a NULL) :=
      Heap.give_pc_self.trans (if_pos hc)
    refine (cacheSpan_inv hinv hpc' fun _ _ _ hk => hk.elim).mono fun _ s' hs => ?_
    obtain ⟨sp', hsp', hinv', -⟩ := hs
    obtain ⟨y, hy, hbase, hcount⟩ := exists_of_place (congrFun (place_freeUnlocked hsp) a) hsp
    obtain rfl : sp' = y := Option.some.inj (hsp'.symm.trans hy)
    refine ⟨_, ⟨?_, fun r => ?_⟩, hinv'⟩
    · rw [place_retire hsp', hcount, place_freeUnlocked hsp]
      rfl
    · rw [region_retire, region_freeUnlocked, hcount, hbase, Span.size, hcount]
      rfl
  · rw [if_neg hc, if_neg hc]
    have hsmall : ¬ maxBinnedPages ≤ sp.use.pages := by
      obtain ⟨size, -, -, hpages⟩ := hsound.request
      rw [hpages]
      exact Nat.not_le.mpr (requestPages_lt (hsound.cls_range fun hl => hc (.inl hl)))
    refine Spec.pure ⟨_, ⟨?_, fun r => ?_⟩, hinv⟩
    · rw [if_neg hsmall, place_freeUnlocked hsp]
    · rw [region_freeUnlocked]
      simp [hsmall]

/-- `cfree` of a live block, whoever owns it, as long as the one that frees
the last block of a span is the one that has it in its bin. -/
theorem HeapInv.cfree (h : HeapInv pf strict .none s v H) (hpc : H.pc t = none)
    (hb : H.IsBlock p a u i) (hp : H.live p = some (t', n))
    (hlast : u.free ≠ ∅ → (u.give i).AllFree → H.owner a = t)
    (hothers : H.owner a = t ∧ t' = t ∨ ∀ t', H.pc t' = none) :
    Spec (Allowed strict) (onStore Watch.none.Ok) (FastAlloc.cfree pf t p) s fun _ s' => ∃ v',
      v.Releases pf a u v' ∧ HeapInv pf strict .none s' v' (H.free t a u i) :=
  h.cfreeAs hpc hb hp hlast hothers rfl

/-! ## A whole `cmalloc` -/

theorem Heap.ask_start {client : Client} :
    (H.ask t client size).start t a u client size = H.start t a u client size := by
  rw [Heap.start, Heap.ask, Function.update_idem, Heap.start]

/-- A span just initialised has the pages that were asked for. -/
theorem View.Initialized.pageCount (hinit : v.Initialized pf c size a v')
    (hok : v.Ok pf fun _ => False) (hreq : pf.Request c size) (ha : v'.span a = some sp) :
    sp.pageCount = pf.requestPages c size := by
  obtain ⟨root, v₁, x, x', -, -, hsup, hx, hprep, rfl⟩ := hinit
  have hok' : View.Ok pf (fun _ => False) { v with root := root } :=
    ⟨hok.toGeometry.of_eq rfl rfl rfl rfl rfl, hok.toPool.of_eq rfl rfl rfl⟩
  obtain ⟨y, hy, hpages, -⟩ := (hsup.supplied hok' hreq.sized.pages).span
  obtain rfl : x = y := Option.some.inj (hx.symm.trans hy)
  obtain rfl : x' = sp := Option.some.inj (span_set_self.symm.trans ha)
  exact hprep.pages.pageCount.trans hpages

theorem HeapInv.cmalloc (h : HeapInv pf strict .none s v H) (hpc : H.pc t = none)
    (hsize : pf.NonWrapping size) :
    Spec (Allowed strict) (onStore Watch.none.Ok) (FastAlloc.cmalloc pf t size) s fun p s' =>
      ∃ a u i v' H', HeapInv pf strict .none s' v' H' ∧ (H.Owned → H'.Owned) ∧
        (H.TakesBinned v t size p a u i v' H' ∨ H.TakesFresh pf v t size p a u i v' H') := by
  refine Spec.bind (cmallocFromBin_tracks h) fun o s₁ ho => ?_
  rcases ho with ⟨hbin, rfl, rfl⟩ | ⟨⟨hc, h0⟩, rfl, ht⟩
  · have hask : HeapInv pf strict .none s₁ v (H.ask t .malloc size) :=
      h.of_heap (h.heap.ask hpc hsize trivial) rfl rfl
    refine Spec.bind (initializeSpan_inv hask Heap.ask_pc_self fun _ hk => hk.elim) fun a s₂ ha => ?_
    obtain ⟨v₁, hinit, hnone, hinv, -⟩ := ha
    rw [Heap.ask_start] at hinv
    obtain ⟨-, -, u, hu, hall, hcls, -⟩ := hinv.heap.pcs t _ Heap.start_pc_self
    obtain ⟨sp, hsp, -, rfl, -⟩ := hinv.record hu
    have hrec := record_of hsp
    rw [hrec] at hinv
    refine (cmallocFromSpan_tracks hinv Heap.start_pc_self).mono fun p s' hp => ?_
    obtain ⟨rfl, ht⟩ := hp
    obtain ⟨hoffers, hinv'⟩ := hinv.takesFirst Heap.start_pc_self ht.shows
    rw [hrec] at hoffers hinv'
    rw [hrec]
    have hsound := hinv.heap.sound a _ Heap.start_use_self
    have hpages := hinit.pageCount h.sound.toOk (request_of_nonWrapping hsize) hsp
    refine ⟨a, sp.use, sp.firstFree, _, _, hinv', fun hown => (hown.start hinv.heap).take hinv.heap
      hoffers.use hoffers.owner hoffers.free, .inr ⟨hnone, ?_, ⟨v₁, hinit,
      place_takeFromSpan hsp, region_takeFromSpan⟩, hsound, hall, hcls, hpages, hoffers.free, rfl, rfl⟩⟩
    refine hbin.imp id fun h0 b hb => ?_
    exact (h.bins.lists (t, getSizeClassIndex size)).chainOf.eq_null_iff.mp h0 b hb
  · obtain ⟨sp, hsp, -, hblocks, huse, hpos, -, ho, hcls⟩ := h.head h0
    have hhead : H.bin (v.localBin t (getSizeClassIndex size)) = some (t, getSizeClassIndex size) :=
      h.bins.lists.head_mem (i := (t, getSizeClassIndex size)) h0
    have hsize' : size ≤ sp.blockSize := (h.heap.sound _ _ huse).size_le hcls hc
    have hinv := h.takeFromBin (n := size) h0 ho (by rwa [record_of hsp]) hpc ht.shows
    rw [record_of hsp] at hinv ⊢
    have hfree := hblocks.firstFree_mem (hblocks.nonfull_ne_zero_iff.mpr hpos)
    exact Spec.pure ⟨_, sp.use, sp.firstFree, _, _, hinv, fun hown =>
      hown.take h.heap huse ho hfree, .inl ⟨⟨huse, ho, hfree, hsize'⟩, rfl, hc,
      hhead, place_takeFromBin hsp, region_takeFromBin, rfl⟩⟩

/-! ## What a `cmalloc` leaves -/

namespace Usage

theorem shape_eq (h : u.shape = x.shape) (hf : u.free = x.free) : u = x := by
  cases u
  cases x
  cases hf
  cases h
  rfl

theorem shape_block (h : u.shape = x.shape) : u.block i = x.block i := by
  have hblock : u.shape.block i = x.shape.block i := by rw [h]
  exact hblock

theorem shape_blockCount (h : u.shape = x.shape) : u.blockCount = x.blockCount := by
  have hcount : u.shape.blockCount = x.shape.blockCount := by rw [h]
  exact hcount

end Usage

/-- All spans of one small class have as many pages. -/
theorem Usage.Sound.pages_eq (h : u.Sound pf) (hc : u.cls ≠ largeClassSizeIndex) :
    u.pages = pf.requestPages u.cls size := by
  obtain ⟨size', -, -, hpages⟩ := h.request
  rw [hpages, Platform.requestPages, Platform.requestPages, requestBytes, requestBytes, if_neg hc,
    if_neg hc]

namespace Heap

theorem Grows.isBlock (hg : H.Grows t H') (hb : H.IsBlock p a u i) :
    ∃ u', H'.IsBlock p a u' i ∧ u'.shape = u.shape := by
  obtain ⟨u', hu, hshape, -⟩ := hg.kept a u hb.use
  exact ⟨u', ⟨hu, Usage.shape_blockCount hshape ▸ hb.lt, hb.eq.trans (Usage.shape_block hshape).symm⟩,
    hshape⟩

theorem Grows.trans {K : Heap} (hg : H.Grows t K) (hg' : K.Grows t H') : H.Grows t H' where
  kept a u ha := by
    obtain ⟨x, hx, hshape, ho⟩ := hg.kept a u ha
    obtain ⟨y, hy, hshape', ho'⟩ := hg'.kept a x hx
    exact ⟨y, hy, hshape'.trans hshape, ho'.trans ho⟩
  fresh a u ha hnone := by
    rcases hk : K.use a with _ | x
    · exact hg'.fresh a u ha hk
    · obtain ⟨-, -, -, ho⟩ := hg'.kept a x hk
      exact ho.trans (hg.fresh a x hk hnone)

theorem Grows.refl : H.Grows t H where
  kept _ u ha := ⟨u, ha, rfl, rfl⟩
  fresh _ _ ha hnone := nomatch ha.symm.trans hnone

theorem TakesBinned.grows (hb : H.TakesBinned v t size p a u i v' H') : H.Grows t H' := by
  have huse : H'.use = Function.update H.use a (some (u.take i)) := by rw [hb.heap]; rfl
  have howner : H'.owner = H.owner := by rw [hb.heap]; rfl
  constructor
  case kept =>
    intro b x hx
    rw [huse, howner]
    by_cases hba : b = a
    · subst hba
      obtain rfl := Option.some.inj (hb.offers.use.symm.trans hx)
      exact ⟨_, Function.update_self .., rfl, rfl⟩
    · exact ⟨x, (Function.update_of_ne hba _ _).trans hx, rfl, rfl⟩
  case fresh =>
    intro b x hx hnone
    rw [huse] at hx
    by_cases hba : b = a
    · rw [hba, hb.offers.use] at hnone
      cases hnone
    · rw [Function.update_of_ne hba, hnone] at hx
      cases hx

theorem TakesFresh.grows (hf : H.TakesFresh pf v t size p a u i v' H') : H.Grows t H' := by
  have huse : H'.use = Function.update H.use a (some (u.take i)) := by
    rw [hf.heap]
    exact Function.update_idem ..
  have howner : H'.owner = Function.update H.owner a t := by rw [hf.heap]; rfl
  constructor
  case kept =>
    intro b x hx
    have hba : b ≠ a := by
      rintro rfl
      exact nomatch hx.symm.trans hf.none
    rw [huse, howner, Function.update_of_ne hba, Function.update_of_ne hba]
    exact ⟨x, hx, rfl, rfl⟩
  case fresh =>
    intro b x hx hnone
    rw [huse] at hx
    by_cases hba : b = a
    · rw [howner, hba, Function.update_self]
    · rw [Function.update_of_ne hba, hnone] at hx
      cases hx

theorem TakesBinned.takes (hb : H.TakesBinned v t size p a u i v' H') (hok : HeapOk pf H) :
    H.Takes pf t size p a u i H' where
  block := by
    refine ⟨?_, (hok.sound a u hb.offers.use).free i hb.offers.free, hb.block⟩
    rw [hb.heap]
    exact take_use_self
  pages := by
    obtain ⟨x, hx, -, -, -, hcls⟩ := bin_eq_some.mp hb.head
    obtain rfl := Option.some.inj (hb.offers.use.symm.trans hx)
    rw [(hok.sound a _ hx).pages_eq (hcls ▸ hb.small), hcls]
  free x hx := by
    obtain rfl := Option.some.inj (hb.offers.use.symm.trans hx)
    exact hb.offers.free
  live := by rw [hb.heap, hb.block]; rfl
  pc := by rw [hb.heap]; rfl
  grows := hb.grows

theorem TakesFresh.takes (hf : H.TakesFresh pf v t size p a u i v' H') :
    H.Takes pf t size p a u i H' where
  block := by
    refine ⟨?_, hf.sound.free i hf.free, hf.block⟩
    rw [hf.heap]
    exact take_use_self
  pages := hf.pages
  free x hx := nomatch hx.symm.trans hf.none
  live := by rw [hf.heap, hf.block]; rfl
  pc := by
    rw [hf.heap]
    exact Function.update_idem ..
  grows := hf.grows

/-- The block was not live. -/
theorem Takes.fresh (ht : H.Takes pf t size p a u i H') (hok : HeapOk pf H) (hok' : HeapOk pf H') :
    H.live p = none := by
  by_contra hne
  obtain ⟨x, hx⟩ := Option.ne_none_iff_exists'.mp hne
  obtain ⟨b, y, j, hb⟩ := hok.place p x hx
  obtain ⟨y', hb', -⟩ := ht.grows.isBlock hb
  obtain ⟨rfl, -, rfl⟩ := hok'.block_unique hb' ht.block
  obtain ⟨hj, -⟩ := (hok.out p b y j hb).mp ⟨x, hx⟩
  exact hj (ht.free y hb.use)

end Heap

end

end FastAlloc
