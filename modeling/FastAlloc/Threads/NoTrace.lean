/-
FastAlloc.Threads.NoTrace — direct spans leave no trace.

A span mapped for one request goes back to the system when it is freed. Its
pages are then mapped by no key, its record is in no bin, and if the two
calls were adjacent the state is the one before them but for metadata.
-/
import FastAlloc.Threads.Frees

namespace FastAlloc

open Lib Mem View

/-- In `s'` the direct span `a` of `s` is gone, with all that named it, and
the rest is as it was. -/
structure State.Unmaps (pf : Platform) (s : State) (a : Nat) (s' : State) : Prop where
  lookup : ∀ k, s'.mem.lookup s'.pageMap k =
    if s.mem.lookup s.pageMap k = a then NULL else s.mem.lookup s.pageMap k
  maps : ∀ r : Region, r.site ≠ .metaChunk → (r ∈ s'.maps ↔ r ∈ s.maps ∧
    r ≠ ⟨(s.mem.span a).base, (s.mem.span a).pageCount * pf.pageSize, .direct⟩)
  mapped : ⟨(s.mem.span a).base, (s.mem.span a).pageCount * pf.pageSize, .direct⟩ ∈ s.maps
  gone : (∀ t c, ¬ InBin s' t c a) ∧ ∀ n, ¬ Cached s' n a
  span : ∀ k b, b ≠ NULL → s'.mem.lookup s'.pageMap k = b → (s.mem.span b).Alike (s'.mem.span b)
  bins : ∀ t c b, b ≠ a → (InBin s' t c b ↔ InBin s t c b)
  pool : ∀ n b, b ≠ a → (Cached s' n b ↔ Cached s n b)

section

variable {pf : Platform} {strict : Bool} {s : State} {v v' : View} {H : Heap} {w w' : World}
  {a n p : Nat} {u : Usage} {t : Tid}

/-- A span mapped for one request is all that is new. -/
theorem View.Initialized.direct {c : Int} {size : Nat} (hinit : v.Initialized pf c size a v')
    (hbig : maxBinnedPages ≤ pf.requestPages c size) : ∃ b, v.place a = none ∧
      v'.place = Function.update v.place a (some (b, pf.requestPages c size)) ∧
      (∀ r, v'.region r ↔ r = ⟨b, pf.requestPages c size * pf.pageSize, .direct⟩ ∨ v.region r) ∧
      ¬ v.region ⟨b, pf.requestPages c size * pf.pageSize, .direct⟩ := by
  obtain ⟨root, v₁, sp, sp', -, -, hsup, hsp, hprep, rfl⟩ := hinit
  cases hsup with
  | direct hn hd =>
    obtain ⟨b, x, hg, hpages, -⟩ := hd.gains
    obtain rfl : sp = x := Option.some.inj (hsp.symm.trans hg.span_self)
    refine ⟨b, place_eq_none.mpr hg.none, ?_, hg.region, fun hr => ?_⟩
    · rw [place_setSpan hsp hprep.pages.base hprep.pages.pageCount]
      funext c
      by_cases hc : c = a
      · rw [hc, Function.update_self, place_of hsp, hpages]
        exact congrArg some (Prod.ext hg.base rfl)
      · rw [Function.update_of_ne hc, place, hg.span_of_ne hc, place]
    · obtain ⟨hlen, -, -, -, hdisj⟩ := hg.fresh
      rcases hdisj _ hr with hd | hd
      · exact hlen (Nat.add_left_cancel (hd.antisymm (Nat.le_add_right _ _)))
      · exact hlen (Nat.add_left_cancel (hd.antisymm (Nat.le_add_right _ _)))
  | «exact» hn => exact absurd hbig (Nat.not_le.mpr hn)
  | split m rest hn hm => exact absurd hbig (Nat.not_le.mpr (hn.trans hm))
  | fresh hn => exact absurd hbig (Nat.not_le.mpr hn)

/-- Without it the heap is as it was. -/
theorem Sheds.direct {H' : Heap} {i size : Nat} (hok : HeapOk pf H) (hpc : H.pc t = none)
    (hf : H.TakesFresh pf v t size p a u i v' H')
    (hbig : maxBinnedPages ≤ pf.requestPages (getSizeClassIndex size) size) :
    Sheds pf H' v' H v := by
  obtain ⟨v₁, hinit, hplace, hregion⟩ := hf.initialized
  obtain ⟨b, hnone, hplace₁, hregion₁, hnew⟩ := hinit.direct hbig
  rw [hplace₁] at hplace
  have hself : v'.place a = some (b, pf.requestPages (getSizeClassIndex size) size) := by
    rw [hplace, Function.update_self]
  have huse : ∀ c, c ≠ a → H'.use c = H.use c := by
    intro c hc
    rw [hf.heap]
    exact (Function.update_of_ne hc _ _).trans (Function.update_of_ne hc _ _)
  have hpc' : H.pc = H'.pc := by
    rw [hf.heap]
    change H.pc = Function.update (Function.update H.pc t _) t none
    rw [Function.update_idem, ← hpc, Function.update_eq_self]
  have hne : ∀ c x, H.use c = some x → c ≠ a := by
    rintro c x hx rfl
    exact nomatch hx.symm.trans hf.none
  constructor
  case place =>
    intro c
    by_cases hc : c = a
    · subst hc
      exact .inr ⟨hnone, b, _, hself, hbig⟩
    · rw [hplace, Function.update_of_ne hc]
      exact .inl rfl
  case region =>
    intro r
    rw [hregion, hregion₁]
    constructor
    · intro hr
      refine ⟨.inr hr, fun ⟨c, b', n, hat, hgone, hr'⟩ => ?_⟩
      by_cases hc : c = a
      · subst hc
        have hb := Option.some.inj (hself.symm.trans hat.1)
        rw [Prod.mk.injEq] at hb
        rw [hr', ← hb.1, ← hb.2] at hr
        exact hnew hr
      · have hat' := hat.1
        rw [hplace, Function.update_of_ne hc, hgone] at hat'
        cases hat'
    · intro ⟨hor, hno⟩
      exact hor.resolve_left fun hr => hno ⟨a, b, _, ⟨hself, hbig⟩, hnone, hr⟩
  case use => exact fun c x hx => ⟨x, (huse c (hne c x hx)).trans hx, rfl⟩
  case transit =>
    intro c hc
    refine (huse c ?_).symm
    rintro rfl
    obtain ⟨t', pc, hpc₁, hsp⟩ := hc
    rw [← hpc'] at hpc₁
    obtain ⟨x, hx⟩ : ∃ x, H.use c = some x := by
      have hpcs := hok.pcs t' pc hpc₁
      cases pc with
      | initSpan client size => cases hsp
      | allocate client size d =>
        obtain ⟨-, -, x, hx, -⟩ := hpcs
        exact ⟨x, Option.some.inj hsp ▸ hx⟩
      | cache d q =>
        obtain ⟨-, x, hx, -⟩ := hpcs
        exact ⟨x, Option.some.inj hsp ▸ hx⟩
    exact hne c x hx rfl
  case pc => exact hpc'
  case owner =>
    intro c x hx
    rw [hf.heap]
    exact (Function.update_of_ne (hne c x hx) _ _).symm

theorem WorldInv.direct_pair {size : Nat} (h : WorldInv pf strict w v) (hpc : w.pc t = none)
    (hsize : pf.NonWrapping size)
    (hbig : maxBinnedPages ≤ pf.roundUpPage size >>> pf.pageShift) :
    Spec (Allowed strict) (onStore Watch.none.Ok) (do
      let p ← cmalloc pf t size
      cfree pf t p) w.state fun _ s' => w.state.Alike s' := by
  have hlarge : getSizeClassIndex size = largeClassSizeIndex := by
    by_contra hc
    have hle : size ≤ 2 ^ 20 := (getSizeClassIndex_ne_large_iff.mp hc).trans (by decide)
    exact absurd hbig (Nat.not_le.mpr (pages_lt hle))
  have hbig' : maxBinnedPages ≤ pf.requestPages (getSizeClassIndex size) size := by
    rwa [Platform.requestPages, requestBytes, if_pos hlarge]
  refine Spec.bind (h.heap.cmalloc hpc hsize) fun p s₁ hp => ?_
  obtain ⟨a, u, i, v₁, H₁, hinv₁, hown, hb | hf⟩ := hp
  · exact absurd hlarge hb.small
  have hown₁ := hown h.owned
  have hsheds := Sheds.direct h.heap.heap hpc hf hbig'
  have hpc₁ : H₁.pc t = none := hsheds.pc ▸ hpc
  have huse : H₁.use a = some (u.take i) := by
    rw [hf.heap, Heap.take_use_self]
  have hblock : H₁.IsBlock p a (u.take i) i := ⟨huse, hf.sound.free i hf.free, hf.block⟩
  have hlive : H₁.live = Function.update w.live p (some (t, size)) := by
    rw [hf.heap, hf.block]
    rfl
  have hself : H₁.live p = some (t, size) := by
    rw [hlive, Function.update_self]
  have ho : H₁.owner a = t := hown₁ p a _ i t size hblock hself
  obtain ⟨-, htr⟩ := (hinv₁.heap.out p a _ i hblock).mp ⟨_, hself⟩
  refine (hinv₁.cfree hpc₁ hblock hself (fun _ _ => ho) (.inl ⟨ho, rfl⟩)).mono fun _ s' hs => ?_
  obtain ⟨v', hr, hinv'⟩ := hs
  obtain ⟨w', rfl, hheap, hw'⟩ := hinv'.world (hown₁.free huse ho)
  have hsheds' : Sheds pf H₁ v₁ (w'.heap v') v' := hheap ▸
    .free hpc₁ huse ho htr (hinv₁.place_of_use huse) hr
  refine Sheds.alike hinv₁.heap h hw' hsheds hsheds' fun q => ?_
  -- the block was not live before, and is not now
  have hlive' : w'.live = (H₁.free t a (u.take i) i).live := congrArg Heap.live hheap
  rw [hlive', Heap.free_live, hlive, ← hblock.eq, Function.update_idem]
  by_cases hq : q = p
  · rw [hq, Function.update_self]
    refine iff_of_true ?_ rfl
    by_contra hne
    obtain ⟨x, hx⟩ := Option.ne_none_iff_exists'.mp hne
    obtain ⟨b, y, j, hold⟩ := h.heap.heap.place p x hx
    have hba : b ≠ a := hold.ne hf.none
    have hnew : H₁.IsBlock p b y j := by
      refine ⟨?_, hold.lt, hold.eq⟩
      rw [hf.heap]
      exact ((Function.update_of_ne hba _ _).trans (Function.update_of_ne hba _ _)).trans hold.use
    exact hba (hinv₁.heap.block_unique hnew hblock).1
  · rw [Function.update_of_ne hq]

/-- A `cmalloc` of a direct span and the `cfree` of it, one after the other,
leave no trace: every lookup, every node of the page map with its count,
every bin and every mapping for data is as before. -/
theorem direct_pair_alike {size : Nat} (h : Reachable pf w) (hpc : w.pc t = none)
    (hsize : pf.NonWrapping size) (hbig : maxBinnedPages ≤ pf.roundUpPage size >>> pf.pageShift)
    (hm : ∀ e ∈ ((do
      let p ← cmalloc pf t size
      cfree pf t p).run w.state).trace, e.Mapped) :
    ∃ s' tr, (do
      let p ← cmalloc pf t size
      cfree pf t p).run w.state = ⟨.ok (), s', tr⟩ ∧ w.state.Alike s' := by
  obtain ⟨v, hv⟩ := h.inv
  obtain ⟨⟨_, hres, halike⟩, -⟩ := hv.direct_pair hpc hsize hbig fun e he =>
    allowed_of_mapped (hm e he)
  exact ⟨_, _, Program.run_of_result hres, halike⟩

theorem WorldInv.unmaps (h : WorldInv pf strict w v) (h' : WorldInv pf strict w' v')
    (ha : v.use a = some u) (hbig : maxBinnedPages ≤ u.pages) (hr : v.Releases pf a u v')
    (hu : v'.use = Function.update v.use a none)
    (ho : ∀ b x, v'.use b = some x → w'.owner b = w.owner b) : w.state.Unmaps pf a w'.state := by
  have hgeo := h.heap.sound.toGeometry
  obtain ⟨sp, hsp, -, rfl, -⟩ := h.heap.record ha
  have ha0 := hgeo.ne_null hsp
  have hrec := h.heap.shows.record_eq hsp
  have hplace : v'.place = Function.update v.place a none := hr.place.trans (if_pos hbig)
  have hp : ∀ b, b ≠ a → v'.place b = v.place b := fun b hb => by
    rw [hplace, Function.update_of_ne hb]
  have hub : ∀ b, b ≠ a → v'.use b = v.use b := fun b hb => by rw [hu, Function.update_of_ne hb]
  have hob : ∀ b, b ≠ a → ∀ x, v.use b = some x → w'.owner b = w.owner b := fun b hb x hx =>
    ho b x ((hub b hb).trans hx)
  have hnone : v'.place a = none := by rw [hplace, Function.update_self]
  have hnot : ∀ k, w'.state.mem.lookup w'.state.pageMap k ≠ a := by
    intro k hk
    rw [h'.lookup_eq] at hk
    obtain ⟨b, hb, -⟩ := (h'.heap.sound.look_iff (Nat.mod_lt _ (by decide)) ha0).mp hk
    exact nomatch hnone.symm.trans hb
  constructor
  case lookup =>
    intro k
    have hiff : ∀ b, b ≠ a → b ≠ NULL → (w'.state.mem.lookup w'.state.pageMap k = b ↔
        w.state.mem.lookup w.state.pageMap k = b) := fun b hb h0 => h.lookup_congr h' (hp b hb) h0
    by_cases hk : w.state.mem.lookup w.state.pageMap k = a
    · rw [if_pos hk]
      by_contra hne
      exact hnot k (((hiff _ (hnot k) hne).mp rfl).symm.trans hk)
    · rw [if_neg hk]
      by_cases h0 : w.state.mem.lookup w.state.pageMap k = NULL
      · rw [h0]
        by_contra hne
        exact hne (((hiff _ (hnot k) hne).mp rfl).symm.trans h0)
      · exact (hiff _ hk h0).mpr rfl
  case maps =>
    intro r hsite
    rw [hrec]
    refine h.maps_iff h' hsite ((hr.region r).trans (and_congr_right fun _ => ?_))
    rw [not_and]
    exact ⟨fun hno => hno hbig, fun hno _ => hno⟩
  case mapped =>
    rw [hrec]
    obtain ⟨st, hst⟩ := h.heap.shows
    exact ((hst.region _).mp ((hgeo.placed a sp hsp).direct hbig)).1
  case gone =>
    refine ⟨fun t c hin => ?_, fun n hn => ?_⟩
    · obtain ⟨x, hx, -⟩ := Heap.bin_eq_some.mp (h'.inBin_iff.mp hin)
      have hx' : v'.use a = some x := hx
      rw [hu, Function.update_self] at hx'
      cases hx'
    · obtain ⟨-, x, hx, -⟩ := (h'.heap.shows.cached_iff h'.heap.sound.toPool n a).mp hn
      exact nomatch (place_eq_none.mp hnone).symm.trans hx
  case span =>
    intro k b h0 hk
    have hb : b ≠ a := fun he => hnot k (hk.trans he)
    exact h.span_congr h' (hp b hb) (hub b hb) h0 ((h.lookup_congr h' (hp b hb) h0).mp hk)
  case bins => exact fun t c b hb => h.inBin_congr h' (hub b hb) (hob b hb)
  case pool => exact fun n b hb => h.cached_congr h' (hp b hb) (hub b hb)

theorem WorldInv.cfree_direct (h : WorldInv pf strict w v) (hpc : w.pc t = none)
    (hp : w.live p = some (t, n)) (hget : ((cmallocGetSpan pf p).run w.state).result = .ok a)
    (hbig : maxBinnedPages ≤ (w.state.mem.span a).pageCount) :
    Spec (Allowed strict) (onStore Watch.none.Ok) (cfree pf t p) w.state fun _ s' =>
      w.state.Unmaps pf a s' := by
  obtain ⟨b, u, i, hb, -⟩ := h.heap.heap.live_block hp
  have ho := h.owned p b u i t n hb hp
  have hsound := h.heap.heap.sound b u hb.use
  have hpos := hsound.blockSize_pos
  rw [h.heap.run_getSpan hb le_rfl (Nat.lt_add_of_pos_right hpos)] at hget
  obtain rfl : b = a := Except.ok.inj hget
  obtain ⟨sp, hsp, -, rfl, -⟩ := h.heap.record hb.use
  rw [h.heap.shows.record_eq hsp] at hbig
  have hlarge : sp.use.cls = largeClassSizeIndex := by
    by_contra hc
    obtain ⟨size, -, -, hpages⟩ := hsound.request
    have hlt : sp.use.pages < maxBinnedPages := hpages ▸ requestPages_lt (hsound.cls_range hc)
    exact absurd hbig (Nat.not_le.mpr hlt)
  refine (h.heap.cfree hpc hb hp (fun _ _ => ho) (.inl ⟨ho, rfl⟩)).mono fun _ s' hs => ?_
  obtain ⟨v', hr, hinv⟩ := hs
  obtain ⟨w', rfl, hheap, hw'⟩ := hinv.world (h.owned.free hb.use ho)
  have huse : v'.use = ((w.heap v).free t b sp.use i).use := congrArg Heap.use hheap
  have howner : w'.owner = ((w.heap v).free t b sp.use i).owner := congrArg Heap.owner hheap
  refine h.unmaps hw' hb.use hbig hr ?_ fun c x _ => ?_
  · rw [huse, Heap.free, if_pos (.inl hlarge)]
    exact Function.update_idem ..
  · rw [howner, Heap.free_owner ho]
    rfl

/-- In every reachable world the `cfree` of a live direct block goes through,
unmaps its region and no other, and leaves nothing that names its span. -/
theorem cfree_direct_unmaps (h : Reachable pf w) (hpc : w.pc t = none) (hp : w.live p = some (t, n))
    (hget : ((cmallocGetSpan pf p).run w.state).result = .ok a)
    (hbig : maxBinnedPages ≤ (w.state.mem.span a).pageCount)
    (hm : ∀ e ∈ ((cfree pf t p).run w.state).trace, e.Mapped) :
    ∃ s' tr, (cfree pf t p).run w.state = ⟨.ok (), s', tr⟩ ∧ w.state.Unmaps pf a s' := by
  obtain ⟨v, hv⟩ := h.inv
  obtain ⟨⟨_, hres, hunmaps⟩, -⟩ := hv.cfree_direct hpc hp hget hbig fun e he =>
    allowed_of_mapped (hm e he)
  exact ⟨_, _, Program.run_of_result hres, hunmaps⟩

/-- The first of the two on 4 KiB pages, -/
theorem direct_pair_alike_smallest : ∃ (w : World) (s' : State) (tr : List Event),
    w.state = .initial spaced ∧ (do
      let p ← cmalloc .smallPages 0 directSize
      cfree .smallPages 0 p).run w.state = ⟨.ok (), s', tr⟩ ∧ w.state.Alike s' := by
  obtain ⟨w, hw, hpc, hs⟩ := Reachable.start .smallPages spaced
  have hres := direct_result
  have hspan := direct_span
  have hspaced : Spaced w.state := hs ▸ .initial
  have hcalls : w.state.calls = 0 := hs ▸ rfl
  rw [← hs] at hres hspan
  have hfew : FewMmaps (16389 + 49161) (do
      let p ← cmalloc .smallPages 0 directSize
      cfree .smallPages 0 p) w.state := by
    refine FewMmaps.bind fewMmaps_directSize fun q s₁ tr hrun => ?_
    obtain rfl : q = 2 ^ 28 := Except.ok.inj ((congrArg Outcome.result hrun).symm.trans hres)
    rw [hrun] at hspan
    exact fewMmaps_cfree_large (by decide) hspan.1 (by decide) hspan.2.1 hspan.2.2.le
  obtain ⟨hm, -⟩ := hfew hspaced (by omega)
  have hpages : maxBinnedPages ≤ Platform.smallPages.roundUpPage directSize >>>
      Platform.smallPages.pageShift := by decide +kernel
  obtain ⟨s', tr, hrun, halike⟩ := direct_pair_alike hw (hpc 0) (by decide) hpages hm
  exact ⟨w, s', tr, hs, hrun, halike⟩

/-- and the second. -/
theorem cfree_direct_unmaps_smallest : ∃ w : World, w.live (2 ^ 28) = some (0, directSize) ∧
    ∃ s' tr, (cfree .smallPages 0 (2 ^ 28)).run w.state = ⟨.ok (), s', tr⟩ ∧
      w.state.Unmaps .smallPages 134250528 s' := by
  obtain ⟨w, hw, hlive, hpc, hs, hc, hstate⟩ := Reachable.direct
  have hspan := direct_span
  rw [← hstate] at hspan
  obtain ⟨hm, -⟩ := fewMmaps_cfree_large (t := 0) (by decide) hspan.1 (by decide) hspan.2.1
    hspan.2.2.le hs (by omega)
  exact ⟨w, hlive, cfree_direct_unmaps hw (hpc 0) hlive hspan.1 hspan.2.2.ge hm⟩

end

end FastAlloc
