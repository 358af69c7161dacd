/-
FastAlloc.Spans.Conserve — `alloc_span` takes the best fit and loses no page.

What `alloc_span` did is said of the memory before and after it: which spans
are cached, which are pieces of a data chunk, and which data is mapped.
-/
import FastAlloc.Spans.System

namespace FastAlloc

open Lib Mem View

/-- The span `a` is in the bin for `n` pages. -/
def Cached (s : State) (n a : Nat) : Prop :=
  n < maxBinnedPages ∧ ∃ l, Chain NULL (fun b => (s.mem.span b).nextInUninitializedBin)
    (s.uninitilizedSpanBin n) l ∧ a ∈ l

/-- The first bin from `n` on that is not empty, found bin by bin. -/
def linearScan (s : State) (n : Nat) : Option Nat :=
  (List.range' n (maxBinnedPages - n)).find? fun i => decide (s.uninitilizedSpanBin i ≠ NULL)

/-- `b` is a new span, of `k` pages from `base` on and cached, and there is
no other new span but those of `others`. -/
structure NewSpan (pf : Platform) (s s' : State) (b base k : Nat) (others : Nat → Prop) : Prop where
  new : ¬ IsChunkSpan pf s b
  base : (s'.mem.span b).base = base
  pages : (s'.mem.span b).pageCount = k
  cached : Cached s' k b
  only : ∀ c, IsChunkSpan pf s' c ↔ IsChunkSpan pf s c ∨ others c ∨ c = b

/-- The span `a` was taken from the bin for `m` pages, and what is more than
`n` pages of it was cached. -/
structure TookCached (pf : Platform) (s s' : State) (n m a : Nat) : Prop where
  was : Cached s m a
  base : (s'.mem.span a).base = (s.mem.span a).base
  pages : (s'.mem.span a).pageCount = n
  maps : ∀ r : Region, r.site ≠ .metaChunk → (r ∈ s'.maps ↔ r ∈ s.maps)
  whole : n = m → ∀ c, IsChunkSpan pf s' c ↔ IsChunkSpan pf s c
  rest : n < m → ∃ b, NewSpan pf s s' b ((s.mem.span a).base + n * pf.pageSize) (m - n) fun _ => False

/-- The span `a` is the front of a fresh data chunk, whose other pages were
cached. -/
structure TookFresh (pf : Platform) (s s' : State) (n a : Nat) : Prop where
  new : ¬ IsChunkSpan pf s a
  pages : (s'.mem.span a).pageCount = n
  chunk : ∀ r : Region, r.site ≠ .metaChunk → (r ∈ s'.maps ↔
    r = ⟨(s'.mem.span a).base, max pf.dataChunkPageCount n * pf.pageSize, .dataChunk⟩ ∨ r ∈ s.maps)
  fresh : ∀ r ∈ s.maps, r.site ≠ .metaChunk → Region.Disjoint
    ⟨(s'.mem.span a).base, max pf.dataChunkPageCount n * pf.pageSize, .dataChunk⟩ r
  whole : n = max pf.dataChunkPageCount n → ∀ c, IsChunkSpan pf s' c ↔ IsChunkSpan pf s c ∨ c = a
  rest : n < max pf.dataChunkPageCount n → ∃ b, NewSpan pf s s' b
    ((s'.mem.span a).base + n * pf.pageSize) (max pf.dataChunkPageCount n - n) fun c => c = a

/-- The span `c` has the pages it had, and the page map says so. -/
structure SamePlace (pf : Platform) (s s' : State) (c : Nat) : Prop where
  base : (s'.mem.span c).base = (s.mem.span c).base
  pages : (s'.mem.span c).pageCount = (s.mem.span c).pageCount
  mapped : ∀ k, (s.mem.span c).Covers pf k →
    ((cmallocGet s.pageMap k).run s).result = .ok c ∧
    ((cmallocGet s'.pageMap k).run s').result = .ok c

/-- What memory says of the spans of a view. -/
structure Reads (pf : Platform) (s : State) (held : Nat → Prop) (v : View) : Prop where
  record : ∀ a sp, v.span a = some sp → s.mem.span a = sp
  cached : ∀ n a, Cached s n a ↔ n < maxBinnedPages ∧ v.Cached held n a
  chunkSpan : ∀ a, IsChunkSpan pf s a ↔ ∃ sp, v.span a = some sp ∧ sp.pageCount < maxBinnedPages
  region : ∀ r, v.region r ↔ r ∈ s.maps ∧ r.site ≠ .metaChunk

section

variable {pf : Platform} {strict : Bool} {W : Watch} {s s' : State} {v v' : View} {a b c k n m : Nat}
  {held : Nat → Prop} {sp : Span}

theorem Shows.cached_iff (h : Shows pf strict W s v) (hp : v.Pool held) (n a : Nat) :
    Cached s n a ↔ n < maxBinnedPages ∧ v.Cached held n a := by
  refine and_congr_right fun hn => ?_
  obtain ⟨l, hl, hm⟩ := hp.bins n hn
  have hrec : ∀ b ∈ l, (s.mem.span b).nextInUninitializedBin
      = (v.record b).nextInUninitializedBin := by
    intro b hb
    obtain ⟨sp, hsp, -⟩ := (hm b).mp hb
    rw [h.record_mem hsp]
  have hl' : Chain NULL (fun b => (s.mem.span b).nextInUninitializedBin)
      (s.uninitilizedSpanBin n) l := by
    rw [h.bin_eq]
    exact hl.congr hrec
  rw [← hm a]
  constructor
  · rintro ⟨l', hl'', ha⟩
    exact hl''.unique hl' ▸ ha
  · exact fun ha => ⟨l, hl', ha⟩

theorem Shows.reads (h : Shows pf strict W s v) (hok : v.Ok pf held) : Reads pf s held v where
  record _ _ ha := h.record_eq ha
  cached := h.cached_iff hok.toPool
  chunkSpan _ := h.isChunkSpan_iff hok.toGeometry
  region _ := h.region_iff

/-- A bin is empty when nothing is cached in it. -/
theorem View.Pool.bin_eq_null_iff (hp : v.Pool held) (hn : n < maxBinnedPages) :
    v.bin n = NULL ↔ ∀ a, ¬ v.Cached held n a :=
  (hp.bins n hn).eq_null_iff

section

variable (hr : Reads pf s (fun _ => False) v) (hr' : Reads pf s' (fun b => b = a) v')
  (hok : v.Ok pf fun _ => False)
include hr hr'

/-- The front of a fresh chunk. -/
theorem FreshChunk.tookFresh (hf : FreshChunk pf v n a v') (hn : n < maxBinnedPages) :
    TookFresh pf s s' n a := by
  obtain ⟨base, hfresh, hregion, ⟨x, hx, hxb, hxn, hxi⟩, hlt, heq⟩ := hf.chunk
  have hrec := hr'.record a x hx
  have hmax := pf.chunkPages_lt hn
  have hnone : ¬ ∃ sp, v.span a = some sp ∧ sp.pageCount < maxBinnedPages := by
    rw [hf.none]
    simp
  refine ⟨fun h => hnone ((hr.chunkSpan a).mp h), by rw [hrec, hxn], fun r hsite => ?_,
    fun r hmem hsite => ?_, fun he c => ?_, fun hlt' => ?_⟩
  · have h₁ := hr.region r
    have h₂ := hr'.region r
    simp only [hsite, ne_eq, not_false_eq_true, and_true] at h₁ h₂
    rw [← h₂, ← h₁, hrec, hxb]
    exact hregion r
  · rw [hrec, hxb]
    exact hfresh.2.2.2.2 r ((hr.region r).mpr ⟨hmem, hsite⟩)
  · rw [hr.chunkSpan c, hr'.chunkSpan c]
    by_cases hca : c = a
    · rw [hca, hx]
      simp [hxn, hn]
    · rw [heq he c hca]
      simp [hca]
  · obtain ⟨rest, y, hne, hnone', hy, hyb, hyn, hyi, hother⟩ := hlt hlt'
    have hmaxn : max pf.dataChunkPageCount n = pf.chunkPages n := rfl
    refine ⟨rest, ?_, by rw [hr'.record rest y hy, hyb, hrec, hxb], by rw [hr'.record rest y hy, hyn, hmaxn],
      (hr'.cached _ rest).mpr ⟨by omega, y, hy, hyi, hyn, hne⟩, fun c => ?_⟩
    · rw [hr.chunkSpan rest, hnone']
      simp
    · rw [hr.chunkSpan c, hr'.chunkSpan c]
      by_cases hca : c = a
      · rw [hca, hx]
        simp [hxn, hn]
      by_cases hcr : c = rest
      · rw [hcr, hy]
        simp only [Option.some.injEq, exists_eq_left', hyn, or_true, iff_true]
        omega
      · rw [hother c hca hcr]
        simp [hca, hcr]

include hok

/-- An exact fit. -/
theorem tookCached_popBin (hn : n < maxBinnedPages) (h0 : v.bin n ≠ NULL) (ha : a = v.bin n)
    (hv : v' = v.popBin n) : TookCached pf s s' n n a := by
  subst hv
  obtain ⟨sp, hsp, hi, hpages, hheld⟩ := (hok.bins n hn).head_mem h0
  rw [← ha] at hsp
  have hrec := hr.record a sp hsp
  have hrec' := hr'.record a sp hsp
  refine ⟨(hr.cached n a).mpr ⟨hn, sp, hsp, hi, hpages, id⟩, by rw [hrec, hrec'], by rw [hrec', hpages],
    fun r hsite => ?_, fun _ c => ?_, fun hlt => absurd hlt (Nat.lt_irrefl n)⟩
  · have h₁ := hr.region r
    have h₂ := hr'.region r
    simp only [hsite, ne_eq, not_false_eq_true, and_true] at h₁ h₂
    exact h₂.symm.trans h₁
  · rw [hr.chunkSpan c, hr'.chunkSpan c]
    rfl

/-- The best fit, cut in two. -/
theorem SplitBest.tookCached {rest : Nat} (hs : SplitBest pf v n m rest v') (hn : n < m)
    (hm : m < maxBinnedPages) (h0 : v.bin m ≠ NULL) (ha : a = v.bin m) :
    TookCached pf s s' n m a := by
  obtain ⟨sp, hsp, hpages, hcut⟩ := hs.splits
  obtain ⟨sp', hsp', hi, -⟩ := (hok.bins m hm).head_mem h0
  obtain rfl : sp = sp' := Option.some.inj (hsp.symm.trans hsp')
  obtain ⟨x, hx, hxb, hxn, -⟩ := hcut.front
  obtain ⟨y, hy, hyb, hyn, -⟩ := hcut.rest
  have hyi := hs.split_uninit
  rw [record_of hy] at hyi
  rw [← ha] at hsp hx hcut
  have hne : rest ≠ a := ne_of_span hsp hs.none
  have hrec := hr.record a sp hsp
  refine ⟨(hr.cached m a).mpr ⟨hm, sp, hsp, hi, hpages, id⟩, by rw [hrec, hr'.record a x hx, hxb],
    by rw [hr'.record a x hx, hxn], fun r hsite => ?_, fun he => absurd he hn.ne, fun _ => ⟨rest, ?_⟩⟩
  · have h₁ := hr.region r
    have h₂ := hr'.region r
    simp only [hsite, ne_eq, not_false_eq_true, and_true] at h₁ h₂
    rw [← h₁, ← h₂, hcut.region]
  · refine ⟨?_, by rw [hr'.record rest y hy, hyb, hrec], by rw [hr'.record rest y hy, hyn, hpages],
      (hr'.cached _ rest).mpr ⟨by omega, y, hy, hyi, by rw [hyn, hpages], hne⟩, fun c => ?_⟩
    · rw [hr.chunkSpan rest, hs.none]
      simp
    · rw [hr.chunkSpan c, hr'.chunkSpan c]
      by_cases hca : c = a
      · rw [hca, hsp, hx]
        simp only [Option.some.injEq, exists_eq_left', hxn, hpages]
        omega
      by_cases hcr : c = rest
      · rw [hcr, hy]
        simp only [Option.some.injEq, exists_eq_left', hyn, hpages]
        simp only [or_true, iff_true]
        omega
      · rw [hcut.exists_iff hok.toGeometry hsp (hpages ▸ hm)
          (P := fun x => x.pageCount < maxBinnedPages) (fun _ _ => Iff.rfl) hca hcr]
        simp [hcr]

/-- A request that some cached span is big enough for. -/
theorem Supply.tookCached (hs : Supply pf v n a v') (hn : n < maxBinnedPages)
    (hm : ∃ b, Cached s m b) (hnm : n ≤ m) (hmin : ∀ i, n ≤ i → i < m → ∀ b, ¬ Cached s i b) :
    TookCached pf s s' n m a := by
  obtain ⟨b, hb⟩ := hm
  obtain ⟨hm, hbm⟩ := (hr.cached m b).mp hb
  have hne : v.bin m ≠ NULL := fun h0 => (hok.bin_eq_null_iff hm).mp h0 b hbm
  have hnot : ∀ i, i < maxBinnedPages → v.bin i ≠ NULL → n ≤ i → ¬ i < m := by
    intro i hi h0 hni him
    exact h0 ((hok.bin_eq_null_iff hi).mpr fun c hc => hmin i hni him c ((hr.cached i c).mpr ⟨hi, hc⟩))
  cases hs with
  | direct hbig hd => exact absurd hn (Nat.not_lt.mpr hbig)
  | «exact» _ h0 ha hv =>
    obtain rfl : n = m := by
      have := hnot n hn h0 le_rfl
      omega
    exact tookCached_popBin hr hr' hok hn h0 ha hv
  | split m' rest hn' hm' h0 hbest ha hs =>
    obtain rfl : m' = m := by
      have h₁ := hnot m' hm' h0 hn'.le
      have h₂ : ¬ m < m' := fun hlt => hne (hbest m hnm hlt)
      omega
    exact hs.tookCached hr hr' hok hn' hm' h0 ha
  | fresh _ hbest hf => exact absurd (hbest m hnm hm) hne

/-- A request that no cached span is big enough for. -/
theorem Supply.tookFresh (hs : Supply pf v n a v') (hn : n < maxBinnedPages)
    (hnone : ∀ i, n ≤ i → ∀ b, ¬ Cached s i b) : TookFresh pf s s' n a := by
  have hempty : ∀ i, i < maxBinnedPages → n ≤ i → v.bin i = NULL := by
    intro i hi hni
    exact (hok.bin_eq_null_iff hi).mpr fun c hc => hnone i hni c ((hr.cached i c).mpr ⟨hi, hc⟩)
  cases hs with
  | direct hbig hd => exact absurd hn (Nat.not_lt.mpr hbig)
  | «exact» _ h0 ha hv => exact absurd (hempty n hn le_rfl) h0
  | split m' rest hn' hm' h0 hbest ha hs => exact absurd (hempty m' hm' hn'.le) h0
  | fresh _ hbest hf => exact hf.tookFresh hr hr' hn

end

/-- The word-by-word search finds the bin a scan of all of them finds. -/
theorem findBestFitting_eq_linearScan (h : Shows pf strict W s v) (hp : v.Pool held)
    (hn : n < maxBinnedPages) :
    ((findBestFittingUninitializedSpan n).run s).result
      = .ok ((linearScan s n).getD noFittingPageSequence) := by
  have hspec : Spec (fun _ => True) _ _ s _ := findBestFittingUninitializedSpan_spec h hp hn
  obtain ⟨⟨r, hres, -, hbest⟩, -⟩ := hspec fun _ _ => trivial
  rw [hres]
  congr 1
  unfold linearScan
  rw [h.bin_eq]
  rcases hbest with ⟨hr, hnr, h0, hmin⟩ | ⟨rfl, hnone⟩
  · have hfind : (List.range' n (maxBinnedPages - n)).find? (fun i => decide (v.bin i ≠ NULL))
        = some r := by
      rw [List.find?_range'_eq_some]
      refine ⟨by simpa using h0, List.mem_range'_1.mpr ⟨hnr, by omega⟩, fun i hi hlt => ?_⟩
      simpa using hmin i hi hlt
    rw [hfind]
    rfl
  · have hfind : (List.range' n (maxBinnedPages - n)).find? (fun i => decide (v.bin i ≠ NULL))
        = none := by
      rw [List.find?_eq_none]
      intro i hi
      obtain ⟨h₁, h₂⟩ := List.mem_range'_1.mp hi
      simpa using hnone i h₁ (by omega)
    rw [hfind]
    rfl

end

end FastAlloc
