/-
FastAlloc.Threads.Bins — the thread-local bins and the pool of a reachable
world, as memory has them.
-/
import FastAlloc.Threads.Live

namespace FastAlloc

open Lib Mem View

/-! ## Thread-local bins -/

/-- `a` is a span in use: initialised, and the page map has a page of it. -/
def InUse (s : State) (a : Nat) : Prop :=
  a ≠ NULL ∧ (s.mem.span a).isInitialized = true ∧
    ∃ k < 2 ^ 35, ((cmallocGet s.pageMap k).run s).result = .ok a

/-- The spans of a bin, in order. -/
def BinSpans (s : State) (t : Tid) (c : Int) (l : List Nat) : Prop :=
  Linked NULL (fun a => (s.mem.span a).nextInSizeClassBin) (fun a => (s.mem.span a).prevInSizeClassBin)
    NULL (s.threadLocalBin t c) l

/-- The bins hold the partly free spans of their threads, and what
`allocate_block` is called on has a free block. -/
structure World.BinsOk (pf : Platform) (w : World) : Prop where
  bin : ∀ t c, ∃ l, BinSpans w.state t c l ∧ l.Nodup ∧ ∀ a, a ∈ l ↔ InUse w.state a ∧
    (w.state.mem.span a).sizeClassIndex = c ∧ w.owner a = t ∧
    0 < (w.state.mem.span a).freeCount ∧
    (w.state.mem.span a).freeCount < (w.state.mem.span a).blockCount
  unique : ∀ a t c l t' c' l', BinSpans w.state t c l → a ∈ l → BinSpans w.state t' c' l' → a ∈ l' →
    t = t' ∧ c = c'
  head : ∀ t c, w.state.threadLocalBin t c ≠ NULL →
    (w.state.mem.span (w.state.threadLocalBin t c)).nonfullBitmap ≠ 0
  fresh : ∀ t client size a, w.pc t = some (.allocate client size a) →
    (w.state.mem.span a).nonfullBitmap ≠ 0
  returns : ∀ t size, w.pc t = none → pf.NonWrapping size →
    (∀ e ∈ ((cmalloc pf t size).run w.state).trace, e.Mapped) →
    ∃ p, ((cmalloc pf t size).run w.state).result = .ok p ∧ p ≠ NULL

/-- Between calls, the chunk spans without a live block are in the pool and
in no bin. -/
def World.FreePooled (pf : Platform) (w : World) : Prop :=
  ∀ a, IsChunkSpan pf w.state a →
    (∀ p, w.live p ≠ none → ((cmallocGetSpan pf p).run w.state).result ≠ .ok a) →
    Cached w.state (w.state.mem.span a).pageCount a ∧
      ∀ t c l, BinSpans w.state t c l → a ∉ l

section

variable {pf : Platform} {strict : Bool} {W : Watch} {s : State} {w : World} {v : View}
  {a n p : Nat} {sp : Span} {u : Usage} {t : Tid} {c : Int} {l : List Nat}

theorem BinSpans.unique {l' : List Nat} (h : BinSpans s t c l) (h' : BinSpans s t c l') : l = l' :=
  h.chain.unique h'.chain

/-- The spans in use are the initialised spans of the view. -/
theorem Shows.inUse_iff (h : Shows pf strict W s v) (hgeo : v.Geometry pf) :
    InUse s a ↔ ∃ sp, v.span a = some sp ∧ sp.isInitialized = true := by
  constructor
  · rintro ⟨h0, hi, k, hk, hget⟩
    have hr : v.root ≠ NULL := fun hr => h.get_ne_ok hr k a hget
    rw [h.run_get hr hk] at hget
    cases hget
    obtain ⟨sp, hsp, -⟩ := (hgeo.look k hk _ h0).mp rfl
    exact ⟨sp, hsp, h.record_eq hsp ▸ hi⟩
  · rintro ⟨sp, hsp, hi⟩
    have hcov : sp.Covers pf (pf.roundDownPageIndex sp.base) :=
      ⟨le_rfl, Nat.lt_add_of_pos_right (hgeo.placed a sp hsp).pages⟩
    have hk := hgeo.key_lt hsp hcov
    refine ⟨hgeo.ne_null hsp, (h.record_eq hsp).symm ▸ hi, _, hk, ?_⟩
    rw [h.run_get (h.root_ne hgeo hsp) hk, hgeo.look_of_covers hsp hcov]

namespace HeapInv

variable {H : Heap} (h : HeapInv pf strict W s v H)
include h

theorem bin_eq_some_iff : H.bin a = some (t, c) ↔ InUse s a ∧ (s.mem.span a).sizeClassIndex = c ∧
    H.owner a = t ∧ 0 < (s.mem.span a).freeCount ∧
    (s.mem.span a).freeCount < (s.mem.span a).blockCount := by
  rw [Heap.bin_eq_some, h.shows.inUse_iff h.sound.toGeometry]
  constructor
  · rintro ⟨u, hu, hpos, hlt, ho, hc⟩
    obtain ⟨sp, hsp, hi, rfl, hblocks⟩ := h.record hu
    rw [h.shows.record_eq hsp, hblocks.freeCount]
    exact ⟨⟨sp, hsp, hi⟩, hc, ho, hpos, hlt⟩
  · rintro ⟨⟨sp, hsp, hi⟩, hc, ho, hpos, hlt⟩
    rw [h.shows.record_eq hsp] at hc hpos hlt
    rw [(h.sound.blocks a sp hsp hi).freeCount] at hpos hlt
    exact ⟨sp.use, h.of_span hsp hi, hpos, hlt, ho, hc⟩

theorem binSpans (t : Tid) (c : Int) :
    ∃ l, BinSpans s t c l ∧ ∀ a, a ∈ l ↔ H.bin a = some (t, c) := by
  obtain ⟨l, hl, hm⟩ := h.bins.lists (t, c)
  have hrec : ∀ a ∈ l, v.record a = s.mem.span a := by
    intro a ha
    obtain ⟨sp, hsp⟩ := h.bins.span a _ ((hm a).mp ha)
    exact h.shows.record_mem hsp
  refine ⟨l, ?_, hm⟩
  unfold BinSpans
  rw [h.shows.localBin_eq]
  refine hl.congr (fun a ha => ?_) fun a ha => ?_
  · rw [nextLink, hrec a ha]
  · rw [prevLink, hrec a ha]

theorem bin_of_mem (hl : BinSpans s t c l) (ha : a ∈ l) : H.bin a = some (t, c) := by
  obtain ⟨l', hl', hm⟩ := h.binSpans t c
  exact (hm a).mp (hl.unique hl' ▸ ha)

end HeapInv

namespace WorldInv

variable (h : WorldInv pf strict w v)
include h

theorem bin_eq_some_iff : (w.heap v).bin a = some (t, c) ↔ InUse w.state a ∧
    (w.state.mem.span a).sizeClassIndex = c ∧ w.owner a = t ∧ 0 < (w.state.mem.span a).freeCount ∧
    (w.state.mem.span a).freeCount < (w.state.mem.span a).blockCount :=
  h.heap.bin_eq_some_iff

theorem binSpans (t : Tid) (c : Int) :
    ∃ l, BinSpans w.state t c l ∧ ∀ a, a ∈ l ↔ (w.heap v).bin a = some (t, c) :=
  h.heap.binSpans t c

theorem bin_of_mem (hl : BinSpans w.state t c l) (ha : a ∈ l) : (w.heap v).bin a = some (t, c) :=
  h.heap.bin_of_mem hl ha

/-- A span with a free block has it in its bitmap. -/
theorem nonfull_ne_zero (ha : (w.heap v).use a = some u) (hpos : 0 < u.free.card) :
    (w.state.mem.span a).nonfullBitmap ≠ 0 := by
  obtain ⟨sp, hsp, -, rfl, hblocks⟩ := h.heap.record ha
  rw [h.heap.shows.record_eq hsp, hblocks.nonfull_ne_zero_iff, hblocks.freeCount]
  exact hpos

end WorldInv

/-- In every reachable world the bins are well formed, and every `cmalloc`
that sees no `mmap` fail returns a block; between calls the fully free spans
are in the pool. -/
theorem bins_sound (h : Reachable pf w) :
    w.BinsOk pf ∧ ((∀ t, w.pc t = none) → w.FreePooled pf) := by
  obtain ⟨v, hv⟩ := h.inv
  have hshows := hv.heap.shows
  have hgeo := hv.heap.sound.toGeometry
  refine ⟨?_, fun hidle a ha hlive => ?_⟩
  · constructor
    case bin =>
      intro t c
      obtain ⟨l, hl, hm⟩ := hv.binSpans t c
      exact ⟨l, hl, hl.chain.nodup, fun a => (hm a).trans hv.bin_eq_some_iff⟩
    case unique =>
      intro a t c l t' c' l' hl ha hl' ha'
      have heq := (hv.bin_of_mem hl ha).symm.trans (hv.bin_of_mem hl' ha')
      cases heq
      exact ⟨rfl, rfl⟩
    case head =>
      intro t c h0
      rw [hshows.localBin_eq] at h0 ⊢
      obtain ⟨sp, hsp, hi, hblocks, huse, hpos, -⟩ := hv.heap.head h0
      exact hv.nonfull_ne_zero huse (hblocks.freeCount ▸ hpos)
    case fresh =>
      intro t client size a hpc
      obtain ⟨-, -, u, hu, hall, -⟩ := hv.heap.heap.pcs t _ hpc
      exact hv.nonfull_ne_zero hu (hall.symm ▸ (hv.heap.heap.sound a u hu).blockCount_pos)
    case returns =>
      intro t size hpc hsize hm
      obtain ⟨p, w', hp, hw', -, -, -, hlive⟩ := h.cmalloc hpc hsize hm
      obtain ⟨v', hv'⟩ := hw'.inv
      refine ⟨p, hp, hv'.heap.heap.live_ne_null (x := (t, size)) ?_⟩
      exact (congrFun hlive p).trans (Function.update_self ..)
  · obtain ⟨sp, hsp, hlt⟩ := (hshows.isChunkSpan_iff hgeo).mp ha
    have hidle' : ¬ (w.heap v).Transit a := by
      rintro ⟨t, pc, hpc, -⟩
      exact Option.some_ne_none pc (hpc.symm.trans (hidle t))
    -- a span in use has a block out, for it is in no call's hands
    have hno : sp.isInitialized = false := by
      by_contra hi
      have huse := hv.heap.of_span hsp (Bool.eq_true_of_not_eq_false hi)
      have hsound := hv.heap.heap.sound a _ huse
      have hex : ∃ i < sp.use.blockCount, i ∉ sp.use.free := by
        by_contra hall
        refine hidle' (hv.heap.heap.full a _ huse (le_antisymm hsound.card_le ?_))
        have hsub : Finset.range sp.use.blockCount ⊆ sp.use.free := fun i hi' =>
          by_contra fun hf => hall ⟨i, Finset.mem_range.mp hi', hf⟩
        exact (Finset.card_range _).symm.trans_le (Finset.card_le_card hsub)
      obtain ⟨i, hi', hf⟩ := hex
      have hb : (w.heap v).IsBlock (sp.use.block i) a sp.use i := ⟨huse, hi', rfl⟩
      obtain ⟨x, hx⟩ := (hv.heap.heap.out _ _ _ _ hb).mpr ⟨hf, hidle'⟩
      refine hlive _ (fun hn => Option.some_ne_none x (hx.symm.trans hn)) ?_
      rw [hv.run_getSpan_live hb]
    refine ⟨?_, fun t c l hl ha => ?_⟩
    · rw [hshows.record_eq hsp]
      exact (hshows.cached_iff hv.heap.sound.toPool _ a).mpr ⟨hlt, sp, hsp, hno, rfl, id⟩
    · obtain ⟨u, hu, -⟩ := Heap.bin_eq_some.mp (hv.bin_of_mem hl ha)
      obtain ⟨x, hx, hi, -⟩ := hv.heap.record hu
      obtain rfl := Option.some.inj (hsp.symm.trans hx)
      rw [hno] at hi
      cases hi

theorem bins_sound_first : ∃ w : World, w.live (2 ^ 31) = some (0, 16) ∧ w.BinsOk .hugePages ∧
    w.FreePooled .hugePages :=
  have ⟨w, hw, hlive, hpc, _⟩ := Reachable.first
  have hall := bins_sound hw
  ⟨w, hlive, hall.1, hall.2 hpc⟩

/-! ## The pool -/

/-- The pool holds the chunk spans that are not in use, by page count, and
the bitmap says which of its bins do. -/
structure PoolOk (pf : Platform) (s : State) : Prop where
  bitmap : ∀ n, bitAt s.nonEmptyBitmap n = true ↔
    n < maxBinnedPages ∧ s.uninitilizedSpanBin n ≠ NULL
  bin : ∀ n < maxBinnedPages, ∃ l, Chain NULL (fun a => (s.mem.span a).nextInUninitializedBin)
    (s.uninitilizedSpanBin n) l ∧ l.Nodup ∧ ∀ a ∈ l, (s.mem.span a).pageCount = n ∧ 1 ≤ n ∧
      (s.mem.span a).isInitialized = false
  once : ∀ a m n, Cached s m a → Cached s n a → m = n
  all : ∀ a, IsChunkSpan pf s a → (s.mem.span a).isInitialized = false →
    Cached s (s.mem.span a).pageCount a

/-- A cached span has no live block and is in no thread's bin. -/
structure World.PoolApart (pf : Platform) (w : World) : Prop where
  live : ∀ n a, Cached w.state n a → ∀ p, w.live p ≠ none →
    ((cmallocGetSpan pf p).run w.state).result ≠ .ok a
  bin : ∀ n a, Cached w.state n a → ∀ t c l, BinSpans w.state t c l → a ∉ l

section

variable {pf : Platform} {strict : Bool} {W : Watch} {s : State} {w : World} {v : View} {a n : Nat}

theorem Shows.poolOk (h : Shows pf strict W s v) (hok : v.Ok pf fun _ => False) : PoolOk pf s := by
  have hcached := h.cached_iff hok.toPool
  constructor
  case bitmap =>
    intro n
    rw [h.bitmap_eq, h.bin_eq]
    exact hok.bitmap n
  case bin =>
    intro n hn
    obtain ⟨l, hl, hm⟩ := hok.bins n hn
    have hl' : Chain NULL (fun a => (s.mem.span a).nextInUninitializedBin)
        (s.uninitilizedSpanBin n) l := by
      rw [h.bin_eq]
      refine hl.congr fun a ha => ?_
      obtain ⟨sp, hsp, -⟩ := (hm a).mp ha
      rw [h.record_mem hsp]
    refine ⟨l, hl', hl'.nodup, fun a ha => ?_⟩
    obtain ⟨sp, hsp, hi, hpages, -⟩ := (hm a).mp ha
    rw [h.record_eq hsp]
    exact ⟨hpages, hpages ▸ (hok.placed a sp hsp).pages, hi⟩
  case once =>
    intro a m n hm hn
    obtain ⟨-, sp, hsp, -, hpages, -⟩ := (hcached m a).mp hm
    obtain ⟨-, sp', hsp', -, hpages', -⟩ := (hcached n a).mp hn
    obtain rfl := Option.some.inj (hsp.symm.trans hsp')
    exact hpages.symm.trans hpages'
  case all =>
    intro a ha hi
    obtain ⟨sp, hsp, hlt⟩ := (h.isChunkSpan_iff hok.toGeometry).mp ha
    rw [h.record_eq hsp] at hi ⊢
    exact (hcached _ a).mpr ⟨hlt, sp, hsp, hi, rfl, id⟩

theorem WorldInv.poolApart (h : WorldInv pf strict w v) : w.PoolApart pf := by
  have hcached := h.heap.shows.cached_iff h.heap.sound.toPool
  constructor
  case live =>
    intro n a ha p hp hget
    obtain ⟨-, sp, hsp, hi, -⟩ := (hcached n a).mp ha
    obtain ⟨⟨t, k⟩, hp⟩ := Option.ne_none_iff_exists'.mp hp
    obtain ⟨b, sp', i, hsp', hi', -, hb, -⟩ := h.live_record hp
    rw [h.run_getSpan_live hb] at hget
    cases hget
    obtain rfl := Option.some.inj (hsp.symm.trans hsp')
    exact Bool.noConfusion (hi.symm.trans hi')
  case bin =>
    intro n a ha t c l hl hm
    obtain ⟨-, sp, hsp, hi, -⟩ := (hcached n a).mp ha
    obtain ⟨u, hu, -⟩ := Heap.bin_eq_some.mp (h.bin_of_mem hl hm)
    obtain ⟨sp', hsp', hi', -⟩ := h.heap.record hu
    obtain rfl := Option.some.inj (hsp.symm.trans hsp')
    exact Bool.noConfusion (hi.symm.trans hi')

/-- The pool is well formed after any calls of the two critical sections,
and in every world that threads reach with them. -/
theorem pool_sound : (∀ w, SpanReachable pf w → PoolOk pf w.state) ∧
    ∀ w, Reachable pf w → PoolOk pf w.state ∧ w.PoolApart pf := by
  refine ⟨fun w hw => ?_, fun w hw => ?_⟩
  · obtain ⟨v, hv⟩ := hw.inv
    exact hv.shows.poolOk hv.ok
  · obtain ⟨v, hv⟩ := hw.inv
    exact ⟨hv.heap.shows.poolOk hv.heap.sound.toOk, hv.poolApart⟩

theorem pool_sound_first : ∃ w : World, w.live (2 ^ 31) = some (0, 16) ∧
    PoolOk .hugePages w.state ∧ w.PoolApart .hugePages :=
  have ⟨w, hw, hlive, _⟩ := Reachable.first
  ⟨w, hlive, pool_sound.2 w hw⟩

end

end

end FastAlloc
