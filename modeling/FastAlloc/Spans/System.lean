/-
FastAlloc.Spans.System — spans over whole runs of `cmalloc_initialize_span`
and `cmalloc_cache_span`.

The client initialises spans and caches those it holds, each at most once
per initialisation. The invariant is that the state shows a sound view whose
initialised spans are the client's.
-/
import FastAlloc.Spans.Initialize

namespace FastAlloc

open Lib Mem View

/-! ## The empty library -/

/-- Nothing is watched. -/
def Watch.none : Watch := ⟨.zero, NULL, fun _ => False⟩

def View.empty : View where
  root := NULL
  span := fun _ => Option.none
  chunk := fun _ => Option.none
  look := fun _ => NULL
  bin := fun _ => NULL
  bitmap := fun _ => 0
  dataArena := NULL
  localBin := fun _ _ => NULL
  region := fun _ => False
  bytes := fun _ => 0

theorem Shows.initial (pf : Platform) (strict : Bool) (proposals : Nat → Nat) :
    Shows pf strict .none (.initial proposals) .empty := by
  refine ⟨fun _ => .unused, .initial pf strict proposals, fun _ h0 => absurd rfl h0, fun _ => rfl, rfl,
    fun h0 => absurd rfl h0, fun h0 => absurd rfl h0, fun a sp => ?_, fun a c => ?_, fun k _ => ?_,
    rfl, rfl, rfl, rfl, fun r => ?_, fun _ hr => hr.elim, fun _ hk => hk.elim, fun _ hk => hk.elim⟩
  · simp [View.empty]
  · simp [View.empty]
  · exact lookup_zero rfl
  · simp [View.empty, State.initial]

theorem View.Ok.empty (pf : Platform) : View.empty.Ok pf fun _ => False where
  region_ok _ hr := hr.elim
  region_apart _ _ hr := hr.elim
  null := rfl
  placed _ _ ha := by cases ha
  look k _ a ha := by
    refine iff_of_false ha.symm ?_
    rintro ⟨sp, hsp, -⟩
    cases hsp
  headers := .nil fun c => by
    rintro ⟨d, hd⟩
    cases hd
  header_region _ _ hc := by cases hc
  region_header _ hr := hr.elim
  partitioned _ hr := hr.elim
  bins n _ := .nil fun a => by
    rintro ⟨sp, hsp, -⟩
    cases hsp
  bitmap n := by
    have h0 : bitAt View.empty.bitmap n = false := by
      simp [bitAt, View.empty]
    rw [h0]
    exact iff_of_false (by simp) fun hn => hn.2 rfl
  direct _ _ ha := by cases ha
  held_span _ hb := hb.elim

/-! ## Lookups -/

section

variable {pf : Platform} {strict : Bool} {W : Watch} {s : State} {v : View} {a k p : Nat} {sp : Span}

/-- `cmalloc_get` on the page map reads the view. -/
theorem Shows.run_get (h : Shows pf strict W s v) (hr : v.root ≠ NULL) (hk : k < 2 ^ 35) :
    (cmallocGet s.pageMap k).run s = ⟨.ok (v.look k), s, []⟩ := by
  obtain ⟨st, hst⟩ := h
  have hinv : (arenaAllocator pf strict).Inv s st := ⟨hst.arena, hst.settled⟩
  have hp : s.mem.ValidPath v.root k := NodeAllocator.validPath hinv (hst.trie hr)
  rw [hst.root, run_cmallocGet hp.root hp.l2 hp.l3, hst.look k hk]

/-- Without a page map `cmalloc_get` faults. -/
theorem Shows.get_ne_ok (h : Shows pf strict W s v) (hr : v.root = NULL) (k x : Nat) :
    ((cmallocGet s.pageMap k).run s).result ≠ .ok x := by
  intro hres
  rw [h.root_eq, hr] at hres
  obtain ⟨_, _, _, _, hload, -⟩ := Program.run_bind_inv (Program.run_of_result hres)
  exact not_valid_null (run_load_inv hload).1

/-- `cmalloc_get_span` finds the span an address lies in. -/
theorem Shows.run_getSpan (h : Shows pf strict W s v) (hgeo : v.Geometry pf) (ha : v.span a = some sp)
    (h₁ : sp.base ≤ p) (h₂ : p < sp.base + sp.size pf) :
    (cmallocGetSpan pf p).run s = ⟨.ok a, s, []⟩ := by
  have hcov := (Span.covers_page_iff (hgeo.placed a sp ha).aligned).mpr ⟨h₁, h₂⟩
  refine Program.run_bind_read run_global ?_
  rw [h.run_get (h.root_ne hgeo ha) (hgeo.key_lt ha hcov), hgeo.look_of_covers ha hcov]

end

/-! ## Runs -/

theorem mapped_of_all {t : List Event} (h : (t.all fun e => decide e.Mapped) = true) :
    ∀ e ∈ t, e.Mapped := fun e he => of_decide_eq_true (List.all_eq_true.mp h e he)

/-- The library state, and the spans the client holds. -/
structure SpanWorld where
  state : State
  taken : Nat → Prop

def SpanWorld.initial (proposals : Nat → Nat) : SpanWorld := ⟨.initial proposals, fun _ => False⟩

inductive SpanStep (pf : Platform) : SpanWorld → List Event → SpanWorld → Prop
  | start {w : SpanWorld} {c : Int} {size a : Nat} {s : State} {t : List Event} :
      pf.Request c size → (cmallocInitializeSpan pf c size).run w.state = ⟨.ok a, s, t⟩ →
      SpanStep pf w t ⟨s, fun b => b = a ∨ w.taken b⟩
  | cache {w : SpanWorld} {a : Nat} {s : State} {t : List Event} :
      w.taken a → (cmallocCacheSpan pf a).run w.state = ⟨.ok (), s, t⟩ →
      SpanStep pf w t ⟨s, fun b => w.taken b ∧ b ≠ a⟩

/-- The worlds reached from the start when every `mmap` succeeds. -/
def SpanReachable (pf : Platform) (w : SpanWorld) : Prop :=
  ∃ proposals, Run (SpanStep pf) (fun t => ∀ e ∈ t, e.Mapped) (.initial proposals) w

/-- What holds between two calls. -/
structure SpanInv (pf : Platform) (w : SpanWorld) (v : View) : Prop where
  shows : Shows pf false .none w.state v
  ok : v.Ok pf fun _ => False
  taken : ∀ a, w.taken a ↔ ∃ sp, v.span a = some sp ∧ sp.isInitialized = true

theorem SpanInv.initial (pf : Platform) (proposals : Nat → Nat) :
    SpanInv pf (.initial proposals) .empty := by
  refine ⟨.initial pf false proposals, .empty pf, fun a => ?_⟩
  simp [SpanWorld.initial, View.empty]

section

variable {pf : Platform} {w w' : SpanWorld} {v v' : View} {a : Nat} {sp : Span} {t : List Event}

/-- Whose spans are initialised after one more was. -/
theorem View.Initialized.initialized_iff {c : Int} {size : Nat} (h : v.Initialized pf c size a v')
    (hok : v.Ok pf fun _ => False) (hreq : pf.Request c size) (b : Nat) :
    (∃ sp, v'.span b = some sp ∧ sp.isInitialized = true) ↔
      b = a ∨ ∃ sp, v.span b = some sp ∧ sp.isInitialized = true := by
  obtain ⟨root, v₁, sp, sp', hr, hroot, hsup, hsp, hprep, rfl⟩ := h
  have hok' : View.Ok pf (fun _ => False) { v with root := root } :=
    ⟨hok.toGeometry.of_eq rfl rfl rfl rfl rfl, hok.toPool.of_eq rfl rfl rfl⟩
  have hs := hsup.supplied hok' hreq.sized.pages
  by_cases hb : b = a
  · rw [hb, span_set_self]
    simp [hprep.isInitialized]
  · rw [span_set_of_ne hb]
    simp only [hb, false_or]
    constructor
    · rintro ⟨x, hx, hi⟩
      rcases hv : v.span b with _ | y
      · have := hs.made b x hb hv hx
        rw [this] at hi
        cases hi
      · obtain ⟨p, hp⟩ := hs.kept b y hb hv
        obtain rfl := Option.some.inj (hx.symm.trans hp)
        exact ⟨y, rfl, hi⟩
    · rintro ⟨x, hx, hi⟩
      obtain ⟨p, hp⟩ := hs.kept b x hb hx
      exact ⟨_, hp, hi⟩

theorem View.retire_span_of_ne {b : Nat} (hb : b ≠ a) : (v.retire pf a sp).span b = v.span b := by
  unfold View.retire
  split
  · exact Function.update_of_ne hb _ _
  · exact Function.update_of_ne hb _ _

theorem View.not_initialized_retire (b : Nat) :
    (∃ x, (v.retire pf a sp).span b = some x ∧ x.isInitialized = true) ↔
      (∃ x, v.span b = some x ∧ x.isInitialized = true) ∧ b ≠ a := by
  by_cases hb : b = a
  · rw [hb]
    refine iff_of_false ?_ fun h => h.2 rfl
    rintro ⟨x, hx, hi⟩
    unfold View.retire at hx
    split at hx
    · rw [show (v.unmapSpan pf a sp).span a = none from Function.update_self ..] at hx
      cases hx
    · obtain rfl := Option.some.inj ((show (v.cacheSpan a sp).span a = some _ from
        Function.update_self ..).symm.trans hx)
      cases hi
  · rw [View.retire_span_of_ne hb]
    simp [hb]

/-- Each call keeps the invariant. -/
theorem SpanInv.step (h : SpanInv pf w v) (hst : SpanStep pf w t w') (hg : ∀ e ∈ t, e.Mapped) :
    ∃ v', SpanInv pf w' v' := by
  have hA : ∀ e ∈ t, Allowed false e := fun e he => allowed_of_mapped (hg e he)
  cases hst with
  | start hreq hrun =>
    have hspec := cmallocInitializeSpan_spec h.shows h.ok (fun _ hk => hk.elim) hreq
    obtain ⟨v', h', hinit⟩ := (hspec.elim hrun hA).1
    refine ⟨v', h', hinit.ok h.ok hreq, fun b => ?_⟩
    rw [hinit.initialized_iff h.ok hreq b, ← h.taken b]
  | @cache a s _ htaken hrun =>
    obtain ⟨sp, hsp, hi⟩ := (h.taken a).mp htaken
    have hspec := cmallocCacheSpan_spec h.shows h.ok.toGeometry hsp fun _ hk => hk.elim
    refine ⟨_, (hspec.elim hrun hA).1, h.ok.retire hsp hi, fun b => ?_⟩
    rw [View.not_initialized_retire b, ← h.taken b]

theorem SpanReachable.inv (h : SpanReachable pf w) : ∃ v, SpanInv pf w v := by
  obtain ⟨proposals, hrun⟩ := h
  exact hrun.invariant (P := fun w => ∃ v, SpanInv pf w v) ⟨_, .initial pf proposals⟩
    fun _ _ _ ⟨_, hv⟩ hst hg => hv.step hst hg

end

/-! ## Tiling and the page map -/

/-- `l` are the spans of the chunk `r`, met when `phys_next` is followed from
the span of its first page. -/
structure ChunkSpans (pf : Platform) (s : State) (r : Region) (l : List Nat) : Prop where
  linked : ∃ first, ((cmallocGetSpan pf r.base).run s).result = .ok first ∧
    Linked NULL (fun a => (s.mem.span a).physNext) (fun a => (s.mem.span a).physPrev) NULL first l
  tiles : Tiles (fun a => (s.mem.span a).base) (fun a => (s.mem.span a).size pf) r.base
    (r.base + r.len) l
  next : ∀ a ∈ l, (s.mem.span a).physNext ≠ NULL → (s.mem.span a).physNext ∈ l ∧
    (s.mem.span (s.mem.span a).physNext).physPrev = a ∧
    (s.mem.span a).base + (s.mem.span a).size pf = (s.mem.span (s.mem.span a).physNext).base

/-- `a` is a span of a mapped data chunk. -/
def IsChunkSpan (pf : Platform) (s : State) (a : Nat) : Prop :=
  ∃ r ∈ s.maps, r.site = .dataChunk ∧ ∃ l, ChunkSpans pf s r l ∧ a ∈ l

/-- `a` is in use and has pages of its own. -/
def SpanWorld.LiveDirect (w : SpanWorld) (a : Nat) : Prop :=
  w.taken a ∧ maxBinnedPages ≤ (w.state.mem.span a).pageCount

/-- The spans partition the data chunks, and the page map is theirs. -/
structure SpanWorld.PagesOk (pf : Platform) (w : SpanWorld) : Prop where
  chunks : ∀ r ∈ w.state.maps, r.site = .dataChunk → ∃ l, ChunkSpans pf w.state r l
  pages : ∀ a, IsChunkSpan pf w.state a ∨ w.LiveDirect a →
    ∀ k, (w.state.mem.span a).Covers pf k →
      ((cmallocGet w.state.pageMap k).run w.state).result = .ok a
  entries : ∀ k < 2 ^ 35, ∀ a, a ≠ NULL →
    ((cmallocGet w.state.pageMap k).run w.state).result = .ok a →
      (IsChunkSpan pf w.state a ∨ w.LiveDirect a) ∧ (w.state.mem.span a).Covers pf k

theorem ChunkSpans.unique {pf : Platform} {s : State} {r : Region} {l l' : List Nat}
    (h : ChunkSpans pf s r l) (h' : ChunkSpans pf s r l') : l = l' := by
  obtain ⟨first, hfirst, hl⟩ := h.linked
  obtain ⟨first', hfirst', hl'⟩ := h'.linked
  rw [hfirst] at hfirst'
  cases hfirst'
  exact hl.chain.unique hl'.chain

section

variable {pf : Platform} {strict : Bool} {W : Watch} {s : State} {v : View} {a k : Nat} {sp : Span}
  {r : Region}

theorem Shows.record_mem (h : Shows pf strict W s v) (ha : v.span a = some sp) :
    v.record a = s.mem.span a := by
  rw [record_of ha, h.record_eq ha]

theorem Shows.region_iff (h : Shows pf strict W s v) :
    v.region r ↔ r ∈ s.maps ∧ r.site ≠ .metaChunk := h.choose_spec.region r

/-- The partition a view has of a chunk is there in memory. -/
theorem Shows.chunkSpans (h : Shows pf strict W s v) (hgeo : v.Geometry pf) (hr : v.region r)
    (hsite : r.site = .dataChunk) : ∃ l, ChunkSpans pf s r l ∧ ∀ a, a ∈ l ↔ v.Inside r a := by
  obtain ⟨first, l, hl, ht, hm⟩ := hgeo.partitioned r hr hsite
  have hrec : ∀ a ∈ l, s.mem.span a = v.record a := by
    intro a ha
    obtain ⟨sp, hsp, -⟩ := (hm a).mp ha
    exact (h.record_mem hsp).symm
  have hl' : Linked NULL (fun a => (s.mem.span a).physNext) (fun a => (s.mem.span a).physPrev) NULL
      first l := hl.congr (fun a ha => by rw [hrec a ha]) fun a ha => by rw [hrec a ha]
  have ht' : Tiles (fun a => (s.mem.span a).base) (fun a => (s.mem.span a).size pf) r.base
      (r.base + r.len) l := ht.congr (fun a ha => by rw [hrec a ha]) fun a ha => by rw [hrec a ha]
  refine ⟨l, ⟨⟨first, ?_, hl'⟩, ht', fun a ha h0 => ?_⟩, hm⟩
  · -- the first span starts where the chunk does
    cases l with
    | nil =>
      have hlen := (hgeo.region_ok r hr).1
      have : r.base = r.base + r.len := ht
      omega
    | cons b l =>
      obtain rfl : first = b := hl.1
      obtain ⟨sp, hsp, -⟩ := (hm first).mp (List.mem_cons_self ..)
      obtain ⟨hbase, hpos, -⟩ := ht
      dsimp only at hbase hpos
      rw [record_of hsp] at hbase hpos
      rw [h.run_getSpan hgeo hsp (by omega) (by omega)]
  · obtain ⟨l₁, l₂, rfl⟩ := List.append_of_mem ha
    obtain ⟨q, -, -, -, hrest⟩ := hl'.tail
    cases l₂ with
    | nil => exact absurd hrest h0
    | cons b l₂ =>
      obtain ⟨hb, -, hprev, -⟩ := hrest
      dsimp only at hb hprev
      rw [hb]
      refine ⟨?_, hprev, ht'.next.symm⟩
      exact List.mem_append_right _ (List.mem_cons_of_mem _ (List.mem_cons_self ..))

/-- The chunk spans are the view's spans that are not mapped directly. -/
theorem Shows.isChunkSpan_iff (h : Shows pf strict W s v) (hgeo : v.Geometry pf) :
    IsChunkSpan pf s a ↔ ∃ sp, v.span a = some sp ∧ sp.pageCount < maxBinnedPages := by
  constructor
  · rintro ⟨r, hr, hsite, l, hl, ha⟩
    have hreg : v.region r := h.region_iff.mpr ⟨hr, by rw [hsite]; decide⟩
    obtain ⟨l', hl', hm⟩ := h.chunkSpans hgeo hreg hsite
    obtain rfl := hl.unique hl'
    obtain ⟨sp, hsp, h₁, h₂⟩ := (hm a).mp ha
    refine ⟨sp, hsp, Nat.lt_of_not_le fun hbig => ?_⟩
    -- a span with a region of its own is in no chunk
    have hdirect := (hgeo.placed a sp hsp).direct hbig
    have hpos := (hgeo.bounds hsp).2.2
    have hne : r ≠ ⟨sp.base, sp.size pf, .direct⟩ := by
      rintro rfl
      cases hsite
    rcases hgeo.region_apart r _ hreg hdirect hne with hd | hd
    all_goals
      dsimp only at hd
      omega
  · rintro ⟨sp, hsp, hlt⟩
    obtain ⟨r, hr, hsite, h₁, h₂⟩ := (hgeo.placed a sp hsp).chunk hlt
    obtain ⟨l, hl, hm⟩ := h.chunkSpans hgeo hr hsite
    have hpos := (hgeo.bounds hsp).2.2
    exact ⟨r, (h.region_iff.mp hr).1, hsite, l, hl, (hm a).mpr ⟨sp, hsp, h₁, by omega⟩⟩

end

section

variable {pf : Platform} {w : SpanWorld} {v : View} {a : Nat}

/-- The spans of the view are those in use and those of the chunks. -/
theorem SpanInv.exists_span_iff (h : SpanInv pf w v) :
    (∃ sp, v.span a = some sp) ↔ IsChunkSpan pf w.state a ∨ w.LiveDirect a := by
  rw [h.shows.isChunkSpan_iff h.ok.toGeometry, SpanWorld.LiveDirect, h.taken a]
  constructor
  · rintro ⟨sp, hsp⟩
    by_cases hlt : sp.pageCount < maxBinnedPages
    · exact .inl ⟨sp, hsp, hlt⟩
    · have hbig := Nat.le_of_not_lt hlt
      rw [h.shows.record_eq hsp]
      exact .inr ⟨⟨sp, hsp, (h.ok.direct a sp hsp hbig).resolve_right id⟩, hbig⟩
  · rintro (⟨sp, hsp, -⟩ | ⟨⟨sp, hsp, -⟩, -⟩)
    · exact ⟨sp, hsp⟩
    · exact ⟨sp, hsp⟩

/-- Every data chunk is partitioned by its spans, the page map has for every
page of a span that span, and has nothing else. -/
theorem chunks_tiled_and_mapped (h : SpanReachable pf w) : w.PagesOk pf := by
  obtain ⟨v, hv⟩ := h.inv
  have hgeo := hv.ok.toGeometry
  constructor
  case chunks =>
    intro r hr hsite
    have hreg : v.region r := hv.shows.region_iff.mpr ⟨hr, by rw [hsite]; decide⟩
    obtain ⟨l, hl, -⟩ := hv.shows.chunkSpans hgeo hreg hsite
    exact ⟨l, hl⟩
  case pages =>
    intro a ha k hk
    obtain ⟨sp, hsp⟩ := hv.exists_span_iff.mpr ha
    rw [hv.shows.record_eq hsp] at hk
    rw [hv.shows.run_get (hv.shows.root_ne hgeo hsp) (hgeo.key_lt hsp hk),
      hgeo.look_of_covers hsp hk]
  case entries =>
    intro k hk a ha hget
    have hr : v.root ≠ NULL := fun h0 => hv.shows.get_ne_ok h0 k a hget
    rw [hv.shows.run_get hr hk] at hget
    cases hget
    obtain ⟨sp, hsp, hcov⟩ := (hgeo.look k hk _ ha).mp rfl
    refine ⟨hv.exists_span_iff.mp ⟨sp, hsp⟩, ?_⟩
    rwa [hv.shows.record_eq hsp]

/-- One span of the smallest size class, on 32 MiB pages. -/
theorem chunks_tiled_and_mapped_first : ∃ w : SpanWorld, w.taken (2 ^ 30 + 32816) ∧
    w.PagesOk .hugePages :=
  have hres : ((cmallocInitializeSpan .hugePages 0 16).run
      (.initial fun n => 2 ^ 30 * (n + 1))).result = .ok (2 ^ 30 + 32816) := by decide +kernel
  have htrace : (((cmallocInitializeSpan .hugePages 0 16).run
      (.initial fun n => 2 ^ 30 * (n + 1))).trace.all fun e => decide e.Mapped) = true := by
    decide +kernel
  ⟨⟨_, fun b => b = 2 ^ 30 + 32816 ∨ False⟩, Or.inl rfl, chunks_tiled_and_mapped ⟨_, .tail .refl
    (.start (.inr (by decide)) (Program.run_of_result hres)) (mapped_of_all htrace)⟩⟩

end

end FastAlloc
