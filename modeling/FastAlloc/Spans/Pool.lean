/-
FastAlloc.Spans.Pool — what holds of the spans between two critical
sections, as an invariant of views, and the changes that keep it.

`View.Ok pf held v` says that the page map, the span records, the pool of
cached spans and the data chunks agree. `held` are the spans that are not
initialised and not in the pool either: a critical section has taken them
out or has just made them.
-/
import FastAlloc.Lib.Bitmap
import FastAlloc.Lib.Tiling
import FastAlloc.Spans.View

namespace FastAlloc

open Lib Mem

/-! ## Pages -/

namespace Platform

variable (pf : Platform)

theorem pageSize_pos : 0 < pf.pageSize := Nat.two_pow_pos _

theorem roundDownPageIndex_eq (p : Nat) : pf.roundDownPageIndex p = p / pf.pageSize :=
  Nat.shiftRight_eq_div_pow p _

theorem shiftLeft_pageShift (n : Nat) : n <<< pf.pageShift = n * pf.pageSize :=
  Nat.shiftLeft_eq n _

theorem pageSize_ge : 4096 ≤ pf.pageSize :=
  (show 4096 = 2 ^ 12 by rfl) ▸ Nat.pow_le_pow_right Nat.two_pos pf.twelve_le

/-- Addresses below `2 ^ 47` lie on pages below `2 ^ 35`. -/
theorem page_lt {p : Nat} (hp : p < 2 ^ 47) : pf.roundDownPageIndex p < 2 ^ 35 := by
  rw [pf.roundDownPageIndex_eq]
  refine (Nat.div_le_div_left pf.pageSize_ge (by decide)).trans_lt ?_
  omega

end Platform

namespace Span

variable (pf : Platform) (sp : Span)

/-- The bytes of a span. -/
def size : Nat := sp.pageCount * pf.pageSize

/-- Page `k` is one of the span's. -/
def Covers (k : Nat) : Prop :=
  pf.roundDownPageIndex sp.base ≤ k ∧ k < pf.roundDownPageIndex sp.base + sp.pageCount

/-- The pages of a span are a run of whole pages, cut from a data chunk or
mapped just for it. -/
structure Placed (region : Region → Prop) : Prop where
  aligned : sp.base % pf.pageSize = 0
  pages : 0 < sp.pageCount
  chunk : sp.pageCount < maxBinnedPages → ∃ r, region r ∧ r.site = .dataChunk ∧
    r.base ≤ sp.base ∧ sp.base + sp.size pf ≤ r.base + r.len
  direct : maxBinnedPages ≤ sp.pageCount → region ⟨sp.base, sp.size pf, .direct⟩

variable {pf : Platform} {sp : Span} {p k : Nat}

/-- An aligned span covers the pages its bytes lie on. -/
theorem covers_page_iff (ha : sp.base % pf.pageSize = 0) :
    sp.Covers pf (pf.roundDownPageIndex p) ↔ sp.base ≤ p ∧ p < sp.base + sp.size pf := by
  have hpos := pf.pageSize_pos
  obtain ⟨b, hb⟩ := Nat.dvd_of_mod_eq_zero ha
  rw [Covers, size, pf.roundDownPageIndex_eq, pf.roundDownPageIndex_eq, hb,
    Nat.mul_div_cancel_left _ hpos, Nat.le_div_iff_mul_le hpos, Nat.div_lt_iff_lt_mul hpos,
    Nat.mul_comm b, Nat.add_mul, Nat.mul_comm b]

end Span

/-! ## The invariant -/

namespace View

/-- The record of a span, a blank one where there is none. -/
def record (v : View) (a : Nat) : Span := (v.span a).getD .zero

theorem record_of {v : View} {a : Nat} {sp : Span} (h : v.span a = some sp) : v.record a = sp := by
  rw [record, h]
  rfl

/-- `a` is in the bin for `n` pages. -/
def Cached (v : View) (held : Nat → Prop) (n a : Nat) : Prop :=
  ∃ sp, v.span a = some sp ∧ sp.isInitialized = false ∧ sp.pageCount = n ∧ ¬ held a

/-- The span `a` starts inside the region `r`. -/
def Inside (v : View) (r : Region) (a : Nat) : Prop :=
  ∃ sp, v.span a = some sp ∧ r.base ≤ sp.base ∧ sp.base < r.base + r.len

/-- Following `phys_next` from its first span, the spans of a chunk are
linked both ways and tile it. -/
def Partitioned (pf : Platform) (v : View) (r : Region) : Prop :=
  ∃ first l, Linked NULL (fun a => (v.record a).physNext) (fun a => (v.record a).physPrev) NULL
      first l ∧
    Tiles (fun a => (v.record a).base) (fun a => (v.record a).size pf) r.base (r.base + r.len) l ∧
    ∀ a, a ∈ l ↔ v.Inside r a

/-- The page map, the span records and the data chunks agree. -/
structure Geometry (pf : Platform) (v : View) : Prop where
  region_ok : ∀ r, v.region r → r.len ≠ 0 ∧ r.base ≠ NULL ∧ r.base % pf.pageSize = 0 ∧
    r.base + r.len ≤ 2 ^ 47
  region_apart : ∀ r r', v.region r → v.region r' → r ≠ r' → r.Disjoint r'
  null : v.span NULL = none
  placed : ∀ a sp, v.span a = some sp → sp.Placed pf v.region
  look : ∀ k < 2 ^ 35, ∀ a, a ≠ NULL →
    (v.look k = a ↔ ∃ sp, v.span a = some sp ∧ sp.Covers pf k)
  headers : ChainOf NULL (fun c => ((v.chunk c).getD .zero).prev) v.dataArena
    fun c => ∃ d, v.chunk c = some d
  header_region : ∀ c d, v.chunk c = some d → ∃ r, v.region r ∧ r.site = .dataChunk ∧ r.base = d.base
  region_header : ∀ r, v.region r → r.site = .dataChunk → ∃ c d, v.chunk c = some d ∧ d.base = r.base
  partitioned : ∀ r, v.region r → r.site = .dataChunk → v.Partitioned pf r

/-- The bins hold the cached spans, and the bitmap says which bins do. -/
structure Pool (held : Nat → Prop) (v : View) : Prop where
  bins : ∀ n < maxBinnedPages,
    ChainOf NULL (fun a => (v.record a).nextInUninitializedBin) (v.bin n) (v.Cached held n)
  bitmap : ∀ n, bitAt v.bitmap n = true ↔ n < maxBinnedPages ∧ v.bin n ≠ NULL
  direct : ∀ a sp, v.span a = some sp → maxBinnedPages ≤ sp.pageCount →
    sp.isInitialized = true ∨ held a
  held_span : ∀ a, held a → ∃ sp, v.span a = some sp

structure Ok (pf : Platform) (held : Nat → Prop) (v : View) : Prop
    extends Geometry pf v, Pool held v

section

variable {pf : Platform} {held held' : Nat → Prop} {v v' : View} {a b k p n : Nat} {sp sp' : Span}
  {r : Region}

namespace Geometry

variable (h : v.Geometry pf)
include h

theorem ne_null (ha : v.span a = some sp) : a ≠ NULL := by
  rintro rfl
  rw [h.null] at ha
  simp at ha

/-- Every span lies in one region of user data. -/
theorem exists_region (ha : v.span a = some sp) :
    ∃ r, v.region r ∧ r.base ≤ sp.base ∧ sp.base + sp.size pf ≤ r.base + r.len := by
  have hp := h.placed a sp ha
  by_cases hn : sp.pageCount < maxBinnedPages
  · obtain ⟨r, hr, -, h₁, h₂⟩ := hp.chunk hn
    exact ⟨r, hr, h₁, h₂⟩
  · exact ⟨_, hp.direct (Nat.le_of_not_lt hn), le_rfl, le_rfl⟩

theorem bounds (ha : v.span a = some sp) :
    sp.base ≠ NULL ∧ sp.base + sp.size pf ≤ 2 ^ 47 ∧ 0 < sp.size pf := by
  obtain ⟨r, hr, h₁, h₂⟩ := h.exists_region ha
  obtain ⟨-, h₃, -, h₄⟩ := h.region_ok r hr
  have hpos : 0 < sp.size pf := Nat.mul_pos (h.placed a sp ha).pages pf.pageSize_pos
  exact ⟨by change sp.base ≠ 0; change r.base ≠ 0 at h₃; omega, by omega, hpos⟩

theorem key_lt (ha : v.span a = some sp) (hk : sp.Covers pf k) : k < 2 ^ 35 := by
  obtain ⟨-, hb, -⟩ := h.bounds ha
  have hp := h.placed a sp ha
  have hpos := pf.pageSize_pos
  -- page `k` starts inside the span
  have hcov : sp.Covers pf (pf.roundDownPageIndex (k * pf.pageSize)) := by
    rwa [pf.roundDownPageIndex_eq, Nat.mul_div_cancel _ hpos]
  have hin := (Span.covers_page_iff hp.aligned).mp hcov
  have := pf.page_lt (p := k * pf.pageSize) (by omega)
  rwa [pf.roundDownPageIndex_eq, Nat.mul_div_cancel _ hpos] at this

/-- The page map finds the span of a page. -/
theorem look_of_covers (ha : v.span a = some sp) (hk : sp.Covers pf k) : v.look k = a :=
  (h.look k (h.key_lt ha hk) a (h.ne_null ha)).mpr ⟨sp, ha, hk⟩

/-- No two spans share a page. -/
theorem eq_of_covers (ha : v.span a = some sp) (hb : v.span b = some sp') (hk : sp.Covers pf k)
    (hk' : sp'.Covers pf k) : a = b := by
  rw [← h.look_of_covers ha hk, h.look_of_covers hb hk']

/-- No two spans share a byte. -/
theorem apart (ha : v.span a = some sp) (hb : v.span b = some sp') (hne : a ≠ b) :
    sp.base + sp.size pf ≤ sp'.base ∨ sp'.base + sp'.size pf ≤ sp.base := by
  have hp := h.placed a sp ha
  have hp' := h.placed b sp' hb
  obtain ⟨-, -, hpos⟩ := h.bounds ha
  obtain ⟨-, -, hpos'⟩ := h.bounds hb
  by_contra hnot
  -- the later of the two starts on a page of both
  have hcov := Span.covers_page_iff (p := max sp.base sp'.base) hp.aligned
  have hcov' := Span.covers_page_iff (p := max sp.base sp'.base) hp'.aligned
  exact hne (h.eq_of_covers ha hb (hcov.mpr (by omega)) (hcov'.mpr (by omega)))

/-- A region that contains an address of a span contains the span. -/
theorem inside_of_mem (ha : v.span a = some sp) (hr : v.region r) (h₁ : sp.base ≤ p)
    (h₂ : p < sp.base + sp.size pf) (h₃ : r.base ≤ p) (h₄ : p < r.base + r.len) :
    r.base ≤ sp.base ∧ sp.base + sp.size pf ≤ r.base + r.len := by
  obtain ⟨r', hr', hin⟩ := h.exists_region ha
  by_cases he : r = r'
  · exact he ▸ hin
  · rcases h.region_apart r r' hr hr' he with hd | hd <;> omega

theorem span_setSpan_ne_null (ha : v.span a = some sp) : (v.setSpan a sp').span NULL = none := by
  change Function.update v.span a (some sp') NULL = none
  rw [Function.update_of_ne (h.ne_null ha).symm, h.null]

end Geometry

theorem span_set_self : (v.setSpan a sp).span a = some sp := Function.update_self ..

theorem span_set_of_ne (hb : b ≠ a) : (v.setSpan a sp).span b = v.span b :=
  Function.update_of_ne hb _ _

@[simp] theorem set_set : (v.setSpan a sp).setSpan a sp' = v.setSpan a sp' := by
  rw [View.setSpan, View.setSpan, Function.update_idem, View.setSpan]

theorem record_setSpan_self : (v.setSpan a sp).record a = sp := record_of span_set_self

theorem record_setSpan_of_ne (hb : b ≠ a) : (v.setSpan a sp).record b = v.record b := by
  rw [record, span_set_of_ne hb, record]

/-- What a new record says as the old one did is said of the same spans. -/
theorem exists_setSpan_iff {P : Span → Prop} (ha : v.span a = some sp) (hP : P sp' ↔ P sp) :
    (∃ x, (v.setSpan a sp').span b = some x ∧ P x) ↔ ∃ x, v.span b = some x ∧ P x := by
  by_cases hb : b = a
  · rw [hb, span_set_self, ha]
    simp [hP]
  · rw [span_set_of_ne hb]

theorem record_setSpan_eq {β : Type} (F : Span → β) (ha : v.span a = some sp) (hF : F sp' = F sp) :
    F ((v.setSpan a sp').record b) = F (v.record b) := by
  by_cases hb : b = a
  · rw [hb, record_setSpan_self, record_of ha, hF]
  · rw [record_setSpan_of_ne hb]

/-! ## Changes that keep the invariant -/

end

/-- The two records lie on the same pages and have the same neighbours. -/
structure SamePages (sp sp' : Span) : Prop where
  base : sp'.base = sp.base
  pageCount : sp'.pageCount = sp.pageCount
  physNext : sp'.physNext = sp.physNext
  physPrev : sp'.physPrev = sp.physPrev

/-- The two records stand the same way to the pool. -/
structure SamePool (sp sp' : Span) : Prop where
  pageCount : sp'.pageCount = sp.pageCount
  isInitialized : sp'.isInitialized = sp.isInitialized
  next : sp'.nextInUninitializedBin = sp.nextInUninitializedBin

section

variable {pf : Platform} {held held' : Nat → Prop} {v v' : View} {a b k p n : Nat} {sp sp' : Span}
  {r : Region}

theorem SamePages.placed {region : Region → Prop} (hs : SamePages sp sp')
    (h : sp.Placed pf region) : sp'.Placed pf region where
  aligned := hs.base ▸ h.aligned
  pages := hs.pageCount ▸ h.pages
  chunk hn := by
    rw [Span.size, hs.base, hs.pageCount]
    exact h.chunk (hs.pageCount ▸ hn)
  direct hn := by
    rw [Span.size, hs.base, hs.pageCount]
    exact h.direct (hs.pageCount ▸ hn)

theorem SamePages.covers (hs : SamePages sp sp') : sp'.Covers pf k ↔ sp.Covers pf k := by
  rw [Span.Covers, Span.Covers, hs.base, hs.pageCount]

/-- What is true of every span of the old view, where only one record is new. -/
theorem forall_setSpan {P : Nat → Span → Prop} (h : ∀ b x, b ≠ a → v.span b = some x → P b x)
    (hP : P a sp') : ∀ b x, (v.setSpan a sp').span b = some x → P b x := by
  intro b x hx
  by_cases hb : b = a
  · rw [hb, span_set_self] at hx
    cases hx
    exact hb ▸ hP
  · rw [span_set_of_ne hb] at hx
    exact h b x hb hx

theorem Geometry.setSpan (h : v.Geometry pf) (ha : v.span a = some sp) (hs : SamePages sp sp') :
    (v.setSpan a sp').Geometry pf where
  region_ok := h.region_ok
  region_apart := h.region_apart
  null := h.span_setSpan_ne_null ha
  placed := forall_setSpan (fun b x _ => h.placed b x) (hs.placed (h.placed a sp ha))
  look k hk b hb := (h.look k hk b hb).trans (exists_setSpan_iff ha hs.covers).symm
  headers := h.headers
  header_region := h.header_region
  region_header := h.region_header
  partitioned r hr hsite := by
    obtain ⟨first, l, hl, ht, hm⟩ := h.partitioned r hr hsite
    refine ⟨first, l, hl.congr (fun b _ => ?_) (fun b _ => ?_), ht.congr (fun b _ => ?_) (fun b _ => ?_),
      fun b => (hm b).trans ?_⟩
    · exact record_setSpan_eq Span.physNext ha hs.physNext
    · exact record_setSpan_eq Span.physPrev ha hs.physPrev
    · exact record_setSpan_eq Span.base ha hs.base
    · exact record_setSpan_eq (Span.size pf) ha (by rw [Span.size, hs.pageCount, Span.size])
    · exact (exists_setSpan_iff ha (by rw [hs.base])).symm

theorem Pool.setSpan (h : v.Pool held) (ha : v.span a = some sp) (hs : SamePool sp sp') :
    (v.setSpan a sp').Pool held where
  bins n hn := (h.bins n hn).congr
    (fun b _ => record_setSpan_eq Span.nextInUninitializedBin ha hs.next)
    fun b => exists_setSpan_iff ha (by rw [hs.isInitialized, hs.pageCount])
  bitmap := h.bitmap
  direct := forall_setSpan (fun b x _ => h.direct b x) fun hn => by
    rw [hs.isInitialized]
    exact h.direct a sp ha (hs.pageCount ▸ hn)
  held_span b hb := by
    obtain ⟨x, hx⟩ := h.held_span b hb
    obtain ⟨y, hy, -⟩ := (exists_setSpan_iff (b := b) (P := fun _ => True) ha Iff.rfl).mpr ⟨x, hx, trivial⟩
    exact ⟨y, hy⟩

theorem Ok.setSpan (h : v.Ok pf held) (ha : v.span a = some sp) (hs : SamePages sp sp')
    (hp : SamePool sp sp') : (v.setSpan a sp').Ok pf held :=
  ⟨h.toGeometry.setSpan ha hs, h.toPool.setSpan ha hp⟩

/-- The geometry does not see the pool. -/
theorem Geometry.of_eq (h : v.Geometry pf) (hspan : v'.span = v.span) (hlook : v'.look = v.look)
    (hregion : v'.region = v.region) (hchunk : v'.chunk = v.chunk)
    (harena : v'.dataArena = v.dataArena) : v'.Geometry pf := by
  cases v
  cases v'
  cases hspan
  cases hlook
  cases hregion
  cases hchunk
  cases harena
  exact ⟨h.region_ok, h.region_apart, h.null, h.placed, h.look, h.headers, h.header_region,
    h.region_header, h.partitioned⟩

theorem Pool.of_eq (h : v.Pool held) (hspan : v'.span = v.span) (hbin : v'.bin = v.bin)
    (hbitmap : v'.bitmap = v.bitmap) : v'.Pool held := by
  cases v
  cases v'
  cases hspan
  cases hbin
  cases hbitmap
  exact ⟨h.bins, h.bitmap, h.direct, h.held_span⟩

theorem Pool.congr_held (h : v.Pool held) (hh : ∀ b, held' b ↔ held b) : v.Pool held' := by
  obtain rfl : held' = held := funext fun b => propext (hh b)
  exact h

/-! ## The pool -/

/-- The view after the first span of bin `n` was taken. -/
def popBin (v : View) (n : Nat) : View :=
  { v with
    bin := Function.update v.bin n (v.record (v.bin n)).nextInUninitializedBin
    bitmap := if (v.record (v.bin n)).nextInUninitializedBin = NULL then clearBit v.bitmap n
      else v.bitmap }

/-- The view after the span `a` was put in bin `n`. -/
def pushBin (v : View) (n a : Nat) : View :=
  { v with bin := Function.update v.bin n a, bitmap := setBit v.bitmap n }

theorem Pool.popBin (h : v.Pool fun _ => False) (hn : n < maxBinnedPages) (h0 : v.bin n ≠ NULL) :
    (v.popBin n).Pool fun b => b = v.bin n := by
  have hbin := h.bins n hn
  obtain ⟨sp, hsp, hi, hpc, -⟩ := hbin.head_mem h0
  constructor
  case bins =>
    intro n' hn'
    change ChainOf NULL _ (Function.update v.bin n _ n') _
    by_cases he : n' = n
    · rw [he, Function.update_self]
      refine (hbin.pop h0).congr (fun _ _ => rfl) fun b => ?_
      constructor
      · rintro ⟨x, hx, h₁, h₂, h₃⟩
        exact ⟨⟨x, hx, h₁, h₂, id⟩, h₃⟩
      · rintro ⟨⟨x, hx, h₁, h₂, -⟩, h₃⟩
        exact ⟨x, hx, h₁, h₂, h₃⟩
    · rw [Function.update_of_ne he]
      refine (h.bins n' hn').congr (fun _ _ => rfl) fun b => ?_
      refine ⟨fun ⟨x, hx, h₁, h₂, _⟩ => ⟨x, hx, h₁, h₂, id⟩, ?_⟩
      rintro ⟨x, hx, h₁, h₂, -⟩
      refine ⟨x, hx, h₁, h₂, ?_⟩
      rintro rfl
      obtain rfl : sp = x := Option.some.inj (hsp.symm.trans hx)
      exact he (h₂.symm.trans hpc)
  case bitmap =>
    intro n'
    change bitAt (if _ then _ else _) n' = true ↔ _ ∧ Function.update v.bin n _ n' ≠ NULL
    by_cases he : n' = n
    · rw [he, Function.update_self]
      split
      · rename_i hnull
        simp [bitAt_clearBit, hnull]
      · rename_i hne
        simp [(h.bitmap n).mpr ⟨hn, h0⟩, hn, hne]
    · rw [Function.update_of_ne he, ← h.bitmap n']
      split
      · simp [bitAt_clearBit, he]
      · rfl
  case direct =>
    intro b x hx hpages
    exact (h.direct b x hx hpages).imp id False.elim
  case held_span =>
    rintro _ rfl
    exact ⟨sp, hsp⟩

theorem Pool.pushBin (h : v.Pool held) (ha : v.span a = some sp) (hheld : held a)
    (hi : sp.isInitialized = false) (hnext : sp.nextInUninitializedBin = v.bin n) (hpages : sp.pageCount = n)
    (hn : n < maxBinnedPages) (hnull : a ≠ NULL) :
    (v.pushBin n a).Pool fun b => held b ∧ b ≠ a := by
  constructor
  case bins =>
    intro n' hn'
    change ChainOf NULL _ (Function.update v.bin n a n') _
    by_cases he : n' = n
    · rw [he, Function.update_self]
      refine ((h.bins n hn).push hnull ?_ fun _ _ => rfl).congr (fun _ _ => rfl) fun b => ?_
      · rw [record_of ha, hnext]
      · constructor
        · rintro ⟨x, hx, h₁, h₂, h₃⟩
          by_cases hb : b = a
          · exact .inl hb
          · exact .inr ⟨x, hx, h₁, h₂, fun hh => h₃ ⟨hh, hb⟩⟩
        · rintro (rfl | ⟨x, hx, h₁, h₂, h₃⟩)
          · exact ⟨sp, ha, hi, hpages, fun hh => hh.2 rfl⟩
          · exact ⟨x, hx, h₁, h₂, fun hh => h₃ hh.1⟩
    · rw [Function.update_of_ne he]
      refine (h.bins n' hn').congr (fun _ _ => rfl) fun b => ?_
      constructor
      · rintro ⟨x, hx, h₁, h₂, h₃⟩
        refine ⟨x, hx, h₁, h₂, fun hh => h₃ ⟨hh, ?_⟩⟩
        rintro rfl
        obtain rfl : sp = x := Option.some.inj (ha.symm.trans hx)
        exact he (h₂.symm.trans hpages)
      · rintro ⟨x, hx, h₁, h₂, h₃⟩
        exact ⟨x, hx, h₁, h₂, fun hh => h₃ hh.1⟩
  case bitmap =>
    intro n'
    change bitAt (setBit v.bitmap n) n' = true ↔ _ ∧ Function.update v.bin n a n' ≠ NULL
    by_cases he : n' = n
    · simp [bitAt_setBit, he, hn, hnull]
    · rw [Function.update_of_ne he, ← h.bitmap n']
      simp [bitAt_setBit, he]
  case direct =>
    intro b x hx hp
    refine (h.direct b x hx hp).imp id fun hb => ⟨hb, ?_⟩
    rintro rfl
    obtain rfl : sp = x := Option.some.inj (ha.symm.trans hx)
    omega
  case held_span =>
    rintro b ⟨hb, -⟩
    exact h.held_span b hb

/-- A span that is being cached is held, and so is a new one. -/
theorem Pool.hold (h : v.Pool held) (ha : ∀ sp, v.span a = some sp → sp.isInitialized = true) :
    (v.setSpan a sp').Pool fun b => held b ∨ b = a := by
  have hnot : ∀ n, ¬ v.Cached held n a := by
    rintro n ⟨x, hx, h₁, -⟩
    rw [ha x hx] at h₁
    cases h₁
  constructor
  case bins =>
    intro n hn
    refine (h.bins n hn).congr (fun b hb => ?_) fun b => ?_
    · rw [record_setSpan_of_ne]
      rintro rfl
      exact hnot n hb
    · by_cases hb : b = a
      · rw [hb]
        exact iff_of_false (fun ⟨_, _, _, _, hh⟩ => hh (.inr rfl)) (hnot n)
      · rw [Cached, span_set_of_ne hb]
        simp [Cached, hb]
  case bitmap => exact h.bitmap
  case direct =>
    refine forall_setSpan (fun b x _ hx hp => (h.direct b x hx hp).imp id .inl) fun _ => ?_
    exact .inr (.inr rfl)
  case held_span =>
    intro b hb
    by_cases hba : b = a
    · rw [hba, span_set_self]
      exact ⟨sp', rfl⟩
    · rw [span_set_of_ne hba]
      exact h.held_span b (hb.resolve_right hba)

/-- The record of a held span is no one's business. -/
theorem Pool.setHeld (h : v.Pool held) (hheld : held a) : (v.setSpan a sp').Pool held := by
  constructor
  case bins =>
    intro n hn
    refine (h.bins n hn).congr (fun b hb => ?_) fun b => ?_
    · rw [record_setSpan_of_ne]
      rintro rfl
      obtain ⟨_, _, _, _, hh⟩ := hb
      exact hh hheld
    · by_cases hb : b = a
      · rw [hb]
        exact iff_of_false (fun ⟨_, _, _, _, hh⟩ => hh hheld) fun ⟨_, _, _, _, hh⟩ => hh hheld
      · rw [Cached, span_set_of_ne hb]
        rfl
  case bitmap => exact h.bitmap
  case direct => exact forall_setSpan (fun b x _ => h.direct b x) fun _ => .inr hheld
  case held_span =>
    intro b hb
    by_cases hba : b = a
    · rw [hba, span_set_self]
      exact ⟨sp', rfl⟩
    · rw [span_set_of_ne hba]
      exact h.held_span b hb

/-- A held span that goes away is held no more. -/
theorem Pool.drop (h : v.Pool held) (hheld : held a) : (v.dropSpan a).Pool fun b => held b ∧ b ≠ a := by
  have hself : (v.dropSpan a).span a = none := Function.update_self ..
  have hother : ∀ b, b ≠ a → (v.dropSpan a).span b = v.span b := fun b hb =>
    Function.update_of_ne hb _ _
  constructor
  case bins =>
    intro n hn
    refine (h.bins n hn).congr (fun b hb => ?_) fun b => ?_
    · rw [record, hother b, record]
      rintro rfl
      obtain ⟨_, _, _, _, hh⟩ := hb
      exact hh hheld
    · by_cases hb : b = a
      · rw [hb]
        refine iff_of_false (fun ⟨x, hx, _⟩ => ?_) fun ⟨_, _, _, _, hh⟩ => hh hheld
        rw [hself] at hx
        cases hx
      · rw [Cached, hother b hb]
        simp [Cached, hb]
  case bitmap => exact h.bitmap
  case direct =>
    intro b x hx hp
    have hb : b ≠ a := by
      rintro rfl
      rw [hself] at hx
      cases hx
    exact (h.direct b x (hother b hb ▸ hx) hp).imp id fun hh => ⟨hh, hb⟩
  case held_span =>
    rintro b ⟨hb, hne⟩
    rw [hother b hne]
    exact h.held_span b hb

/-- A held span that is initialised is held no more. -/
theorem Pool.release (h : v.Pool held) (hheld : held a) (hi : sp'.isInitialized = true) :
    (v.setSpan a sp').Pool fun b => held b ∧ b ≠ a := by
  have hset : (v.setSpan a sp').Pool held := h.setHeld hheld
  constructor
  case bins =>
    intro n hn
    refine (hset.bins n hn).congr (fun _ _ => rfl) fun b => ?_
    constructor
    · rintro ⟨x, hx, h₁, h₂, h₃⟩
      refine ⟨x, hx, h₁, h₂, fun hh => h₃ ⟨hh, ?_⟩⟩
      rintro rfl
      rw [span_set_self] at hx
      cases hx
      rw [hi] at h₁
      cases h₁
    · rintro ⟨x, hx, h₁, h₂, h₃⟩
      exact ⟨x, hx, h₁, h₂, fun hh => h₃ hh.1⟩
  case bitmap => exact h.bitmap
  case direct =>
    exact forall_setSpan (fun b x hb hx hp => (h.direct b x hx hp).imp id fun hh => ⟨hh, hb⟩)
      fun _ => .inl hi
  case held_span =>
    rintro b ⟨hb, -⟩
    exact hset.held_span b hb

end

end View

end FastAlloc
