/-
FastAlloc.Spans.Geometry — the changes of a view that cut and map pages:
splitting a cached span, mapping a data chunk, and mapping and unmapping the
pages of one big span.
-/
import FastAlloc.Spans.Pool

namespace FastAlloc

open Lib Mem

namespace View

section

variable {pf : Platform} {v v' : View} {a b k n fit new : Nat} {sp sp' : Span} {r r' : Region}

/-! ## Cutting a span in two -/

/-- `v'` is `v` with the span `fit`, of record `sp`, cut after `n` pages; the
rest is the span `new`. -/
structure Splits (pf : Platform) (v : View) (fit new n : Nat) (sp : Span) (v' : View) : Prop where
  front : ∃ x, v'.span fit = some x ∧ x.base = sp.base ∧ x.pageCount = n ∧ x.physNext = new ∧
    x.physPrev = sp.physPrev
  rest : ∃ x, v'.span new = some x ∧ x.base = sp.base + n * pf.pageSize ∧
    x.pageCount = sp.pageCount - n ∧ x.physNext = sp.physNext ∧ x.physPrev = fit
  next : sp.physNext ≠ NULL →
    v'.span sp.physNext = some { v.record sp.physNext with physPrev := new }
  other : ∀ b, b ≠ fit → b ≠ new → (sp.physNext ≠ NULL → b ≠ sp.physNext) → v'.span b = v.span b
  look : ∀ k, v'.look k = if pf.roundDownPageIndex sp.base + n ≤ k ∧
    k < pf.roundDownPageIndex sp.base + sp.pageCount then new else v.look k
  region : v'.region = v.region
  chunk : v'.chunk = v.chunk
  dataArena : v'.dataArena = v.dataArena

/-- The neighbour behind a span in a chunk is another span of the chunk. -/
theorem Geometry.next_span (h : v.Geometry pf) (ha : v.span a = some sp)
    (hn : sp.pageCount < maxBinnedPages) (h0 : sp.physNext ≠ NULL) :
    ∃ r, v.region r ∧ r.site = .dataChunk ∧ v.Inside r a ∧ v.Inside r sp.physNext ∧
      sp.physNext ≠ a := by
  obtain ⟨r, hr, hsite, h₁, h₂⟩ := (h.placed a sp ha).chunk hn
  obtain ⟨first, l, hl, -, hm⟩ := h.partitioned r hr hsite
  have hpos := (h.bounds ha).2.2
  have hin : v.Inside r a := ⟨sp, ha, h₁, by omega⟩
  have hof : LinkedOf NULL (fun a => (v.record a).physNext) (fun a => (v.record a).physPrev) first
      (v.Inside r) := ⟨l, hl, hm⟩
  have hrec : (v.record a).physNext = sp.physNext := by rw [record_of ha]
  obtain ⟨hmem, hne⟩ := hof.next_mem hin (by rwa [hrec])
  rw [hrec] at hmem hne
  exact ⟨r, hr, hsite, hin, hmem, hne⟩

section

theorem ne_of_span (ha : v.span a = some sp) (hb : v.span b = none) : b ≠ a := by
  rintro rfl
  rw [ha] at hb
  cases hb

theorem Geometry.next_ne (h : v.Geometry pf) (hfit : v.span fit = some sp)
    (hnew : v.span new = none) (hbin : sp.pageCount < maxBinnedPages) (h0 : sp.physNext ≠ NULL) :
    sp.physNext ≠ fit ∧ sp.physNext ≠ new := by
  obtain ⟨r, -, -, -, ⟨x, hx, -⟩, hne⟩ := h.next_span hfit hbin h0
  exact ⟨hne, (ne_of_span hx hnew).symm⟩

variable (h : v.Geometry pf) (hs : Splits pf v fit new n sp v') (hfit : v.span fit = some sp)
  (hnew : v.span new = none) (hn0 : 0 < n) (hn : n < sp.pageCount)
  (hbin : sp.pageCount < maxBinnedPages)
include h hs hfit hbin

/-- The other spans keep everything but, one of them, its `phys_prev`. -/
theorem Splits.kept (hb : b ≠ fit) (hb' : b ≠ new) :
    v'.span b = v.span b ∨ sp.physNext ≠ NULL ∧ b = sp.physNext ∧
      ∃ x, v.span b = some x ∧ v'.span b = some { x with physPrev := new } := by
  by_cases h0 : sp.physNext ≠ NULL ∧ b = sp.physNext
  · obtain ⟨h0, rfl⟩ := h0
    obtain ⟨r, -, -, -, ⟨x, hx, -⟩, -⟩ := h.next_span hfit hbin h0
    refine .inr ⟨h0, rfl, x, hx, ?_⟩
    rw [hs.next h0, record_of hx]
  · exact .inl (hs.other b hb hb' fun hne he => h0 ⟨hne, he⟩)

/-- What does not mention `phys_prev` is said of the other spans as before. -/
theorem Splits.exists_iff {P : Span → Prop} (hP : ∀ x p, P { x with physPrev := p } ↔ P x)
    (hb : b ≠ fit) (hb' : b ≠ new) :
    (∃ x, v'.span b = some x ∧ P x) ↔ ∃ x, v.span b = some x ∧ P x := by
  rcases hs.kept h hfit hbin hb hb' with he | ⟨-, -, x, hx, hx'⟩
  · rw [he]
  · rw [hx, hx']
    simp [hP]

include hnew hn hn0 in
theorem Splits.covers_iff (hk : k < 2 ^ 35) (ha : a ≠ NULL) :
    v'.look k = a ↔ ∃ x, v'.span a = some x ∧ x.Covers pf k := by
  obtain ⟨x, hx, hxb, hxn, -⟩ := hs.front
  obtain ⟨y, hy, hyb, hyn, -⟩ := hs.rest
  have hpos := pf.pageSize_pos
  have hfirst : pf.roundDownPageIndex y.base = pf.roundDownPageIndex sp.base + n := by
    rw [hyb, pf.roundDownPageIndex_eq, pf.roundDownPageIndex_eq, Nat.add_mul_div_right _ _ hpos]
  have hcx : x.Covers pf k ↔ pf.roundDownPageIndex sp.base ≤ k ∧
      k < pf.roundDownPageIndex sp.base + n := by
    rw [Span.Covers, hxb, hxn]
  have hcy : y.Covers pf k ↔ pf.roundDownPageIndex sp.base + n ≤ k ∧
      k < pf.roundDownPageIndex sp.base + sp.pageCount := by
    rw [Span.Covers, hfirst, hyn]
    omega
  have hcs : sp.Covers pf k ↔ pf.roundDownPageIndex sp.base ≤ k ∧
      k < pf.roundDownPageIndex sp.base + sp.pageCount := Iff.rfl
  have hold := h.look k hk
  rw [hs.look k]
  by_cases hy' : pf.roundDownPageIndex sp.base + n ≤ k ∧
      k < pf.roundDownPageIndex sp.base + sp.pageCount
  · -- a page of the new span
    rw [if_pos hy']
    constructor
    · rintro rfl
      exact ⟨y, hy, hcy.mpr hy'⟩
    · rintro ⟨z, hz, hcov⟩
      by_contra hna
      by_cases haf : a = fit
      · obtain rfl : x = z := Option.some.inj (hx.symm.trans (haf ▸ hz))
        rw [hcx] at hcov
        omega
      · obtain ⟨w, hw, hcw⟩ := (hs.exists_iff h hfit hbin (P := fun x => x.Covers pf k)
          (fun _ _ => Iff.rfl) haf (Ne.symm hna)).mp ⟨z, hz, hcov⟩
        refine haf (h.eq_of_covers hw hfit hcw ?_)
        rw [hcs]
        omega
  · rw [if_neg hy', hold a ha]
    by_cases haf : a = fit
    · rw [haf, hx, hfit]
      have : sp.Covers pf k ↔ x.Covers pf k := by
        rw [hcs, hcx]
        omega
      simp [this]
    by_cases hna : a = new
    · rw [hna, hnew, hy]
      simp [hcy, hy']
    · exact (hs.exists_iff h hfit hbin (P := fun x => x.Covers pf k) (fun _ _ => Iff.rfl)
        haf hna).symm

include hn hn0 in
theorem Splits.placed (hb : v'.span b = some sp') : sp'.Placed pf v'.region := by
  obtain ⟨x, hx, hxb, hxn, -⟩ := hs.front
  obtain ⟨y, hy, hyb, hyn, -⟩ := hs.rest
  have hp := h.placed fit sp hfit
  obtain ⟨r, hr, hsite, h₁, h₂⟩ := hp.chunk hbin
  have hsize : sp.size pf = n * pf.pageSize + (sp.pageCount - n) * pf.pageSize := by
    rw [Span.size, ← Nat.add_mul]
    congr 1
    omega
  rw [hs.region]
  by_cases hbf : b = fit
  · obtain rfl : x = sp' := Option.some.inj (hx.symm.trans (hbf ▸ hb))
    refine ⟨hxb ▸ hp.aligned, by omega, fun _ => ⟨r, hr, hsite, hxb ▸ h₁, ?_⟩, fun hm => ?_⟩
    · rw [Span.size, hxb, hxn]
      omega
    · omega
  by_cases hbn : b = new
  · obtain rfl : y = sp' := Option.some.inj (hy.symm.trans (hbn ▸ hb))
    refine ⟨?_, by omega, fun _ => ⟨r, hr, hsite, by omega, ?_⟩, fun hm => ?_⟩
    · rw [hyb, Nat.add_mul_mod_self_right]
      exact hp.aligned
    · rw [Span.size, hyb, hyn]
      omega
    · omega
  · rcases hs.kept h hfit hbin hbf hbn with he | ⟨-, -, z, hz, hz'⟩
    · exact h.placed b sp' (he ▸ hb)
    · obtain rfl : { z with physPrev := new } = sp' := Option.some.inj (hz'.symm.trans hb)
      have hz := h.placed b z hz
      exact ⟨hz.aligned, hz.pages, hz.chunk, hz.direct⟩

include hnew hn hn0 in
theorem Splits.inside_iff {r : Region} (hr : v.region r) :
    v'.Inside r a ↔ v.Inside r a ∨ a = new ∧ v.Inside r fit := by
  obtain ⟨x, hx, hxb, -⟩ := hs.front
  obtain ⟨y, hy, hyb, hyn, -⟩ := hs.rest
  by_cases haf : a = fit
  · rw [haf]
    simp [Inside, hx, hfit, hxb]
  by_cases hna : a = new
  · -- the rest of a span lies in the regions the span does
    have hpos : 0 < n * pf.pageSize := Nat.mul_pos hn0 pf.pageSize_pos
    have hlt : n * pf.pageSize < sp.size pf := Nat.mul_lt_mul_of_pos_right hn pf.pageSize_pos
    have hin : ∀ {p}, sp.base ≤ p → p < sp.base + sp.size pf → r.base ≤ p → p < r.base + r.len →
        r.base ≤ sp.base ∧ sp.base + sp.size pf ≤ r.base + r.len := h.inside_of_mem hfit hr
    rw [hna]
    simp only [Inside, hnew, hy, hfit, hyb, Option.some.injEq, exists_eq_left', reduceCtorEq,
      false_and, exists_false, false_or, true_and]
    constructor
    · rintro ⟨h₁, h₂⟩
      have := hin (p := sp.base + n * pf.pageSize) (by omega) (by omega) h₁ h₂
      omega
    · rintro ⟨h₁, h₂⟩
      have := hin (p := sp.base) le_rfl (by omega) h₁ h₂
      omega
  · rw [Inside, hs.exists_iff h hfit hbin (P := fun x => r.base ≤ x.base ∧
      x.base < r.base + r.len) (fun _ _ => Iff.rfl) haf hna]
    simp [Inside, hna]

include hnew hn hn0 in
theorem Splits.partitioned (hnull : new ≠ NULL) (hr : v.region r) (hsite : r.site = .dataChunk) :
    v'.Partitioned pf r := by
  obtain ⟨x, hx, hxb, hxn, hxnext, hxprev⟩ := hs.front
  obtain ⟨y, hy, hyb, hyn, hynext, hyprev⟩ := hs.rest
  obtain ⟨first, l, hl, ht, hm⟩ := h.partitioned r hr hsite
  have hrx := record_of hx
  have hry := record_of hy
  have hrf := record_of hfit
  have hmnew : new ∉ l := fun hmem => by
    obtain ⟨_, hz, -⟩ := (hm new).mp hmem
    rw [hnew] at hz
    cases hz
  -- records other than `fit` and `new`
  have hkept : ∀ b, b ≠ fit → b ≠ new → (v'.record b).physNext = (v.record b).physNext ∧
      (v'.record b).base = (v.record b).base ∧ (v'.record b).size pf = (v.record b).size pf ∧
      ((sp.physNext ≠ NULL → b ≠ sp.physNext) →
        (v'.record b).physPrev = (v.record b).physPrev) := by
    intro b hb hb'
    rcases hs.kept h hfit hbin hb hb' with he | ⟨h0, he, z, hz, hz'⟩
    · rw [record, he, record]
      exact ⟨rfl, rfl, rfl, fun _ => rfl⟩
    · rw [record_of hz, record_of hz']
      exact ⟨rfl, rfl, rfl, fun hne => absurd he (hne h0)⟩
  by_cases hmem : fit ∈ l
  · -- the chunk of `fit`: `new` goes in behind it
    have hin := (hm fit).mp hmem
    obtain ⟨l₁, l₂, rfl⟩ := List.append_of_mem hmem
    have hnd := List.nodup_append.mp hl.chain.nodup
    have hside : ∀ b, b ∈ l₁ ∨ b ∈ l₂ → b ≠ fit ∧ b ≠ new := by
      rintro b (hb | hb)
      · exact ⟨hnd.2.2 b hb fit (List.mem_cons_self ..),
          fun he => hmnew (he ▸ List.mem_append_left _ hb)⟩
      · exact ⟨fun he => (List.nodup_cons.mp hnd.2.1).1 (he ▸ hb),
          fun he => hmnew (he ▸ List.mem_append_right _ (List.mem_cons_of_mem _ hb))⟩
    have hnext : (v.record fit).physNext = sp.physNext := by rw [hrf]
    have hnr : sp.physNext ≠ NULL → sp.physNext ∈ l₂ := fun h0 => by
      have := hl.next_mem (hnext ▸ h0)
      rwa [hnext] at this
    have hsize : n * pf.pageSize + (sp.pageCount - n) * pf.pageSize = sp.size pf := by
      rw [← Nat.add_mul, Span.size]
      congr 1
      omega
    have hpos := pf.pageSize_pos
    refine ⟨first, l₁ ++ fit :: new :: l₂, hl.insertAfter hnull ?_ ?_ ?_ ?_ ?_ ?_,
      ht.split ?_ ?_ ?_ ?_ ?_ ?_ ?_, fun b => ?_⟩
    · rw [hrx, hxnext]
    · rw [hry, hynext, hnext]
    · rw [hry, hyprev]
    · intro h0
      rw [hnext] at h0 ⊢
      rw [record_of (hs.next h0)]
    · intro b hb
      exact (hkept b (hside b hb).1 (hside b hb).2).1
    · intro b hb hne
      rw [hnext] at hne
      by_cases hbf : b = fit
      · rw [hbf, hrx, hrf, hxprev]
      · have hb' : b ∈ l₁ ∨ b ∈ l₂ := hb.imp_right fun hb => hb.resolve_left hbf
        exact (hkept b hbf (hside b hb').2).2.2.2 fun _ => hne
    · rw [hrx, hrf, hxb]
    · rw [hrx, Span.size, hxn]
      exact Nat.mul_pos hn0 hpos
    · rw [hry, Span.size, hyn]
      exact Nat.mul_pos (by omega) hpos
    · rw [hry, hyb, hrf, hrx, Span.size, hxn]
    · rw [hrx, hry, hrf, Span.size, hxn, Span.size, hyn, hsize]
    · exact fun b hb => (hkept b (hside b hb).1 (hside b hb).2).2.1
    · exact fun b hb => (hkept b (hside b hb).1 (hside b hb).2).2.2.1
    · rw [hs.inside_iff h hfit hnew hn0 hn hbin hr, ← hm b]
      simp only [List.mem_append, List.mem_cons, hin, and_true]
      tauto
  · -- another chunk: none of the records cut or relinked is in it
    have hside : ∀ b ∈ l, b ≠ fit ∧ b ≠ new ∧ (sp.physNext ≠ NULL → b ≠ sp.physNext) := by
      intro b hb
      refine ⟨fun he => hmem (he ▸ hb), fun he => hmnew (he ▸ hb), fun h0 he => hmem ?_⟩
      obtain ⟨r', hr', -, hin', ⟨z, hz, h₁, h₂⟩, -⟩ := h.next_span hfit hbin h0
      obtain ⟨z', hz', h₁', h₂'⟩ := (hm b).mp hb
      obtain rfl : z = z' := Option.some.inj (hz.symm.trans (he ▸ hz'))
      have hrr : r' = r := by
        by_contra hne
        rcases h.region_apart r' r hr' hr hne with hd | hd <;> omega
      exact (hm fit).mpr (hrr ▸ hin')
    have hk := fun b hb => hkept b (hside b hb).1 (hside b hb).2.1
    refine ⟨first, l, hl.congr (fun b hb => (hk b hb).1) (fun b hb =>
      (hk b hb).2.2.2 (hside b hb).2.2), ht.congr (fun b hb => (hk b hb).2.1)
      (fun b hb => (hk b hb).2.2.1), fun b => ?_⟩
    have hnin : ¬ v.Inside r fit := fun hin => hmem ((hm fit).mpr hin)
    rw [hs.inside_iff h hfit hnew hn0 hn hbin hr, ← hm b]
    simp [hnin]

include hnew hn hn0 in
theorem Splits.geometry (hnull : new ≠ NULL) (hnull' : v'.span NULL = none) : v'.Geometry pf where
  region_ok := hs.region ▸ h.region_ok
  region_apart := hs.region ▸ h.region_apart
  null := hnull'
  placed _ _ hb := hs.placed h hfit hn0 hn hbin hb
  look _ hk _ ha := hs.covers_iff h hfit hnew hn0 hn hbin hk ha
  headers := by rw [hs.chunk, hs.dataArena]; exact h.headers
  header_region := by rw [hs.chunk, hs.region]; exact h.header_region
  region_header := by rw [hs.chunk, hs.region]; exact h.region_header
  partitioned _ hr hsite :=
    hs.partitioned h hfit hnew hn0 hn hbin hnull (hs.region ▸ hr) hsite

end

/-! ## A fresh region of one span -/

/-- `v'` is `v` with the fresh region `r`, all of it the new span `a`. -/
structure Gains (pf : Platform) (v : View) (a : Nat) (sp : Span) (r : Region) (v' : View) : Prop where
  fresh : pf.FreshFor v r
  none : v.span a = none
  ne_null : a ≠ NULL
  base : sp.base = r.base
  size : sp.size pf = r.len
  span : v'.span = Function.update v.span a (some sp)
  look : ∀ k, v'.look k = if pf.roundDownPageIndex r.base ≤ k ∧
    k < pf.roundDownPageIndex r.base + sp.pageCount then a else v.look k
  region : ∀ x, v'.region x ↔ x = r ∨ v.region x

section

variable (h : v.Geometry pf) (hg : Gains pf v a sp r v')
include hg

theorem Gains.span_self : v'.span a = some sp := by rw [hg.span, Function.update_self]

theorem Gains.span_of_ne (hb : b ≠ a) : v'.span b = v.span b := by
  rw [hg.span, Function.update_of_ne hb]

theorem Gains.record_of_ne (hb : b ≠ a) : v'.record b = v.record b := by
  rw [record, hg.span_of_ne hb, record]

theorem Gains.pages_pos : 0 < sp.pageCount := by
  refine Nat.pos_of_ne_zero fun h0 => hg.fresh.1 ?_
  rw [← hg.size, Span.size, h0, Nat.zero_mul]

include h

/-- No old span lies in the fresh region. -/
theorem Gains.outside (hb : v.span b = some sp') :
    r.base + r.len ≤ sp'.base ∨ sp'.base + sp'.size pf ≤ r.base := by
  obtain ⟨r', hr', h₁, h₂⟩ := h.exists_region hb
  rcases hg.fresh.2.2.2.2 r' hr' with hd | hd <;> omega

theorem Gains.look_iff (hk : k < 2 ^ 35) (hb : b ≠ NULL) :
    v'.look k = b ↔ ∃ x, v'.span b = some x ∧ x.Covers pf k := by
  have halign : sp.base % pf.pageSize = 0 := hg.base ▸ hg.fresh.2.2.1
  have hpos := pf.pageSize_pos
  rw [hg.look k]
  by_cases hin : pf.roundDownPageIndex r.base ≤ k ∧ k < pf.roundDownPageIndex r.base + sp.pageCount
  · rw [if_pos hin]
    have hcov : sp.Covers pf k := by rw [Span.Covers, hg.base]; exact hin
    constructor
    · rintro rfl
      exact ⟨sp, hg.span_self, hcov⟩
    · rintro ⟨x, hx, hcx⟩
      by_contra hne
      rw [hg.span_of_ne (Ne.symm hne)] at hx
      -- the first byte of page `k` would lie in both
      have hpage : pf.roundDownPageIndex (k * pf.pageSize) = k := by
        rw [pf.roundDownPageIndex_eq, Nat.mul_div_cancel _ hpos]
      have h₁ := (Span.covers_page_iff halign).mp (by rwa [hpage])
      have h₂ := (Span.covers_page_iff (h.placed b x hx).aligned).mp (by rwa [hpage])
      rw [hg.base, hg.size] at h₁
      rcases hg.outside h hx with hd | hd <;> omega
  · rw [if_neg hin, h.look k hk b hb]
    by_cases hba : b = a
    · have hcov : ¬ sp.Covers pf k := by rw [Span.Covers, hg.base]; exact hin
      rw [hba, hg.none, hg.span_self]
      simp [hcov]
    · rw [hg.span_of_ne hba]

theorem Gains.placed (hsite : if sp.pageCount < maxBinnedPages then r.site = .dataChunk else
    r.site = .direct) (hb : v'.span b = some sp') : sp'.Placed pf v'.region := by
  by_cases hba : b = a
  · obtain rfl : sp = sp' := Option.some.inj (hg.span_self.symm.trans (hba ▸ hb))
    refine ⟨hg.base ▸ hg.fresh.2.2.1, hg.pages_pos, fun hn => ?_, fun hn => ?_⟩
    · rw [if_pos hn] at hsite
      exact ⟨r, (hg.region r).mpr (.inl rfl), hsite, hg.base.ge, by rw [hg.base, hg.size]⟩
    · rw [if_neg (by omega)] at hsite
      rw [hg.base, hg.size, ← hsite]
      exact (hg.region r).mpr (.inl rfl)
  · have hp := h.placed b sp' (hg.span_of_ne hba ▸ hb)
    refine ⟨hp.aligned, hp.pages, fun hn => ?_, fun hn => (hg.region _).mpr (.inr (hp.direct hn))⟩
    obtain ⟨x, hx, hrest⟩ := hp.chunk hn
    exact ⟨x, (hg.region x).mpr (.inr hx), hrest⟩

theorem Gains.partitioned_old (hr : v.region r') (hsite : r'.site = .dataChunk) :
    v'.Partitioned pf r' := by
  obtain ⟨first, l, hl, ht, hm⟩ := h.partitioned r' hr hsite
  have hne : ∀ b ∈ l, b ≠ a := by
    rintro b hb rfl
    obtain ⟨x, hx, -⟩ := (hm b).mp hb
    rw [hg.none] at hx
    cases hx
  refine ⟨first, l, hl.congr (fun b hb => ?_) (fun b hb => ?_), ht.congr (fun b hb => ?_)
    (fun b hb => ?_), fun b => ?_⟩
  · rw [hg.record_of_ne (hne b hb)]
  · rw [hg.record_of_ne (hne b hb)]
  · rw [hg.record_of_ne (hne b hb)]
  · rw [hg.record_of_ne (hne b hb)]
  · rw [hm b]
    by_cases hba : b = a
    · have hd := hg.fresh.2.2.2.2 r' hr
      have hlen := hg.fresh.1
      rw [hba, Inside, Inside, hg.none, hg.span_self]
      simp only [reduceCtorEq, false_and, exists_false, Option.some.injEq, exists_eq_left', false_iff]
      rw [hg.base]
      rcases hd with hd | hd <;> omega
    · rw [Inside, Inside, hg.span_of_ne hba]

theorem Gains.partitioned_new (hnext : sp.physNext = NULL) (hprev : sp.physPrev = NULL) :
    v'.Partitioned pf r := by
  have hrec := record_of hg.span_self
  have hlinks : (v'.record a).physPrev = NULL ∧ (v'.record a).physNext = NULL := by
    rw [hrec]
    exact ⟨hprev, hnext⟩
  have hplace : (v'.record a).base = r.base ∧ (v'.record a).size pf = r.len := by
    rw [hrec]
    exact ⟨hg.base, hg.size⟩
  have htile : r.base + (v'.record a).size pf = r.base + r.len := by rw [hplace.2]
  refine ⟨a, [a], ⟨rfl, hg.ne_null, hlinks.1, hlinks.2⟩, ⟨hplace.1, ?_, htile⟩, fun b => ?_⟩
  · exact (Nat.pos_of_ne_zero hg.fresh.1).trans_eq hplace.2.symm
  · have hlen := hg.fresh.1
    rw [List.mem_singleton, Inside]
    by_cases hba : b = a
    · rw [hba, hg.span_self]
      simp only [true_iff, Option.some.injEq, exists_eq_left', hg.base]
      omega
    · rw [hg.span_of_ne hba]
      simp only [hba, false_iff, not_exists, not_and]
      intro x hx h₁
      have := (h.bounds hx).2.2
      rcases hg.outside h hx with hd | hd <;> omega

/-- The geometry but for the chunk records. -/
theorem Gains.geometry (hsite : if sp.pageCount < maxBinnedPages then r.site = .dataChunk else
    r.site = .direct) (hnext : r.site = .dataChunk → sp.physNext = NULL ∧ sp.physPrev = NULL)
    (hheaders : ChainOf NULL (fun c => ((v'.chunk c).getD .zero).prev) v'.dataArena
      fun c => ∃ d, v'.chunk c = some d)
    (hhr : ∀ c d, v'.chunk c = some d → ∃ r, v'.region r ∧ r.site = .dataChunk ∧ r.base = d.base)
    (hrh : ∀ r, v'.region r → r.site = .dataChunk → ∃ c d, v'.chunk c = some d ∧ d.base = r.base) :
    v'.Geometry pf where
  region_ok x hx := by
    rcases (hg.region x).mp hx with rfl | hx
    · exact ⟨hg.fresh.1, hg.fresh.2.1, hg.fresh.2.2.1, hg.fresh.2.2.2.1⟩
    · exact h.region_ok x hx
  region_apart x y hx hy hne := by
    rcases (hg.region x).mp hx with rfl | hx
    · rcases (hg.region y).mp hy with rfl | hy
      · exact absurd rfl hne
      · exact hg.fresh.2.2.2.2 y hy
    · rcases (hg.region y).mp hy with rfl | hy
      · exact (hg.fresh.2.2.2.2 x hx).symm
      · exact h.region_apart x y hx hy hne
  null := by rw [hg.span_of_ne hg.ne_null.symm, h.null]
  placed _ _ hb := hg.placed h hsite hb
  look _ hk _ hb := hg.look_iff h hk hb
  headers := hheaders
  header_region := hhr
  region_header := hrh
  partitioned x hx hx' := by
    rcases (hg.region x).mp hx with rfl | hx
    · exact hg.partitioned_new h (hnext hx').1 (hnext hx').2
    · exact hg.partitioned_old h hx hx'

/-- The pages of a request that is too big to be binned. -/
theorem Gains.direct (hsite : r.site = .direct) (hn : maxBinnedPages ≤ sp.pageCount)
    (hchunk : v'.chunk = v.chunk) (harena : v'.dataArena = v.dataArena) : v'.Geometry pf := by
  refine hg.geometry h (by rw [if_neg (by omega)]; exact hsite)
    (fun hs => by rw [hsite] at hs; cases hs) ?_ ?_ ?_
  · rw [hchunk, harena]
    exact h.headers
  · intro c d hc
    obtain ⟨x, hx, hrest⟩ := h.header_region c d (hchunk ▸ hc)
    exact ⟨x, (hg.region x).mpr (.inr hx), hrest⟩
  · intro x hx hxs
    rw [hchunk]
    rcases (hg.region x).mp hx with rfl | hx
    · rw [hsite] at hxs
      cases hxs
    · exact h.region_header x hx hxs

/-- A data chunk, before anything is cut from it. -/
theorem Gains.chunk {c : Nat} (hsite : r.site = .dataChunk) (hn : sp.pageCount < maxBinnedPages)
    (hnext : sp.physNext = NULL) (hprev : sp.physPrev = NULL) (hc : v.chunk c = Option.none)
    (hc0 : c ≠ NULL)
    (hchunk : v'.chunk = Function.update v.chunk c (some ⟨r.base, v.dataArena⟩))
    (harena : v'.dataArena = c) : v'.Geometry pf := by
  have hself : v'.chunk c = some ⟨r.base, v.dataArena⟩ := by rw [hchunk, Function.update_self]
  have hother : ∀ d, d ≠ c → v'.chunk d = v.chunk d := fun d hd => by
    rw [hchunk, Function.update_of_ne hd]
  refine hg.geometry h (by rw [if_pos hn]; exact hsite) (fun _ => ⟨hnext, hprev⟩) ?_ ?_ ?_
  · rw [harena]
    refine (h.headers.push hc0 (by rw [hself]; rfl) fun d hd => ?_).congr (fun _ _ => rfl) fun d => ?_
    · rw [hother d]
      rintro rfl
      obtain ⟨x, hx⟩ := hd
      rw [hc] at hx
      cases hx
    · by_cases hd : d = c
      · simp [hd, hself]
      · simp [hd, hother d hd]
  · intro d x hd
    by_cases hdc : d = c
    · obtain rfl := Option.some.inj (hself.symm.trans (hdc ▸ hd))
      exact ⟨r, (hg.region r).mpr (.inl rfl), hsite, rfl⟩
    · obtain ⟨y, hy, hrest⟩ := h.header_region d x (hother d hdc ▸ hd)
      exact ⟨y, (hg.region y).mpr (.inr hy), hrest⟩
  · intro x hx hxs
    rcases (hg.region x).mp hx with rfl | hx
    · exact ⟨c, _, hself, rfl⟩
    · obtain ⟨d, y, hd, hb⟩ := h.region_header x hx hxs
      refine ⟨d, y, ?_, hb⟩
      rw [hother d, hd]
      rintro rfl
      rw [hc] at hd
      cases hd

end

/-! ## Giving a region back -/

/-- The view after the pages of the big span `a` were unmapped. -/
theorem Geometry.drop (h : v.Geometry pf) (ha : v.span a = some sp)
    (hn : maxBinnedPages ≤ sp.pageCount) (hspan : v'.span = Function.update v.span a none)
    (hlook : ∀ k, v'.look k = if pf.roundDownPageIndex sp.base ≤ k ∧
      k < pf.roundDownPageIndex sp.base + sp.pageCount then NULL else v.look k)
    (hregion : ∀ x, v'.region x ↔ v.region x ∧ x ≠ ⟨sp.base, sp.size pf, .direct⟩)
    (hchunk : v'.chunk = v.chunk) (harena : v'.dataArena = v.dataArena) : v'.Geometry pf := by
  have hother : ∀ b, b ≠ a → v'.span b = v.span b := fun b hb => by
    rw [hspan, Function.update_of_ne hb]
  have hself : v'.span a = none := by rw [hspan, Function.update_self]
  have hreg := (h.placed a sp ha).direct hn
  have hne : ∀ b x, v'.span b = some x → b ≠ a ∧ v.span b = some x := by
    intro b x hb
    have hba : b ≠ a := by
      rintro rfl
      rw [hself] at hb
      cases hb
    exact ⟨hba, hother b hba ▸ hb⟩
  have hkeep : ∀ r, v.region r → r.site = .dataChunk → v'.region r := by
    intro r hr hs
    refine (hregion r).mpr ⟨hr, ?_⟩
    rintro rfl
    cases hs
  constructor
  case region_ok => exact fun r hr => h.region_ok r ((hregion r).mp hr).1
  case region_apart =>
    exact fun r r' hr hr' => h.region_apart r r' ((hregion r).mp hr).1 ((hregion r').mp hr').1
  case null => rw [hother NULL (h.ne_null ha).symm, h.null]
  case placed =>
    intro b x hb
    obtain ⟨hba, hb'⟩ := hne b x hb
    have hp := h.placed b x hb'
    refine ⟨hp.aligned, hp.pages, fun hx => ?_, fun hx => (hregion _).mpr ⟨hp.direct hx, fun he => ?_⟩⟩
    · obtain ⟨r, hr, hs, hrest⟩ := hp.chunk hx
      exact ⟨r, hkeep r hr hs, hs, hrest⟩
    · -- two big spans do not share a region
      have h₁ := (h.bounds hb').2.2
      have h₂ := h.apart hb' ha hba
      simp only [Region.mk.injEq] at he
      omega
  case look =>
    intro k hk b hb
    rw [hlook k]
    by_cases hin : pf.roundDownPageIndex sp.base ≤ k ∧
        k < pf.roundDownPageIndex sp.base + sp.pageCount
    · rw [if_pos hin]
      refine iff_of_false (Ne.symm hb) ?_
      rintro ⟨x, hx, hcov⟩
      obtain ⟨hba, hb'⟩ := hne b x hx
      exact hba (h.eq_of_covers hb' ha hcov hin)
    · rw [if_neg hin, h.look k hk b hb]
      by_cases hba : b = a
      · have hcov : ¬ sp.Covers pf k := hin
        rw [hba, hself, ha]
        simp [hcov]
      · rw [hother b hba]
  case headers => rw [hchunk, harena]; exact h.headers
  case header_region =>
    intro c d hc
    obtain ⟨r, hr, hs, hb⟩ := h.header_region c d (hchunk ▸ hc)
    exact ⟨r, hkeep r hr hs, hs, hb⟩
  case region_header =>
    intro r hr hs
    rw [hchunk]
    exact h.region_header r ((hregion r).mp hr).1 hs
  case partitioned =>
    intro r hr hs
    obtain ⟨first, l, hl, ht, hm⟩ := h.partitioned r ((hregion r).mp hr).1 hs
    -- the big span is in no chunk
    have hout : ¬ v.Inside r a := by
      rintro ⟨x, hx, h₁, h₂⟩
      obtain rfl : sp = x := Option.some.inj (ha.symm.trans hx)
      have hpos := (h.bounds ha).2.2
      rcases h.region_apart r _ ((hregion r).mp hr).1 hreg ((hregion r).mp hr).2 with hd | hd
      all_goals
        dsimp only at hd
        omega
    have hrec : ∀ b ∈ l, v'.record b = v.record b := by
      intro b hb
      rw [record, hother b, record]
      rintro rfl
      exact hout ((hm b).mp hb)
    refine ⟨first, l, hl.congr (fun b hb => by rw [hrec b hb]) (fun b hb => by rw [hrec b hb]),
      ht.congr (fun b hb => by rw [hrec b hb]) (fun b hb => by rw [hrec b hb]), fun b => ?_⟩
    rw [hm b]
    by_cases hba : b = a
    · rw [hba]
      refine iff_of_false hout ?_
      rintro ⟨x, hx, -⟩
      rw [hself] at hx
      cases hx
    · rw [Inside, Inside, hother b hba]

end

end View

end FastAlloc
