/-
FastAlloc.Threads.Alike — states that differ in nothing but the order of
lists, in metadata and in user bytes.

The page map has no freedom: which keys it finds says where its nodes are
and what they count. The rest of a state is settled by where the spans lie
(`View.place`) and by what is in use.
-/
import FastAlloc.Spans.Conserve
import FastAlloc.Threads.Counts
import FastAlloc.Threads.Bins

namespace FastAlloc

open Lib Mem View

/-! ## The shape of a range map -/

/-- The map `r` in `m` and the map `r'` in `m'` have nodes at the same
positions, with the same counters. -/
structure Mem.SameShape (m : Mem) (r : Nat) (m' : Mem) (r' : Nat) : Prop where
  l2 : ∀ k, m'.l2Of r' k = NULL ↔ m.l2Of r k = NULL
  l3 : ∀ k, m'.l3Of r' k = NULL ↔ m.l3Of r k = NULL
  l2_count : ∀ k, m.l2Of r k ≠ NULL → (m'.l2 (m'.l2Of r' k)).count = (m.l2 (m.l2Of r k)).count
  l3_count : ∀ k, m.l3Of r k ≠ NULL → (m'.l3 (m'.l3Of r' k)).count = (m.l3 (m.l3Of r k)).count

section

variable {m m' : Mem} {r r' k : Nat}

/-- A leaf is there for a key that is found. -/
theorem Mem.CountsExact.l3_iff (h : m.CountsExact r) : m.l3Of r k ≠ NULL ↔
    ∃ k', l1IndexOf k' = l1IndexOf k ∧ l2IndexOf k' = l2IndexOf k ∧ m.lookup r k' ≠ NULL := by
  constructor
  · intro hk
    obtain ⟨i, hi, hne⟩ := exists_of_occupied (h.l3_ne_zero k hk)
    obtain ⟨k', h₁, h₂, h₃⟩ := exists_key (l1IndexOf_lt k) (l2IndexOf_lt k) hi
    have hl : m.l3Of r k' = m.l3Of r k := l3Of_congr h₁ h₂
    exact ⟨k', h₁, h₂, by rwa [lookup_of_l3Of (hl ▸ hk), hl, h₃]⟩
  · intro ⟨k', h₁, h₂, hlook⟩
    rw [← l3Of_congr h₁ h₂]
    exact l3Of_ne_of_lookup_ne hlook

/-- So is a node above leaves. -/
theorem Mem.CountsExact.l2_iff (h : m.CountsExact r) :
    m.l2Of r k ≠ NULL ↔ ∃ k', l1IndexOf k' = l1IndexOf k ∧ m.lookup r k' ≠ NULL := by
  constructor
  · intro hk
    obtain ⟨j, hj, hne⟩ := exists_of_occupied (h.l2_ne_zero k hk)
    obtain ⟨k₁, h₁, h₂, -⟩ := exists_key (l1IndexOf_lt k) hj (l3IndexOf_lt k)
    have hl : m.l2Of r k₁ = m.l2Of r k := l2Of_congr h₁
    obtain ⟨k', h₃, -, hlook⟩ := h.l3_iff.mp
      (show m.l3Of r k₁ ≠ NULL by rwa [l3Of_of_l2Of (hl ▸ hk), hl, h₂])
    exact ⟨k', h₃.trans h₁, hlook⟩
  · intro ⟨k', h₁, hlook⟩
    rw [← l2Of_congr h₁]
    exact l2Of_ne_of_l3Of_ne (l3Of_ne_of_lookup_ne hlook)

/-- Where the counters are exact and no node is empty, the keys that are
found settle the shape. -/
theorem Mem.CountsExact.sameShape (h : m.CountsExact r) (h' : m'.CountsExact r')
    (hl : ∀ k, m'.lookup r' k = NULL ↔ m.lookup r k = NULL) : m.SameShape r m' r' := by
  have h2 : ∀ k, m'.l2Of r' k = NULL ↔ m.l2Of r k = NULL := fun k => by
    rw [← not_iff_not]
    refine h'.l2_iff.trans (Iff.trans ?_ h.l2_iff.symm)
    exact exists_congr fun k' => and_congr_right fun _ => not_congr (hl k')
  have h3 : ∀ k, m'.l3Of r' k = NULL ↔ m.l3Of r k = NULL := fun k => by
    rw [← not_iff_not]
    refine h'.l3_iff.trans (Iff.trans ?_ h.l3_iff.symm)
    exact exists_congr fun k' => and_congr_right fun _ => and_congr_right fun _ => not_congr (hl k')
  refine ⟨h2, h3, fun k hk => ?_, fun k hk => ?_⟩
  · have hk' : m'.l2Of r' k ≠ NULL := (not_congr (h2 k)).mpr hk
    rw [h.l2_count k hk, h'.l2_count k hk']
    refine occupied_eq_of_iff fun j hj => ?_
    obtain ⟨k₁, h₁, rfl, -⟩ := exists_key (l1IndexOf_lt k) hj (l3IndexOf_lt k)
    have he := h3 k₁
    rwa [l3Of_of_l2Of (l2Of_congr h₁ ▸ hk'), l3Of_of_l2Of (l2Of_congr h₁ ▸ hk), l2Of_congr h₁,
      l2Of_congr h₁] at he
  · have hk' : m'.l3Of r' k ≠ NULL := (not_congr (h3 k)).mpr hk
    rw [h.l3_count k hk, h'.l3_count k hk']
    refine occupied_eq_of_iff fun i hi => ?_
    obtain ⟨k₁, h₁, h₂, rfl⟩ := exists_key (l1IndexOf_lt k) (l2IndexOf_lt k) hi
    have he := hl k₁
    rwa [lookup_of_l3Of (l3Of_congr h₁ h₂ ▸ hk'), lookup_of_l3Of (l3Of_congr h₁ h₂ ▸ hk),
      l3Of_congr h₁ h₂, l3Of_congr h₁ h₂] at he

end

/-! ## States alike -/

/-- Two records of one span, but for its links. -/
structure Span.Alike (sp sp' : Span) : Prop where
  base : sp'.base = sp.base
  pageCount : sp'.pageCount = sp.pageCount
  isInitialized : sp'.isInitialized = sp.isInitialized
  sizeClassIndex : sp.isInitialized = true → sp'.sizeClassIndex = sp.sizeClassIndex
  blockSize : sp.isInitialized = true → sp'.blockSize = sp.blockSize
  blockCount : sp.isInitialized = true → sp'.blockCount = sp.blockCount
  freeCount : sp.isInitialized = true → sp'.freeCount = sp.freeCount
  nonfullBitmap : sp.isInitialized = true → sp'.nonfullBitmap = sp.nonfullBitmap
  blockBitmap : sp.isInitialized = true →
    ∀ w < spanBlockBitmapWordCount, sp'.blockBitmap w = sp.blockBitmap w

/-- The span `a` is in the bin of thread `t` for class `c`. -/
def InBin (s : State) (t : Tid) (c : Int) (a : Nat) : Prop := ∃ l, BinSpans s t c l ∧ a ∈ l

/-- The two states have the same spans in the same bins, the same page map
down to its nodes and their counters, and the same data mapped. -/
structure State.Alike (s s' : State) : Prop where
  lookup : ∀ k, s'.mem.lookup s'.pageMap k = s.mem.lookup s.pageMap k
  shape : s.mem.SameShape s.pageMap s'.mem s'.pageMap
  span : ∀ k a, a ≠ NULL → s.mem.lookup s.pageMap k = a → (s.mem.span a).Alike (s'.mem.span a)
  bins : ∀ t c a, InBin s' t c a ↔ InBin s t c a
  pool : ∀ n a, Cached s' n a ↔ Cached s n a
  bitmap : s'.nonEmptyBitmap = s.nonEmptyBitmap
  maps : ∀ r : Region, r.site ≠ .metaChunk → (r ∈ s'.maps ↔ r ∈ s.maps)

/-- Where the span `a` lies. -/
def View.place (v : View) (a : Nat) : Option (Nat × Nat) :=
  (v.span a).map fun sp => (sp.base, sp.pageCount)

section

variable {pf : Platform} {strict : Bool} {W : Watch} {s s' : State} {v v' : View} {w w' : World}
  {a k n : Nat} {sp sp' : Span} {b : Nat × Nat}

namespace View

theorem place_of (ha : v.span a = some sp) : v.place a = some (sp.base, sp.pageCount) := by
  rw [place, ha]
  rfl

theorem place_eq_some : v.place a = some b ↔
    ∃ sp, v.span a = some sp ∧ sp.base = b.1 ∧ sp.pageCount = b.2 := by
  rw [place, Option.map_eq_some_iff]
  simp [Prod.ext_iff]

theorem place_eq_none : v.place a = none ↔ v.span a = none := by
  rw [place, Option.map_eq_none_iff]

/-- The same span in a view that has it in the same place. -/
theorem exists_of_place (hp : v'.place a = v.place a) (ha : v.span a = some sp) :
    ∃ sp', v'.span a = some sp' ∧ sp'.base = sp.base ∧ sp'.pageCount = sp.pageCount :=
  place_eq_some.mp (hp.trans (place_of ha))

theorem place_setSpan (ha : v.span a = some sp) (hb : sp'.base = sp.base)
    (hn : sp'.pageCount = sp.pageCount) : (v.setSpan a sp').place = v.place := by
  funext c
  by_cases hc : c = a
  · rw [hc, place_of ha, place_of span_set_self, hb, hn]
  · rw [place, span_set_of_ne hc, place]

theorem place_withLinks {next prev : Nat → Nat} {bins : Tid → Int → Nat} :
    (v.withLinks next prev bins).place = v.place := by
  funext c
  rcases hc : v.span c with _ | sp
  · rw [place, span_withLinks_none hc, place, hc]
  · rw [place_of hc, place_of (span_withLinks hc)]

/-- A key finds the span whose place it lies in. -/
theorem Geometry.look_iff (h : v.Geometry pf) (hk : k < 2 ^ 35) (ha : a ≠ NULL) : v.look k = a ↔
    ∃ b, v.place a = some b ∧ pf.roundDownPageIndex b.1 ≤ k ∧ k < pf.roundDownPageIndex b.1 + b.2 := by
  rw [h.look k hk a ha]
  constructor
  · intro ⟨sp, hsp, hcov⟩
    exact ⟨_, place_of hsp, hcov⟩
  · intro ⟨b, hb, hcov⟩
    obtain ⟨sp, hsp, h₁, h₂⟩ := place_eq_some.mp hb
    rw [← h₁, ← h₂] at hcov
    exact ⟨sp, hsp, hcov⟩

theorem Geometry.look_congr (h : v.Geometry pf) (h' : v'.Geometry pf) (hp : v'.place a = v.place a)
    (hk : k < 2 ^ 35) (ha : a ≠ NULL) : v'.look k = a ↔ v.look k = a := by
  rw [h.look_iff hk ha, h'.look_iff hk ha, hp]

/-- A span in the same place and the same use is cached where it was. -/
theorem cached_congr (hp : v'.place a = v.place a) (hu : v'.use a = v.use a) :
    v'.Cached (fun _ => False) n a ↔ v.Cached (fun _ => False) n a := by
  have hsub : ∀ {x y : View}, x.place a = y.place a → x.use a = y.use a →
      x.Cached (fun _ => False) n a → y.Cached (fun _ => False) n a := by
    intro x y hxy hxu ⟨sp, ha, hi, hn, hno⟩
    obtain ⟨sp', ha', -, hn'⟩ := exists_of_place hxy.symm ha
    refine ⟨sp', ha', ?_, hn'.trans hn, hno⟩
    by_contra hi'
    have huse : x.use a = none := by
      rw [View.use, ha]
      simp [hi]
    rw [hxu, View.use_of ha' (Bool.eq_true_of_not_eq_false hi')] at huse
    cases huse
  exact ⟨hsub hp hu, hsub hp.symm hu.symm⟩

end View

/-- What a record says of its blocks is settled by its usage. -/
theorem Span.alike_of_use (hb : sp.BlocksOk) (hb' : sp'.BlocksOk)
    (hi : sp'.isInitialized = sp.isInitialized) (hu : sp'.use = sp.use) : sp.Alike sp' := by
  have hfree : sp'.freeBlocks = sp.freeBlocks := congrArg Usage.free hu
  have hword : ∀ w < 64, sp'.blockBitmap w = sp.blockBitmap w := by
    intro w hw
    refine BitVec.eq_of_getLsbD_eq fun b hlt => ?_
    have hmem : w * 64 + b ∈ sp'.freeBlocks ↔ w * 64 + b ∈ sp.freeBlocks := by rw [hfree]
    have hlt' : w * 64 + b < maxSpanBlockCount := by
      have hmax : maxSpanBlockCount = 4096 := rfl
      omega
    rw [Span.freeBlocks, Span.freeBlocks, Finset.mem_filter, Finset.mem_filter, bitAt, bitAt,
      show (w * 64 + b) / 64 = w by omega, show (w * 64 + b) % 64 = b by omega] at hmem
    exact Bool.eq_iff_iff.mpr (and_congr_right_iff.mp hmem (Finset.mem_range.mpr hlt'))
  refine ⟨congrArg Usage.base hu, congrArg Usage.pages hu, hi, fun _ => congrArg Usage.cls hu,
    fun _ => congrArg Usage.blockSize hu, fun _ => congrArg Usage.blockCount hu, fun _ => ?_,
    fun _ => ?_, fun _ => hword⟩
  · rw [hb'.freeCount, hb.freeCount, hfree]
  · refine BitVec.eq_of_getLsbD_eq fun b hlt => ?_
    rw [Bool.eq_iff_iff, hb'.summary b hlt, hb.summary b hlt, hword b hlt]

/-- A span that is not in use has nothing but its place. -/
theorem Span.alike_of_not (hi : sp.isInitialized = false) (hi' : sp'.isInitialized = false)
    (hb : sp'.base = sp.base) (hn : sp'.pageCount = sp.pageCount) : sp.Alike sp' := by
  have hno : ∀ {P : Prop}, sp.isInitialized = true → P := fun h => nomatch hi.symm.trans h
  exact ⟨hb, hn, hi'.trans hi.symm, hno, hno, hno, hno, hno, hno⟩

/-- A span in the same place and the same use has a record alike. -/
theorem View.Sound.exists_alike (h : v.Sound pf) (h' : v'.Sound pf) (hp : v'.place a = v.place a)
    (hu : v'.use a = v.use a) (ha : v.span a = some sp) :
    ∃ sp', v'.span a = some sp' ∧ sp.Alike sp' := by
  obtain ⟨sp', ha', hb, hn⟩ := exists_of_place hp ha
  refine ⟨sp', ha', ?_⟩
  rw [View.use, View.use, ha, ha'] at hu
  rcases hi : sp.isInitialized with _ | _
  · rcases hi' : sp'.isInitialized with _ | _
    · exact Span.alike_of_not hi hi' hb hn
    · simp [hi, hi'] at hu
  · rcases hi' : sp'.isInitialized with _ | _
    · simp [hi, hi'] at hu
    · simp only [Option.bind_some, hi, hi', if_true, Option.some.injEq] at hu
      exact Span.alike_of_use (h.blocks a sp ha hi) (h'.blocks a sp' ha' hi') (hi'.trans hi.symm) hu

namespace WorldInv

variable (h : WorldInv pf strict w v)
include h

theorem inBin_iff {t : Tid} {c : Int} : InBin w.state t c a ↔ (w.heap v).bin a = some (t, c) := by
  obtain ⟨l, hl, hm⟩ := h.binSpans t c
  constructor
  · intro ⟨l', hl', ha⟩
    exact h.bin_of_mem hl' ha
  · exact fun ha => ⟨l, hl, (hm a).mpr ha⟩

theorem lookup_eq (k : Nat) : w.state.mem.lookup w.state.pageMap k = v.look (k % 2 ^ 35) := by
  obtain ⟨st, hst⟩ := h.heap.shows
  have hsame : SameKey k (k % 2 ^ 35) := (Nat.mod_mod ..).symm
  rw [Mem.lookup_congr hsame, hst.root]
  exact hst.look _ (Nat.mod_lt _ (by decide))

theorem pageMap_counts : w.state.mem.CountsExact w.state.pageMap := by
  by_cases hr : w.state.pageMap = NULL
  · obtain ⟨st, hst⟩ := h.heap.shows
    have h2 : ∀ k, w.state.mem.l2Of w.state.pageMap k = NULL := fun k => by
      rw [hr]
      exact l2Of_zero hst.arena.l1_null
    have h3 : ∀ k, w.state.mem.l3Of w.state.pageMap k = NULL := fun k => if_pos (h2 k)
    exact ⟨fun k hk => absurd (h2 k) hk, fun k hk => absurd (h3 k) hk, fun k hk => absurd (h2 k) hk,
      fun k hk => absurd (h3 k) hk⟩
  · exact h.heap.shows.pageMap_countsExact hr

section

variable (h' : WorldInv pf strict w' v')
include h'

/-! What is said of one span in the same place and the same use. -/

theorem lookup_congr (hp : v'.place a = v.place a) (ha : a ≠ NULL) :
    w'.state.mem.lookup w'.state.pageMap k = a ↔ w.state.mem.lookup w.state.pageMap k = a := by
  rw [h.lookup_eq, h'.lookup_eq]
  exact h.heap.sound.toGeometry.look_congr h'.heap.sound.toGeometry hp (Nat.mod_lt _ (by decide)) ha

theorem span_congr (hp : v'.place a = v.place a) (hu : v'.use a = v.use a) (h0 : a ≠ NULL)
    (ha : w.state.mem.lookup w.state.pageMap k = a) :
    (w.state.mem.span a).Alike (w'.state.mem.span a) := by
  rw [h.lookup_eq] at ha
  obtain ⟨sp, hsp, -⟩ := (h.heap.sound.look _ (Nat.mod_lt _ (by decide)) a h0).mp ha
  obtain ⟨sp', hsp', halike⟩ := h.heap.sound.exists_alike h'.heap.sound hp hu hsp
  rwa [h.heap.shows.record_eq hsp, h'.heap.shows.record_eq hsp']

theorem inBin_congr {t : Tid} {c : Int} (hu : v'.use a = v.use a)
    (ho : ∀ u, v.use a = some u → w'.owner a = w.owner a) :
    InBin w'.state t c a ↔ InBin w.state t c a := by
  rw [h.inBin_iff, h'.inBin_iff, Heap.bin_eq_some, Heap.bin_eq_some]
  refine exists_congr fun u => ?_
  rw [show (w'.heap v').use a = (w.heap v).use a from hu]
  refine and_congr_right fun ha => and_congr_right fun _ => and_congr_right fun _ => ?_
  rw [show (w'.heap v').owner a = (w.heap v).owner a from ho u ha]

theorem cached_congr (hp : v'.place a = v.place a) (hu : v'.use a = v.use a) :
    Cached w'.state n a ↔ Cached w.state n a := by
  rw [h.heap.shows.cached_iff h.heap.sound.toPool, h'.heap.shows.cached_iff h'.heap.sound.toPool]
  exact and_congr_right fun _ => View.cached_congr hp hu

theorem maps_iff {r : Region} (hsite : r.site ≠ .metaChunk) {P : Prop}
    (hr : v'.region r ↔ v.region r ∧ P) : r ∈ w'.state.maps ↔ r ∈ w.state.maps ∧ P := by
  obtain ⟨st, hst⟩ := h.heap.shows
  obtain ⟨st', hst'⟩ := h'.heap.shows
  rw [hst'.region r, hst.region r, and_iff_left hsite, and_iff_left hsite] at hr
  exact hr

/-- The places settle what every key finds, -/
theorem lookup_of_place (hp : v'.place = v.place) (k : Nat) :
    w'.state.mem.lookup w'.state.pageMap k = w.state.mem.lookup w.state.pageMap k := by
  have hiff := fun a => h.lookup_congr h' (k := k) (congrFun hp a)
  by_cases h0 : w.state.mem.lookup w.state.pageMap k = NULL
  · rw [h0]
    by_contra hne
    exact hne (((hiff _ hne).mp rfl).symm.trans h0)
  · exact (hiff _ h0).mpr rfl

/-- and so the shape of the page map. -/
theorem shape_of_place (hp : v'.place = v.place) :
    w.state.mem.SameShape w.state.pageMap w'.state.mem w'.state.pageMap :=
  h.pageMap_counts.sameShape h'.pageMap_counts fun k => by rw [h.lookup_of_place h' hp k]

/-- Two worlds whose spans lie in the same places and are in use the same way
are alike. -/
theorem alike (hp : v'.place = v.place) (hu : v'.use = v.use)
    (ho : ∀ a u, v.use a = some u → w'.owner a = w.owner a)
    (hr : ∀ r, v'.region r ↔ v.region r) : w.state.Alike w'.state := by
  have hbin : ∀ n < maxBinnedPages, v'.bin n = NULL ↔ v.bin n = NULL := by
    intro n hn
    rw [h.heap.sound.toPool.bin_eq_null_iff hn, h'.heap.sound.toPool.bin_eq_null_iff hn]
    exact forall_congr' fun a => not_congr (View.cached_congr (congrFun hp a) (congrFun hu a))
  constructor
  case lookup => exact h.lookup_of_place h' hp
  case shape => exact h.shape_of_place h' hp
  case span => exact fun k a h0 ha => h.span_congr h' (congrFun hp a) (congrFun hu a) h0 ha
  case bins => exact fun t c a => h.inBin_congr h' (congrFun hu a) (ho a)
  case pool => exact fun n a => h.cached_congr h' (congrFun hp a) (congrFun hu a)
  case bitmap =>
    obtain ⟨st, hst⟩ := h.heap.shows
    obtain ⟨st', hst'⟩ := h'.heap.shows
    rw [hst.bitmap, hst'.bitmap]
    refine table_ext fun n => ?_
    rw [Bool.eq_iff_iff, h.heap.sound.bitmap, h'.heap.sound.bitmap]
    exact and_congr_right fun hn => not_congr (hbin n hn)
  case maps =>
    intro r hsite
    have hr' : v'.region r ↔ v.region r ∧ True := (hr r).trans (and_true _).symm.to_iff
    exact (h.maps_iff h' hsite hr').trans (and_true _).to_iff

end

end WorldInv

/-- In any two reachable worlds, the page maps that find the same keys have
nodes at the same positions, with the same counters. -/
theorem pageMap_canonical {pf' : Platform} (h : Reachable pf w) (h' : Reachable pf' w')
    (hl : ∀ k, w'.state.mem.lookup w'.state.pageMap k = NULL ↔
      w.state.mem.lookup w.state.pageMap k = NULL) :
    w.state.mem.SameShape w.state.pageMap w'.state.mem w'.state.pageMap := by
  obtain ⟨v, hv⟩ := h.inv
  obtain ⟨v', hv'⟩ := h'.inv
  exact hv.pageMap_counts.sameShape hv'.pageMap_counts hl

/-- A thread that writes into its block leaves the page map as it was. -/
theorem pageMap_canonical_first : ∃ w w' : World, w'.live (2 ^ 31) = some (0, 16) ∧
    w'.state.bytes (2 ^ 31) = 1 ∧
    w.state.mem.SameShape w.state.pageMap w'.state.mem w'.state.pageMap := by
  obtain ⟨w, hw, hlive, -, -⟩ := Reachable.first
  have hgood : Platform.hugePages.GoodLabel ⟨none, []⟩ := by
    constructor <;> intro x hx <;> cases hx
  obtain ⟨w', hw', hlive', hbytes, hmap⟩ : ∃ w', Reachable .hugePages w' ∧ w'.live = w.live ∧
      w'.state.bytes (2 ^ 31) = 1 ∧ ∀ k, w'.state.mem.lookup w'.state.pageMap k = NULL ↔
        w.state.mem.lookup w.state.pageMap k = NULL :=
    ⟨_, hw.run (.tail .refl (.write fun _ => 1) hgood), rfl, rfl, fun _ => Iff.rfl⟩
  exact ⟨w, w', hlive' ▸ hlive, hbytes, pageMap_canonical hw hw' hmap⟩

end

end FastAlloc
