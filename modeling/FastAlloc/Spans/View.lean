/-
FastAlloc.Spans.View — the library as `span.c` sees it, with the metadata
arena and the radix trie abstracted away.

A `View` holds the span and chunk records as partial functions, the page map
as a function of keys, the pool, and the mappings for user data. `Shows`
says which states have a given view; under it each primitive that `span.c`
uses is one change of the view. What a critical section must not do to the
lookups of other threads is a `Watch`: keys whose path in the page map is
the same at every store.
-/
import FastAlloc.Arena.System
import FastAlloc.Model.Span
import FastAlloc.RangeMap.Range

namespace FastAlloc

open Lib Mem

/-- A library state without the metadata arena. -/
structure View where
  root : Nat
  span : Nat → Option Span
  chunk : Nat → Option DataChunk
  look : Nat → Nat
  bin : Nat → Nat
  bitmap : Nat → BitVec 64
  dataArena : Nat
  localBin : Tid → Int → Nat
  region : Region → Prop
  bytes : Nat → UInt8

namespace View

variable (v : View)

def setSpan (p : Nat) (sp : Span) : View := { v with span := Function.update v.span p (some sp) }

def dropSpan (p : Nat) : View := { v with span := Function.update v.span p none }

def setChunk (p : Nat) (c : DataChunk) : View :=
  { v with chunk := Function.update v.chunk p (some c) }

/-- The keys of `[start, stop)` mapped to `value`. -/
def mapRange (value start stop : Nat) : View :=
  { v with look := fun k => if start ≤ k ∧ k < stop then value else v.look k }

/-- A fresh mapping, all zero. -/
def addRegion (r : Region) : View :=
  { v with
    region := fun r' => r' = r ∨ v.region r'
    bytes := fun p => if r.base ≤ p ∧ p < r.base + r.len then 0 else v.bytes p }

end View

/-- Keys of a range map whose lookups must not change, and the memory in
which they were looked up. -/
structure Watch where
  mem : Mem
  root : Nat
  keys : Nat → Prop

def Watch.Ok (W : Watch) (m : Mem) : Prop := ∀ k, W.keys k → SamePath W.root k W.mem m

/-- State `s`, with the arena in ghost state `st`, has view `v`. -/
structure ShowsAt (pf : Platform) (strict : Bool) (W : Watch) (s : State) (st : Nat → Slot)
    (v : View) : Prop where
  arena : Arena pf strict s st
  settled : Settled strict s
  fresh : v.root = NULL → s.freeListMap = NULL
  root : s.pageMap = v.root
  trie : v.root ≠ NULL → Trie Eq (outs st) s.mem v.root
  noEmptyNode : v.root ≠ NULL → s.mem.NoEmptyNode v.root
  span : ∀ a sp, v.span a = some sp ↔ st a = .out sizeofSpan ∧ s.mem.span a = sp
  chunk : ∀ a c, v.chunk a = some c ↔ st a = .out sizeofDataChunk ∧ s.mem.dataChunk a = c
  look : ∀ k < 2 ^ 35, s.mem.lookup v.root k = v.look k
  bin : s.uninitilizedSpanBin = v.bin
  bitmap : s.nonEmptyBitmap = v.bitmap
  dataArena : s.dataArena = v.dataArena
  localBin : s.threadLocalBin = v.localBin
  region : ∀ r, v.region r ↔ r ∈ s.maps ∧ r.site ≠ .metaChunk
  bytes : ∀ r, v.region r → ∀ p, r.base ≤ p → p < r.base + r.len → s.bytes p = v.bytes p
  watch : W.Ok s.mem
  watched : ∀ k, W.keys k → v.root = W.root ∧ W.root ≠ NULL ∧ k < 2 ^ 35 ∧ v.look k ≠ NULL

/-- State `s` has view `v`. -/
def Shows (pf : Platform) (strict : Bool) (W : Watch) (s : State) (v : View) : Prop :=
  ∃ st, ShowsAt pf strict W s st v

theorem Trie.of_nodes {R : Nat → Nat → Prop} {out : Nat → Option Nat} {m m' : Mem} {r : Nat}
    (h : Trie R out m r) (h₁ : m'.l1 = m.l1) (h₂ : m'.l2 = m.l2) (h₃ : m'.l3 = m.l3) :
    Trie R out m' r := by
  cases m
  cases m'
  cases h₁
  cases h₂
  cases h₃
  exact ⟨h.root, h.l2_out, h.l2_inj, h.l3_out, h.l3_inj, h.l2_count, h.l3_count⟩

/-- A trie does without an object that is none of its nodes. -/
theorem Trie.avoid {R : Nat → Nat → Prop} {out : Nat → Option Nat} {m : Mem} {r p sz : Nat}
    (h : Trie R out m r) (hp : out p = some sz)
    (hsz : sz ≠ sizeofL1Node ∧ sz ≠ sizeofL2Node ∧ sz ≠ sizeofL3Node) :
    Trie R (Function.update out p none) m r := by
  have hne : ∀ a z, out a = some z → z ≠ sz → Function.update out p none a = some z := by
    intro a z ha hz
    rw [Function.update_of_ne, ha]
    rintro rfl
    rw [hp] at ha
    exact hz (Option.some.inj ha).symm
  exact ⟨hne _ _ h.root hsz.1.symm, fun k hk => hne _ _ (h.l2_out k hk) hsz.2.1.symm, h.l2_inj,
    fun k hk => hne _ _ (h.l3_out k hk) hsz.2.2.symm, h.l3_inj, h.l2_count, h.l3_count⟩

theorem Mem.NoEmptyNode.of_same {m m' : Mem} {r : Nat} (h : m.NoEmptyNode r)
    (hp : ∀ k, SamePath r k m m') : m'.NoEmptyNode r where
  l2 k hk := by
    rw [(hp k).l2Of] at hk
    obtain ⟨k', h₁, h₂⟩ := h.l2 k hk
    exact ⟨k', h₁, by rwa [(hp k').lookup]⟩
  l3 k hk := by
    rw [(hp k).l3Of] at hk
    obtain ⟨k', h₁, h₂, h₃⟩ := h.l3 k hk
    exact ⟨k', h₁, h₂, by rwa [(hp k').lookup]⟩

/-- Where NULL is never stored the counters are exact. -/
theorem countsMap_eq {old value count : Nat} (hv : value ≠ NULL) : CountsMap Eq old value count :=
  fun n n' hn hR hc =>
    have hcount : CountsMap (CountRel true) old value count := countsMap_countRel fun _ => hv
    hcount n n' hn (fun _ => hR) hc rfl

theorem countsUnmap_eq : CountsUnmap Eq := by
  rintro n _ rfl
  rw [sizeDec_succ]
  exact ⟨rfl, fun h => h⟩

section

variable {pf : Platform} {strict : Bool} {W : Watch} {s s' : State} {st st' : Nat → Slot} {v : View}
  {p a size : Nat} {sp : Span} {c : DataChunk}

theorem Alloced.not_out (hA : Alloced pf strict size st s a s') (z : Nat) : st a ≠ .out z := fun hz => by
  have := hA.outs_eq_none
  rw [outs_eq_some.mpr hz] at this
  simp at this

/-- Nothing is ever at NULL. -/
theorem Arena.l1_null (h : Arena pf strict s st) : s.mem.l1 NULL = .zero :=
  h.toLayout.fresh NULL (by
    by_contra hne
    exact not_valid_null (h.valid hne))

namespace ShowsAt

variable (h : ShowsAt pf strict W s st v)
include h

/-- Memories with the same page map show the same paths. -/
theorem watch_of_same {m' : Mem} (hp : ∀ k, W.keys k → SamePath W.root k s.mem m') : W.Ok m' :=
  fun k hk => (h.watch k hk).trans (hp k hk)

theorem watch_agree {m' : Mem} (hag : Agree (outs st) s.mem m') : W.Ok m' :=
  h.watch_of_same fun k hk => by
    obtain ⟨hr, hne, -⟩ := h.watched k hk
    rw [← hr] at hne ⊢
    exact (h.trie hne).samePath_agree hag

theorem valid_span (hp : v.span p = some sp) : Valid p :=
  h.arena.valid (by rw [((h.span p sp).mp hp).1]; simp [Slot.size])

theorem valid_chunk (hp : v.chunk p = some c) : Valid p :=
  h.arena.valid (by rw [((h.chunk p c).mp hp).1]; simp [Slot.size])

/-- A change of the globals of `span.c` and `cmalloc.c` is that change of the view. -/
theorem globals {bin : Nat → Nat} {bitmap : Nat → BitVec 64} {dataArena : Nat}
    {localBin : Tid → Int → Nat} :
    ShowsAt pf strict W
      { s with uninitilizedSpanBin := bin, nonEmptyBitmap := bitmap, dataArena := dataArena,
               threadLocalBin := localBin } st
      { v with bin := bin, bitmap := bitmap, dataArena := dataArena, localBin := localBin } where
  arena := h.arena.of_eq rfl rfl rfl rfl
  settled := h.settled
  fresh := h.fresh
  root := h.root
  trie := h.trie
  noEmptyNode := h.noEmptyNode
  span := h.span
  chunk := h.chunk
  look := h.look
  bin := rfl
  bitmap := rfl
  dataArena := rfl
  localBin := rfl
  region := h.region
  bytes := h.bytes
  watch := h.watch
  watched := h.watched

/-- A store to a span record. -/
theorem setSpan (f : Span → Span) (hp : v.span p = some sp) :
    ShowsAt pf strict W (s.setMem (s.mem.setSpan p f)) st (v.setSpan p (f sp)) := by
  obtain ⟨hst, hsp⟩ := (h.span p sp).mp hp
  have hag : ∀ a, a ≠ p → s.mem.AgreeAt (s.mem.setSpan p f) a := fun a ha =>
    ⟨rfl, rfl, rfl, by simp [Mem.setSpan, ha], rfl⟩
  have hout : outs st p = some sizeofSpan := outs_eq_some.mpr hst
  refine ⟨h.arena.frame (fun a ha => hag a (ne_of_out_none ha hout)) rfl, ?_, h.fresh, h.root,
    fun hr => (h.trie hr).of_nodes rfl rfl rfl, fun hr => (h.noEmptyNode hr).of_same fun _ =>
    ⟨rfl, rfl, rfl⟩, fun a sp' => ?_, h.chunk, h.look, h.bin, h.bitmap, h.dataArena, h.localBin,
    h.region, h.bytes, h.watch_of_same fun _ _ => ⟨rfl, rfl, rfl⟩, h.watched⟩
  · exact h.settled.of_agree h.arena rfl fun a ha => hag a (by
      rintro rfl
      rw [outs_of_nodes ha] at hout
      simp at hout)
  · change Function.update v.span p (some (f sp)) a = some sp' ↔
      _ ∧ Function.update s.mem.span p (f (s.mem.span p)) a = sp'
    by_cases ha : a = p
    · rw [ha, Function.update_self, Function.update_self, hsp]
      simp [hst]
    · rw [Function.update_of_ne ha, Function.update_of_ne ha]
      exact h.span a sp'

/-- A store to a chunk record. -/
theorem setChunk (f : DataChunk → DataChunk) (hp : v.chunk p = some c) :
    ShowsAt pf strict W (s.setMem (s.mem.setDataChunk p f)) st (v.setChunk p (f c)) := by
  obtain ⟨hst, hc⟩ := (h.chunk p c).mp hp
  have hag : ∀ a, a ≠ p → s.mem.AgreeAt (s.mem.setDataChunk p f) a := fun a ha =>
    ⟨rfl, rfl, rfl, rfl, by simp [Mem.setDataChunk, ha]⟩
  have hout : outs st p = some sizeofDataChunk := outs_eq_some.mpr hst
  refine ⟨h.arena.frame (fun a ha => hag a (ne_of_out_none ha hout)) rfl, ?_, h.fresh, h.root,
    fun hr => (h.trie hr).of_nodes rfl rfl rfl, fun hr => (h.noEmptyNode hr).of_same fun _ =>
    ⟨rfl, rfl, rfl⟩, h.span, fun a c' => ?_, h.look, h.bin, h.bitmap, h.dataArena, h.localBin,
    h.region, h.bytes, h.watch_of_same fun _ _ => ⟨rfl, rfl, rfl⟩, h.watched⟩
  · exact h.settled.of_agree h.arena rfl fun a ha => hag a (by
      rintro rfl
      rw [outs_of_nodes ha] at hout
      simp at hout)
  · change Function.update v.chunk p (some (f c)) a = some c' ↔
      _ ∧ Function.update s.mem.dataChunk p (f (s.mem.dataChunk p)) a = c'
    by_cases ha : a = p
    · rw [ha, Function.update_self, Function.update_self, hc]
      simp [hst]
    · rw [Function.update_of_ne ha, Function.update_of_ne ha]
      exact h.chunk a c'

theorem region_of (hu : Undisturbed s s') (r : Region) :
    v.region r ↔ r ∈ s'.maps ∧ r.site ≠ .metaChunk := by
  rw [h.region]
  constructor
  · rintro ⟨hr, hs⟩
    exact ⟨hu.maps_kept r hr, hs⟩
  · rintro ⟨hr, hs⟩
    exact ⟨(hu.maps_new r hr).resolve_right hs, hs⟩

theorem bytes_of (hu : Undisturbed s s') (r : Region) (hr : v.region r) (p : Nat)
    (h₁ : r.base ≤ p) (h₂ : p < r.base + r.len) : s'.bytes p = v.bytes p :=
  (hu.bytes r ((h.region r).mp hr).1 p h₁ h₂).trans (h.bytes r hr p h₁ h₂)

/-- Allocating an object adds its record. -/
theorem alloc (hA : Alloced pf strict size st s a s') {span' : Nat → Option Span}
    {chunk' : Nat → Option DataChunk}
    (hspan : ∀ b sp, span' b = some sp ↔
      Function.update st a (.out size) b = .out sizeofSpan ∧ s'.mem.span b = sp)
    (hchunk : ∀ b c, chunk' b = some c ↔
      Function.update st a (.out size) b = .out sizeofDataChunk ∧ s'.mem.dataChunk b = c) :
    ShowsAt pf strict W s' (Function.update st a (.out size))
      { v with span := span', chunk := chunk' } := by
  have hu := hA.undisturbed
  have hgrow : ∀ b z, outs st b = some z → outs (Function.update st a (.out size)) b = some z := by
    intro b z hb
    rw [outs_update, Function.update_of_ne (ne_of_out_none hA.outs_eq_none hb).symm, hb]
  refine ⟨hA.arena, hA.settled h.settled, fun h0 => hA.freeListMap.trans (h.fresh h0),
    hu.pageMap.trans h.root, fun hr => ((h.trie hr).agree hA.agree).grow hgrow,
    fun hr => (h.noEmptyNode hr).of_same fun _ => (h.trie hr).samePath_agree hA.agree, hspan, hchunk,
    fun k hk => ?_, hu.uninitilizedSpanBin.trans h.bin, hu.nonEmptyBitmap.trans h.bitmap,
    hu.dataArena.trans h.dataArena, hu.threadLocalBin.trans h.localBin, h.region_of hu,
    h.bytes_of hu, h.watch_agree hA.agree, h.watched⟩
  rw [← h.look k hk]
  by_cases hr : v.root = NULL
  · rw [hr, lookup_zero hA.arena.l1_null, lookup_zero h.arena.l1_null]
  · exact (h.trie hr).lookup_agree hA.agree

theorem alloc_span (hA : Alloced pf strict sizeofSpan st s a s') :
    v.span a = none ∧ ShowsAt pf strict W s' (Function.update st a (.out sizeofSpan))
      (v.setSpan a (s'.mem.span a)) := by
  refine ⟨Option.eq_none_iff_forall_ne_some.mpr fun sp hsp =>
    hA.not_out _ ((h.span a sp).mp hsp).1, h.alloc hA (fun b sp => ?_) fun b c => ?_⟩
  · by_cases hb : b = a
    · simp [hb]
    · rw [Function.update_of_ne hb, Function.update_of_ne hb, h.span b sp]
      refine and_congr_right fun hst => ?_
      rw [(hA.agree b (by rw [outs_eq_some.mpr hst]; simp)).2.2.2.1]
  · by_cases hb : b = a
    · have hne : sizeofSpan ≠ sizeofDataChunk := by decide
      rw [hb, Function.update_self, h.chunk a c]
      simp [hA.not_out, hne]
    · rw [Function.update_of_ne hb, h.chunk b c]
      refine and_congr_right fun hst => ?_
      rw [(hA.agree b (by rw [outs_eq_some.mpr hst]; simp)).2.2.2.2]

theorem alloc_chunk (hA : Alloced pf strict sizeofDataChunk st s a s') :
    v.chunk a = none ∧ ShowsAt pf strict W s' (Function.update st a (.out sizeofDataChunk))
      (v.setChunk a (s'.mem.dataChunk a)) := by
  refine ⟨Option.eq_none_iff_forall_ne_some.mpr fun c hc =>
    hA.not_out _ ((h.chunk a c).mp hc).1, h.alloc hA (fun b sp => ?_) fun b c => ?_⟩
  · by_cases hb : b = a
    · have hne : sizeofDataChunk ≠ sizeofSpan := by decide
      rw [hb, Function.update_self, h.span a sp]
      simp [hA.not_out, hne]
    · rw [Function.update_of_ne hb, h.span b sp]
      refine and_congr_right fun hst => ?_
      rw [(hA.agree b (by rw [outs_eq_some.mpr hst]; simp)).2.2.2.1]
  · by_cases hb : b = a
    · simp [hb]
    · rw [Function.update_of_ne hb, Function.update_of_ne hb, h.chunk b c]
      refine and_congr_right fun hst => ?_
      rw [(hA.agree b (by rw [outs_eq_some.mpr hst]; simp)).2.2.2.2]

/-- Creating the page map. -/
theorem newRoot (h0 : v.root = NULL) (hA : Alloced pf strict sizeofL1Node st s a s') :
    ShowsAt pf strict W { s' with pageMap := a } (Function.update st a (.out sizeofL1Node))
      { v with root := a } := by
  have hu := hA.undisturbed
  have hzero : s'.mem.l1 a = .zero := by
    rcases hA.source with ⟨-, hz⟩ | ⟨-, hF⟩
    · exact hz
    · exact absurd (h.fresh h0) hF
  have hne : a ≠ NULL := hA.valid.1
  have hnokey : ∀ k, ¬ W.keys k := fun k hk => by
    obtain ⟨h₁, h₂, -⟩ := h.watched k hk
    exact h₂ (h₁ ▸ h0)
  have hs : sizeofL1Node ≠ sizeofSpan := by decide
  have hc : sizeofL1Node ≠ sizeofDataChunk := by decide
  have hout : outs (Function.update st a (.out sizeofL1Node)) a = some sizeofL1Node := by
    rw [outs, Function.update_self]
    rfl
  have hl2 : ∀ k, s'.mem.l2Of a k = NULL := fun k => l2Of_zero hzero
  have hl3 : ∀ k, s'.mem.l3Of a k = NULL := fun k => by rw [l3Of, if_pos (hl2 k)]
  refine ⟨hA.arena.of_eq rfl rfl rfl rfl, hA.settled h.settled, fun ha => absurd ha hne, rfl,
    fun _ => .zero hout hzero, fun _ => ⟨fun k hk => absurd (hl2 k) hk, fun k hk =>
    absurd (hl3 k) hk⟩, fun b sp => ?_, fun b c => ?_, fun k hk => ?_,
    hu.uninitilizedSpanBin.trans h.bin, hu.nonEmptyBitmap.trans h.bitmap,
    hu.dataArena.trans h.dataArena, hu.threadLocalBin.trans h.localBin,
    fun r => h.region_of hu r, fun r => h.bytes_of hu r, fun k hk => absurd hk (hnokey k), fun k hk => absurd hk (hnokey k)⟩
  · rw [h.span b sp]
    by_cases hb : b = a
    · rw [hb, Function.update_self]
      simp [hA.not_out, hs]
    · rw [Function.update_of_ne hb]
      exact and_congr_right fun hst => by
        rw [(hA.agree b (by rw [outs_eq_some.mpr hst]; simp)).2.2.2.1]
  · rw [h.chunk b c]
    by_cases hb : b = a
    · rw [hb, Function.update_self]
      simp [hA.not_out, hc]
    · rw [Function.update_of_ne hb]
      exact and_congr_right fun hst => by
        rw [(hA.agree b (by rw [outs_eq_some.mpr hst]; simp)).2.2.2.2]
  · change s'.mem.lookup a k = v.look k
    rw [lookup_zero hzero, ← h.look k hk, h0, lookup_zero h.arena.l1_null]

/-- Range-map operations leave the span and chunk records alone. -/
theorem moves (hm : (arenaAllocator pf strict).Moves s st s' st') :
    (∀ a sp, v.span a = some sp ↔ st' a = .out sizeofSpan ∧ s'.mem.span a = sp) ∧
    ∀ a c, v.chunk a = some c ↔ st' a = .out sizeofDataChunk ∧ s'.mem.dataChunk a = c := by
  have hout : ∀ a sz, ¬ IsNodeSize sz → (st' a = .out sz ↔ st a = .out sz) := fun a sz hsz => by
    rw [← outs_eq_some, ← outs_eq_some]
    exact ⟨fun ha => (hm.new a sz ha).resolve_right hsz, fun ha => hm.kept a sz ha hsz⟩
  have hs : ¬ IsNodeSize sizeofSpan := by unfold IsNodeSize; decide
  have hc : ¬ IsNodeSize sizeofDataChunk := by unfold IsNodeSize; decide
  refine ⟨fun a sp => ?_, fun a c => ?_⟩
  · rw [h.span a sp, hout a _ hs]
    exact and_congr_right fun ha => by rw [(hm.data a _ (outs_eq_some.mpr ha) hs).1]
  · rw [h.chunk a c, hout a _ hc]
    exact and_congr_right fun ha => by rw [(hm.data a _ (outs_eq_some.mpr ha) hc).2]

/-- What a range-map operation on the page map leaves, given its lookups. -/
theorem remap (hm : (arenaAllocator pf strict).Moves s st s' st') {look' : Nat → Nat}
    (htrie : Trie Eq (outs st') s'.mem v.root) (hr : v.root ≠ NULL)
    (hne : s'.mem.NoEmptyNode v.root) (hlook : ∀ k < 2 ^ 35, s'.mem.lookup v.root k = look' k)
    (hpath : ∀ k, W.keys k → SamePath W.root k s.mem s'.mem) :
    ShowsAt pf strict W s' st' { v with look := look' } := by
  have hu : Undisturbed s s' := hm.rel.1
  refine ⟨hm.inv.1, hm.inv.2, fun h0 => absurd h0 hr, hu.pageMap.trans h.root, fun _ => htrie,
    fun _ => hne, (h.moves hm).1, (h.moves hm).2, hlook, hu.uninitilizedSpanBin.trans h.bin,
    hu.nonEmptyBitmap.trans h.bitmap, hu.dataArena.trans h.dataArena,
    hu.threadLocalBin.trans h.localBin, h.region_of hu, h.bytes_of hu, h.watch_of_same hpath,
    fun k hk => ?_⟩
  obtain ⟨h₁, h₂, h₃, h₄⟩ := h.watched k hk
  refine ⟨h₁, h₂, h₃, ?_⟩
  change look' k ≠ NULL
  rwa [← hlook k h₃, h₁, (hpath k hk).lookup, ← h₁, h.look k h₃]

/-- A watched key is mapped, so what keeps the keys outside a range keeps it. -/
theorem path_of_keeps {m' : Mem} {start stop : Nat} (hstop : stop ≤ 2 ^ 35)
    (hkeys : ∀ k, W.keys k → ¬ (start ≤ k ∧ k < stop))
    (hk : KeepsOutside v.root start stop s.mem m') :
    ∀ k, W.keys k → SamePath W.root k s.mem m' := fun k hw => by
  obtain ⟨h₁, -, h₃, h₄⟩ := h.watched k hw
  rw [← h₁]
  refine hk k (fun hin => hkeys k hw ((inRange_iff hstop h₃).mp hin)) ?_
  rwa [h.look k h₃]

/-- Mapping a range of pages. -/
theorem mapRange_spec {value start n : Nat} (hr : v.root ≠ NULL) (hv : value ≠ NULL)
    (hstop : start + n ≤ 2 ^ 35) (hkeys : ∀ k, W.keys k → ¬ (start ≤ k ∧ k < start + n)) :
    Spec (Allowed strict) (onStore W.Ok) (cmallocMapRange pf v.root value start (start + n)) s
      fun _ s' => Shows pf strict W s' (v.mapRange value start (start + n)) := by
  have hspec : Spec (Allowed strict) (onStore W.Ok)
      (cmallocMapRangeWith (arenaAllocator pf strict).alloc v.root value start (start + n)) s _ :=
    cmallocMapRangeWith_spec (R := Eq) (I := W.Ok) ⟨h.arena, h.settled⟩ (h.trie hr) rfl
      (fun _ _ _ _ _ => countsMap_eq hv) fun m' hm =>
      h.watch_of_same (h.path_of_keeps hstop hkeys hm)
  refine hspec.mono fun _ s' ⟨st', hm⟩ => ⟨st', h.remap hm.toMoves hm.trie hr
    (hm.noEmptyNode hv (h.noEmptyNode hr)) (fun k hk => ?_) (h.path_of_keeps hstop hkeys hm.keeps)⟩
  split
  · exact hm.lookup_in k ((inRange_iff hstop hk).mpr ‹_›)
  · rw [hm.lookup_out k fun hin => ‹¬ _› ((inRange_iff hstop hk).mp hin), h.look k hk]

/-- Unmapping a range of pages, all of them mapped. -/
theorem unmapRange_spec {start n : Nat} (hr : v.root ≠ NULL) (hstop : start + n ≤ 2 ^ 35)
    (hmapped : ∀ k, start ≤ k → k < start + n → v.look k ≠ NULL)
    (hkeys : ∀ k, W.keys k → ¬ (start ≤ k ∧ k < start + n)) :
    Spec (Allowed strict) (onStore W.Ok) (cmallocUnmapRange pf v.root start (start + n)) s
      fun _ s' => Shows pf strict W s' (v.mapRange NULL start (start + n)) := by
  have hspec : Spec (Allowed strict) (onStore W.Ok)
      (cmallocUnmapRangeWith (arenaAllocator pf strict).free v.root start (start + n)) s _ :=
    cmallocUnmapRangeWith_spec (R := Eq) (I := W.Ok) ⟨h.arena, h.settled⟩ (h.trie hr) countsUnmap_eq
      (by omega) (fun k h₁ h₂ => by rw [h.look k (by omega)]; exact hmapped k h₁ h₂)
      fun m' hm => h.watch_of_same (h.path_of_keeps hstop hkeys hm)
  refine hspec.mono fun _ s' ⟨st', hm⟩ => ⟨st', h.remap hm.toMoves hm.trie hr
    (hm.noEmptyNode (fun _ hc => hc.symm) (h.noEmptyNode hr)) (fun k hk => ?_)
    (h.path_of_keeps hstop hkeys hm.keeps)⟩
  split
  · exact hm.lookup_in k ((inRange_iff hstop hk).mpr ‹_›)
  · rw [hm.lookup_out k fun hin => ‹¬ _› ((inRange_iff hstop hk).mp hin), h.look k hk]

/-- A fresh mapping for user data. -/
theorem mapped {r : Region} (hr : pf.FreshRegion s.maps r) (hsite : r.site ≠ .metaChunk) :
    ShowsAt pf strict W (s.mapped r) st (v.addRegion r) := by
  have hag : Agree (outs st) s.mem (s.mapped r).mem :=
    Mem.Agree.outs (h.arena.toLayout.agree_clear hr)
  have hrec : ∀ a sz, st a = .out sz → s.mem.AgreeAt (s.mapped r).mem a := fun a sz ha =>
    hag a (by rw [outs_eq_some.mpr ha]; simp)
  refine ⟨h.arena.mapped hr hsite, h.settled.of_agree h.arena rfl ?_, h.fresh, h.root,
    fun h0 => (h.trie h0).agree hag, fun h0 => (h.noEmptyNode h0).of_same fun _ =>
    (h.trie h0).samePath_agree hag, fun a sp => ?_, fun a c => ?_, fun k hk => ?_, h.bin, h.bitmap,
    h.dataArena, h.localBin, fun r' => ?_, fun r' hr' p h₁ h₂ => ?_, h.watch_agree hag, h.watched⟩
  · exact Mem.Agree.nodes (h.arena.toLayout.agree_clear hr)
  · exact (h.span a sp).trans (and_congr_right fun ha => by rw [(hrec a _ ha).2.2.2.1])
  · exact (h.chunk a c).trans (and_congr_right fun ha => by rw [(hrec a _ ha).2.2.2.2])
  · change (s.mapped r).mem.lookup v.root k = v.look k
    rw [← h.look k hk]
    by_cases h0 : v.root = NULL
    · rw [h0, lookup_zero (h.arena.mapped hr hsite).l1_null, lookup_zero h.arena.l1_null]
    · exact (h.trie h0).lookup_agree hag
  · change r' = r ∨ v.region r' ↔ r' ∈ r :: s.maps ∧ _
    rw [List.mem_cons, h.region r']
    constructor
    · rintro (rfl | ⟨h₁, h₂⟩)
      · exact ⟨.inl rfl, hsite⟩
      · exact ⟨.inr h₁, h₂⟩
    · rintro ⟨rfl | h₁, h₂⟩
      · exact .inl rfl
      · exact .inr ⟨h₁, h₂⟩
  · change (if _ then _ else s.bytes p) = if _ then _ else v.bytes p
    split
    · rfl
    · rename_i hnot
      rcases hr' with rfl | hr'
      · exact absurd ⟨h₁, h₂⟩ hnot
      · exact h.bytes r' hr' p h₁ h₂

/-- A span record given back to the arena. -/
theorem freed (hp : v.span p = some sp) (hr : v.root ≠ NULL)
    (hf : Freed pf strict sizeofSpan p s st s' st') :
    ShowsAt pf strict W s' st' (v.dropSpan p) := by
  have hu := hf.undisturbed
  have hst : outs st p = some sizeofSpan := outs_eq_some.mpr ((h.span p sp).mp hp).1
  have hag := hf.agree
  -- no node of the page map is a span record
  have htrie := (h.trie hr).avoid hst (by decide)
  have hpath : ∀ k, SamePath v.root k s.mem s'.mem := fun _ => htrie.samePath_agree hag
  have hout : ∀ a sz, a ≠ p → (st' a = .out sz ↔ st a = .out sz) := fun a sz ha => by
    rw [← outs_eq_some, ← outs_eq_some, hf.outs_eq, Function.update_of_ne ha]
  have hrec : ∀ a sz, a ≠ p → st a = .out sz → s.mem.AgreeAt s'.mem a := fun a sz ha hs =>
    hag a (by rw [Function.update_of_ne ha, outs_eq_some.mpr hs]; simp)
  refine ⟨hf.arena, hf.settled h.settled, fun h0 => absurd h0 hr, hu.pageMap.trans h.root,
    fun _ => ?_, fun _ => (h.noEmptyNode hr).of_same hpath, fun a sp' => ?_, fun a c => ?_,
    fun k hk => (hpath k).lookup.trans (h.look k hk), hu.uninitilizedSpanBin.trans h.bin,
    hu.nonEmptyBitmap.trans h.bitmap, hu.dataArena.trans h.dataArena,
    hu.threadLocalBin.trans h.localBin, h.region_of hu, h.bytes_of hu,
    h.watch_of_same fun k hk => (h.watched k hk).1 ▸ hpath k, h.watched⟩
  · rw [hf.outs_eq]
    exact htrie.agree hag
  · change Function.update v.span p none a = some sp' ↔ _
    by_cases ha : a = p
    · rw [ha, Function.update_self, hf.freed]
      simp
    · rw [Function.update_of_ne ha, h.span a sp', hout a _ ha]
      exact and_congr_right fun hs => by rw [(hrec a _ ha hs).2.2.2.1]
  · change v.chunk a = some c ↔ _
    by_cases ha : a = p
    · have hne : sizeofSpan ≠ sizeofDataChunk := by decide
      rw [ha, h.chunk p c, hf.freed, ((h.span p sp).mp hp).1]
      simp [hne]
    · rw [h.chunk a c, hout a _ ha]
      exact and_congr_right fun hs => by rw [(hrec a _ ha hs).2.2.2.2]

/-- Dropping user mappings. -/
theorem unmapped (keep : Region → Prop) [DecidablePred keep]
    (hmeta : ∀ r ∈ s.maps, r.site = .metaChunk → keep r) :
    ShowsAt pf strict W { s with maps := s.maps.filter keep } st
      { v with region := fun r => v.region r ∧ keep r } := by
  have hmem : ∀ r, r ∈ s.maps.filter (fun r => decide (keep r)) ↔ r ∈ s.maps ∧ keep r := fun r => by
    rw [List.mem_filter, decide_eq_true_iff]
  refine ⟨h.arena.unmapped (fun r hr => ((hmem r).mp hr).1)
    (fun r hr hs => (hmem r).mpr ⟨hr, hmeta r hr hs⟩) (h.arena.maps_ok.filter _), h.settled, h.fresh,
    h.root, h.trie, h.noEmptyNode, h.span, h.chunk, h.look, h.bin, h.bitmap, h.dataArena, h.localBin,
    fun r => ?_, fun r hr => h.bytes r hr.1, h.watch, h.watched⟩
  change v.region r ∧ keep r ↔ r ∈ s.maps.filter _ ∧ _
  rw [hmem, h.region]
  constructor
  · rintro ⟨⟨h₁, h₂⟩, h₃⟩
    exact ⟨⟨h₁, h₃⟩, h₂⟩
  · rintro ⟨⟨h₁, h₃⟩, h₂⟩
    exact ⟨⟨h₁, h₂⟩, h₃⟩

end ShowsAt

/-! ## Rules for programs -/

/-- What `mmap` promises of a region, as a view sees it. -/
def Platform.FreshFor (pf : Platform) (v : View) (r : Region) : Prop :=
  r.len ≠ 0 ∧ r.base ≠ NULL ∧ r.base % pf.pageSize = 0 ∧ r.base + r.len ≤ 2 ^ 47 ∧
    ∀ r', v.region r' → r.Disjoint r'

namespace Shows

variable {α β : Type} {Q : α → State → Prop} {A : Event → Prop} {F : Span → β} {g : β → M α}
  {G : Unit → M α}

theorem bin_eq (h : Shows pf strict W s v) : s.uninitilizedSpanBin = v.bin := h.choose_spec.bin

theorem bitmap_eq (h : Shows pf strict W s v) : s.nonEmptyBitmap = v.bitmap := h.choose_spec.bitmap

theorem dataArena_eq (h : Shows pf strict W s v) : s.dataArena = v.dataArena :=
  h.choose_spec.dataArena

theorem root_eq (h : Shows pf strict W s v) : s.pageMap = v.root := h.choose_spec.root

theorem localBin_eq (h : Shows pf strict W s v) : s.threadLocalBin = v.localBin :=
  h.choose_spec.localBin

theorem valid_span (h : Shows pf strict W s v) (hp : v.span p = some sp) : Valid p :=
  h.choose_spec.valid_span hp

theorem record_eq (h : Shows pf strict W s v) (hp : v.span p = some sp) : s.mem.span p = sp :=
  ((h.choose_spec.span p sp).mp hp).2

theorem load (h : Shows pf strict W s v) (hp : v.span p = some sp) {Q : β → State → Prop}
    (hQ : Q (F sp) s) : Spec A (onStore W.Ok) (FastAlloc.load p fun m => F (m.span p)) s Q :=
  Spec.load (h.valid_span hp) (by rwa [h.record_eq hp])

theorem load_bind (h : Shows pf strict W s v) (hp : v.span p = some sp)
    (hg : Spec A (onStore W.Ok) (g (F sp)) s Q) :
    Spec A (onStore W.Ok) ((FastAlloc.load p fun m => F (m.span p)) >>= g) s Q :=
  Spec.load_bind (h.valid_span hp) (by rwa [h.record_eq hp])

theorem loadSpan_bind {g : Span → M α} (h : Shows pf strict W s v) (hp : v.span p = some sp)
    (hg : Spec A (onStore W.Ok) (g sp) s Q) : Spec A (onStore W.Ok) (loadSpan p >>= g) s Q :=
  h.load_bind (F := id) hp hg

theorem storeSpan {f : Span → Span} {Q : Unit → State → Prop} (h : Shows pf strict W s v)
    (hp : v.span p = some sp) (hQ : ∀ s', Shows pf strict W s' (v.setSpan p (f sp)) → Q () s') :
    Spec A (onStore W.Ok) (FastAlloc.storeSpan p f) s Q := by
  obtain ⟨st, hs⟩ := h
  have hnew := hs.setSpan f hp
  exact Spec.store (hs.valid_span hp) hnew.watch (hQ _ ⟨st, hnew⟩)

theorem storeSpan_bind {f : Span → Span} (h : Shows pf strict W s v) (hp : v.span p = some sp)
    (hg : ∀ s', Shows pf strict W s' (v.setSpan p (f sp)) → Spec A (onStore W.Ok) (G ()) s' Q) :
    Spec A (onStore W.Ok) (FastAlloc.storeSpan p f >>= G) s Q :=
  Spec.bind (Q := fun _ s' => Shows pf strict W s' (v.setSpan p (f sp)))
    (h.storeSpan hp fun _ h => h) fun _ s' h => hg s' h

theorem storeChunk_bind {f : DataChunk → DataChunk} (h : Shows pf strict W s v)
    (hp : v.chunk p = some c)
    (hg : ∀ s', Shows pf strict W s' (v.setChunk p (f c)) → Spec A (onStore W.Ok) (G ()) s' Q) :
    Spec A (onStore W.Ok) (FastAlloc.store p (·.setDataChunk p f) >>= G) s Q := by
  obtain ⟨st, hs⟩ := h
  have hnew := hs.setChunk f hp
  exact Spec.store_bind (hs.valid_chunk hp) hnew.watch (hg _ ⟨st, hnew⟩)

/-- Assignments to the globals of `span.c` and `cmalloc.c`. -/
theorem setGlobals {v' : View} (h : Shows pf strict W s v)
    (hs : s' = { s with uninitilizedSpanBin := v'.bin, nonEmptyBitmap := v'.bitmap,
                        dataArena := v'.dataArena, threadLocalBin := v'.localBin })
    (hv : v' = { v with bin := v'.bin, bitmap := v'.bitmap, dataArena := v'.dataArena,
                        localBin := v'.localBin }) : Shows pf strict W s' v' := by
  obtain ⟨st, h⟩ := h
  rw [hs, hv]
  exact ⟨st, h.globals⟩

theorem setBin (h : Shows pf strict W s v) (n a : Nat) :
    Shows pf strict W { s with uninitilizedSpanBin := Function.update s.uninitilizedSpanBin n a }
      { v with bin := Function.update v.bin n a } := by
  refine h.setGlobals ?_ rfl
  dsimp only
  rw [← h.bin_eq, ← h.bitmap_eq, ← h.dataArena_eq, ← h.localBin_eq]

theorem setBitmap (h : Shows pf strict W s v) {bm : Nat → BitVec 64} :
    Shows pf strict W { s with nonEmptyBitmap := bm } { v with bitmap := bm } := by
  refine h.setGlobals ?_ rfl
  dsimp only
  rw [← h.bin_eq, ← h.dataArena_eq, ← h.localBin_eq]

theorem setDataArena (h : Shows pf strict W s v) (c : Nat) :
    Shows pf strict W { s with dataArena := c } { v with dataArena := c } := by
  refine h.setGlobals ?_ rfl
  dsimp only
  rw [← h.bin_eq, ← h.bitmap_eq, ← h.localBin_eq]

theorem setLocalBin (h : Shows pf strict W s v) {bins : Tid → Int → Nat} :
    Shows pf strict W { s with threadLocalBin := bins } { v with localBin := bins } := by
  refine h.setGlobals ?_ rfl
  dsimp only
  rw [← h.bin_eq, ← h.bitmap_eq, ← h.dataArena_eq]

theorem allocSpan_bind {g : Nat → M α} (h : Shows pf strict W s v)
    (hg : ∀ a sp s', v.span a = none → Shows pf strict W s' (v.setSpan a sp) →
      Spec (Allowed strict) (onStore W.Ok) (g a) s' Q) :
    Spec (Allowed strict) (onStore W.Ok) (cmallocAllocMetadata pf sizeofSpan >>= g) s Q := by
  obtain ⟨st, hs⟩ := h
  refine Spec.bind (cmallocAllocMetadata_spec hs.arena (.inl rfl) fun m' hm =>
    hs.watch_agree hm) fun a s' hA => ?_
  obtain ⟨hnone, hnew⟩ := hs.alloc_span hA
  exact hg a _ s' hnone ⟨_, hnew⟩

theorem allocChunk_bind {g : Nat → M α} (h : Shows pf strict W s v)
    (hg : ∀ a c s', v.chunk a = none → Shows pf strict W s' (v.setChunk a c) →
      Spec (Allowed strict) (onStore W.Ok) (g a) s' Q) :
    Spec (Allowed strict) (onStore W.Ok) (cmallocAllocMetadata pf sizeofDataChunk >>= g) s Q := by
  obtain ⟨st, hs⟩ := h
  refine Spec.bind (cmallocAllocMetadata_spec hs.arena (.inr (.inl rfl)) fun m' hm =>
    hs.watch_agree hm) fun a s' hA => ?_
  obtain ⟨hnone, hnew⟩ := hs.alloc_chunk hA
  exact hg a _ s' hnone ⟨_, hnew⟩

theorem mmap_bind {site : Site} {len : Nat} {g : Nat → M α} (h : Shows pf strict W s v)
    (hsite : site ≠ .metaChunk)
    (hg : ∀ a s', pf.FreshFor v ⟨a, len, site⟩ → Shows pf strict W s' (v.addRegion ⟨a, len, site⟩) →
      Spec (Allowed strict) (onStore W.Ok) (g a) s' Q) :
    Spec (Allowed strict) (onStore W.Ok) (mmap pf site len >>= g) s Q := by
  obtain ⟨st, hs⟩ := h
  refine Spec.mmap_bind (fun hA => hA) fun a hfresh => ?_
  refine hg a _ ⟨hfresh.1, hfresh.2.1, hfresh.2.2.1, hfresh.2.2.2.1, fun r' hr' => ?_⟩
    ⟨st, hs.mapped hfresh hsite⟩
  exact hfresh.2.2.2.2 r' ((hs.region r').mp hr').1

theorem freeSpan (h : Shows pf strict W s v) (hp : v.span p = some sp) (hr : v.root ≠ NULL) :
    Spec (Allowed strict) (onStore W.Ok) (cmallocFreeMetadata pf p sizeofSpan) s
      fun _ s' => Shows pf strict W s' (v.dropSpan p) := by
  obtain ⟨st, hs⟩ := h
  have hst := ((hs.span p sp).mp hp).1
  have hpath := (hs.trie hr).avoid (outs_eq_some.mpr hst) (by decide)
  refine (cmallocFreeMetadata_spec hs.arena (.inl rfl) hst fun m' hm => ?_).mono
    fun _ s' ⟨st', hf⟩ => ⟨st', hs.freed hp hr hf⟩
  exact hs.watch_of_same fun k hk => (hs.watched k hk).1 ▸ hpath.samePath_agree hm

/-- Unmapping a region of user data: no other mapping starts there. -/
theorem munmap {a len : Nat} {site : Site} (h : Shows pf strict W s v)
    (hr : v.region ⟨a, len, site⟩) :
    Spec A (onStore W.Ok) (munmap a len) s fun _ s' => Shows pf strict W s'
      { v with region := fun r => v.region r ∧ r ≠ ⟨a, len, site⟩ } := by
  obtain ⟨st, hs⟩ := h
  obtain ⟨hmem, hsite⟩ := (hs.region _).mp hr
  have hok := hs.arena.maps_ok
  have hlen := hok.len _ hmem
  have hiff : ∀ r ∈ s.maps, (¬ (r.base = a ∧ r.len = len) ↔ r ≠ ⟨a, len, site⟩) := by
    intro r hrm
    refine ⟨fun hne he => hne (by rw [he]; exact ⟨rfl, rfl⟩), fun hne ⟨hb, hl⟩ => hne ?_⟩
    dsimp only at hlen
    exact hok.eq_of_mem (a := a) hrm hmem (by omega) (by omega) le_rfl (by dsimp only; omega)
  have hview : (fun r => v.region r ∧ ¬ (r.base = a ∧ r.len = len))
      = fun r => v.region r ∧ r ≠ ⟨a, len, site⟩ := by
    funext r
    exact propext (and_congr_right fun hv => hiff r ((hs.region r).mp hv).1)
  refine Spec.setGlobal ⟨st, ?_⟩
  rw [← hview]
  refine hs.unmapped (fun r => ¬ (r.base = a ∧ r.len = len)) fun r hrm hm => (hiff r hrm).mpr ?_
  rintro rfl
  exact hsite hm

/-- `alloc_span` starts by making the page map present. -/
theorem ensurePageMap (h : Shows pf strict W s v) :
    Spec (Allowed strict) (onStore W.Ok) (ensurePageMap pf) s fun _ s' => ∃ root, root ≠ NULL ∧
      (v.root ≠ NULL → root = v.root) ∧ Shows pf strict W s' { v with root := root } := by
  obtain ⟨st, hs⟩ := h
  refine Spec.global_bind (Spec.ite (fun h0 => ?_) fun hne => ?_)
  · rw [hs.root] at h0
    refine Spec.bind (cmallocAllocMetadata_spec hs.arena (.inr (.inr (.inl rfl))) fun m' hm =>
      hs.watch_agree hm) fun a s' hA => ?_
    exact Spec.setGlobal ⟨a, hA.valid.1, fun hne => absurd h0 hne, _, hs.newRoot h0 hA⟩
  · rw [hs.root] at hne
    exact Spec.pure ⟨v.root, hne, fun _ => rfl, st, hs⟩

end Shows

end

end FastAlloc
