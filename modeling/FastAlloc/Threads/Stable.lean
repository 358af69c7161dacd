/-
FastAlloc.Threads.Stable — unlocked lookups while another thread is in a
critical section.

`cfree` looks its block up in the page map without the lock. At every store
a critical section makes, the path of every page of a live block is the one
it was when the section began, so the lookup finds the span of the block.
-/
import FastAlloc.Threads.Live

namespace FastAlloc

open Lib Mem View

/-- Between any two stores of the part `f` of a call, `cmalloc_get_span`
finds the span of every live block, and the page map stays where it is. -/
structure World.LookupsStable (pf : Platform) (w : World) (f : M Progress) : Prop where
  returns : ∃ r, (f.run w.state).result = .ok r
  stores : ∀ p t n, w.live p = some (t, n) → ∃ a, BlockAt pf w.state p n a ∧
    ∀ x, p ≤ x → x < p + (w.state.mem.span a).blockSize →
      ∀ m, .store m ∈ (f.run w.state).trace →
        (cmallocGetSpan pf x).run (w.state.setMem m) = ⟨.ok a, w.state.setMem m, []⟩
  pageMap : (∃ p, w.live p ≠ none) → (f.run w.state).state.pageMap = w.state.pageMap

section

variable {pf : Platform} {strict : Bool} {W : Watch} {s : State} {v : View} {H : Heap} {w : World}
  {m : Mem} {a i n p x : Nat} {sp : Span} {u : Usage} {t t' : Tid} {pc : Pc}

/-- A lookup along a path that is the same in another memory. -/
theorem Shows.run_getSpan_samePath (h : Shows pf strict W s v) (hgeo : v.Geometry pf)
    (ha : v.span a = some sp) (hcov : sp.Covers pf (pf.roundDownPageIndex x))
    (hp : SamePath v.root (pf.roundDownPageIndex x) s.mem m) :
    (cmallocGetSpan pf x).run (s.setMem m) = ⟨.ok a, s.setMem m, []⟩ := by
  obtain ⟨st, hst⟩ := id h
  have hinv : (arenaAllocator pf strict).Inv s st := ⟨hst.arena, hst.settled⟩
  have hpath : s.mem.ValidPath v.root (pf.roundDownPageIndex x) :=
    NodeAllocator.validPath hinv (hst.trie (h.root_ne hgeo ha))
  have hl2 : m.l2Of v.root (pf.roundDownPageIndex x) ≠ NULL →
      Valid (m.l2Of v.root (pf.roundDownPageIndex x)) := by
    rw [hp.l2Of]
    exact hpath.l2
  have hl3 : m.l3Of v.root (pf.roundDownPageIndex x) ≠ NULL →
      Valid (m.l3Of v.root (pf.roundDownPageIndex x)) := by
    rw [hp.l3Of]
    exact hpath.l3
  refine Program.run_bind_read run_global ?_
  rw [State.setMem_pageMap, hst.root, run_cmallocGet hpath.root hl2 hl3, State.setMem_mem, hp.lookup,
    hst.look _ (hgeo.key_lt ha hcov), hgeo.look_of_covers ha hcov]

/-- The pages of the spans in use, but for one that a thread at `pc` is about
to give up. -/
def View.keptPages (v : View) (pf : Platform) (pc : Pc) (k : Nat) : Prop :=
  ∃ b sp, v.span b = some sp ∧ sp.isInitialized = true ∧ sp.Covers pf k ∧ ∀ q, pc ≠ .cache b q

/-- From now on these pages are watched. -/
theorem HeapInv.watching (h : HeapInv pf strict .none s v H) (pc : Pc) :
    HeapInv pf strict ⟨s.mem, v.root, v.keptPages pf pc⟩ s v H := by
  obtain ⟨st, hst⟩ := id h.shows
  have hwatched : ∀ k, v.keptPages pf pc k →
      v.root = v.root ∧ v.root ≠ NULL ∧ k < 2 ^ 35 ∧ v.look k ≠ NULL := by
    intro k hk
    obtain ⟨b, sp, hb, -, hcov, -⟩ := hk
    refine ⟨rfl, h.shows.root_ne h.sound.toGeometry hb, h.sound.key_lt hb hcov, ?_⟩
    rw [h.sound.look_of_covers hb hcov]
    exact h.sound.ne_null hb
  exact ⟨⟨st, hst.arena, hst.settled, hst.fresh, hst.root, hst.trie, hst.noEmptyNode, hst.span,
    hst.chunk, hst.look, hst.bin, hst.bitmap, hst.dataArena, hst.localBin, hst.region, hst.bytes,
    fun k _ => .refl _ _ _, hwatched⟩, h.sound, h.use, h.heap, h.bins⟩

/-- The span of a live block is not about to be given up. -/
theorem WorldInv.not_cache (h : WorldInv pf strict w v) (hp : w.live p = some (t, n))
    (hb : (w.heap v).IsBlock p a u i) (hpc : w.pc t' = some pc) (q : Nat) : pc ≠ .cache a q := by
  rintro rfl
  have hout := (h.heap.heap.out p a u i hb).mp ⟨_, hp⟩
  exact hout.2 ⟨t', _, hpc, rfl⟩

/-- In every reachable world a thread that goes on with its call leaves the
lookups of the others as they are. -/
theorem unlocked_lookups_stable (h : Reachable pf w) (hpc : w.pc t = some pc)
    (hm : ∀ e ∈ ((resume pf t pc).run w.state).trace, e.Mapped) :
    w.LookupsStable pf (resume pf t pc) := by
  obtain ⟨v, hv⟩ := h.inv
  have hspec := resume_spec (hv.heap.watching pc) hv.owned hpc fun k hk => hk
  obtain ⟨⟨r, hr, ⟨v', H', hadv⟩, -⟩, hstores⟩ := hspec fun e he => allowed_of_mapped (hm e he)
  -- a page of a live block is watched
  have hkept : ∀ {p t n a sp i x}, w.live p = some (t, n) → v.span a = some sp →
      sp.isInitialized = true → (w.heap v).IsBlock p a sp.use i → p ≤ x → x < p + sp.blockSize →
      sp.Covers pf (pf.roundDownPageIndex x) ∧ v.keptPages pf pc (pf.roundDownPageIndex x) := by
    intro p t n a sp i x hp hsp hi hb h₁ h₂
    have hend := (hv.heap.heap.sound a _ hb.use).block_le hb.lt
    have hbase : sp.base ≤ p := hb.eq ▸ Nat.le_add_right _ _
    rw [← hb.eq] at hend
    change p + sp.blockSize ≤ sp.base + sp.size pf at hend
    have hcov := (Span.covers_page_iff (hv.heap.sound.placed a sp hsp).aligned).mpr
      ⟨hbase.trans h₁, h₂.trans_le hend⟩
    exact ⟨hcov, a, sp, hsp, hi, hcov, hv.not_cache hp hb hpc⟩
  constructor
  case returns => exact ⟨r, hr⟩
  case stores =>
    intro p t n hp
    obtain ⟨a, hat⟩ := hv.blockAt hp
    refine ⟨a, hat, fun x h₁ h₂ m hmem => ?_⟩
    obtain ⟨b, sp, i, hsp, hi, -, hb, -⟩ := hv.live_record hp
    obtain rfl : a = b := by
      have hlook := hat.lookup p le_rfl (by omega)
      rw [hv.run_getSpan_live hb] at hlook
      cases hlook
      rfl
    rw [hv.heap.shows.record_eq hsp] at h₂
    obtain ⟨hcov, hkey⟩ := hkept hp hsp hi hb h₁ h₂
    exact hv.heap.shows.run_getSpan_samePath hv.heap.sound.toGeometry hsp hcov
      (hstores _ hmem _ hkey)
  case pageMap =>
    intro ⟨p, hp⟩
    obtain ⟨⟨t, n⟩, hp⟩ := Option.ne_none_iff_exists'.mp hp
    obtain ⟨a, sp, i, hsp, hi, -, hb, -⟩ := hv.live_record hp
    have hpos := (hv.heap.heap.sound a _ hb.use).blockSize_pos
    obtain ⟨-, hkey⟩ := hkept hp hsp hi hb le_rfl (Nat.lt_add_of_pos_right hpos)
    obtain ⟨st, hst⟩ := id hadv.inv.shows
    rw [hst.root, hv.heap.shows.root_eq]
    exact (hst.watched _ hkey).1

/-- A second thread in the critical section of `cmalloc(40000)`. -/
theorem unlocked_lookups_stable_first : ∃ w : World, w.live (2 ^ 31) = some (0, 16) ∧
    w.pc 1 = some (.initSpan .malloc 40000) ∧
    w.LookupsStable .hugePages (resume .hugePages 1 (.initSpan .malloc 40000)) := by
  have htrace : (((resume .hugePages 1 (.initSpan .malloc 40000)).run ((cmalloc .hugePages 0 16).run
      (.initial fun n => 2 ^ 30 * (n + 1))).state).trace.all fun e => decide e.Mapped) = true := by
    decide +kernel
  obtain ⟨w, hw, hlive, hpc, hs⟩ := Reachable.first
  have henter : (enter .hugePages 1 (.malloc 40000)).run w.state =
      ⟨.ok ⟨.more (.initSpan .malloc 40000), none, none⟩, w.state, []⟩ := rfl
  have hgood : ∀ n ∈ (Call.malloc 40000).request, Platform.hugePages.NonWrapping n := by decide
  have hperm : (Call.malloc 40000).Permitted w 1 := trivial
  let w' := w.after 1 w.state ⟨.more (.initSpan .malloc 40000), none, none⟩
  have hw' : Reachable .hugePages w' :=
    hw.run (.tail .refl (.enter (hpc 1) hperm henter) ⟨hgood, by simp⟩)
  have hpc' : w'.pc 1 = some (.initSpan .malloc 40000) := by
    change Function.update w.pc 1 (some (Pc.initSpan .malloc 40000)) 1 = _
    rw [Function.update_self]
  rw [← hs] at htrace
  exact ⟨w', hlive, hpc', unlocked_lookups_stable hw' hpc' (mapped_of_all htrace)⟩

end

end FastAlloc
