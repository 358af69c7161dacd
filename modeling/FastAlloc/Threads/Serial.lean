/-
FastAlloc.Threads.Serial — calls that run one after the other, where any
thread may free any live block.

A block given back by another thread is harmless but in one case: it is the
last one of a span that stands first in its owner's bin. `bin_remove` then
writes the head of the caller's bin, and the owner's head goes on naming a
span of the pool (`HeapInv.cfree_of_not_safe`). Frees that avoid it
(`State.SafeFree`) keep the invariant, whoever calls.
-/
import FastAlloc.Threads.Frees

namespace FastAlloc

open Lib Mem View

/-- The library between two calls, and the live blocks with the threads that
asked for them and the sizes. -/
structure Idle where
  state : State
  live : Nat → Option (Tid × Nat)

/-- Where `cfree` comes to write the head of the caller's bin, the span is
that head. -/
def State.SafeFree (pf : Platform) (s : State) (t : Tid) (p : Nat) : Prop :=
  ∀ a, ((cmallocGetSpan pf p).run s).result = .ok a → (s.mem.span a).freeCount ≠ 0 →
    (s.mem.span a).freeCount + 1 = (s.mem.span a).blockCount →
    (s.mem.span a).prevInSizeClassBin = NULL →
    s.threadLocalBin t (s.mem.span a).sizeClassIndex = a

/-- One whole call by some thread, or bytes written by the clients. -/
inductive SerialStep (pf : Platform) : Idle → Label → Idle → Prop
  | cmalloc {w : Idle} {t : Tid} {size p : Nat} {s : State} {tr : List Event} :
      (cmalloc pf t size).run w.state = ⟨.ok p, s, tr⟩ →
      SerialStep pf w ⟨some size, tr⟩ ⟨s, Function.update w.live p (some (t, size))⟩
  | cfree {w : Idle} {t : Tid} {p : Nat} {x : Tid × Nat} {s : State} {tr : List Event} :
      w.live p = some x → w.state.SafeFree pf t p →
      (cfree pf t p).run w.state = ⟨.ok (), s, tr⟩ →
      SerialStep pf w ⟨none, tr⟩ ⟨s, Function.update w.live p none⟩
  | write {w : Idle} (bytes : Nat → UInt8) :
      SerialStep pf w ⟨none, []⟩ ⟨{ w.state with bytes := bytes }, w.live⟩

/-- The bins hold the partly free spans, each in one bin and none in the
pool; live blocks lie apart, and `cmalloc` gives one apart from them all. -/
structure SerialOk (pf : Platform) (w : Idle) : Prop where
  bin : ∀ t c, ∃ l, BinSpans w.state t c l ∧ ∀ a ∈ l, InUse w.state a ∧
    (w.state.mem.span a).sizeClassIndex = c ∧ 0 < (w.state.mem.span a).freeCount ∧
    (w.state.mem.span a).freeCount < (w.state.mem.span a).blockCount
  one : ∀ a, InUse w.state a → 0 < (w.state.mem.span a).freeCount →
    (w.state.mem.span a).freeCount < (w.state.mem.span a).blockCount →
    ∃ t, ∀ t' c, InBin w.state t' c a ↔ t' = t ∧ c = (w.state.mem.span a).sizeClassIndex
  pool : ∀ n a, Cached w.state n a → ∀ t c, ¬ InBin w.state t c a
  apart : ∀ p q x y, w.live p = some x → w.live q = some y → p ≠ q → p + x.2 ≤ q ∨ q + y.2 ≤ p
  fresh : ∀ t size, pf.NonWrapping size →
    (∀ e ∈ ((cmalloc pf t size).run w.state).trace, e.Mapped) →
    ∃ q, ((cmalloc pf t size).run w.state).result = .ok q ∧ q ≠ NULL ∧ w.live q = none ∧
      ∀ p x, w.live p = some x → p + x.2 ≤ q ∨ q + size ≤ p

/-- Between calls, with blocks of any thread's in any thread's spans. -/
def SerialInv (pf : Platform) (w : Idle) : Prop :=
  ∃ v H, HeapInv pf false .none w.state v H ∧ H.live = w.live ∧ ∀ t, H.pc t = none

section

variable {pf : Platform} {strict : Bool} {s s' : State} {v v' : View} {H H' : Heap} {w w' : Idle}
  {a i n p q : Nat} {u : Usage} {sp : Span} {t t' o : Tid} {c : Int} {x : Tid × Nat}

/-! ## The view after a free by another thread -/

namespace View

theorem prevLink_giveBack (ha : v.span a = some sp) : (v.giveBack a i).prevLink a = v.prevLink a := by
  rw [giveBack, record_of ha, prevLink_of ha, prevLink_of span_set_self]
  rfl

/-- Inside the bin it makes no difference who removes a span. -/
theorem freeUnlocked_of_prev (ha : v.span a = some sp) (h0 : sp.freeCount ≠ 0)
    (hprev : v.prevLink a ≠ NULL) : v.freeUnlocked t a i = v.freeUnlocked o a i := by
  have hprev' : (v.giveBack a i).prevLink a ≠ NULL := by rwa [prevLink_giveBack ha]
  unfold freeUnlocked
  rw [record_of ha, if_neg h0, if_neg h0]
  unfold binRemove
  rw [if_neg hprev', if_neg hprev']

/-- The other threads' heads stay. -/
theorem localBin_freeUnlocked (ho : o ≠ t) : (v.freeUnlocked t a i).localBin o = v.localBin o := by
  unfold freeUnlocked
  split
  · rfl
  · split
    · exact Function.update_of_ne ho _ _
    · split
      · unfold binRemove
        change (if _ then _ else v.localBin) o = _
        split
        · exact Function.update_of_ne ho _ _
        · rfl
      · rfl

theorem localBin_retire : (v.retire pf a sp).localBin = v.localBin := by
  unfold retire
  split
  · rfl
  · rfl

/-- A span of less pages goes to the pool. -/
theorem cached_retire (hn : sp.pageCount < maxBinnedPages) :
    (v.retire pf a sp).Cached (fun _ => False) sp.pageCount a := by
  unfold retire
  rw [if_neg (Nat.not_le.mpr hn)]
  exact ⟨_, Function.update_self .., rfl, rfl, id⟩

end View

/-- What `SafeFree` means for the heap. -/
theorem HeapInv.safeFree_iff (h : HeapInv pf strict .none s v H) (hb : H.IsBlock p a u i)
    (hp : H.live p = some x) : s.SafeFree pf t p ↔
      (u.free ≠ ∅ → (u.give i).AllFree → v.prevLink a = NULL → H.owner a = t) := by
  obtain ⟨sp, hsp, hi, rfl, hblocks⟩ := h.record hb.use
  have hsound := h.heap.sound a _ hb.use
  have hrec := h.shows.record_eq hsp
  have hget := h.run_getSpan hb le_rfl (Nat.lt_add_of_pos_right hsound.blockSize_pos)
  obtain ⟨hf, -⟩ := (h.heap.out p a _ i hb).mp ⟨x, hp⟩
  have hcount := hblocks.freeCount
  have hempty : sp.use.free ≠ ∅ ↔ sp.freeCount ≠ 0 := by
    rw [hcount, Ne, Ne, Finset.card_eq_zero]
    rfl
  have hiff : s.SafeFree pf t p ↔ (sp.freeCount ≠ 0 → sp.freeCount + 1 = sp.blockCount →
      sp.prevInSizeClassBin = NULL → v.localBin t sp.sizeClassIndex = a) := by
    unfold State.SafeFree
    rw [hget, h.shows.localBin_eq]
    simp only [Except.ok.injEq, forall_eq', hrec]
  rw [hiff, hempty, prevLink_of hsp]
  by_cases h0 : sp.freeCount = 0
  · exact iff_of_true (fun hne => absurd h0 hne) fun hne => absurd h0 hne
  have hcls : sp.sizeClassIndex ≠ largeClassSizeIndex := by
    intro hl
    have hone : sp.use.blockCount = 1 := hsound.blockCount_large hl
    have hlt := hsound.card_lt hb.lt hf
    change sp.freeBlocks.card < _ at hlt
    omega
  obtain ⟨-, hlt, -, -, hall⟩ := h.give_counts hb hp hsp hi hcls
  have hall' : (sp.use.give i).AllFree ↔ sp.freeCount + 1 = sp.blockCount :=
    ⟨fun hx => hall.mp (.inr hx), fun hx => (hall.mpr hx).resolve_left hcls⟩
  rw [hall']
  refine forall_congr' fun _ => forall_congr' fun hend => forall_congr' fun hprev => ?_
  have hbin : H.bin a = some (H.owner a, sp.sizeClassIndex) := by
    have hpos : 0 < sp.use.free.card := hcount ▸ Nat.pos_of_ne_zero h0
    rw [Heap.bin_of hb.use, if_pos ⟨hpos, hsound.card_lt hb.lt hf⟩]
    rfl
  have hhead := ((h.bins.lists (H.owner a, sp.sizeClassIndex)).prev_eq_null_iff hbin).mp
    ((prevLink_of hsp).trans hprev)
  constructor
  · intro he
    have hmem := h.bins.lists.head_mem (i := (t, sp.sizeClassIndex)) (he ▸ h.sound.ne_null hsp)
    have heq := hbin.symm.trans (he ▸ hmem)
    simpa using heq
  · intro he
    rw [← he]
    exact hhead.symm

/-- A safe free keeps the invariant, whoever owns the span. -/
theorem HeapInv.cfree_safe (h : HeapInv pf strict .none s v H) (hidle : ∀ t, H.pc t = none)
    (hb : H.IsBlock p a u i) (hp : H.live p = some x) (hsafe : s.SafeFree pf t p) :
    Spec (Allowed strict) (onStore Watch.none.Ok) (FastAlloc.cfree pf t p) s fun _ s' => ∃ v' H',
      HeapInv pf strict .none s' v' H' ∧ H'.live = Function.update H.live p none ∧
        ∀ t, H'.pc t = none := by
  rw [h.safeFree_iff hb hp] at hsafe
  obtain ⟨o, hlast, hact⟩ : ∃ o, (u.free ≠ ∅ → (u.give i).AllFree → H.owner a = o) ∧
      v.freeUnlocked t a i = v.freeUnlocked o a i := by
    by_cases hin : u.free ≠ ∅ ∧ v.prevLink a ≠ NULL
    · obtain ⟨sp, hsp, -, rfl, hblocks⟩ := h.record hb.use
      refine ⟨H.owner a, fun _ _ => rfl, freeUnlocked_of_prev hsp ?_ hin.2⟩
      rw [hblocks.freeCount]
      exact fun h0 => hin.1 (Finset.card_eq_zero.mp h0)
    · refine ⟨t, fun hne hall => hsafe hne hall ?_, rfl⟩
      by_contra hprev
      exact hin ⟨hne, hprev⟩
  obtain ⟨t', n⟩ := x
  refine (h.cfreeAs (hidle o) hb hp hlast (.inr hidle) hact).mono fun _ s' hs => ?_
  obtain ⟨v', -, hinv⟩ := hs
  refine ⟨v', _, hinv, ?_, fun t => ?_⟩
  · rw [Heap.free_live, hb.eq]
  · rw [Heap.free_pc (hidle o)]
    exact hidle t

/-- One that is not leaves the span in the pool and at the head of its
owner's bin. -/
theorem HeapInv.cfree_of_not_safe (h : HeapInv pf strict .none s v H) (hb : H.IsBlock p a u i)
    (hp : H.live p = some x) (hbad : ¬ s.SafeFree pf t p) :
    Spec (Allowed strict) (onStore Watch.none.Ok) (FastAlloc.cfree pf t p) s fun _ s' =>
      a ≠ NULL ∧ s'.threadLocalBin (H.owner a) u.cls = a ∧ Cached s' u.pages a := by
  rw [h.safeFree_iff hb hp] at hbad
  simp only [Classical.not_imp] at hbad
  obtain ⟨hne, hall, hprev, ho⟩ := hbad
  obtain ⟨sp, hsp, hi, rfl, hblocks⟩ := h.record hb.use
  have hsound := h.heap.sound a _ hb.use
  obtain ⟨hf, -⟩ := (h.heap.out p a _ i hb).mp ⟨x, hp⟩
  have hcls : sp.sizeClassIndex ≠ largeClassSizeIndex := by
    intro hl
    have hone := hsound.blockCount_large hl
    have hlt := hsound.card_lt hb.lt hf
    exact hne (Finset.card_eq_zero.mp (by omega))
  obtain ⟨hcard, hlt, -, -, hend⟩ := h.give_counts hb hp hsp hi hcls
  have h0 : sp.freeCount ≠ 0 := by
    rw [← hcard]
    exact fun he => hne (Finset.card_eq_zero.mp he)
  have hview : v.freeUnlocked t a i = (v.giveBack a i).binRemove t sp.sizeClassIndex a := by
    unfold View.freeUnlocked
    rw [record_of hsp, if_neg hcls, if_neg h0, if_pos (hend.mp (.inr hall))]
  have hsound' : (v.freeUnlocked t a i).Sound pf := by
    rw [hview, View.binRemove, View.giveBack, record_of hsp]
    exact (h.sound.giveBlock hsp hi hb.lt hf).withLinks
  obtain ⟨sp', hsp', -, hpages⟩ :=
    exists_of_place (congrFun (place_freeUnlocked (t := t) (i := i) hsp) a) hsp
  have hi' : sp'.isInitialized = true := by
    have hgave : (v.giveBack a i).span a = some (sp.giveBlock i) := by
      rw [View.giveBack, record_of hsp, span_set_self]
    rw [hview] at hsp'
    obtain rfl := Option.some.inj ((span_withLinks hgave).symm.trans hsp')
    exact hi
  have hsmall : sp'.pageCount < maxBinnedPages := by
    obtain ⟨size, -, -, hp'⟩ := hsound.request
    have hpages' : sp'.pageCount = sp.use.pages := hpages
    rw [hpages', hp']
    exact requestPages_lt (hsound.cls_range hcls)
  have hhead : v.localBin (H.owner a) sp.sizeClassIndex = a := by
    have hbin : H.bin a = some (H.owner a, sp.sizeClassIndex) := by
      rw [Heap.bin_of hb.use, if_pos ⟨by omega, hsound.card_lt hb.lt hf⟩]
      rfl
    exact (((h.bins.lists (H.owner a, sp.sizeClassIndex)).prev_eq_null_iff hbin).mp hprev).symm
  unfold FastAlloc.cfree
  rw [if_neg (h.heap.live_ne_null hp)]
  refine Spec.bind (cfreeUnlocked_tracks h hb hp le_rfl (Nat.lt_add_of_pos_right hsound.blockSize_pos))
    fun r s₁ hr => ?_
  obtain ⟨rfl, ht⟩ := hr
  rw [if_pos (.inr hall)]
  refine (cmallocCacheSpan_spec ht.shows hsound'.toGeometry hsp' fun _ hk => hk.elim).mono
    fun _ s' hs => ?_
  have hok := hsound'.toOk.retire hsp' hi'
  refine ⟨h.sound.ne_null hsp, ?_, ?_⟩
  · rw [hs.localBin_eq, localBin_retire, localBin_freeUnlocked ho]
    exact hhead
  · refine (hs.cached_iff hok.toPool _ a).mpr ?_
    have hpages' : sp.use.pages = sp'.pageCount := hpages.symm
    rw [hpages']
    exact ⟨hsmall, cached_retire hsmall⟩

/-! ## Runs -/

/-- A whole `cmalloc`, from what it leaves of the heap. -/
theorem HeapInv.cmalloc_idle {size : Nat} (h : HeapInv pf strict .none s v H)
    (hidle : ∀ t, H.pc t = none) (hsize : pf.NonWrapping size) :
    Spec (Allowed strict) (onStore Watch.none.Ok) (FastAlloc.cmalloc pf t size) s fun p s' =>
      ∃ v' H', HeapInv pf strict .none s' v' H' ∧ H.live p = none ∧
        H'.live = Function.update H.live p (some (t, size)) ∧ ∀ t, H'.pc t = none := by
  refine (h.cmalloc (hidle t) hsize).mono fun p s' hp => ?_
  obtain ⟨a, u, i, v', H', hinv, -, htakes⟩ := hp
  have ht : H.Takes pf t size p a u i H' := by
    rcases htakes with hb | hf
    · exact hb.takes h.heap
    · exact hf.takes
  refine ⟨v', H', hinv, ht.fresh h.heap hinv.heap, ht.live, fun t' => ?_⟩
  rw [ht.pc]
  by_cases htt : t' = t
  · rw [htt, Function.update_self]
  · rw [Function.update_of_ne htt, hidle]

theorem SerialInv.initial (pf : Platform) (proposals : Nat → Nat) :
    SerialInv pf ⟨.initial proposals, fun _ => none⟩ :=
  ⟨.empty, _, (WorldInv.initial pf false proposals).heap, rfl, fun _ => rfl⟩

theorem SerialInv.step {l : Label} (h : SerialInv pf w) (hst : SerialStep pf w l w')
    (hl : pf.GoodLabel l) : SerialInv pf w' := by
  obtain ⟨v, H, hinv, hlive, hidle⟩ := h
  cases hst with
  | cmalloc hrun =>
    rename_i t size p s tr
    obtain ⟨⟨q, hq, v', H', hinv', -, hlive', hidle'⟩, -⟩ :=
      hinv.cmalloc_idle (t := t) hidle (hl.1 size rfl) fun e he =>
        allowed_of_mapped (hl.2 e (by rwa [hrun] at he))
    rw [hrun] at hq hinv'
    obtain rfl : p = q := Except.ok.inj hq
    exact ⟨v', H', hinv', hlive'.trans (by rw [hlive]), hidle'⟩
  | cfree hp hsafe hrun =>
    rename_i t p x s tr
    rw [← hlive] at hp
    obtain ⟨a, u, i, hb⟩ := hinv.heap.place p x hp
    obtain ⟨⟨_, -, v', H', hinv', hlive', hidle'⟩, -⟩ :=
      hinv.cfree_safe hidle hb hp hsafe fun e he =>
        allowed_of_mapped (hl.2 e (by rwa [hrun] at he))
    rw [hrun] at hinv'
    exact ⟨v', H', hinv', hlive'.trans (by rw [hlive]), hidle'⟩
  | write bytes => exact ⟨_, H, hinv.setBytes bytes, hlive, hidle⟩

/-- The bytes of two live blocks are apart. -/
theorem HeapOk.live_apart {y : Tid × Nat} (h : HeapOk pf H) (hp : H.live p = some x)
    (hq : H.live q = some y) (hne : p ≠ q) : p + x.2 ≤ q ∨ q + y.2 ≤ p := by
  obtain ⟨a, u, i, hb, -, -, hx⟩ := h.live_block hp
  obtain ⟨b, z, j, hb', -, -, hy⟩ := h.live_block hq
  have hapart := h.blocks_apart hb hb' hne
  omega

/-- The invariant, read off memory. -/
theorem SerialInv.ok (h : SerialInv pf w) : SerialOk pf w := by
  obtain ⟨v, H, hinv, hlive, hidle⟩ := h
  have hin : ∀ t c a, InBin w.state t c a ↔ H.bin a = some (t, c) := by
    intro t c a
    obtain ⟨l, hl, hm⟩ := hinv.binSpans t c
    constructor
    · intro ⟨l', hl', ha⟩
      exact hinv.bin_of_mem hl' ha
    · exact fun ha => ⟨l, hl, (hm a).mpr ha⟩
  constructor
  case bin =>
    intro t c
    obtain ⟨l, hl, hm⟩ := hinv.binSpans t c
    refine ⟨l, hl, fun a ha => ?_⟩
    obtain ⟨huse, hc, -, hpos, hlt⟩ := hinv.bin_eq_some_iff.mp ((hm a).mp ha)
    exact ⟨huse, hc, hpos, hlt⟩
  case one =>
    intro a ha hpos hlt
    refine ⟨H.owner a, fun t c => ?_⟩
    rw [hin, hinv.bin_eq_some_iff]
    constructor
    · intro ⟨_, hc, ho, _⟩
      exact ⟨ho.symm, hc.symm⟩
    · intro ⟨ho, hc⟩
      exact ⟨ha, hc.symm, ho.symm, hpos, hlt⟩
  case pool =>
    intro n a ha t c hb
    obtain ⟨-, sp, hsp, hi, -⟩ := (hinv.shows.cached_iff hinv.sound.toPool n a).mp ha
    obtain ⟨u, hu, -⟩ := Heap.bin_eq_some.mp ((hin t c a).mp hb)
    obtain ⟨x, hx, hxi, -⟩ := hinv.record hu
    obtain rfl := Option.some.inj (hsp.symm.trans hx)
    exact nomatch hi.symm.trans hxi
  case apart =>
    intro p q x y hx hy hne
    rw [← hlive] at hx hy
    exact hinv.heap.live_apart hx hy hne
  case fresh =>
    intro t size hsize hm
    obtain ⟨⟨q, hq, v', H', hinv', hnone, hlive', -⟩, -⟩ :=
      hinv.cmalloc_idle (t := t) hidle hsize fun e he => allowed_of_mapped (hm e he)
    have hself : H'.live q = some (t, size) := by rw [hlive', Function.update_self]
    refine ⟨q, hq, hinv'.heap.live_ne_null hself, hlive ▸ hnone, fun p x hx => ?_⟩
    rw [← hlive] at hx
    have hne : p ≠ q := by
      rintro rfl
      exact nomatch hx.symm.trans hnone
    have hx' : H'.live p = some x := by rw [hlive', Function.update_of_ne hne, hx]
    exact hinv'.heap.live_apart hx' hself hne

/-- In order is what the next state is exactly if the free was a safe one. -/
theorem SerialInv.cfree_iff (h : SerialInv pf w) (hp : w.live p = some x)
    (hm : ∀ e ∈ ((cfree pf t p).run w.state).trace, e.Mapped) :
    ∃ s tr, (cfree pf t p).run w.state = ⟨.ok (), s, tr⟩ ∧
      (SerialOk pf ⟨s, Function.update w.live p none⟩ ↔ w.state.SafeFree pf t p) := by
  obtain ⟨v, H, hinv, hlive, hidle⟩ := h
  rw [← hlive] at hp ⊢
  obtain ⟨a, u, i, hb⟩ := hinv.heap.place p x hp
  by_cases hsafe : w.state.SafeFree pf t p
  · obtain ⟨⟨_, hres, v', H', hinv', hlive', hidle'⟩, -⟩ :=
      hinv.cfree_safe hidle hb hp hsafe fun e he => allowed_of_mapped (hm e he)
    exact ⟨_, _, Program.run_of_result hres,
      iff_of_true (SerialInv.ok ⟨v', H', hinv', hlive', hidle'⟩) hsafe⟩
  · obtain ⟨⟨_, hres, h0, hhead, hcached⟩, -⟩ :=
      hinv.cfree_of_not_safe hb hp hsafe fun e he => allowed_of_mapped (hm e he)
    refine ⟨_, _, Program.run_of_result hres, iff_of_false (fun hok => ?_) hsafe⟩
    obtain ⟨l, hl, -⟩ := hok.bin (H.owner a) u.cls
    refine hok.pool _ a hcached _ _ ⟨l, hl, ?_⟩
    obtain ⟨l', rfl, -⟩ := hl.chain.exists_tail fun he => h0 (hhead.symm.trans he)
    exact List.mem_cons.mpr (.inl hhead.symm)

/-- Whole calls by any threads, one after the other, where any thread frees
any live block safely: the bins and the live blocks are in order. The next
`cfree`, by any thread, leaves them so exactly if it is safe too. -/
theorem serial_sound {proposals : Nat → Nat}
    (h : Run (SerialStep pf) pf.GoodLabel ⟨.initial proposals, fun _ => none⟩ w) :
    SerialOk pf w ∧ ∀ t p x, w.live p = some x →
      (∀ e ∈ ((cfree pf t p).run w.state).trace, e.Mapped) →
      ∃ s tr, (cfree pf t p).run w.state = ⟨.ok (), s, tr⟩ ∧
        (SerialOk pf ⟨s, Function.update w.live p none⟩ ↔ w.state.SafeFree pf t p) := by
  have hinv := h.invariant (SerialInv.initial pf proposals) fun _ _ _ hw hst hl => hw.step hst hl
  exact ⟨hinv.ok, fun t p x hp hm => hinv.cfree_iff hp hm⟩

/-- Thread 1 frees the first block of thread 0, the only one in its span:
that is not a safe free. -/
theorem serial_sound_first : ∃ (w : Idle) (s : State) (tr : List Event), SerialOk .hugePages w ∧
    w.live (2 ^ 31) = some (0, 16) ∧
    (cfree .hugePages 1 (2 ^ 31)).run w.state = ⟨.ok (), s, tr⟩ ∧
    ¬ SerialOk .hugePages ⟨s, Function.update w.live (2 ^ 31) none⟩ := by
  obtain ⟨s₀, hs₀⟩ : ∃ s₀, s₀ = State.initial fun n => 2 ^ 30 * (n + 1) := ⟨_, rfl⟩
  have hres : ((cmalloc .hugePages 0 16).run
      (.initial fun n => 2 ^ 30 * (n + 1))).result = .ok (2 ^ 31) := by decide +kernel
  have htrace : (((cmalloc .hugePages 0 16).run
      (.initial fun n => 2 ^ 30 * (n + 1))).trace.all fun e => decide e.Mapped) = true := by
    decide +kernel
  have hget : ((cmallocGetSpan .hugePages (2 ^ 31)).run ((cmalloc .hugePages 0 16).run
      (.initial fun n => 2 ^ 30 * (n + 1))).state).result = .ok 1073774640 := by decide +kernel
  have hspan : (((cmalloc .hugePages 0 16).run
      (.initial fun n => 2 ^ 30 * (n + 1))).state.mem.span 1073774640).freeCount ≠ 0 ∧
      (((cmalloc .hugePages 0 16).run
        (.initial fun n => 2 ^ 30 * (n + 1))).state.mem.span 1073774640).freeCount + 1 =
        (((cmalloc .hugePages 0 16).run
          (.initial fun n => 2 ^ 30 * (n + 1))).state.mem.span 1073774640).blockCount ∧
      (((cmalloc .hugePages 0 16).run
        (.initial fun n => 2 ^ 30 * (n + 1))).state.mem.span 1073774640).prevInSizeClassBin = NULL ∧
      ((cmalloc .hugePages 0 16).run (.initial fun n => 2 ^ 30 * (n + 1))).state.threadLocalBin 1
        (((cmalloc .hugePages 0 16).run
          (.initial fun n => 2 ^ 30 * (n + 1))).state.mem.span 1073774640).sizeClassIndex ≠
        1073774640 := by decide +kernel
  have hfree : (((cfree .hugePages 1 (2 ^ 31)).run ((cmalloc .hugePages 0 16).run
      (.initial fun n => 2 ^ 30 * (n + 1))).state).trace.all fun e => decide e.Mapped) = true := by
    decide +kernel
  rw [← hs₀] at hres htrace hget hspan hfree
  have hstep := SerialStep.cmalloc (w := ⟨s₀, fun _ => none⟩) (Program.run_of_result hres)
  have hgood : Platform.hugePages.GoodLabel ⟨some 16, ((cmalloc .hugePages 0 16).run s₀).trace⟩ := by
    refine ⟨fun n hn => ?_, mapped_of_all htrace⟩
    obtain rfl : 16 = n := Option.some.inj hn
    decide
  subst hs₀
  obtain ⟨hok, hnext⟩ := serial_sound (.tail .refl hstep hgood)
  have hlive : Function.update (fun _ : Nat => (none : Option (Tid × Nat))) (2 ^ 31) (some (0, 16))
      (2 ^ 31) = some (0, 16) := Function.update_self ..
  obtain ⟨s, tr, hrun, hiff⟩ := hnext 1 (2 ^ 31) (0, 16) hlive (mapped_of_all hfree)
  refine ⟨_, s, tr, hok, hlive, hrun, fun hok' => ?_⟩
  exact hspan.2.2.2 (hiff.mp hok' _ hget hspan.1 hspan.2.1 hspan.2.2.1)

end

end FastAlloc
