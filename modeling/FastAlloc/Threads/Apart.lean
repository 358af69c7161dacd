/-
FastAlloc.Threads.Apart — threads have their shares apart.

The share of a thread is read off the heap: the spans it owns and its live
blocks. Its unlocked parts keep to it, the parts of all other threads leave
it alone and leave it the thread's share. So a part of a call that is no
critical section can change places with any part of another thread's.
-/
import FastAlloc.Threads.Bins
import FastAlloc.Threads.Foreign
import FastAlloc.Threads.Linear

namespace FastAlloc

open Lib Mem View

/-! ## The share of a thread -/

/-- The spans thread `t` owns, and its live blocks. -/
def Heap.share (H : Heap) (t : Tid) : Share where
  tid := (· = t)
  start a b := H.owner a = t ∧ ∃ u, H.use a = some u ∧ u.base = b
  block p a := H.owner a = t ∧ ∃ u i n, H.IsBlock p a u i ∧ H.live p = some (t, n)
  block_start := fun _ _ ⟨ho, u, _, _, hb, _⟩ => ⟨u.base, ho, u, hb.use, rfl⟩

section

variable {pf : Platform} {strict : Bool} {W : Watch} {s s' s₁ s₂ : State} {v v' : View} {H K : Heap}
  {S : Share} {a b i n p q size : Nat} {sp : Span} {u : Usage} {t o : Tid} {c : Int}
  {client : Client} {tr : List Event}

theorem Heap.share_span : (H.share t).span a ↔ H.owner a = t ∧ ∃ u, H.use a = some u := by
  constructor
  · intro ⟨_, ho, u, hu, _⟩
    exact ⟨ho, u, hu⟩
  · intro ⟨ho, u, hu⟩
    exact ⟨u.base, ho, u, hu, rfl⟩

namespace HeapInv

variable (h : HeapInv pf strict W s v H)
include h

theorem use_iff : H.use a = some u ↔ InUse s a ∧ (s.mem.span a).use = u := by
  rw [h.shows.inUse_iff h.sound.toGeometry]
  constructor
  · intro ha
    obtain ⟨sp, hsp, hi, rfl, -⟩ := h.record ha
    exact ⟨⟨sp, hsp, hi⟩, by rw [h.shows.record_eq hsp]⟩
  · intro ⟨⟨sp, hsp, hi⟩, hu⟩
    rw [h.shows.record_eq hsp] at hu
    exact hu ▸ h.of_span hsp hi

theorem ready (t : Tid) : (H.share t).Ready pf s := by
  constructor
  · intro a b ⟨_, u, hu, hb⟩
    obtain ⟨-, hrec⟩ := h.use_iff.mp hu
    exact hb ▸ congrArg Usage.base hrec
  · intro p a ⟨_, u, i, n, hb, _⟩
    exact h.run_getSpan hb le_rfl (Nat.lt_add_of_pos_right (h.heap.sound a u hb.use).blockSize_pos)

/-- The records of spans lie in chunks of the arena. -/
theorem inMaps (t : Tid) : (H.share t).InMaps s := by
  intro a ha
  obtain ⟨-, u, hu⟩ := Heap.share_span.mp ha
  obtain ⟨sp, hsp, -⟩ := h.record hu
  obtain ⟨st, hst⟩ := h.shows
  have hout : st a = .out sizeofSpan := ((hst.span a sp).mp hsp).1
  have hsize : (st a).size = some sizeofSpan := by rw [hout]; rfl
  obtain ⟨m, hm, h₁, h₂⟩ := hst.arena.inside hsize
  have hpos : 0 < sizeofSpan := by decide
  exact ⟨_, hm, rfl, by dsimp only; omega, by dsimp only; omega⟩

/-- The first span of a bin is its thread's. -/
theorem link_head (hS : ∀ a u, H.owner a = t → H.use a = some u → S.span a) :
    S.Link (s.threadLocalBin t c) := by
  intro h0
  rw [h.shows.localBin_eq] at h0 ⊢
  obtain ⟨sp, -, -, -, hu, -, -, ho, -⟩ := h.head h0
  exact hS _ _ ho hu

/-- So are its neighbours in its bin. -/
theorem linked (hS : ∀ a u, H.owner a = t → H.use a = some u → S.span a)
    (hb : H.bin a = some (t, c)) : S.Linked s a := by
  have hlinks := h.bins.lists (t, c)
  have hmem : ∀ {b}, H.bin b = some (t, c) → S.span b := by
    intro b hb
    obtain ⟨u, hu, -, -, ho, -⟩ := Heap.bin_eq_some.mp hb
    exact hS b u ho hu
  obtain ⟨sp, hsp⟩ := h.bins.span a _ hb
  have hrec := h.shows.record_eq hsp
  constructor
  · intro h0
    rw [hrec, ← nextLink_of hsp] at h0 ⊢
    exact hmem (hlinks.next_mem hb h0).1
  · intro h0
    rw [hrec, ← prevLink_of hsp] at h0 ⊢
    exact hmem (hlinks.prev_mem hb h0).1

theorem linked_head (hS : ∀ a u, H.owner a = t → H.use a = some u → S.span a)
    (h0 : s.threadLocalBin t c ≠ NULL) : S.Linked s (s.threadLocalBin t c) := by
  refine h.linked (c := c) hS ?_
  rw [h.shows.localBin_eq] at h0 ⊢
  exact h.bins.lists.head_mem (i := (t, c)) h0

/-- What the free of a live block relies on. -/
theorem frees (hS : ∀ a u, H.owner a = t → H.use a = some u → S.span a) (hblock : S.block p a)
    (hb : H.IsBlock p a u i) (hp : H.live p = some (t, n)) (ho : H.owner a = t) :
    S.Frees t s p a := by
  refine ⟨hblock, fun c => h.link_head hS, fun h0 => ?_⟩
  obtain ⟨sp, hsp, hi, rfl, hblocks⟩ := h.record hb.use
  obtain ⟨hf, -⟩ := (h.heap.out p a _ i hb).mp ⟨_, hp⟩
  rw [h.shows.record_eq hsp, hblocks.freeCount] at h0
  refine h.linked (c := sp.sizeClassIndex) hS ?_
  rw [Heap.bin_of hb.use, if_pos ⟨Nat.pos_of_ne_zero h0, (h.heap.sound a _ hb.use).card_lt hb.lt hf⟩, ho]
  rfl

end HeapInv

/-! ## The unlocked parts -/

/-- What the client of a `cmalloc` goes on with, once it has its block. -/
theorem HeapInv.serves (h : HeapInv pf strict W s v H) (ht : TakesBlock pf strict W s H t size p s')
    (hc : H.ClientOk t size client) : (H.share t).Serves t s' client := by
  cases client with
  | malloc => trivial
  | calloc => trivial
  | realloc ptr b =>
    obtain ⟨a, u, i, v', hf, -, -, hinv⟩ := ht
    have hc' : (H.take t a u i size).ClientOk t size (.realloc ptr b) :=
      h.heap.take_clientOk hc hf.use hf.free hf.size_le
    obtain ⟨⟨n', hn'⟩, -, w', j', hb', -⟩ := hc'
    obtain ⟨⟨n, hn⟩, ho, w, j, hb, -⟩ := hc
    refine hinv.frees (fun a' x ho' hx => Heap.share_span.mpr ⟨ho', ?_⟩) ⟨ho, w, j, n, hb, hn⟩ hb' hn' ho
    by_cases ha : a' = a
    · exact ⟨u, ha ▸ hf.use⟩
    · exact ⟨x, (Function.update_of_ne ha _ _).symm.trans hx⟩

namespace HeapInv

variable (h : HeapInv pf strict W s v H)
include h

theorem within_mallocPart (hpc : H.pc t = none) (hc : H.ClientOk t size client) :
    WithinAt ((H.share t).own pf) (mallocPart pf t client size) s := by
  have hS : ∀ a u, H.owner a = t → H.use a = some u → (H.share t).span a := fun a u ho hu =>
    Heap.share_span.mpr ⟨ho, u, hu⟩
  refine FastAlloc.within_mallocPart rfl (h.link_head hS) (h.linked_head hS) fun p s₁ tr hrun => ?_
  obtain ⟨hcase, -⟩ := (cmallocFromBin_spec (A := fun _ => True) h hpc).elim hrun fun _ _ => trivial
  rcases hcase with ⟨hnone, -⟩ | ⟨q, hq, ht⟩
  · cases hnone
  · exact h.serves ht hc

theorem within_freePart {gained : Option (Nat × Nat)} (hown : H.Owned) (hp : H.live p = some (t, n)) :
    WithinAt ((H.share t).own pf) (freePart pf t p q gained) s := by
  obtain ⟨a, u, i, hb, -⟩ := h.heap.live_block hp
  have ho := hown p a u i t n hb hp
  exact FastAlloc.within_freePart rfl (h.frees (fun a u ho hu => Heap.share_span.mpr ⟨ho, u, hu⟩)
    ⟨ho, u, i, n, hb, hp⟩ hb hp ho)

end HeapInv

namespace WorldInv

variable {w : World} {call : Call}

/-- The first part of a call keeps to the share of its thread. -/
theorem within_enter (h : WorldInv pf strict w v) (hpc : w.pc t = none) (hperm : call.Permitted w t) :
    WithinAt (((w.heap v).share t).own pf) (enter pf t call) w.state := by
  cases call with
  | malloc size => exact h.heap.within_mallocPart hpc trivial
  | calloc num size =>
    exact WithinAt.ite (fun _ => Within.pure _ _) fun _ => h.heap.within_mallocPart hpc trivial
  | free ptr =>
    refine WithinAt.ite (fun _ => Within.pure _ _) fun h0 => ?_
    obtain ⟨n, hn⟩ := hperm.resolve_left h0
    exact h.heap.within_freePart h.owned hn
  | realloc ptr size =>
    refine WithinAt.ite (fun _ => h.heap.within_mallocPart hpc trivial) fun h0 => ?_
    obtain ⟨n, hn⟩ := hperm.resolve_left h0
    refine WithinAt.ite (fun _ => h.heap.within_freePart h.owned hn) fun _ => ?_
    obtain ⟨a, u, i, hb, -⟩ := h.heap.heap.live_block hn
    have ho := h.owned ptr a u i t n hb hn
    have hblock : ((w.heap v).share t).block ptr a := ⟨ho, u, i, n, hb, hn⟩
    refine within_own_getSpan_bind hblock (within_own_load_bind (f := Span.blockSize)
      (Share.block_span _ _ _ hblock) (fun _ => rfl)
      (WithinAt.ite (fun _ => Within.pure _ _) fun hlt => ?_))
    obtain ⟨-, hrec⟩ := h.heap.use_iff.mp hb.use
    refine h.heap.within_mallocPart hpc ⟨⟨n, hn⟩, ho, u, i, hb, ?_⟩
    rw [← hrec]
    exact Nat.lt_of_not_le hlt

/-- So does the part of `cmalloc` after its critical section. -/
theorem within_allocate (h : WorldInv pf strict w v) (hpc : w.pc t = some (.allocate client size a)) :
    WithinAt (((w.heap v).share t).own pf) (resume pf t (.allocate client size a)) w.state := by
  obtain ⟨ho, hc, u, hu, -⟩ := h.heap.heap.pcs t _ hpc
  refine FastAlloc.within_allocate rfl (Heap.share_span.mpr ⟨ho, u, hu⟩)
    (h.heap.link_head fun a u ho hu => Heap.share_span.mpr ⟨ho, u, hu⟩) fun p s₁ tr hrun => ?_
  obtain ⟨ht, -⟩ := (cmallocFromSpan_spec (A := fun _ => True) h.heap hpc).elim hrun fun _ _ => trivial
  exact h.heap.serves ht hc

end WorldInv

end

/-! ## What a part leaves to the other threads -/

/-- The next part of the call is a critical section. -/
def Pc.Locked : Pc → Prop
  | .initSpan _ _ => True
  | .allocate _ _ _ => False
  | .cache _ _ => True

def World.Locked (w : World) (t : Tid) : Prop := ∃ pc, w.pc t = some pc ∧ pc.Locked

/-- Thread `o` has in `K` what it has in `H`. -/
structure Heap.AgreesOn (H K : Heap) (o : Tid) : Prop where
  use : ∀ a u, K.owner a = o ∧ K.use a = some u ↔ H.owner a = o ∧ H.use a = some u
  live : ∀ p n, K.live p = some (o, n) ↔ H.live p = some (o, n)

section

variable {pf : Platform} {strict : Bool} {W : Watch} {s s' s₁ s₂ : State} {v v' : View} {H K : Heap}
  {S : Share} {a b i n p q size : Nat} {sp : Span} {u : Usage} {t o : Tid} {c : Int}
  {client : Client} {tr : List Event} {r : Reply} {pr : Progress} {call : Call} {w : World}
  {oc : Option Call} {f : M Progress}

theorem Heap.AgreesOn.share_eq (h : H.AgreesOn K o) : K.share o = H.share o := by
  have hblock : ∀ p a u i, K.owner a = o ∧ K.IsBlock p a u i ↔ H.owner a = o ∧ H.IsBlock p a u i := by
    intro p a u i
    constructor
    · intro ⟨ho, hb⟩
      obtain ⟨ho', hu⟩ := (h.use a u).mp ⟨ho, hb.use⟩
      exact ⟨ho', hu, hb.lt, hb.eq⟩
    · intro ⟨ho, hb⟩
      obtain ⟨ho', hu⟩ := (h.use a u).mpr ⟨ho, hb.use⟩
      exact ⟨ho', hu, hb.lt, hb.eq⟩
  refine Share.ext rfl ?_ ?_
  · funext a b
    refine propext ⟨fun ⟨ho, u, hu, hb⟩ => ?_, fun ⟨ho, u, hu, hb⟩ => ?_⟩
    · obtain ⟨ho', hu'⟩ := (h.use a u).mp ⟨ho, hu⟩
      exact ⟨ho', u, hu', hb⟩
    · obtain ⟨ho', hu'⟩ := (h.use a u).mpr ⟨ho, hu⟩
      exact ⟨ho', u, hu', hb⟩
  · funext p a
    refine propext ⟨fun ⟨ho, u, i, n, hb, hp⟩ => ?_, fun ⟨ho, u, i, n, hb, hp⟩ => ?_⟩
    · obtain ⟨ho', hb'⟩ := (hblock p a u i).mp ⟨ho, hb⟩
      exact ⟨ho', u, i, n, hb', (h.live p n).mp hp⟩
    · obtain ⟨ho', hb'⟩ := (hblock p a u i).mpr ⟨ho, hb⟩
      exact ⟨ho', u, i, n, hb', (h.live p n).mpr hp⟩

/-! ### What a part reports -/

theorem Reply.initialized_of_returns (h : r.returns = some q) : r.initialized = none := by
  cases r with
  | done x => rfl
  | more pc =>
    cases pc with
    | initSpan client size => cases h
    | allocate client size a => cases h
    | cache a x => rfl

theorem Client.Opens.initialized (h : client.Opens H size s s' pr) : pr.reply.initialized = none := by
  rcases h with ⟨rfl, -⟩ | ⟨p, hp⟩
  · rfl
  · exact Reply.initialized_of_returns hp.returns

/-- A thread loses blocks of its own only. -/
theorem Client.Opens.lost (h : client.Opens H size s s' pr) (hc : H.ClientOk t size client)
    (hl : pr.lost = some p) : ∃ n, H.live p = some (t, n) := by
  rcases h with ⟨rfl, -⟩ | ⟨q, hq⟩
  · cases hl
  · have hptr := hq.lost.symm.trans hl
    cases client with
    | malloc => cases hptr
    | calloc => cases hptr
    | realloc ptr a =>
      cases hptr
      exact hc.1

/-- What the first part of a call reports. -/
theorem Call.Goes.reports (h : call.Goes H t s s' pr) :
    pr.reply.initialized = none ∧ ∀ p, pr.lost = some p → ∃ n, H.live p = some (t, n) := by
  have hret : ∀ {q ptr n}, pr.lost = some ptr → pr.reply.returns = some q → H.live ptr = some (t, n) →
      pr.reply.initialized = none ∧ ∀ p, pr.lost = some p → ∃ n, H.live p = some (t, n) := by
    intro q ptr n hl hr hn
    refine ⟨Reply.initialized_of_returns hr, fun p hp => ?_⟩
    rw [hl] at hp
    cases hp
    exact ⟨n, hn⟩
  cases call with
  | malloc size => exact ⟨Client.Opens.initialized h, fun p => Client.Opens.lost h trivial⟩
  | calloc num size =>
    rcases h with ⟨-, rfl⟩ | ⟨-, h⟩
    · exact ⟨rfl, fun _ hp => nomatch hp⟩
    · exact ⟨h.initialized, fun p => h.lost trivial⟩
  | free ptr =>
    rcases h with ⟨-, rfl⟩ | ⟨⟨n, hn⟩, -, hl, hr⟩
    · exact ⟨rfl, fun _ hp => nomatch hp⟩
    · exact hret hl hr hn
  | realloc ptr size =>
    rcases h with ⟨-, h⟩ | ⟨n, -, hn, ⟨-, -, hl, hr⟩ | ⟨-, rfl⟩ | ⟨-, a, hc, h⟩⟩
    · exact ⟨Client.Opens.initialized h, fun p => Client.Opens.lost h trivial⟩
    · exact hret hl hr hn
    · exact ⟨rfl, fun _ hp => nomatch hp⟩
    · exact ⟨h.initialized, fun p => h.lost hc⟩

/-- What a part does to the blocks, and which span it sets up. -/
structure ReportsOwn (w : World) (t : Tid) (pr : Progress) : Prop where
  gained : ∀ q n, pr.gained = some (q, n) → w.live q = none ∨ ∃ m, w.live q = some (t, m)
  lost : ∀ q, pr.lost = some q → ∃ m, w.live q = some (t, m)
  initialized : ¬ w.Locked t → pr.reply.initialized = none

namespace WorldInv

theorem reports (h : WorldInv pf strict w v) (hf : NextPart pf w t oc f)
    (hrun : f.run w.state = ⟨.ok pr, s₁, tr⟩) (hm : ∀ e ∈ tr, Allowed strict e) : ReportsOwn w t pr := by
  have hpart := ((h.part hf).elim hrun hm).1.2
  cases hf with
  | enter hpc hperm hreq =>
    rename_i call
    obtain ⟨hgoes, -⟩ := (enter_goes (A := fun _ => True) h hpc hreq hperm).elim hrun fun _ _ => trivial
    obtain ⟨hinit, hlost⟩ := hgoes.reports
    refine ⟨fun q n hg => ?_, hlost, fun _ => hinit⟩
    rcases hpart q n hg with hnone | hre
    · exact .inl hnone
    obtain rfl := Option.some.inj hre
    rcases hperm with h0 | hn
    · refine .inl ?_
      by_contra hne
      obtain ⟨x, hx⟩ := Option.ne_none_iff_exists'.mp hne
      exact h.heap.heap.live_ne_null hx h0
    · exact .inr hn
  | resume hpc =>
    rename_i pc
    obtain ⟨⟨-, hgoes⟩, -⟩ := (resume_spec h.heap h.owned hpc fun _ hk => hk.elim).elim hrun hm
    have hok := h.heap.heap.pcs t _ hpc
    refine ⟨fun q n hg => .inl (hgoes.fresh hg), fun q hq => ?_, fun hl => ?_⟩
    · cases pc with
      | initSpan client size =>
        obtain ⟨a, rfl⟩ := hgoes
        cases hq
      | allocate client size a =>
        obtain ⟨p, hp⟩ := hgoes
        exact Client.Opens.lost (.inr ⟨p, hp⟩) hok.2.1 hq
      | cache a x =>
        obtain rfl : pr = ⟨.done x, none, none⟩ := hgoes
        cases hq
    · cases pc with
      | initSpan client size => exact absurd ⟨_, hpc, trivial⟩ hl
      | allocate client size a =>
        obtain ⟨p, hp⟩ := hgoes
        exact Reply.initialized_of_returns hp.returns
      | cache a x => exact absurd ⟨_, hpc, trivial⟩ hl

end WorldInv

/-- The blocks of another thread stay its blocks. -/
theorem ReportsOwn.live (h : ReportsOwn w t pr) (ho : o ≠ t) :
    (w.after t s₁ pr).live p = some (o, n) ↔ w.live p = some (o, n) := by
  have hown : ∀ {m : Nat}, some (t, m) ≠ some (o, n) := by
    intro m he
    cases he
    exact ho rfl
  change liveAfter w.live t pr p = _ ↔ _
  have hlost : (if pr.lost = some p then none else w.live p) = some (o, n) ↔
      w.live p = some (o, n) := by
    split
    · obtain ⟨m, hm⟩ := h.lost p ‹_›
      rw [hm]
      exact iff_of_false (fun he => nomatch he) hown
    · exact Iff.rfl
  unfold liveAfter
  rcases hg : pr.gained with _ | ⟨q, m⟩
  · exact hlost
  · dsimp only
    split
    · rename_i hpq
      subst hpq
      refine iff_of_false hown fun hx => ?_
      rcases h.gained p m hg with hnone | ⟨m', hm⟩
      · exact nomatch hnone.symm.trans hx
      · exact hown (hm.symm.trans hx)
    · exact hlost

/-! ### What a part reads and writes -/

namespace WorldInv

variable (h : WorldInv pf strict w v) (hf : NextPart pf w t oc f)
include h hf

theorem within_part (hl : ¬ w.Locked t) :
    WithinAt (((w.heap v).share t).own pf) f w.state := by
  cases hf with
  | enter hpc hperm _ => exact h.within_enter hpc hperm
  | resume hpc =>
    rename_i pc
    cases pc with
    | initSpan client size => exact absurd ⟨_, hpc, trivial⟩ hl
    | allocate client size a => exact h.within_allocate hpc
    | cache a x => exact absurd ⟨_, hpc, trivial⟩ hl

/-- A critical section leaves alone every share whose spans are in use. -/
theorem within_locked (hl : w.Locked t) (hrun : f.run w.state = ⟨.ok pr, s₁, tr⟩)
    (hm : ∀ e ∈ tr, Allowed strict e) (hS : ∀ a, S.span a → ∃ u, (w.heap v).use a = some u) :
    WithinAt S.outside f w.state := by
  obtain ⟨pc, hpc', hlocked⟩ := hl
  cases hf with
  | enter hpc _ _ => exact nomatch hpc.symm.trans hpc'
  | resume hpc =>
    cases hpc.symm.trans hpc'
    cases pc with
    | initSpan client size =>
      obtain ⟨a, s₂, t₁, t₂, hinit, hrest, rfl⟩ := Program.run_bind_inv hrun
      obtain ⟨⟨v', -, hnone, -⟩, -⟩ := (initializeSpan_inv h.heap hpc fun _ hk => hk.elim).elim hinit
        fun e he => hm e (List.mem_append_left _ he)
      refine (within_cmallocInitializeSpan hinit fun ha => ?_).bind fun b s' t' _ _ => Within.pure _ s'
      obtain ⟨u, hu⟩ := hS a ha
      exact nomatch hnone.symm.trans hu
    | allocate client size a => exact hlocked.elim
    | cache a x =>
      exact (within_cmallocCacheSpan pf a w.state).bind fun _ s' _ _ _ => Within.pure _ s'

end WorldInv

/-- An unlocked part takes no span into use and gives none up. -/
theorem Share.Others.inUse_iff (h : S.Others s s') : InUse s' a ↔ InUse s a := by
  have hget : ∀ k, ((cmallocGet s'.pageMap k).run s').result = ((cmallocGet s.pageMap k).run s).result := by
    intro k
    rw [h.pageMap.1]
    exact (within_pageMap_get s.pageMap k s trivial s' trivial h.pageMap).1.result.symm
  have hinit : (s'.mem.span a).outer.isInitialized = (s.mem.span a).outer.isInitialized := by
    rw [h.span a]
  change (s'.mem.span a).isInitialized = (s.mem.span a).isInitialized at hinit
  unfold InUse
  simp only [hget, hinit]

/-- What lies outside of a share is as it was. -/
theorem Share.Others.mine {S' : Share} (h : S.Others s s') (hspan : ∀ a, S'.span a → ¬ S.span a)
    (htid : ∀ t, S'.tid t → ¬ S.tid t) : S'.Mine s s' :=
  ⟨fun a ha => by rw [h.other a (hspan a ha)], fun t ht => h.bins t (htid t ht)⟩

theorem share_apart (hne : o ≠ t) (ha : (H.share o).span a) : ¬ (H.share t).span a := fun ha' =>
  hne ((Heap.share_span.mp ha).1.symm.trans (Heap.share_span.mp ha').1)

namespace WorldInv

variable (h : WorldInv pf strict w v) (hf : NextPart pf w t oc f)
  (hrun : f.run w.state = ⟨.ok pr, s₁, tr⟩) (hm : ∀ e ∈ tr, Allowed strict e)
include h hf hrun hm

theorem exists_after : ∃ v', WorldInv pf strict (w.after t s₁ pr) v' := by
  obtain ⟨⟨⟨v', H', hadv⟩, -⟩, -⟩ := (h.part hf).elim hrun hm
  exact ⟨v', hadv.world⟩

/-- What a part does to the spans of another thread: nothing. -/
theorem uses (hne : o ≠ t) : (∀ a, pr.reply.initialized = some a → v.use a = none) ∧
    ∀ a u, w.owner a = o → pr.reply.initialized ≠ some a →
      (InUse s₁ a ∧ (s₁.mem.span a).use = u ↔ v.use a = some u) := by
  have hiff : ∀ a u, v.use a = some u ↔ InUse w.state a ∧ (w.state.mem.span a).use = u := fun a u =>
    h.heap.use_iff
  by_cases hl : w.Locked t
  · obtain ⟨pc, hpc', hlocked⟩ := hl
    cases hf with
    | enter hpc _ _ => exact nomatch hpc.symm.trans hpc'
    | resume hpc =>
      cases hpc.symm.trans hpc'
      cases pc with
      | initSpan client size =>
        obtain ⟨b, s₂, t₁, t₂, hinit, hrest, rfl⟩ := Program.run_bind_inv hrun
        obtain ⟨⟨v', -, hnone, hinv, -⟩, -⟩ := (initializeSpan_inv h.heap hpc fun _ hk => hk.elim).elim
          hinit fun e he => hm e (List.mem_append_left _ he)
        cases hrest
        refine ⟨fun a ha => ?_, fun a u _ ha => ?_⟩
        · obtain rfl : b = a := Option.some.inj ha
          exact hnone
        · have hab : a ≠ b := fun he => ha (congrArg some he.symm)
          rw [← hinv.use_iff]
          exact iff_of_eq (congrArg (· = some u) (Function.update_of_ne hab _ _))
      | allocate client size a => exact hlocked.elim
      | cache b x =>
        obtain ⟨_, s₂, t₁, t₂, hcache, hrest, rfl⟩ := Program.run_bind_inv hrun
        obtain ⟨⟨sp, -, hinv, -⟩, -⟩ := (cacheSpan_inv h.heap hpc fun _ _ _ hk => hk.elim).elim
          hcache fun e he => hm e (List.mem_append_left _ he)
        cases hrest
        refine ⟨fun a ha => (nomatch ha), fun a u ho _ => ?_⟩
        have hab : a ≠ b := fun he =>
          hne (ho.symm.trans ((congrArg w.owner he).trans (h.heap.heap.pcs t _ hpc).1))
        rw [← hinv.use_iff]
        exact iff_of_eq (congrArg (· = some u) (Function.update_of_ne hab _ _))
  · have hrest := (h.within_part hf hl).rest (h.heap.ready t) hrun
    have hinit := (h.reports hf hrun hm).initialized hl
    refine ⟨fun a ha => (nomatch hinit.symm.trans ha), fun a u ho _ => ?_⟩
    have hspan : ¬ ((w.heap v).share t).span a := fun ha =>
      hne (ho.symm.trans (Heap.share_span.mp ha).1)
    rw [hiff, hrest.inUse_iff, hrest.other a hspan]

/-- A part leaves the other threads what they have. -/
theorem agrees (hne : o ≠ t) (h' : WorldInv pf strict (w.after t s₁ pr) v') :
    (w.heap v).AgreesOn ((w.after t s₁ pr).heap v') o := by
  obtain ⟨hnew, huse⟩ := h.uses hf hrun hm hne
  have hreports := h.reports hf hrun hm
  have hlive : ∀ p n, (w.after t s₁ pr).live p = some (o, n) ↔ w.live p = some (o, n) := fun p n =>
    hreports.live hne
  refine ⟨fun a u => ?_, hlive⟩
  rw [h'.heap.use_iff]
  change (if pr.reply.initialized = some a then t else w.owner a) = o ∧ _ ↔ w.owner a = o ∧ v.use a = some u
  by_cases ha : pr.reply.initialized = some a
  · rw [if_pos ha, hnew a ha]
    exact iff_of_false (fun hc => hne hc.1.symm) fun hc => nomatch hc.2
  · rw [if_neg ha]
    exact and_congr_right fun ho => huse a u ho ha

/-- It does not touch their shares. -/
theorem leaves (hne : o ≠ t) : ((w.heap v).share o).Mine w.state s₁ := by
  by_cases hl : w.Locked t
  · exact (h.within_locked hf hl hrun hm fun a ha => (Heap.share_span.mp ha).2).rest (h.heap.inMaps o)
      hrun
  · exact ((h.within_part hf hl).rest (h.heap.ready t) hrun).mine (fun a => share_apart hne)
      fun x hx hx' => hne (hx.symm.trans hx')

/-- They are ready after it. -/
theorem ready_after (hne : o ≠ t) : ((w.heap v).share o).Ready pf s₁ := by
  obtain ⟨v', h'⟩ := h.exists_after hf hrun hm
  rw [← (h.agrees hf hrun hm hne h').share_eq]
  exact h'.heap.ready o

end WorldInv

end

end FastAlloc
