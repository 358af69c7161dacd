/-
FastAlloc.Threads.Share — what the unlocked code of a thread keeps to.

A `Share` is what a thread has for itself: its bins, its spans, and the
blocks it looks up. Of a span it has the inner fields only; the outer ones
are the business of the critical sections. The unlocked functions are
`Within` the share of their thread: they read and write nothing else, but
for the start of a span, which stays where it is while the span is in use,
and the path in the page map to a block of their own.
-/
import FastAlloc.Lib.Scope
import FastAlloc.Model.Alloc
import FastAlloc.Model.Rules

namespace FastAlloc

open Lib Mem

/-! ## The two sides of a span -/

/-- The fields its thread works with. -/
def Span.inner (sp : Span) : Span :=
  { sp with
    physNext := NULL
    physPrev := NULL
    nextInUninitializedBin := NULL
    base := 0
    pageCount := 0
    isInitialized := false }

/-- What it reads: these fields and where the span starts. -/
def Span.seen (sp : Span) : Span := { sp.inner with base := sp.base }

/-- The fields the critical sections work with. -/
def Span.outer (sp : Span) : Span :=
  { Span.zero with
    physNext := sp.physNext
    physPrev := sp.physPrev
    nextInUninitializedBin := sp.nextInUninitializedBin
    base := sp.base
    pageCount := sp.pageCount
    isInitialized := sp.isInitialized }

theorem Span.eq_of_sides {sp sp' : Span} (hi : sp.inner = sp'.inner) (ho : sp.outer = sp'.outer) :
    sp = sp' := by
  cases sp
  cases sp'
  simp_all [inner, outer]

theorem Span.seen_eq {sp sp' : Span} (hi : sp.inner = sp'.inner) (hb : sp.base = sp'.base) :
    sp.seen = sp'.seen := by
  rw [seen, seen, hi, hb]

/-! ## Shares -/

/-- Bins, spans with where they start, and blocks with the spans they are in. -/
@[ext]
structure Share where
  tid : Tid → Prop
  start : Nat → Nat → Prop
  block : Nat → Nat → Prop
  block_start : ∀ p a, block p a → ∃ b, start a b

namespace Share

def span (S : Share) (a : Nat) : Prop := ∃ b, S.start a b

theorem block_span (S : Share) (p a : Nat) (h : S.block p a) : S.span a := S.block_start p a h

/-- Two states agree on the share. -/
structure Mine (S : Share) (s s' : State) : Prop where
  span : ∀ a, S.span a → (s'.mem.span a).inner = (s.mem.span a).inner
  bins : ∀ t, S.tid t → s'.threadLocalBin t = s.threadLocalBin t

/-- Two states agree on the rest, user data apart. -/
structure Others (S : Share) (s s' : State) : Prop where
  state : s' = { s with
    mem := { s.mem with span := s'.mem.span }
    bytes := s'.bytes
    threadLocalBin := s'.threadLocalBin }
  span : ∀ a, (s'.mem.span a).outer = (s.mem.span a).outer
  other : ∀ a, ¬ S.span a → s'.mem.span a = s.mem.span a
  bins : ∀ t, ¬ S.tid t → s'.threadLocalBin t = s.threadLocalBin t

/-- The spans of the share are where it says, and its blocks are found. -/
structure Ready (S : Share) (pf : Platform) (s : State) : Prop where
  base : ∀ a b, S.start a b → (s.mem.span a).base = b
  block : ∀ p a, S.block p a → (cmallocGetSpan pf p).run s = ⟨.ok a, s, []⟩

/-- A link that stays inside the share. -/
def Link (S : Share) (x : Nat) : Prop := x ≠ NULL → S.span x

/-- The links of span `a` stay inside it. -/
structure Linked (S : Share) (s : State) (a : Nat) : Prop where
  next : S.Link (s.mem.span a).nextInSizeClassBin
  prev : S.Link (s.mem.span a).prevInSizeClassBin

variable {S : Share} {pf : Platform} {s s' s'' : State}

theorem mine_equivalence (S : Share) : Equivalence S.Mine where
  refl _ := ⟨fun _ _ => rfl, fun _ _ => rfl⟩
  symm h := ⟨fun a ha => (h.span a ha).symm, fun t ht => (h.bins t ht).symm⟩
  trans h h' := ⟨fun a ha => (h'.span a ha).trans (h.span a ha),
    fun t ht => (h'.bins t ht).trans (h.bins t ht)⟩

theorem others_equivalence (S : Share) : Equivalence S.Others where
  refl _ := ⟨rfl, fun _ => rfl, fun _ _ => rfl, fun _ _ => rfl⟩
  symm {s s'} h := by
    refine ⟨?_, fun a => (h.span a).symm, fun a ha => (h.other a ha).symm, fun t ht => (h.bins t ht).symm⟩
    rw [h.state]
  trans {s s' s''} h h' := by
    refine ⟨?_, fun a => (h'.span a).trans (h.span a), fun a ha => (h'.other a ha).trans (h.other a ha),
      fun t ht => (h'.bins t ht).trans (h.bins t ht)⟩
    conv_lhs => rw [h'.state, h.state]

/-- Agreeing on all but user data. -/
theorem eq_of_sides (hm : S.Mine s s') (ho : S.Others s s') : s' = { s with bytes := s'.bytes } := by
  have hspan : s'.mem.span = s.mem.span := by
    funext a
    by_cases ha : S.span a
    · exact Span.eq_of_sides (hm.span a ha) (ho.span a)
    · exact ho.other a ha
  have hbins : s'.threadLocalBin = s.threadLocalBin := by
    funext t
    by_cases ht : S.tid t
    · exact hm.bins t ht
    · exact ho.bins t ht
  have hstate := ho.state
  rw [hspan, hbins] at hstate
  exact hstate

/-- The part of the state a thread has for itself. -/
def own (S : Share) (pf : Platform) : Scope State Event where
  ok := S.Ready pf
  same := S.Mine
  rest := S.Others
  like e e' := e.Mapped ↔ e'.Mapped
  equiv := S.mine_equivalence
  rest_refl := S.others_equivalence.refl
  rest_trans := S.others_equivalence.trans

/-- All the rest, in the states that satisfy `ok`. -/
def foreign (S : Share) (ok : State → Prop) : Scope State Event where
  ok := ok
  same := S.Others
  rest := S.Mine
  like e e' := e.Mapped ↔ e'.Mapped
  equiv := S.others_equivalence
  rest_refl := S.mine_equivalence.refl
  rest_trans := S.mine_equivalence.trans

end Share

/-! ## Lookups read the page map only -/

/-- The page map and its nodes. -/
def pageMapScope : Scope State Event where
  ok _ := True
  same s s' := s'.pageMap = s.pageMap ∧ s'.mem.l1 = s.mem.l1 ∧ s'.mem.l2 = s.mem.l2 ∧
    s'.mem.l3 = s.mem.l3
  rest s s' := s' = s
  like _ _ := False
  equiv := ⟨fun _ => ⟨rfl, rfl, rfl, rfl⟩, fun ⟨h₁, h₂, h₃, h₄⟩ => ⟨h₁.symm, h₂.symm, h₃.symm, h₄.symm⟩,
    fun ⟨h₁, h₂, h₃, h₄⟩ ⟨h₅, h₆, h₇, h₈⟩ => ⟨h₅.trans h₁, h₆.trans h₂, h₇.trans h₃, h₈.trans h₄⟩⟩
  rest_refl _ := rfl
  rest_trans h h' := h'.trans h

section

variable {α : Type} {pf : Platform} {p a : Nat} {s s' : State}

theorem within_pageMap_load {f : Mem → α}
    (hf : ∀ m m' : Mem, m'.l1 = m.l1 → m'.l2 = m.l2 → m'.l3 = m.l3 → f m' = f m) :
    Within pageMapScope (load p f) := by
  intro s _ s' _ hs
  by_cases hp : Valid p
  · rw [run_load hp, run_load hp, hf s.mem s'.mem hs.2.1 hs.2.2.1 hs.2.2.2]
    exact ⟨⟨rfl, hs, .nil⟩, rfl, trivial⟩
  · rw [run_load_of_not hp, run_load_of_not hp]
    exact ⟨⟨rfl, hs, .nil⟩, rfl, trivial⟩

theorem within_pageMap_get (r k : Nat) : Within pageMapScope (cmallocGet r k) :=
  .bind (within_pageMap_load fun _ _ h _ _ => by rw [h]) fun _ => .ite (fun _ => .pure _) fun _ =>
    .bind (within_pageMap_load fun _ _ _ h _ => by rw [h]) fun _ => .ite (fun _ => .pure _) fun _ =>
    within_pageMap_load fun _ _ _ _ h => by rw [h]

theorem within_pageMap_getSpan (pf : Platform) (p : Nat) :
    Within pageMapScope (cmallocGetSpan pf p) := by
  have hroot : Within pageMapScope (global (·.pageMap)) := fun s _ s' _ hs =>
    ⟨⟨congrArg Except.ok hs.1.symm, hs, .nil⟩, rfl, trivial⟩
  exact .bind hroot fun r => within_pageMap_get _ _

/-- All shares leave the page map to the critical sections. -/
theorem Share.Others.pageMap {S : Share} (h : S.Others s s') : pageMapScope.same s s' := by
  rw [h.state]
  exact ⟨rfl, rfl, rfl, rfl⟩

/-- What a lookup finds depends on the page map only. -/
theorem run_getSpan_congr (h : (cmallocGetSpan pf p).run s = ⟨.ok a, s, []⟩)
    (hs : pageMapScope.same s s') : (cmallocGetSpan pf p).run s' = ⟨.ok a, s', []⟩ := by
  obtain ⟨s₁, t, hrun, -, rfl, ht⟩ := (within_pageMap_getSpan pf p s).elim trivial trivial hs h
  cases ht
  exact hrun

end

/-! ## Steps within a share -/

section

variable {α : Type} {S : Share} {pf : Platform} {p q a b i n size : Nat} {t : Tid} {c : Int}
  {s s' s₁ : State} {client : Client} {gained : Option (Nat × Nat)} {tr : List Event}

/-- Lookups find what they found. -/
theorem Share.Ready.of_eq (h : S.Ready pf s) (hl : pageMapScope.same s s')
    (hbase : ∀ a b, S.start a b → (s'.mem.span a).base = b) : S.Ready pf s' :=
  ⟨hbase, fun p a hb => run_getSpan_congr (h.block p a hb) hl⟩

theorem within_own_load {f : Span → α} (hp : S.span p) (hf : ∀ sp, f sp.seen = f sp) :
    Within (S.own pf) (load p fun m => f (m.span p)) := by
  intro s hs s' hs' hss
  by_cases hv : Valid p
  · obtain ⟨b, hb⟩ := hp
    have hseen := Span.seen_eq (hss.span p ⟨b, hb⟩) ((hs'.base p b hb).trans (hs.base p b hb).symm)
    rw [run_load hv, run_load hv, ← hf (s.mem.span p), ← hf (s'.mem.span p), hseen]
    exact ⟨⟨rfl, hss, .nil⟩, S.others_equivalence.refl s', hs'⟩
  · rw [run_load_of_not hv, run_load_of_not hv]
    exact ⟨⟨rfl, hss, .nil⟩, S.others_equivalence.refl s', hs'⟩

/-- Reading a whole record, of which only a part matters. -/
theorem loadSpan_bind_eq {π : Span → Span} {g : Span → M α} (hg : ∀ sp, g (π sp) = g sp) :
    loadSpan p >>= g = load p (fun m => π (m.span p)) >>= g := by
  refine Program.ext_run fun s => ?_
  by_cases hv : Valid p
  · rw [loadSpan, Program.run_bind_ok (run_load hv), Program.run_bind_ok (run_load hv), hg]
  · rw [loadSpan, Program.run_bind_error (run_load_of_not hv),
      Program.run_bind_error (run_load_of_not hv)]

theorem within_own_loadSpan_bind {g : Span → M α} (hp : S.span p) (hg : ∀ sp, g sp.seen = g sp)
    (h : ∀ sp, Within (S.own pf) (g sp)) : Within (S.own pf) (loadSpan p >>= g) := by
  rw [loadSpan_bind_eq hg]
  exact .bind (within_own_load hp fun _ => rfl) h

/-- A store to the inner fields of a span. -/
theorem within_own_store {f : Span → Span} (hp : S.span p) (hin : ∀ sp, (f sp).inner = (f sp.inner).inner)
    (hout : ∀ sp, (f sp).outer = sp.outer) : Within (S.own pf) (storeSpan p f) := by
  intro s _ s' hs' hss
  rw [storeSpan]
  by_cases hv : Valid p
  · rw [run_store hv, run_store hv]
    have hself : ∀ m : Mem, (m.setSpan p f).span p = f (m.span p) := fun m => Function.update_self ..
    have hne : ∀ (m : Mem) a, a ≠ p → (m.setSpan p f).span a = m.span a := fun m a ha =>
      Function.update_of_ne ha _ _
    refine ⟨⟨rfl, ⟨fun a ha => ?_, hss.bins⟩, .cons Iff.rfl .nil⟩, ⟨rfl, fun a => ?_, fun a ha => ?_,
      fun _ _ => rfl⟩, hs'.of_eq ⟨rfl, rfl, rfl, rfl⟩ fun a b ha => ?_⟩
    · rw [State.setMem_mem, State.setMem_mem]
      by_cases hap : a = p
      · rw [hap, hself, hself, hin, hss.span p hp, ← hin]
      · rw [hne _ a hap, hne _ a hap, hss.span a ha]
    · rw [State.setMem_mem]
      by_cases hap : a = p
      · rw [hap, hself, hout]
      · rw [hne _ a hap]
    · rw [State.setMem_mem, hne _ a fun hap => ha (hap ▸ hp)]
    · rw [State.setMem_mem, ← hs'.base a b ha]
      by_cases hap : a = p
      · have hkeep := congrArg Span.base (hout (s'.mem.span p))
        rw [hap, hself]
        exact hkeep
      · rw [hne _ a hap]
  · rw [run_store_of_not hv, run_store_of_not hv]
    exact ⟨⟨rfl, hss, .nil⟩, S.others_equivalence.refl s', hs'⟩

theorem within_own_head (ht : S.tid t) :
    Within (S.own pf) (global fun s => s.threadLocalBin t c) := fun _ _ s' hs' hss =>
  ⟨⟨congrArg Except.ok (congrFun (hss.bins t ht).symm c), hss, .nil⟩, S.others_equivalence.refl s', hs'⟩

theorem within_own_setHead (ht : S.tid t) : Within (S.own pf) (setThreadLocalBin t c p) := by
  intro s _ s' hs' hss
  rw [setThreadLocalBin, run_setGlobal, run_setGlobal]
  refine ⟨⟨rfl, ⟨hss.span, fun t' ht' => ?_⟩, .nil⟩, ⟨rfl, fun _ => rfl, fun _ _ => rfl, fun t' ht' => ?_⟩,
    hs'.of_eq ⟨rfl, rfl, rfl, rfl⟩ hs'.base⟩
  · dsimp only
    rw [Function.update_apply, Function.update_apply, hss.bins t ht, hss.bins t' ht']
  · dsimp only
    rw [Function.update_of_ne fun he : t' = t => ht' (he ▸ ht)]

/-- User data is in no share. -/
theorem within_own_bytes {f : State → Nat → UInt8} :
    Within (S.own pf) (setGlobal fun s => { s with bytes := f s }) := fun _ _ _ hs' hss =>
  ⟨⟨rfl, ⟨hss.span, hss.bins⟩, .nil⟩, ⟨rfl, fun _ => rfl, fun _ _ => rfl, fun _ _ => rfl⟩,
    hs'.of_eq ⟨rfl, rfl, rfl, rfl⟩ hs'.base⟩

theorem within_own_getSpan (hb : S.block p a) : Within (S.own pf) (cmallocGetSpan pf p) :=
  fun s hs _ hs' hss => by
    rw [hs.block p a hb, hs'.block p a hb]
    exact ⟨⟨rfl, hss, .nil⟩, S.others_equivalence.refl _, hs'⟩

/-- A lookup of a block in the share. -/
theorem within_own_getSpan_bind {g : Nat → M α} (hb : S.block p a) (hg : WithinAt (S.own pf) (g a) s) :
    WithinAt (S.own pf) (cmallocGetSpan pf p >>= g) s := by
  refine (within_own_getSpan hb s).bind fun b s₁ t hs hrun => ?_
  have hrun' := hs.block p a hb
  rw [hrun] at hrun'
  cases hrun'
  exact hg

/-- A read of a span leaves what comes after it at the same state. -/
theorem within_own_load_bind {f : Span → α} {β : Type} {g : α → M β} (hp : S.span p)
    (hf : ∀ sp, f sp.seen = f sp) (hg : WithinAt (S.own pf) (g (f (s.mem.span p))) s) :
    WithinAt (S.own pf) (load p (fun m => f (m.span p)) >>= g) s := by
  refine (within_own_load hp hf s).bind fun b s₁ t _ hrun => ?_
  obtain ⟨-, rfl, rfl, -⟩ := run_load_inv hrun
  exact hg

/-! ## The unlocked functions -/

theorem within_binPush (ht : S.tid t) (hp : S.span p) (hhead : S.Link (s.threadLocalBin t c)) :
    WithinAt (S.own pf) (binPush t c p) s := by
  refine (within_own_head ht s).bind fun head s₁ tr _ hrun => ?_
  cases hrun
  refine Within.here ?_
  refine .bind (within_own_store hp (fun _ => rfl) fun _ => rfl) fun _ =>
    .bind (within_own_store hp (fun _ => rfl) fun _ => rfl) fun _ =>
    .bind (.ite (fun h0 => ?_) fun _ => .pure _) fun _ => within_own_setHead ht
  exact within_own_store (hhead h0) (fun _ => rfl) fun _ => rfl

theorem within_binRemove (ht : S.tid t) (hp : S.span p) (hl : S.Linked s p) :
    WithinAt (S.own pf) (binRemove t c p) s := by
  refine within_own_load_bind (f := Span.prevInSizeClassBin) hp (fun _ => rfl)
    (within_own_load_bind (f := Span.nextInSizeClassBin) hp (fun _ => rfl) ?_)
  refine Within.here ?_
  refine .bind (.ite (fun h0 => ?_) fun _ => within_own_setHead ht) fun _ =>
    .bind (.ite (fun h0 => ?_) fun _ => .pure _) fun _ => .bind
      (within_own_store hp (fun _ => rfl) fun _ => rfl) fun _ =>
        within_own_store hp (fun _ => rfl) fun _ => rfl
  · exact within_own_store (hl.prev h0) (fun _ => rfl) fun _ => rfl
  · exact within_own_store (hl.next h0) (fun _ => rfl) fun _ => rfl

theorem within_allocateBlock (hp : S.span p) : Within (S.own pf) (allocateBlock p) := by
  refine .bind (within_own_load (f := Span.nonfullBitmap) hp fun _ => rfl) fun nonfull =>
    .ite (fun _ => .pure _) fun _ => ?_
  refine .bind (within_own_store hp (fun _ => rfl) fun _ => rfl) fun _ => ?_
  refine within_own_loadSpan_bind hp (fun _ => rfl) fun sp => ?_
  refine .bind (within_own_store hp (fun _ => rfl) fun _ => rfl) fun _ => ?_
  refine within_own_loadSpan_bind hp (fun _ => rfl) fun sp => ?_
  refine .bind (.ite (fun _ => within_own_store hp (fun _ => rfl) fun _ => rfl) fun _ => .pure _)
    fun _ => ?_
  exact within_own_loadSpan_bind hp (fun _ => rfl) fun sp => .pure _

theorem within_freeBlock (hp : S.span p) : Within (S.own pf) (freeBlock q p) := by
  refine .bind (within_own_store hp (fun _ => rfl) fun _ => rfl) fun _ => ?_
  refine within_own_loadSpan_bind hp (fun _ => rfl) fun sp => ?_
  exact .bind (within_own_store hp (fun _ => rfl) fun _ => rfl) fun _ =>
    within_own_store hp (fun _ => rfl) fun _ => rfl

/-- `cmalloc` up to its lock, in a bin whose first span is linked inside the
share. -/
theorem within_cmallocFromBin (ht : S.tid t) (hhead : S.Link (s.threadLocalBin t c))
    (hl : s.threadLocalBin t c ≠ NULL → S.Linked s (s.threadLocalBin t c)) :
    WithinAt (S.own pf) (cmallocFromBin t c) s := by
  unfold cmallocFromBin
  split
  · refine (within_own_head ht s).bind fun head s₁ tr _ hrun => ?_
    cases hrun
    split
    · rename_i h0
      have hp := hhead h0
      refine within_own_load_bind (f := Span.freeCount) hp (fun _ => rfl) (WithinAt.bind ?_
        fun _ s₁ tr _ _ => (Within.bind (within_allocateBlock hp) fun _ => .pure _) s₁)
      split
      · exact within_binRemove ht hp (hl h0)
      · exact Within.pure _ s
    · exact Within.pure _ s
  · exact Within.pure _ s

theorem within_cmallocFromSpan (ht : S.tid t) (hp : S.span p) (hhead : S.Link (s.threadLocalBin t c)) :
    WithinAt (S.own pf) (cmallocFromSpan t c p) s := by
  refine WithinAt.bind ?_ fun _ s₁ tr _ _ => within_allocateBlock hp s₁
  split
  · exact within_binPush ht hp hhead
  · exact Within.pure _ s

/-- What `bin_push` leaves of the links of the span. -/
theorem linked_of_binPush {x : Unit} (hp : S.span p) (hhead : S.Link (s.threadLocalBin t c))
    (hrun : (binPush t c p).run s = ⟨.ok x, s₁, tr⟩) : S.Linked s₁ p := by
  obtain ⟨head, s₂, _, _, h₁, hrun, -⟩ := Program.run_bind_inv hrun
  cases h₁
  obtain ⟨_, s₃, _, _, h₁, hrun, -⟩ := Program.run_bind_inv hrun
  obtain ⟨_, s₄, _, _, h₂, hrun, -⟩ := Program.run_bind_inv hrun
  obtain ⟨_, s₅, _, _, h₃, h₄, -⟩ := Program.run_bind_inv hrun
  cases h₄
  obtain rfl := run_store_inv h₁
  obtain rfl := run_store_inv h₂
  suffices h : S.Linked s₅ p from ⟨h.next, h.prev⟩
  split at h₃
  · obtain rfl := run_store_inv h₃
    by_cases he : p = s.threadLocalBin t c
    · constructor
      · simpa [Mem.setSpan, ← he] using hhead
      · have hlink : S.Link p := fun _ => hp
        simpa [Mem.setSpan, ← he] using hlink
    · constructor
      · simpa [Mem.setSpan, Function.update_of_ne he] using hhead
      · simp [Mem.setSpan, Function.update_of_ne he, Share.Link]
  · cases h₃
    constructor
    · simpa [Mem.setSpan] using hhead
    · simp [Mem.setSpan, Share.Link]

theorem keeps_linked_freeBlock : Keeps (S.Linked · p) (freeBlock q p) := by
  have hstore : ∀ {f : Span → Span}, (∀ sp, (f sp).nextInSizeClassBin = sp.nextInSizeClassBin) →
      (∀ sp, (f sp).prevInSizeClassBin = sp.prevInSizeClassBin) → Keeps (S.Linked · p) (storeSpan p f) := by
    intro f hnext hprev
    refine keeps_store fun s hs => ⟨?_, ?_⟩
    · simpa [Mem.setSpan, hnext] using hs.next
    · simpa [Mem.setSpan, hprev] using hs.prev
  exact .bind (hstore (fun _ => rfl) fun _ => rfl) fun _ => .bind keeps_load fun _ =>
    .bind (hstore (fun _ => rfl) fun _ => rfl) fun _ => hstore (fun _ => rfl) fun _ => rfl

/-- What the free of a block of span `a` relies on: the first span of its
bin is in the share, and its links are if it is in that bin. -/
structure Share.Frees (S : Share) (t : Tid) (s : State) (p a : Nat) : Prop where
  block : S.block p a
  head : ∀ c, S.Link (s.threadLocalBin t c)
  linked : (s.mem.span a).freeCount ≠ 0 → S.Linked s a

theorem within_cfreeUnlocked (ht : S.tid t) (hf : S.Frees t s p a) :
    WithinAt (S.own pf) (cfreeUnlocked pf t p) s := by
  have ha := S.block_span p a hf.block
  refine within_own_getSpan_bind hf.block
    (within_own_load_bind (f := Span.sizeClassIndex) ha (fun _ => rfl) ?_)
  split
  · exact Within.pure _ s
  refine within_own_load_bind (f := Span.freeCount) ha (fun _ => rfl) ?_
  -- after the push, or else in its bin already
  have hpush : WithinAt (S.own pf) (if (s.mem.span a).freeCount = 0 then
      binPush t (s.mem.span a).sizeClassIndex a else pure ()) s := by
    split
    · exact within_binPush ht ha (hf.head _)
    · exact Within.pure _ s
  refine hpush.bind fun x s₁ tr _ hrun => ?_
  have hlinked : S.Linked s₁ a := by
    split at hrun
    · exact linked_of_binPush ha (hf.head _) hrun
    · cases hrun
      exact hf.linked ‹_›
  refine (within_freeBlock ha s₁).bind fun _ s₂ tr₂ _ hfree => ?_
  have hlinked₂ : S.Linked s₂ a := by
    have hk := keeps_linked_freeBlock (q := p) s₁ hlinked
    rwa [hfree] at hk
  rw [loadSpan_bind_eq (π := Span.seen) fun _ => rfl]
  refine within_own_load_bind (f := Span.seen) ha (fun _ => rfl) ?_
  split
  · exact (within_binRemove ht ha hlinked₂).bind fun _ s₃ _ _ _ => Within.pure _ s₃
  · exact Within.pure _ s₂

/-! ## The unlocked parts of the calls -/

theorem within_freePart (ht : S.tid t) (hf : S.Frees t s p a) :
    WithinAt (S.own pf) (freePart pf t p q gained) s := by
  refine (within_cfreeUnlocked ht hf).bind fun o s₁ tr _ _ => ?_
  cases o with
  | none => exact Within.pure _ s₁
  | some span => exact Within.pure _ s₁

/-- What a client goes on with is in the share. -/
def Share.Serves (S : Share) (t : Tid) (s : State) : Client → Prop
  | .malloc => True
  | .calloc => True
  | .realloc ptr a => S.Frees t s ptr a

theorem within_afterMalloc (ht : S.tid t) (hc : S.Serves t s client) :
    WithinAt (S.own pf) (afterMalloc pf t client size p) s := by
  unfold afterMalloc
  split
  · exact Within.pure _ s
  cases client with
  | malloc => exact Within.pure _ s
  | calloc => exact Within.bind (.ite (fun _ => within_own_bytes) fun _ => .pure _) (fun _ => .pure _) s
  | realloc ptr a =>
    have hb : S.block ptr a := hc.block
    refine within_own_load_bind (f := Span.blockSize) (S.block_span _ _ hb) (fun _ => rfl)
      ((within_own_bytes s).bind fun _ s₁ _ _ hrun => ?_)
    cases hrun
    exact within_freePart ht ⟨hb, hc.head, fun h0 => ⟨(hc.linked h0).next, (hc.linked h0).prev⟩⟩

theorem within_mallocPart (ht : S.tid t)
    (hhead : S.Link (s.threadLocalBin t (getSizeClassIndex size)))
    (hl : s.threadLocalBin t (getSizeClassIndex size) ≠ NULL →
      S.Linked s (s.threadLocalBin t (getSizeClassIndex size)))
    (hc : ∀ p s₁ tr, (cmallocFromBin t (getSizeClassIndex size)).run s = ⟨.ok (some p), s₁, tr⟩ →
      S.Serves t s₁ client) :
    WithinAt (S.own pf) (mallocPart pf t client size) s := by
  refine (within_cmallocFromBin ht hhead hl).bind fun o s₁ tr _ hrun => ?_
  cases o with
  | none => exact Within.pure _ s₁
  | some p => exact within_afterMalloc ht (hc p s₁ tr hrun)

/-- The part of `cmalloc` after its critical section. -/
theorem within_allocate (ht : S.tid t) (ha : S.span a)
    (hhead : S.Link (s.threadLocalBin t (getSizeClassIndex size)))
    (hc : ∀ p s₁ tr, (cmallocFromSpan t (getSizeClassIndex size) a).run s = ⟨.ok p, s₁, tr⟩ →
      S.Serves t s₁ client) :
    WithinAt (S.own pf) (resume pf t (.allocate client size a)) s :=
  (within_cmallocFromSpan ht ha hhead).bind fun p s₁ tr _ hrun => within_afterMalloc ht (hc p s₁ tr hrun)

end

end FastAlloc
