/-
FastAlloc.Threads.OutOfMemory — calls of `cmalloc` in which an `mmap` fails.

No other proof looks past a failed `mmap`. This one does: a call that saw
one and still returns is a call for a direct span whose own mapping failed,
and what it returns is `MAP_FAILED`. Every other failure ends in a store
through NULL or in the assertion of `cmalloc_initialize_span`. So `cmalloc`
never returns NULL.

`Reports Event.Mapped f` says that a returning run of `f` saw no `mmap` fail.
For the metadata allocator alone this is false, as it returns NULL; it holds
of every caller that writes to what it got.
-/
import FastAlloc.Arena.Failure
import FastAlloc.Threads.Contents
import FastAlloc.Threads.Direct

namespace FastAlloc

open Lib Mem View

/-! ## Programs that return only if every `mmap` succeeded -/

section

variable {α β : Type} {pf : Platform} {p : Nat}

theorem reports_load {f : Mem → α} : Reports Event.Mapped (load p f) :=
  .of_run fun s => by
    by_cases hp : Valid p
    · simp [run_load hp]
    · simp [run_load_of_not hp]

theorem reports_store {f : Mem → Mem} : Reports Event.Mapped (store p f) :=
  .of_run fun s => by
    by_cases hp : Valid p
    · simp [run_store hp, Event.Mapped]
    · simp [run_store_of_not hp]

theorem reports_global {f : State → α} : Reports Event.Mapped (global f) :=
  .of_run fun s => by simp [run_global]

theorem reports_setGlobal {f : State → State} : Reports Event.Mapped (setGlobal f) :=
  .of_run fun s => by simp [run_setGlobal]

theorem reports_emit {e : Event} (he : e.Mapped) :
    Reports Event.Mapped (Program.emit e : M Unit) :=
  .of_run fun s => by simpa using he

theorem reports_assertThat {P : Prop} [Decidable P] : Reports Event.Mapped (assertThat P) := by
  unfold assertThat
  split
  · exact .pure ()
  · exact .fault _

theorem reports_memsetL2 : Reports Event.Mapped (memsetL2 p) :=
  .of_run fun s e he => by
    by_cases hp : Valid p
    · rw [run_memsetL2 hp] at he
      dsimp only at he
      exact mapped_stores _ _ e he
    · rw [run_memsetL2_of_not hp] at he
      cases he

theorem reports_memsetL3 : Reports Event.Mapped (memsetL3 p) :=
  .of_run fun s e he => by
    by_cases hp : Valid p
    · rw [run_memsetL3 hp] at he
      dsimp only at he
      exact mapped_stores _ _ e he
    · rw [run_memsetL3_of_not hp] at he
      cases he

/-- A mapping that did not fail. -/
theorem reports_mmap {site : Site} {len : Nat} :
    ReportsIf Event.Mapped (fun a => a ≠ MAP_FAILED) (mmap pf site len) := by
  intro s a s' t h ha e he
  by_cases hr : pf.FreshRegion s.maps ⟨s.proposals s.calls, len, site⟩
  · have hmap : (mmap pf site len).run s = _ := if_pos hr
    rw [hmap] at h
    cases h
    cases he
  · have hmap : (mmap pf site len).run s = _ := if_neg hr
    rw [hmap] at h
    cases h
    exact absurd rfl ha

/-- A program that begins with a store returns only if the pointer is valid. -/
theorem valid_of_store {f : Mem → Mem} {s s' : State} {a : Unit} {t : List Event}
    (h : (store p f).run s = ⟨.ok a, s', t⟩) : Valid p := by
  by_contra hp
  rw [run_store_of_not hp] at h
  cases h

theorem valid_of_store_bind {f : Mem → Mem} {g : Unit → M α} {s s' : State} {a : α}
    {t : List Event} (h : (store p f >>= g).run s = ⟨.ok a, s', t⟩) : Valid p := by
  obtain ⟨_, _, _, _, h₁, -⟩ := Program.run_bind_inv h
  exact valid_of_store h₁

/-! ## The metadata functions -/

theorem reports_cmallocGet (r key : Nat) : Reports Event.Mapped (cmallocGet r key) :=
  .bind reports_load fun _ => .ite (fun _ => .pure _) fun _ => .bind reports_load fun _ =>
    .ite (fun _ => .pure _) fun _ => reports_load

theorem reports_takeFromArena (size : Nat) : Reports Event.Mapped (takeFromArena size) :=
  .bind reports_global fun _ => .bind reports_load fun _ => .bind reports_store fun _ => .pure _

theorem reports_bumpMetadata (size : Nat) :
    ReportsIf Event.Mapped Valid (bumpMetadata pf size) := by
  refine .bind reports_global fun arena => .bind (.ite (fun _ => .pure _) fun _ => reports_load)
    fun full => .ite (fun _ => ?_) fun _ => .of_reports (reports_takeFromArena size)
  refine .bind_of reports_mmap (fun chunk => .bind reports_setGlobal fun _ => .ite (fun _ => .pure _)
    fun _ => .of_reports (.bind reports_store fun _ => .bind reports_store fun _ =>
      .bind reports_store fun _ => reports_takeFromArena size)) ?_
  -- after a failed call it returns NULL
  rintro chunk s b s' t h hb rfl
  obtain ⟨_, s₁, t₁, t₂, -, h₂, -⟩ := Program.run_bind_inv h
  rw [if_pos rfl] at h₂
  cases h₂
  exact not_valid_null hb

theorem reports_storeSlot (r value key : Nat) : Reports Event.Mapped (storeSlot r value key) :=
  .bind reports_load fun _ => .bind reports_load fun _ => .bind reports_load fun _ =>
    .ite (fun _ => .bind reports_load fun _ => .bind reports_store fun _ => reports_store)
      fun _ => reports_store

theorem valid_of_memsetL2 {s s' : State} {a : Unit} {t : List Event}
    (h : (memsetL2 p).run s = ⟨.ok a, s', t⟩) : Valid p := by
  by_contra hp
  rw [run_memsetL2_of_not hp] at h
  cases h

theorem valid_of_memsetL3 {s s' : State} {a : Unit} {t : List Event}
    (h : (memsetL3 p).run s = ⟨.ok a, s', t⟩) : Valid p := by
  by_contra hp
  rw [run_memsetL3_of_not hp] at h
  cases h

/-- A node is cleared, so it is not NULL. -/
theorem reports_cmallocMapWith {alloc : Nat → M Nat}
    (halloc : ∀ size, ReportsIf Event.Mapped Valid (alloc size)) (r value key : Nat) :
    Reports Event.Mapped (cmallocMapWith alloc r value key) := by
  refine .bind (.bind reports_load fun l2 => .ite (fun _ => ?_) fun _ => .pure _) fun _ =>
    .bind (.bind reports_load fun l2 => .bind reports_load fun l3 => .ite (fun _ => ?_)
      fun _ => .pure _) fun _ => reports_storeSlot r value key
  · refine .bind_of (halloc _) (fun node => .bind reports_store fun _ => reports_memsetL2) ?_
    intro node s b s' t h _
    obtain ⟨_, _, _, _, -, h₂, -⟩ := Program.run_bind_inv h
    exact valid_of_memsetL2 h₂
  · refine .bind_of (halloc _) (fun node => .bind reports_store fun _ => .bind reports_memsetL3
      fun _ => .bind reports_load fun _ => reports_store) ?_
    intro node s b s' t h _
    obtain ⟨_, _, _, _, -, h₂, -⟩ := Program.run_bind_inv h
    obtain ⟨_, _, _, _, h₃, -⟩ := Program.run_bind_inv h₂
    exact valid_of_memsetL3 h₃

theorem reports_cmallocAllocMetadata (size : Nat) :
    ReportsIf Event.Mapped Valid (cmallocAllocMetadata pf size) := by
  rw [cmallocAllocMetadata_eq]
  refine .bind reports_global fun _ => .bind (.ite (fun _ => .pure _)
    fun _ => reports_cmallocGet _ _) fun _ => .ite (fun _ => reports_bumpMetadata size) fun _ => ?_
  exact .bind reports_load fun _ => .bind (reports_cmallocMapWith (fun _ => .fault _) _ _ _)
    fun _ => .bind (.ite (fun _ => reports_emit trivial) fun _ => .pure _) fun _ => .pure _

theorem reports_cmallocMapRange (r data start stop : Nat) :
    Reports Event.Mapped (cmallocMapRange pf r data start stop) :=
  Reports.loop (fun _ => reports_cmallocMapWith reports_cmallocAllocMetadata _ _ _) _ _

/-! ## The branches of `alloc_span` -/

theorem reports_mapSpanPages (a : Nat) : Reports Event.Mapped (mapSpanPages pf a) :=
  .bind reports_global fun _ => .bind reports_load fun _ => reports_cmallocMapRange _ _ _ _

theorem reports_popUninitilizedSpanBin (n : Nat) :
    Reports Event.Mapped (popUninitilizedSpanBin n) :=
  .bind reports_global fun _ => .bind reports_load fun _ => .bind reports_setGlobal fun _ =>
    .bind (.ite (fun _ => reports_setGlobal) fun _ => .pure _) fun _ => .pure _

theorem reports_splitBestFit (n m : Nat) : Reports Event.Mapped (splitBestFit pf n m) := by
  refine .bind (reports_popUninitilizedSpanBin m) fun fit => .bind reports_store fun _ =>
    .bind_of (reports_cmallocAllocMetadata _) (fun split => ?_) ?_
  · exact .bind reports_load fun _ => .bind reports_global fun _ => .bind reports_store fun _ =>
      .bind reports_store fun _ => .bind reports_store fun _ => .bind reports_store fun _ =>
      .bind reports_store fun _ => .bind reports_store fun _ => .bind reports_setGlobal fun _ =>
      .bind (reports_mapSpanPages split) fun _ => .bind reports_setGlobal fun _ =>
      .bind reports_load fun _ => .bind (.ite (fun _ => reports_store) fun _ => .pure _) fun _ =>
      .bind reports_store fun _ => .pure _
  · intro split s b s' t h _
    obtain ⟨_, _, _, _, -, h₂, -⟩ := Program.run_bind_inv h
    obtain ⟨_, _, _, _, -, h₃, -⟩ := Program.run_bind_inv h₂
    exact valid_of_store_bind h₃

theorem reports_cacheRemainder (fit base n : Nat) :
    Reports Event.Mapped (cacheRemainder pf fit base n) := by
  refine .bind_of (reports_cmallocAllocMetadata _) (fun split => ?_)
    fun _ _ _ _ _ h _ => valid_of_store_bind h
  exact .bind reports_store fun _ => .bind reports_store fun _ => .bind reports_store fun _ =>
    .bind (reports_mapSpanPages split) fun _ => .bind reports_store fun _ =>
    .bind reports_store fun _ => .bind reports_store fun _ => .bind reports_global fun _ =>
    .bind reports_store fun _ => .bind reports_setGlobal fun _ => reports_setGlobal

/-- After a failed mapping it puts `data_arena` back and returns NULL. -/
theorem reports_allocFreshChunk (n : Nat) :
    ReportsIf Event.Mapped (fun a => a ≠ NULL) (allocFreshChunk pf n) := by
  refine .bind reports_global fun prev => .bind_of (reports_cmallocAllocMetadata _)
    (fun header => .bind reports_setGlobal fun _ => .bind reports_store fun _ =>
      .bind_of reports_mmap (fun base => .bind reports_store fun _ => .ite
        (fun _ => .bind reports_setGlobal fun _ => .pure _) fun _ => .bind_of
          (reports_cmallocAllocMetadata _) (fun fit => ?_) ?_) ?_) ?_
  · exact .bind reports_store fun _ => .bind reports_store fun _ => .bind reports_store fun _ =>
      .bind reports_store fun _ => .bind (reports_mapSpanPages fit) fun _ =>
      .bind reports_store fun _ => .bind reports_store fun _ =>
      .bind (.ite (fun _ => reports_cacheRemainder _ _ _) fun _ => .pure _) fun _ => .pure _
  · exact fun _ _ _ _ _ h _ => valid_of_store_bind h
  · rintro base s b s' t h hb rfl
    obtain ⟨_, _, _, _, -, h₂, -⟩ := Program.run_bind_inv h
    rw [if_pos rfl] at h₂
    obtain ⟨_, _, _, _, -, h₃, -⟩ := Program.run_bind_inv h₂
    cases h₃
    exact hb rfl
  · intro header s b s' t h _
    obtain ⟨_, _, _, _, -, h₂, -⟩ := Program.run_bind_inv h
    exact valid_of_store_bind h₂

/-! ## What the metadata functions leave alone -/

theorem keeps_mmap {K : State → Prop} {site : Site} {len : Nat}
    (hm : ∀ s r, pf.FreshRegion s.maps r → K s → K (s.mapped r))
    (hf : ∀ s, K s → K { s with calls := s.calls + 1 }) : Keeps K (mmap pf site len) := by
  intro s hs
  by_cases hr : pf.FreshRegion s.maps ⟨s.proposals s.calls, len, site⟩
  · have hmap : (mmap pf site len).run s = _ := if_pos hr
    rw [hmap]
    exact hm s _ hr hs
  · have hmap : (mmap pf site len).run s = _ := if_neg hr
    rw [hmap]
    exact hf s hs

/-- A condition that what the metadata functions do cannot break: they write
to no span, and map memory apart from all that is mapped. -/
structure MetaFrame (pf : Platform) (K : State → Prop) : Prop where
  store : ∀ s m, m.span = s.mem.span → K s → K (s.setMem m)
  mapped : ∀ s r, pf.FreshRegion s.maps r → K s → K (s.mapped r)
  failed : ∀ s, K s → K { s with calls := s.calls + 1 }
  arena : ∀ s c, K s → K { s with metaArena := c }

namespace MetaFrame

variable {K : State → Prop} (hK : MetaFrame pf K)
include hK

theorem keeps_store {f : Mem → Mem} (h : ∀ m, (f m).span = m.span) : Keeps K (FastAlloc.store p f) :=
  FastAlloc.keeps_store fun s hs => hK.store s _ (h s.mem) hs

theorem keeps_memsetL2 : Keeps K (memsetL2 p) := by
  intro s hs
  by_cases hp : Valid p
  · rw [run_memsetL2 hp]
    exact hK.store s _ rfl hs
  · rwa [run_memsetL2_of_not hp]

theorem keeps_memsetL3 : Keeps K (memsetL3 p) := by
  intro s hs
  by_cases hp : Valid p
  · rw [run_memsetL3 hp]
    exact hK.store s _ rfl hs
  · rwa [run_memsetL3_of_not hp]

omit hK in
theorem keeps_cmallocGet (r key : Nat) : Keeps K (cmallocGet r key) :=
  .bind keeps_load fun _ => .ite (.pure _) (.bind keeps_load fun _ => .ite (.pure _) keeps_load)

theorem keeps_cmallocMapWith {alloc : Nat → M Nat} (halloc : ∀ size, Keeps K (alloc size))
    (r value key : Nat) : Keeps K (cmallocMapWith alloc r value key) :=
  .bind (.bind keeps_load fun _ => .ite (.bind (halloc _) fun _ =>
    .bind (hK.keeps_store fun _ => rfl) fun _ => hK.keeps_memsetL2) (.pure _)) fun _ =>
  .bind (.bind keeps_load fun _ => .bind keeps_load fun _ => .ite (.bind (halloc _) fun _ =>
    .bind (hK.keeps_store fun _ => rfl) fun _ => .bind hK.keeps_memsetL3 fun _ =>
    .bind keeps_load fun _ => hK.keeps_store fun _ => rfl) (.pure _)) fun _ =>
  .bind keeps_load fun _ => .bind keeps_load fun _ => .bind keeps_load fun _ =>
    .ite (.bind keeps_load fun _ => .bind (hK.keeps_store fun _ => rfl) fun _ =>
      hK.keeps_store fun _ => rfl) (hK.keeps_store fun _ => rfl)

theorem keeps_takeFromArena (size : Nat) : Keeps K (takeFromArena size) :=
  .bind keeps_global fun _ => .bind keeps_load fun _ =>
    .bind (hK.keeps_store fun _ => rfl) fun _ => .pure _

theorem keeps_bumpMetadata (size : Nat) : Keeps K (bumpMetadata pf size) :=
  .bind keeps_global fun _ => .bind (.ite (.pure _) keeps_load) fun _ => .ite
    (.bind (keeps_mmap hK.mapped hK.failed) fun chunk =>
      .bind (keeps_setGlobal fun s hs => hK.arena s chunk hs) fun _ => .ite (.pure _)
      (.bind (hK.keeps_store fun _ => rfl) fun _ => .bind (hK.keeps_store fun _ => rfl) fun _ =>
        .bind (hK.keeps_store fun _ => rfl) fun _ => hK.keeps_takeFromArena size))
    (hK.keeps_takeFromArena size)

theorem keeps_cmallocAllocMetadata (size : Nat) : Keeps K (cmallocAllocMetadata pf size) := by
  rw [cmallocAllocMetadata_eq]
  exact .bind keeps_global fun _ => .bind (.ite (.pure _) (keeps_cmallocGet _ _)) fun _ =>
    .ite (hK.keeps_bumpMetadata size) (.bind keeps_load fun _ =>
      .bind (hK.keeps_cmallocMapWith (fun _ => .fault _) _ _ _) fun _ =>
        .bind (.ite (.emit _) (.pure _)) fun _ => .pure _)

theorem keeps_mapSpanPages (a : Nat) : Keeps K (mapSpanPages pf a) :=
  .bind keeps_global fun _ => .bind keeps_load fun _ =>
    Keeps.loop (fun _ => hK.keeps_cmallocMapWith hK.keeps_cmallocAllocMetadata _ _ _) _ _

end MetaFrame

/-- The record at `a` lies in mapped memory and says that its span starts at
`b`. -/
def State.BaseAt (a b : Nat) (s : State) : Prop :=
  (∃ r ∈ s.maps, r.base ≤ a ∧ a < r.base + r.len) ∧ (s.mem.span a).base = b

variable {a b : Nat}

theorem metaFrame_baseAt : MetaFrame pf (State.BaseAt a b) := by
  refine ⟨fun s m hm hs => ⟨hs.1, ?_⟩, fun s r hr hs => ?_, fun s hs => hs, fun s c hs => hs⟩
  · rw [State.setMem_mem, hm]
    exact hs.2
  · obtain ⟨⟨r', hr', h₁, h₂⟩, hb⟩ := hs
    refine ⟨⟨r', List.mem_cons_of_mem _ hr', h₁, h₂⟩, ?_⟩
    have hdisj : r.base + r.len ≤ r'.base ∨ r'.base + r'.len ≤ r.base := hr.2.2.2.2 r' hr'
    have hout : ¬ (r.base ≤ a ∧ a < r.base + r.len) := by omega
    change ((if r.base ≤ a ∧ a < r.base + r.len then Span.zero else s.mem.span a)).base = b
    rwa [if_neg hout]

theorem keeps_base_storeSpan {f : Span → Span} (h : ∀ sp, (f sp).base = sp.base) :
    Keeps (State.BaseAt a b) (storeSpan p f) := by
  refine keeps_store fun s hs => ⟨hs.1, ?_⟩
  rw [State.setMem_mem]
  by_cases ha : a = p
  · rw [← hs.2, ha, span_setSpan_self]
    exact h _
  · rw [span_setSpan_of_ne ha]
    exact hs.2

end

/-! ## `cmalloc` -/

section

variable {pf : Platform} {W : Watch} {s s' : State} {v : View} {a b p n size : Nat} {t : List Event}

/-- The direct mapping failed, and the span `a` was made all the same. -/
structure DirectFailed (pf : Platform) (size a : Nat) (s' : State) (t : List Event) : Prop where
  large : maxBinnedPages ≤ pf.roundUpPage size >>> pf.pageShift
  failed : .mmapFailed .direct ∈ t
  base : s'.BaseAt a MAP_FAILED

theorem Alloced.in_maps {size : Nat} {st : Nat → Slot} {strict : Bool}
    (h : Alloced pf strict size st s a s') : ∃ r ∈ s'.maps, r.base ≤ a ∧ a < r.base + r.len := by
  have ha : (Function.update st a (.out size) a).size = some size := by simp [Slot.size]
  obtain ⟨c, hc, h₁, h₂⟩ := h.arena.inside ha
  have hpos := (h.arena.isSize a size ha).bounds.1
  exact ⟨_, hc, by dsimp only; omega, by dsimp only; omega⟩

/-- `mmap` returns `MAP_FAILED` only when it fails. -/
theorem run_mmap_failed {site : Site} {len : Nat}
    (h : (mmap pf site len).run s = ⟨.ok MAP_FAILED, s', t⟩) :
    s'.maps = s.maps ∧ t = [.mmapFailed site] := by
  by_cases hr : pf.FreshRegion s.maps ⟨s.proposals s.calls, len, site⟩
  · have hm : (mmap pf site len).run s = _ := if_pos hr
    have hle : s.proposals s.calls + len ≤ 2 ^ 47 := hr.2.2.2.1
    have heq : s.proposals s.calls = MAP_FAILED :=
      Except.ok.inj ((congrArg Outcome.result hm).symm.trans (congrArg Outcome.result h))
    have hmax : MAP_FAILED = 2 ^ 64 - 1 := rfl
    omega
  · have hm : (mmap pf site len).run s = _ := if_neg hr
    rw [hm] at h
    cases h
    exact ⟨rfl, rfl⟩

theorem allocDirectSpan_returns (h : Shows pf false W s v)
    (hrun : (allocDirectSpan pf n).run s = ⟨.ok a, s', t⟩) :
    (∀ e ∈ t, e.Mapped) ∨ .mmapFailed .direct ∈ t ∧ s'.BaseAt a MAP_FAILED := by
  obtain ⟨st, h⟩ := h
  obtain ⟨b, s₁, t₁, t₂, halloc, hafter, rfl⟩ := Program.run_bind_inv hrun
  obtain ⟨base, s₂, t₃, t₄, hmap, hset, rfl⟩ := Program.run_bind_inv hafter
  obtain ⟨_, s₃, t₅, t₆, hbase, hrest, rfl⟩ := Program.run_bind_inv hset
  have hvalid := valid_of_store hbase
  have halloced := reports_cmallocAllocMetadata _ _ _ _ _ halloc hvalid
  have hstores : ∀ e ∈ t₅, e.Mapped := reports_store _ _ _ _ hbase trivial
  have htail : ∀ e ∈ t₆, e.Mapped := by
    refine ReportsIf.bind (P := Event.Mapped) (R := fun _ => True) reports_store (fun _ =>
      .bind reports_store fun _ => .bind (reports_mapSpanPages b) fun _ => .pure _) _ _ _ _ hrest trivial
  by_cases hf : base = MAP_FAILED
  · subst hf
    have hspec := (cmallocAllocMetadata_spec (I := fun _ => True) h.arena (.inl rfl) fun _ _ => trivial)
    obtain ⟨r, hr, h₁, h₂⟩ := (hspec.elim halloc fun e he =>
      allowed_of_mapped (halloced e he)).1.in_maps
    obtain ⟨hmaps, rfl⟩ := run_mmap_failed hmap
    have hat : s₃.BaseAt b MAP_FAILED := by
      rw [run_store_inv hbase]
      exact ⟨⟨r, hmaps ▸ hr, h₁, h₂⟩, by simp⟩
    have hkeep := Keeps.bind (keeps_base_storeSpan (a := b) (b := MAP_FAILED) (p := b)
      (f := fun sp => { sp with pageCount := n }) fun _ => rfl) (fun _ =>
        .bind (keeps_base_storeSpan (p := b) (f := fun sp => { sp with isInitialized := false })
          fun _ => rfl) fun _ => .bind ((@metaFrame_baseAt pf b MAP_FAILED).keeps_mapSpanPages b) fun _ => .pure b) s₃ hat
    obtain ⟨_, _, _, _, -, h₄, -⟩ := Program.run_bind_inv hrest
    obtain ⟨_, _, _, _, -, h₅, -⟩ := Program.run_bind_inv h₄
    obtain ⟨_, _, _, _, -, h₆, -⟩ := Program.run_bind_inv h₅
    cases h₆
    refine .inr ⟨by simp, ?_⟩
    rw [hrest] at hkeep
    exact hkeep
  · refine .inl fun e he => ?_
    have hmapped := reports_mmap _ _ _ _ hmap hf
    rcases List.mem_append.mp he with he | he
    · exact halloced e he
    · rcases List.mem_append.mp he with he | he
      · exact hmapped e he
      · exact (List.mem_append.mp he).elim (hstores e) (htail e)

/-- Where there is no page map and `mmap` fails for it, the arena is lost and
the library has nothing to go on with. -/
theorem ensurePageMap_failed (h : Shows pf false W s v) {u : Unit}
    (hrun : (ensurePageMap pf).run s = ⟨.ok u, s', t⟩) (hf : ¬ ∀ e ∈ t, e.Mapped) :
    v.root = NULL ∧ s'.metaArena = MAP_FAILED ∧ s'.freeListMap = NULL ∧
      s'.nonEmptyBitmap = s.nonEmptyBitmap := by
  have hpoisons : Poisons (ensurePageMap pf) := .bind .global fun _ => .ite
    (.bind (poisons_cmallocAllocMetadata _) fun _ => .setGlobal fun _ => rfl) (.pure _)
  have hfailed : Failed ((ensurePageMap pf).run s) := by
    rw [hrun]
    push Not at hf
    obtain ⟨e, he, hm⟩ := hf
    cases e with
    | store m => exact absurd trivial hm
    | mmapFailed site => exact ⟨site, he⟩
    | lastPop size => exact absurd trivial hm
  have hframe : ∀ bm, MetaFrame pf fun s => s.freeListMap = NULL ∧ s.nonEmptyBitmap = bm := fun _ =>
    ⟨fun _ _ _ hs => hs, fun _ _ _ hs => hs, fun _ hs => hs, fun _ _ hs => hs⟩
  have hlost := hpoisons.loses s hfailed
  obtain ⟨st, h⟩ := h
  by_cases h0 : s.pageMap = NULL
  · have hroot : v.root = NULL := h.root ▸ h0
    have hkeeps : Keeps (fun x => x.freeListMap = NULL ∧ x.nonEmptyBitmap = s.nonEmptyBitmap)
        (ensurePageMap pf) := .bind keeps_global fun _ => .ite
      (.bind ((hframe _).keeps_cmallocAllocMetadata _) fun _ => keeps_setGlobal fun _ hs => hs)
      (.pure _)
    have hend := hkeeps s ⟨h.fresh hroot, rfl⟩
    rw [hrun] at hlost hend
    exact ⟨hroot, hlost, hend⟩
  · obtain ⟨_, _, _, _, h₁, h₂, rfl⟩ := Program.run_bind_inv hrun
    cases h₁
    rw [if_neg h0] at h₂
    cases h₂
    exact absurd (fun _ he => nomatch he) hf

/-- With the arena lost and no free lists every allocation faults. -/
theorem run_cmallocAllocMetadata_lost (hs : s.metaArena = MAP_FAILED) (hF : s.freeListMap = NULL)
    (size : Nat) : ((cmallocAllocMetadata pf size).run s).result = .error .segfault := by
  rw [cmallocAllocMetadata_eq]
  unfold cmallocAllocMetadataAt
  rw [Program.run_bind_read run_global rfl]
  simp only [hF, if_true]
  rw [Program.run_bind_read (Program.run_pure _ _) rfl, if_pos rfl, run_bumpMetadata_lost size hs]

/-- `alloc_span` with a page map. -/
theorem reports_allocSpan_rest (hn : ¬ n ≥ maxBinnedPages) :
    ReportsIf Event.Mapped (fun a => a ≠ NULL)
      (if n ≥ maxBinnedPages then allocDirectSpan pf n
      else do
        let bestFittingPages ← findBestFittingUninitializedSpan n
        let dataArena ← global (·.dataArena)
        if dataArena ≠ NULL ∧ bestFittingPages ≠ noFittingPageSequence then
          if n = bestFittingPages then popUninitilizedSpanBin n
          else splitBestFit pf n bestFittingPages
        else allocFreshChunk pf n) :=
  .ite (fun h => absurd h hn) fun _ => .bind reports_global fun m => .bind reports_global fun _ =>
    .ite (fun _ => .ite (fun _ => .of_reports (reports_popUninitilizedSpanBin n)) fun _ =>
      .of_reports (reports_splitBestFit n m)) fun _ => reports_allocFreshChunk n

theorem allocSpan_returns (h : Shows pf false W s v) (hok : v.Ok pf fun _ => False) (ha : a ≠ NULL)
    (hrun : (allocSpan pf size).run s = ⟨.ok a, s', t⟩) :
    (∀ e ∈ t, e.Mapped) ∨ DirectFailed pf size a s' t := by
  obtain ⟨u, s₁, t₁, t₂, hmap, hrest, rfl⟩ := Program.run_bind_inv hrun
  dsimp only at hrest
  by_cases hm : ∀ e ∈ t₁, e.Mapped
  · by_cases hn : pf.roundUpPage size >>> pf.pageShift ≥ maxBinnedPages
    · rw [if_pos hn] at hrest
      obtain ⟨root, -, -, h₁⟩ := (h.ensurePageMap.elim hmap fun e he => allowed_of_mapped (hm e he)).1
      refine (allocDirectSpan_returns h₁ hrest).imp (fun hall e he => ?_) fun hf =>
        ⟨hn, List.mem_append_right _ hf.1, hf.2⟩
      exact (List.mem_append.mp he).elim (hm e) (hall e)
    · have hall := reports_allocSpan_rest hn _ _ _ _ hrest ha
      exact .inl fun e he => (List.mem_append.mp he).elim (hm e) (hall e)
  · -- without a page map there is no cached span, so it comes to an allocation
    obtain ⟨hroot, harena, hF, hbitmap⟩ := ensurePageMap_failed h hmap hm
    have hlost : ∀ size, ((cmallocAllocMetadata pf size).run s₁).result = .error .segfault :=
      run_cmallocAllocMetadata_lost harena hF
    have hfault : ∀ size b s' t, (cmallocAllocMetadata pf size).run s₁ ≠ ⟨.ok b, s', t⟩ := by
      intro size b s' t hr
      have := hlost size
      rw [hr] at this
      cases this
    by_cases hn : pf.roundUpPage size >>> pf.pageShift ≥ maxBinnedPages
    · rw [if_pos hn] at hrest
      obtain ⟨_, _, _, _, h₂, -⟩ := Program.run_bind_inv hrest
      exact absurd h₂ (hfault _ _ _ _)
    · rw [if_neg hn] at hrest
      have hnone : ∀ n < maxBinnedPages, v.bin n = NULL := by
        intro n hn
        by_contra hne
        obtain ⟨sp, hsp, -⟩ := (hok.bins n hn).head_mem hne
        exact h.root_ne hok.toGeometry hsp hroot
      obtain ⟨m, s₂, t₃, t₄, h₂, h₃, -⟩ := Program.run_bind_inv hrest
      have hbest : s₂ = s₁ ∧ v.BestFit (pf.roundUpPage size >>> pf.pageShift) m := by
        have hs := (findBestFittingUninitializedSpan_spec (A := fun _ => True) h hok.toPool
          (Nat.lt_of_not_le hn)).elim run_global fun _ _ => trivial
        cases h₂
        dsimp only at hs ⊢
        rw [hbitmap]
        exact ⟨rfl, hs.1.2⟩
      obtain ⟨rfl, hbest⟩ := hbest
      obtain ⟨arena, s₃, t₅, t₆, h₄, h₅, -⟩ := Program.run_bind_inv h₃
      cases h₄
      rcases hbest with ⟨hlt, -, h0, -⟩ | ⟨heq, -⟩
      · exact absurd (hnone _ hlt) h0
      · rw [if_neg fun hfit => hfit.2 heq] at h₅
        obtain ⟨_, s₄, _, _, h₆, h₇, -⟩ := Program.run_bind_inv h₅
        cases h₆
        obtain ⟨_, _, _, _, h₈, -⟩ := Program.run_bind_inv h₇
        exact absurd h₈ (hfault _ _ _ _)

theorem reports_initializeBitmaps (a n : Nat) : Reports Event.Mapped (initializeBitmaps a n) :=
  .bind reports_store fun _ => .bind (Reports.loop (fun _ => reports_store) _ _) fun _ =>
    Reports.loop (fun _ => .bind reports_store fun _ => reports_store) _ _

theorem reports_allocateBlock (a : Nat) : Reports Event.Mapped (allocateBlock a) :=
  .bind reports_load fun _ => .ite (fun _ => .pure _) fun _ => .bind reports_store fun _ =>
    .bind reports_load fun _ => .bind reports_store fun _ => .bind reports_load fun _ =>
    .bind (.ite (fun _ => reports_store) fun _ => .pure _) fun _ => .bind reports_load fun _ => .pure _

theorem reports_binPush (i : Tid) (c : Int) (a : Nat) : Reports Event.Mapped (binPush i c a) :=
  .bind reports_global fun _ => .bind reports_store fun _ => .bind reports_store fun _ =>
    .bind (.ite (fun _ => reports_store) fun _ => .pure _) fun _ => reports_setGlobal

theorem reports_binRemove (i : Tid) (c : Int) (a : Nat) : Reports Event.Mapped (binRemove i c a) :=
  .bind reports_load fun _ => .bind reports_load fun _ =>
    .bind (.ite (fun _ => reports_store) fun _ => reports_setGlobal) fun _ =>
    .bind (.ite (fun _ => reports_store) fun _ => .pure _) fun _ => .bind reports_store fun _ =>
      reports_store

theorem reports_cmallocFromBin (i : Tid) (c : Int) : Reports Event.Mapped (cmallocFromBin i c) :=
  .ite (fun _ => .bind reports_global fun a => .ite (fun _ => .bind reports_load fun _ =>
    .bind (.ite (fun _ => reports_binRemove i c a) fun _ => .pure _) fun _ =>
      .bind (reports_allocateBlock a) fun _ => .pure _) fun _ => .pure _) fun _ => .pure _

theorem reports_cmallocFromSpan (i : Tid) (c : Int) (a : Nat) :
    Reports Event.Mapped (cmallocFromSpan i c a) :=
  .bind (.ite (fun _ => reports_binPush i c a) fun _ => .pure _) fun _ => reports_allocateBlock a

/-- `cmalloc_initialize_span` returns a span only if all went well, or if it
did not look at the direct mapping that failed. -/
theorem cmallocInitializeSpan_returns (h : Shows pf false W s v) (hok : v.Ok pf fun _ => False)
    (hrun : (cmallocInitializeSpan pf (getSizeClassIndex size) size).run s = ⟨.ok a, s', t⟩) :
    (∀ e ∈ t, e.Mapped) ∨ getSizeClassIndex size = largeClassSizeIndex ∧
      DirectFailed pf size a s' t ∧ (s'.mem.span a).AllFree 1 ∧ Valid a := by
  generalize hc : getSizeClassIndex size = c at hrun
  obtain ⟨b, s₁, t₁, t₂, halloc, hassert, rfl⟩ := Program.run_bind_inv hrun
  obtain ⟨_, s₂, t₃, t₄, hne, hstores, rfl⟩ := Program.run_bind_inv hassert
  have hb : b ≠ NULL := by
    intro h0
    rw [assertThat, if_neg (not_not.mpr h0)] at hne
    cases hne
  rw [assertThat, if_pos hb] at hne
  cases hne
  rcases allocSpan_returns h hok hb halloc with hall | hf
  · have hrest : ∀ e ∈ t₄, e.Mapped := ReportsIf.bind (P := Event.Mapped) (R := fun _ => True)
      reports_store (fun _ => .bind reports_store fun _ => .bind reports_store fun _ =>
      .bind reports_store fun _ => .bind reports_store fun _ =>
      .bind (reports_initializeBitmaps _ _) fun _ => .pure b) _ _ _ _ hstores trivial
    exact .inl fun e he => (List.mem_append.mp he).elim (hall e) fun he => hrest e he
  · have hlarge : c = largeClassSizeIndex := by
      by_contra hcl
      obtain ⟨hc₀, hc₁, -⟩ := getSizeClassIndex_small (getSizeClassIndex_ne_large_iff.mp (hc ▸ hcl))
      have hsmall : pf.roundUpPage (sizeClassSpanSize.getD c.toNat 0) >>> pf.pageShift <
          maxBinnedPages := requestPages_small (hc ▸ ⟨hc₀, hc₁⟩)
      have hbig := hf.large
      simp only [hcl, decide_false, Bool.false_eq_true, if_false] at hbig
      omega
    subst hlarge
    have hvalid : Valid b := valid_of_store_bind hstores
    -- the header and the bitmaps are written over the record, its base is not
    have hend : (a = b ∧ s'.BaseAt b MAP_FAILED ∧ (s'.mem.span b).AllFree 1) ∧
        ∀ e ∈ t₄, onStore (fun _ => True) e := by
      refine Spec.elim (A := fun _ => True) (Q := fun x s' => x = b ∧ s'.BaseAt b MAP_FAILED ∧
        (s'.mem.span b).AllFree 1) ?_ hstores fun _ _ => trivial
      refine Spec.store_bind hvalid trivial (Spec.store_bind hvalid trivial
        (Spec.store_bind hvalid trivial (Spec.store_bind hvalid trivial
        (Spec.store_bind hvalid trivial (Spec.bind (initializeBitmaps_spec hvalid Nat.one_pos
          (by decide) fun _ => trivial) ?_)))))
      rintro _ s' ⟨nf, bm, rfl, hall⟩
      refine Spec.pure ⟨rfl, ⟨hf.base.1, ?_⟩, ?_⟩
      · simpa using hf.base.2
      · simpa using hall
    obtain ⟨⟨rfl, hbase, hall⟩, -⟩ := hend
    exact .inr ⟨rfl, ⟨hf.large, List.mem_append_left _ hf.failed, hbase⟩, hall, hvalid⟩

/-- The one block of a span whose mapping failed is at `MAP_FAILED`. -/
theorem cmallocFromSpan_failed {i : Tid} (hv : Valid a) (hbase : (s.mem.span a).base = MAP_FAILED)
    (hall : (s.mem.span a).AllFree 1)
    (hrun : (cmallocFromSpan i largeClassSizeIndex a).run s = ⟨.ok p, s', t⟩) : p = MAP_FAILED := by
  have hbits : (s.mem.span a).nonfullBitmap ≠ 0 := by
    intro h0
    have hone := (hall.summary 0 (by decide)).mpr fun hw => ?_
    · simp [h0] at hone
    · have hbit := (hall.bit 0 (by decide)).mpr Nat.one_pos
      simp [bitAt, hw] at hbit
  have hlow : lowestBit (s.mem.span a).nonfullBitmap (s.mem.span a).blockBitmap = 0 :=
    Nat.lt_one_iff.mp ((hall.bit _ (lowestBit_lt hall.summary hbits)).mp
      (bitAt_lowestBit hall.summary hbits))
  have hspec := allocateBlock_spec (A := fun _ => True) (I := fun _ => True)
    (Q := fun p _ => p = MAP_FAILED) hv hall.summary (fun _ => trivial) (fun h0 => absurd h0 hbits)
    fun _ => by rw [hlow, hbase, Nat.zero_mul, Nat.add_zero]
  exact (hspec.elim hrun fun _ _ => trivial).1

end

section

variable {pf : Platform} {w : World} {t : Tid} {size num ptr p n : Nat} {s' : State} {tr : List Event}

/-- A `cmalloc` that returns saw no `mmap` fail but the one for its own direct
span, and then it returns `MAP_FAILED`. -/
theorem cmalloc_failed (h : Reachable pf w)
    (hrun : (cmalloc pf t size).run w.state = ⟨.ok p, s', tr⟩) (hm : ¬ ∀ e ∈ tr, e.Mapped) :
    p = MAP_FAILED ∧ .mmapFailed .direct ∈ tr ∧
      maxBinnedPages ≤ pf.roundUpPage size >>> pf.pageShift := by
  obtain ⟨v, hv⟩ := h.inv
  obtain ⟨o, s₁, t₁, t₂, hbin, hrest, rfl⟩ := Program.run_bind_inv hrun
  have hbinMapped := reports_cmallocFromBin _ _ _ _ _ _ hbin trivial
  obtain ⟨hfrom, -⟩ := (cmallocFromBin_tracks (A := fun _ => True) hv.heap).elim hbin
    fun _ _ => trivial
  rcases hfrom with ⟨-, rfl, rfl⟩ | ⟨-, rfl, -⟩
  · obtain ⟨a, s₂, t₃, t₄, hinit, hfromSpan, rfl⟩ := Program.run_bind_inv hrest
    have hspanMapped := reports_cmallocFromSpan _ _ _ _ _ _ _ hfromSpan trivial
    have hreturns := cmallocInitializeSpan_returns hv.heap.shows hv.heap.sound.toOk hinit
    rcases hreturns with hall | ⟨hlarge, hf, hfree, ha⟩
    · refine absurd (fun e he => ?_) hm
      rcases List.mem_append.mp he with he | he
      · exact hbinMapped e he
      · exact (List.mem_append.mp he).elim (hall e) (hspanMapped e)
    · rw [hlarge] at hfromSpan
      refine ⟨cmallocFromSpan_failed ha hf.base.2 hfree hfromSpan, ?_, hf.large⟩
      exact List.mem_append_right _ (List.mem_append_left _ hf.failed)
  · cases hrest
    rw [List.append_nil] at hm
    exact absurd hbinMapped hm

/-- It never returns NULL. -/
theorem cmalloc_ne_null (h : Reachable pf w) (hpc : w.pc t = none) (hsize : pf.NonWrapping size)
    (hrun : (cmalloc pf t size).run w.state = ⟨.ok p, s', tr⟩) : p ≠ NULL := by
  by_cases hm : ∀ e ∈ tr, e.Mapped
  · obtain ⟨v, hv⟩ := h.inv
    obtain ⟨⟨w', v', -, hout⟩, -⟩ := (hv.cmalloc_spec hpc hsize).elim hrun fun e he =>
      allowed_of_mapped (hm e he)
    have hlive : w'.live p = some (t, size) := by
      rw [hout.live]
      exact if_pos rfl
    exact hout.ran.inv.heap.heap.live_ne_null hlive
  · rw [(cmalloc_failed h hrun hm).1]
    decide

/-- What the calls of thread `t` return, whatever the system answers. -/
structure World.ReturnsOk (pf : Platform) (w : World) (t : Tid) : Prop where
  malloc : ∀ size p s' tr, pf.NonWrapping size → (cmalloc pf t size).run w.state = ⟨.ok p, s', tr⟩ →
    p ≠ NULL
  failed : ∀ size p s' tr, (cmalloc pf t size).run w.state = ⟨.ok p, s', tr⟩ → ∀ site, .mmapFailed site ∈ tr →
    p = MAP_FAILED ∧ .mmapFailed .direct ∈ tr ∧ maxBinnedPages ≤ pf.roundUpPage size >>> pf.pageShift
  calloc : ∀ num size p s' tr, (num * size < 2 ^ 64 → pf.NonWrapping (num * size)) →
    (ccalloc pf t num size).run w.state = ⟨.ok p, s', tr⟩ → (p = NULL ↔ 2 ^ 64 ≤ num * size)
  realloc : ∀ ptr size p s' tr, pf.NonWrapping size → (crealloc pf t ptr size).run w.state =
    ⟨.ok p, s', tr⟩ → (p = NULL ↔ ptr ≠ NULL ∧ size = 0)

/-- In every reachable world a call returns NULL only where its arguments say
so: no failing `mmap` makes it. -/
theorem returns_sound (h : Reachable pf w) (hpc : w.pc t = none) : w.ReturnsOk pf t := by
  constructor
  case malloc => exact fun size p s' tr hsize hrun => cmalloc_ne_null h hpc hsize hrun
  case failed =>
    intro size p s' tr hrun site hsite
    exact cmalloc_failed h hrun fun hm => hm _ hsite
  case calloc =>
    intro num size p s' tr hsize hrun
    unfold ccalloc at hrun
    by_cases hover : num ≠ 0 ∧ size > (2 ^ 64 - 1) / num
    · rw [if_pos hover] at hrun
      cases hrun
      exact iff_of_true rfl (calloc_overflow_iff.mp hover)
    · have hlt : num * size < 2 ^ 64 := Nat.lt_of_not_le fun hle =>
        hover (calloc_overflow_iff.mpr hle)
      rw [if_neg hover, Nat.mod_eq_of_lt hlt] at hrun
      obtain ⟨q, s₁, t₁, t₂, hmalloc, hrest, -⟩ := Program.run_bind_inv hrun
      have hq := cmalloc_ne_null h hpc (hsize hlt) hmalloc
      rw [if_neg hq] at hrest
      obtain ⟨_, s₂, _, _, -, hpure, -⟩ := Program.run_bind_inv hrest
      cases hpure
      exact iff_of_false hq (Nat.not_le.mpr hlt)
  case realloc =>
    intro ptr size p s' tr hsize hrun
    unfold crealloc at hrun
    by_cases hptr : ptr = NULL
    · rw [if_pos hptr] at hrun
      exact iff_of_false (cmalloc_ne_null h hpc hsize hrun) fun hc => hc.1 hptr
    by_cases h0 : size = 0
    · rw [if_neg hptr, if_pos h0] at hrun
      obtain ⟨_, s₁, _, _, -, hpure, -⟩ := Program.run_bind_inv hrun
      cases hpure
      exact iff_of_true rfl ⟨hptr, h0⟩
    · rw [if_neg hptr, if_neg h0] at hrun
      refine iff_of_false ?_ fun hc => h0 hc.2
      obtain ⟨a, s₁, t₁, t₂, hget, hload, -⟩ := Program.run_bind_inv hrun
      obtain ⟨b, s₂, t₃, t₄, hsize', hrest, -⟩ := Program.run_bind_inv hload
      by_cases hb : b ≥ size
      · rw [if_pos hb] at hrest
        cases hrest
        exact hptr
      rw [if_neg hb] at hrest
      obtain ⟨q, s₃, t₅, t₆, hmalloc, hmove, -⟩ := Program.run_bind_inv hrest
      have hlookup : Keeps (fun x => x = w.state) (cmallocGetSpan pf ptr) :=
        .bind keeps_global fun _ => MetaFrame.keeps_cmallocGet _ _
      have hstate : s₁ = w.state := by
        have hs := hlookup w.state rfl
        rwa [hget] at hs
      obtain ⟨-, -, rfl, -⟩ := run_load_inv hsize'
      have hq := cmalloc_ne_null h hpc hsize (hstate ▸ hmalloc)
      rw [if_neg hq] at hmove
      obtain ⟨_, _, _, _, -, hcopy, -⟩ := Program.run_bind_inv hmove
      obtain ⟨_, _, _, _, -, hfree, -⟩ := Program.run_bind_inv hcopy
      obtain ⟨_, _, _, _, -, hpure, -⟩ := Program.run_bind_inv hfree
      cases hpure
      exact hq

/-- The failed mapping is handed out. -/
example : ((cmalloc .smallPages 0 directSize).run
    (.initial fun n => if n = 0 then 2 ^ 27 else 0)).result = .ok MAP_FAILED := by
  simp only [cmalloc, cmallocInitializeSpan, allocSpan, allocDirectSpan, mapSpanPages,
    cmallocMapRange_byLeaf 5]
  decide +kernel

theorem returns_sound_first : ∃ w : World, w.live (2 ^ 31) = some (0, 16) ∧
    w.ReturnsOk .hugePages 0 :=
  have ⟨w, hw, hlive, hpc, _⟩ := Reachable.first
  ⟨w, hlive, returns_sound hw (hpc 0)⟩

end

end FastAlloc
