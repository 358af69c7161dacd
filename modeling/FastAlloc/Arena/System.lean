/-
FastAlloc.Arena.System — the arena over whole runs of its client.

The client allocates and frees metadata objects of the five sizes, writes
into what it holds, and maps and unmaps memory of its own in between.
-/
import FastAlloc.Arena.Free
import FastAlloc.Lib.Run
import FastAlloc.RangeMap.Map

namespace FastAlloc

open Lib Mem

/-! ## The arena as a node allocator -/

theorem Settled.of_agree {strict : Bool} {s s' : State} {st : Nat → Slot} {pf : Platform}
    (h : Arena pf strict s st) (hset : Settled strict s) (hF : s'.freeListMap = s.freeListMap)
    (hag : Agree (nodes st) s.mem s'.mem) : Settled strict s' := by
  intro hx hne
  rw [hF] at hne ⊢
  have hold := hset hx hne
  have ht := h.trie hne
  refine ⟨fun k hk => ?_, fun k hk => ?_⟩
  · rw [ht.l2Of_agree hag] at hk
    simpa only [ht.lookup_agree hag] using hold.l2 k hk
  · rw [ht.l3Of_agree hag] at hk
    simpa only [ht.lookup_agree hag] using hold.l3 k hk

theorem Alloced.settled {pf : Platform} {strict : Bool} {size a : Nat} {st : Nat → Slot}
    {s s' : State} (h : Alloced pf strict size st s a s') (hset : Settled strict s) :
    Settled strict s' := by
  intro hx hne
  rw [h.freeListMap] at hne ⊢
  have hold := hset hx hne
  refine ⟨fun k hk => ?_, fun k hk => ?_⟩
  · rw [h.l2Of_eq hne] at hk
    obtain ⟨k', h₁, h₂⟩ := hold.l2 k hk
    exact ⟨k', h₁, h.mapped hx hne k' h₂⟩
  · rw [h.l3Of_eq hne] at hk
    obtain ⟨k', h₁, h₂, h₃⟩ := hold.l3 k hk
    exact ⟨k', h₁, h₂, h.mapped hx hne k' h₃⟩

/-- The library's own arena, as a range map sees it. -/
def arenaAllocator (pf : Platform) (strict : Bool) : NodeAllocator (Allowed strict) where
  alloc := cmallocAllocMetadata pf
  free := cmallocFreeMetadata pf
  Ghost := Nat → Slot
  Inv s st := Arena pf strict s st ∧ Settled strict s
  out := outs
  Rel s s' := Undisturbed s s' ∧ ListsKept s s'
  rel_refl s := ⟨.refl s, .refl s⟩
  rel_trans h h' := ⟨h.1.trans h'.1, h.2.trans h'.2⟩
  valid h ha := h.1.valid (Slot.size_of_outs ha)
  alloc_spec h hsz hI := (cmallocAllocMetadata_spec h.1 hsz.isSize hI).mono fun _ _ hA =>
    ⟨_, ⟨hA.arena, hA.settled h.2⟩, hA.outs_eq_none, outs_update, hA.agree, hA.undisturbed,
      hA.listsKept hsz⟩
  free_spec h hsz ha hI := (cmallocFreeMetadata_spec h.1 hsz.isSize (outs_eq_some.mp ha) hI).mono
    fun _ _ ⟨st', hf⟩ => ⟨st', ⟨hf.arena, hf.settled h.2⟩, hf.outs_eq,
      by rw [hf.outs_eq]; exact hf.agree, hf.undisturbed, hf.kept hsz⟩
  frame h hag hmc :=
    have hn : Agree (nodes _) _ _ := fun a ha => hag a (outs_of_nodes ha)
    ⟨⟨h.1.frame hag hmc, h.2.of_agree h.1 rfl hn⟩, .setMem _ _, h.1.listsKept rfl hn⟩

/-! ## The recursion is one level deep -/

/-- A key that is found has its path already, so mapping it again asks for
no node. -/
theorem cmallocMapWith_congr {alloc alloc' : Nat → M Nat} {s : State} {r value key : Nat}
    (hp : s.mem.ValidPath r key) (h3 : s.mem.l3Of r key ≠ NULL) :
    (cmallocMapWith alloc r value key).run s = (cmallocMapWith alloc' r value key).run s := by
  have h2 := l2Of_ne_of_l3Of_ne h3
  unfold cmallocMapWith
  rw [Program.run_bind_ok (run_ensureL2Node_present hp.root h2),
    Program.run_bind_ok (run_ensureL3Node_present hp h3),
    Program.run_bind_ok (run_ensureL2Node_present hp.root h2),
    Program.run_bind_ok (run_ensureL3Node_present hp h3)]

/-- `cmalloc_get` found something: it read a whole path. -/
theorem run_cmallocGet_found {s s' : State} {r key v : Nat} {t : List Event}
    (h : (cmallocGet r key).run s = ⟨.ok v, s', t⟩) (hv : v ≠ NULL) :
    s = s' ∧ s.mem.ValidPath r key ∧ s.mem.l3Of r key ≠ NULL := by
  obtain ⟨_, _, _, _, h₁, h, -⟩ := Program.run_bind_inv h
  obtain ⟨hr, rfl, rfl, rfl⟩ := run_load_inv h₁
  rw [l1_l1IndexOf] at h
  split at h
  · cases h
    exact absurd rfl hv
  rename_i h2
  obtain ⟨_, _, _, _, h₂, h, -⟩ := Program.run_bind_inv h
  obtain ⟨hv2, rfl, rfl, rfl⟩ := run_load_inv h₂
  rw [← l3Of_of_l2Of h2] at h
  split at h
  · cases h
    exact absurd rfl hv
  rename_i h3
  obtain ⟨hv3, -, rfl, -⟩ := run_load_inv h
  exact ⟨rfl, ⟨hr, fun _ => hv2, fun _ => hv3⟩, h3⟩

/-- Nesting bounds beyond 1 change nothing. -/
theorem cmallocAllocMetadataAt_succ (pf : Platform) (depth : Nat) :
    cmallocAllocMetadataAt pf (depth + 1) = cmallocAllocMetadataAt pf 1 := by
  funext size
  refine Program.ext_run fun s => ?_
  unfold cmallocAllocMetadataAt
  refine Program.run_bind_congr fun freeListMap s₁ _ _ => ?_
  refine Program.run_bind_congr fun freeList s₂ _ h₂ => ?_
  split
  · rfl
  rename_i h0
  split at h₂
  · cases h₂
    exact absurd rfl h0
  obtain ⟨rfl, hp, h3⟩ := run_cmallocGet_found h₂ h0
  refine Program.run_bind_congr fun next s₃ _ h₃ => ?_
  obtain ⟨-, -, rfl, -⟩ := run_load_inv h₃
  rw [Program.run_bind_eq, Program.run_bind_eq, cmallocMapWith_congr hp h3]

theorem cmallocAllocMetadata_eq (pf : Platform) :
    cmallocAllocMetadata pf = cmallocAllocMetadataAt pf 1 := by
  obtain ⟨d, hd⟩ := exists_depth pf
  funext size
  rw [cmallocAllocMetadata, hd, cmallocAllocMetadataAt_succ]

/-- Neither does the bound of the platform. -/
theorem cmallocFreeMetadata_withDepth (pf : Platform) {d : Nat} (hd : 0 < d) :
    cmallocFreeMetadata { pf with depth := d, depth_pos := hd } = cmallocFreeMetadata pf := by
  have halloc : cmallocAllocMetadata { pf with depth := d, depth_pos := hd }
      = cmallocAllocMetadata pf := by
    rw [cmallocAllocMetadata_eq, cmallocAllocMetadata_eq]
    rfl
  unfold cmallocFreeMetadata ensureFreeListMap cmallocInitializeRangeMap cmallocMap
  rw [halloc]

/-! ## The client -/

/-- The library state, the objects the client holds and those it has freed
since it last got them, with their sizes. -/
structure ArenaWorld where
  state : State
  live : Nat → Option Nat
  freed : Nat → Option Nat

def ArenaWorld.initial (proposals : Nat → Nat) : ArenaWorld :=
  ⟨.initial proposals, fun _ => none, fun _ => none⟩

/-- One step of the client. Between two calls it writes in the objects it
holds and in its own variables, and maps and unmaps memory for user data. -/
inductive ArenaStep (pf : Platform) : ArenaWorld → List Event → ArenaWorld → Prop
  | alloc {w : ArenaWorld} {size a : Nat} {s : State} {t : List Event} :
      IsSize size → (cmallocAllocMetadata pf size).run w.state = ⟨.ok a, s, t⟩ →
      ArenaStep pf w t
        ⟨s, Function.update w.live a (some size), Function.update w.freed a none⟩
  | free {w : ArenaWorld} {ptr size : Nat} {s : State} {t : List Event} :
      w.live ptr = some size → (cmallocFreeMetadata pf ptr size).run w.state = ⟨.ok (), s, t⟩ →
      ArenaStep pf w t
        ⟨s, Function.update w.live ptr none, Function.update w.freed ptr (some size)⟩
  | write {w : ArenaWorld} {s : State} :
      (∀ a, w.live a = none → w.state.mem.AgreeAt s.mem a) →
      s.mem.metaChunk = w.state.mem.metaChunk → s.maps = w.state.maps →
      s.metaArena = w.state.metaArena → s.freeListMap = w.state.freeListMap →
      ArenaStep pf w [] { w with state := s }
  | map {w : ArenaWorld} {r : Region} :
      pf.FreshRegion w.state.maps r → r.site ≠ .metaChunk →
      ArenaStep pf w [] { w with state := w.state.mapped r }
  | unmap {w : ArenaWorld} {r : Region} : r.site ≠ .metaChunk →
      ArenaStep pf w [] { w with
        state := { w.state with maps := w.state.maps.filter fun r' => r' ≠ r } }

/-- What holds between two steps. -/
structure ArenaInv (pf : Platform) (w : ArenaWorld) (st : Nat → Slot) : Prop where
  arena : Arena pf false w.state st
  live_eq : outs st = w.live
  of_free : ∀ a sz, st a = .free sz → w.freed a = some sz
  of_freed : ∀ a sz, w.freed a = some sz → st a = .free sz ∨ ∃ z, st a = .node z

theorem Arena.initial (pf : Platform) (strict : Bool) (proposals : Nat → Nat) :
    Arena pf strict (.initial proposals) fun _ => .unused := by
  refine ⟨⟨⟨?_, ?_, ?_, ?_, .nil⟩, ?_, .nil (by simp [State.initial]), ?_, ?_, ?_, ?_, ?_, ?_⟩,
    ⟨?_, ?_, ?_, ?_, ?_⟩⟩
  all_goals simp [State.initial, Slot.size, Mem.zero]

section

variable {pf : Platform} {w w' : ArenaWorld} {st : Nat → Slot} {t : List Event}

theorem ArenaInv.initial (pf : Platform) (proposals : Nat → Nat) :
    ArenaInv pf (.initial proposals) fun _ => .unused :=
  ⟨.initial pf false proposals, rfl, by simp, by simp [ArenaWorld.initial]⟩

theorem ArenaInv.alloc {size a : Nat} {s : State} (h : ArenaInv pf w st)
    (hA : Alloced pf false size st w.state a s) :
    ArenaInv pf ⟨s, Function.update w.live a (some size), Function.update w.freed a none⟩
      (Function.update st a (.out size)) := by
  refine ⟨hA.arena, by rw [outs_update, h.live_eq]; rfl, fun b sz hb => ?_, fun b sz hb => ?_⟩
  all_goals
    by_cases hba : b = a
    · simp [hba] at hb
    dsimp only at hb ⊢
    rw [Function.update_of_ne hba] at hb ⊢
  · exact h.of_free b sz hb
  · exact h.of_freed b sz hb

theorem ArenaInv.free {size ptr : Nat} {s : State} {st' : Nat → Slot} (h : ArenaInv pf w st)
    (hF : Freed pf false size ptr w.state st s st') :
    ArenaInv pf ⟨s, Function.update w.live ptr none, Function.update w.freed ptr (some size)⟩
      st' := by
  refine ⟨hF.arena, by rw [hF.outs_eq, h.live_eq], fun b sz hb => ?_, fun b sz hb => ?_⟩
  all_goals
    by_cases hbp : b = ptr
    · subst hbp
      have := hF.freed
      simp_all
    dsimp only at hb ⊢
    have hg := hF.gains b
    rw [Function.update_of_ne hbp] at hg
  · rw [Function.update_of_ne hbp]
    rcases hg with hg | ⟨z, hg, -⟩
    · exact h.of_free b sz (hg ▸ hb)
    · rw [hg] at hb
      simp at hb
  · rw [Function.update_of_ne hbp] at hb
    rcases hg with hg | ⟨z, hg, -⟩
    · rw [hg]
      exact h.of_freed b sz hb
    · exact .inr ⟨z, hg⟩

/-- Each step of the client keeps the arena in order. -/
theorem ArenaInv.step (h : ArenaInv pf w st) (hst : ArenaStep pf w t w')
    (hg : ∀ e ∈ t, e.Mapped) : ∃ st', ArenaInv pf w' st' := by
  have hA : ∀ e ∈ t, Allowed false e := fun e he => allowed_of_mapped (hg e he)
  cases hst with
  | alloc hsz hrun =>
    have hspec := cmallocAllocMetadata_spec (I := fun _ => True) h.arena hsz fun _ _ => trivial
    exact ⟨_, h.alloc (hspec.elim hrun hA).1⟩
  | free hlive hrun =>
    have hout := outs_eq_some.mp (h.live_eq ▸ hlive)
    have hsz := h.arena.isSize _ _ (by rw [hout]; rfl)
    have hspec := cmallocFreeMetadata_spec (I := fun _ => True) h.arena hsz hout fun _ _ => trivial
    obtain ⟨st', hF⟩ := (hspec.elim hrun hA).1
    exact ⟨st', h.free hF⟩
  | write hag hmc hmaps harena hF =>
    rw [← h.live_eq] at hag
    exact ⟨st, (h.arena.frame hag hmc).of_eq rfl hmaps harena hF, h.live_eq, h.of_free,
      h.of_freed⟩
  | map hr hsite => exact ⟨st, h.arena.mapped hr hsite, h.live_eq, h.of_free, h.of_freed⟩
  | @unmap r hsite =>
    refine ⟨st, h.arena.unmapped (fun _ => List.mem_of_mem_filter) (fun r' hr' hs => ?_)
      (h.arena.maps_ok.filter _), h.live_eq, h.of_free, h.of_freed⟩
    refine List.mem_filter.mpr ⟨hr', decide_eq_true fun he => hsite (he ▸ hs)⟩

theorem arenaInv_of_run {proposals : Nat → Nat}
    (h : Run (ArenaStep pf) (fun t => ∀ e ∈ t, e.Mapped) (.initial proposals) w) :
    ∃ st, ArenaInv pf w st :=
  h.invariant (P := fun w => ∃ st, ArenaInv pf w st) ⟨_, .initial pf proposals⟩ fun _ _ _ ⟨_, h⟩ hst hg => h.step hst hg

/-! ## What the arena's memory is used for -/

/-- The four uses of metadata memory. -/
inductive Use
  /-- an object the client holds -/
  | live
  /-- a node of `free_list_map` -/
  | node
  /-- a member of a free list -/
  | listed
  /-- the header of a chunk -/
  | header
  deriving DecidableEq

/-- The node at `a` of the range map `r` has `n` bytes. -/
def Mem.NodeAt (m : Mem) (r a n : Nat) : Prop :=
  a = r ∧ n = sizeofL1Node ∨ a ≠ NULL ∧ ∃ k,
    a = m.l2Of r k ∧ n = sizeofL2Node ∨ a = m.l3Of r k ∧ n = sizeofL3Node

/-- Following the links of the free list for `size` meets exactly `l`. -/
def State.FreeList (s : State) (size : Nat) (l : List Nat) : Prop :=
  if s.freeListMap = NULL then l = []
  else Chain NULL (s.mem.firstWord size) (s.mem.lookup s.freeListMap size) l

/-- The `n` bytes from `a` on are in use. -/
def ArenaWorld.Uses (w : ArenaWorld) : Use → Nat → Nat → Prop
  | .live, a, n => w.live a = some n
  | .node, a, n => w.state.freeListMap ≠ NULL ∧ w.state.mem.NodeAt w.state.freeListMap a n
  | .listed, a, n => IsSize n ∧ ∃ l, w.state.FreeList n l ∧ a ∈ l
  | .header, a, n => metaRegion a ∈ w.state.maps ∧ n = sizeofMetaChunk

def Use.slot : Use → Nat → Slot
  | .live, n => .out n
  | .node, n => .node n
  | .listed, n => .free n
  | .header, _ => .unused

/-- Every use but a header is an object of the arena. -/
theorem ArenaInv.slot_eq (h : ArenaInv pf w st) {u : Use} {a n : Nat} (hu : w.Uses u a n)
    (hne : u ≠ .header) : st a = u.slot n := by
  cases u with
  | live => exact outs_eq_some.mp (h.live_eq ▸ hu)
  | node =>
    obtain ⟨hF, hn⟩ := hu
    have ht := h.arena.trie hF
    rcases hn with ⟨rfl, rfl⟩ | ⟨hne, k, ⟨rfl, rfl⟩ | ⟨rfl, rfl⟩⟩
    · exact nodes_eq_some.mp ht.root
    · exact nodes_eq_some.mp (ht.l2_out k hne)
    · exact nodes_eq_some.mp (ht.l3_out k hne)
  | listed =>
    obtain ⟨hsz, l, hl, ha⟩ := hu
    unfold State.FreeList at hl
    split at hl
    · simp [hl] at ha
    · obtain ⟨l', hl', hm⟩ := h.arena.lists ‹_› n hsz
      rw [hl.unique hl'] at ha
      exact (hm a).mp ha
  | header => exact absurd rfl hne

theorem Use.size_slot {u : Use} {n : Nat} (h : u ≠ .header) : (u.slot n).size = some n := by
  cases u <;> first | rfl | exact absurd rfl h

theorem Use.slot_inj {u u' : Use} {n n' : Nat} (h : u ≠ .header) (h' : u' ≠ .header)
    (he : u.slot n = u'.slot n') : u = u' ∧ n = n' := by
  cases u <;> cases u' <;> simp_all [Use.slot]

/-- Every use lies in a chunk, and begins past its header or is that header. -/
theorem ArenaInv.placed (h : ArenaInv pf w st) {u : Use} {a n : Nat} (hu : w.Uses u a n) :
    ∃ c, metaRegion c ∈ w.state.maps ∧ a + n ≤ c + metaChunkSize ∧
      (u = .header ∧ a = c ∧ n = sizeofMetaChunk ∨ u ≠ .header ∧ c + 32 ≤ a) := by
  by_cases hh : u = .header
  · subst hh
    obtain ⟨hc, rfl⟩ := hu
    have hlen : metaChunkSize = 4194304 := rfl
    have hmeta : sizeofMetaChunk = 24 := rfl
    exact ⟨a, hc, by omega, .inl ⟨rfl, rfl, rfl⟩⟩
  · obtain ⟨c, hc, h₁, h₂⟩ := h.arena.inside (by rw [h.slot_eq hu hh, Use.size_slot hh])
    exact ⟨c, hc, h₂, .inr ⟨hh, h₁⟩⟩

theorem ArenaInv.aligned (h : ArenaInv pf w st) {u : Use} {a n : Nat} (hu : w.Uses u a n) :
    a % 16 = 0 := by
  by_cases hh : u = .header
  · subst hh
    exact h.arena.maps_ok.base_mod hu.1
  · exact h.arena.aligned a n (by rw [h.slot_eq hu hh, Use.size_slot hh])

/-- Two different uses do not overlap. -/
theorem ArenaInv.apart (h : ArenaInv pf w st) {u u' : Use} {a a' n n' : Nat} (hu : w.Uses u a n)
    (hu' : w.Uses u' a' n') (hne : ¬ (u = u' ∧ a = a')) : a + n ≤ a' ∨ a' + n' ≤ a := by
  obtain ⟨c, hc, hin, hp⟩ := h.placed hu
  obtain ⟨c', hc', hin', hp'⟩ := h.placed hu'
  have hlen : metaChunkSize = 4194304 := rfl
  have hmeta : sizeofMetaChunk = 24 := rfl
  by_cases hcc : c = c'
  · subst hcc
    rcases hp with ⟨hh, ha, hn⟩ | ⟨hh, ha⟩ <;> rcases hp' with ⟨hh', ha', hn'⟩ | ⟨hh', ha'⟩
    · exact absurd ⟨hh.trans hh'.symm, ha.trans ha'.symm⟩ hne
    · exact .inl (by omega)
    · exact .inr (by omega)
    · have hs := h.slot_eq hu hh
      have hs' := h.slot_eq hu' hh'
      refine h.arena.apart a a' n n' (fun he => ?_) (by rw [hs, Use.size_slot hh])
        (by rw [hs', Use.size_slot hh'])
      subst he
      exact hne ⟨(Use.slot_inj hh hh' (hs.symm.trans hs')).1, rfl⟩
  · have hd : c + metaChunkSize ≤ c' ∨ c' + metaChunkSize ≤ c := by
      have : Std.Symm Region.Disjoint := ⟨fun _ _ => Or.symm⟩
      exact h.arena.maps_ok.disjoint.forall hc hc' fun he => hcc (congrArg Region.base he)
    omega

/-- Each free list ends, repeats nothing, and holds what was freed and has
not been handed out again, to the client or as a node. -/
theorem ArenaInv.exists_freeList (h : ArenaInv pf w st) {size : Nat} (hsz : IsSize size) :
    ∃ l, w.state.FreeList size l ∧ l.Nodup ∧
      ∀ a, a ∈ l ↔ w.freed a = some size ∧ ∀ n, ¬ w.Uses .node a n := by
  have hlist : ∃ l, w.state.FreeList size l ∧ l.Nodup ∧ ∀ a, a ∈ l ↔ st a = .free size := by
    by_cases hF : w.state.freeListMap = NULL
    · exact ⟨[], by rw [State.FreeList, if_pos hF], List.nodup_nil, fun a => by
        simp [(h.arena.absent hF a size).1]⟩
    · obtain ⟨l, hl, hm⟩ := h.arena.lists hF size hsz
      exact ⟨l, by rwa [State.FreeList, if_neg hF], hl.nodup, hm⟩
  obtain ⟨l, hl, hnd, hm⟩ := hlist
  refine ⟨l, hl, hnd, fun a => (hm a).trans ⟨fun ha => ⟨h.of_free a size ha, fun n hn => ?_⟩, ?_⟩⟩
  · have := h.slot_eq hn (by simp)
    rw [ha] at this
    simp [Use.slot] at this
  · rintro ⟨hfr, hnot⟩
    rcases h.of_freed a size hfr with hs | ⟨z, hs⟩
    · exact hs
    have hF : w.state.freeListMap ≠ NULL := fun hF => (h.arena.absent hF a z).2 hs
    rcases h.arena.linked a z hs with he | ⟨hne, k, he | he⟩
    · exact absurd ⟨hF, .inl ⟨he, rfl⟩⟩ (hnot sizeofL1Node)
    · exact absurd ⟨hF, .inr ⟨hne, k, .inl ⟨he, rfl⟩⟩⟩ (hnot sizeofL2Node)
    · exact absurd ⟨hF, .inr ⟨hne, k, .inr ⟨he, rfl⟩⟩⟩ (hnot sizeofL3Node)

/-- What the arena owes its client in every state. -/
structure ArenaSound (pf : Platform) (w : ArenaWorld) : Prop where
  aligned : ∀ u a n, w.Uses u a n → a % 16 = 0
  inside : ∀ u a n, w.Uses u a n →
    ∃ c, metaRegion c ∈ w.state.maps ∧ c ≤ a ∧ a + n ≤ c + metaChunkSize
  apart : ∀ u a n u' a' n', w.Uses u a n → w.Uses u' a' n' → ¬ (u = u' ∧ a = a') →
    a + n ≤ a' ∨ a' + n' ≤ a
  lists : ∀ size, IsSize size → ∃ l, w.state.FreeList size l ∧ l.Nodup ∧
    ∀ a, a ∈ l ↔ w.freed a = some size ∧ ∀ n, ¬ w.Uses .node a n
  alloc_returns : ∀ size, IsSize size →
    (∀ e ∈ ((cmallocAllocMetadata pf size).run w.state).trace, e.Mapped) →
    ∃ a, ((cmallocAllocMetadata pf size).run w.state).result = .ok a
  free_returns : ∀ ptr size, w.live ptr = some size →
    (∀ e ∈ ((cmallocFreeMetadata pf ptr size).run w.state).trace, e.Mapped) →
    ((cmallocFreeMetadata pf ptr size).run w.state).result = .ok ()

theorem ArenaInv.sound (h : ArenaInv pf w st) : ArenaSound pf w where
  aligned _ _ _ := h.aligned
  inside _ _ _ hu := by
    obtain ⟨c, hc, hin, ⟨-, rfl, -⟩ | ⟨-, ha⟩⟩ := h.placed hu
    · exact ⟨_, hc, le_rfl, hin⟩
    · exact ⟨c, hc, by omega, hin⟩
  apart _ _ _ _ _ _ := h.apart
  lists _ := h.exists_freeList
  alloc_returns size hsz ht := by
    have hspec := cmallocAllocMetadata_spec (I := fun _ => True) h.arena hsz fun _ _ => trivial
    obtain ⟨⟨a, ha, -⟩, -⟩ := hspec fun e he => allowed_of_mapped (ht e he)
    exact ⟨a, ha⟩
  free_returns ptr size hlive ht := by
    have hout := outs_eq_some.mp (h.live_eq ▸ hlive)
    have hsz := h.arena.isSize _ _ (by rw [hout]; rfl)
    have hspec := cmallocFreeMetadata_spec (I := fun _ => True) h.arena hsz hout fun _ _ => trivial
    obtain ⟨⟨_, ha, -⟩, -⟩ := hspec fun e he => allowed_of_mapped (ht e he)
    exact ha

end

end FastAlloc
