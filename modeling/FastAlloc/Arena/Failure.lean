/-
FastAlloc.Arena.Failure — what a failed `mmap` leaves of the arena.

`cmalloc_alloc_metadata` assigns `meta_arena` before it tests the result.
So once a mapping for metadata has failed, `meta_arena` is `MAP_FAILED`, no
call maps anything any more, and every call that finds no free object reads
through `MAP_FAILED`. `Poisons` is the argument: it composes along any
program, and only `bumpMetadata` has to be looked at.
-/
import FastAlloc.Arena.System

namespace FastAlloc

open Lib

/-- The program reported a failed `mmap`. -/
def Failed {α : Type} (o : Outcome State Event Fault α) : Prop := ∃ site, .mmapFailed site ∈ o.trace

/-- Where the arena is lost already it stays lost, without another call to
`mmap`; and a call that fails loses it. -/
structure Poisons {α : Type} (f : M α) : Prop where
  stays : ∀ s, s.metaArena = MAP_FAILED →
    (f.run s).state.metaArena = MAP_FAILED ∧ ¬ Failed (f.run s)
  loses : ∀ s, Failed (f.run s) → (f.run s).state.metaArena = MAP_FAILED

namespace Poisons

variable {α β : Type} {p : Nat}

/-- A program that leaves `meta_arena` alone and calls no `mmap`. -/
theorem of_run {f : M α} (h : ∀ s, ∃ r s' t, f.run s = ⟨r, s', t⟩ ∧ s'.metaArena = s.metaArena ∧
    ∀ e ∈ t, e.Mapped) : Poisons f := by
  have hnot : ∀ s, ¬ Failed (f.run s) := by
    rintro s ⟨site, he⟩
    obtain ⟨r, s', t, hr, -, ht⟩ := h s
    rw [hr] at he
    exact ht _ he
  refine ⟨fun s hs => ⟨?_, hnot s⟩, fun s hf => absurd hf (hnot s)⟩
  obtain ⟨r, s', t, hr, hm, -⟩ := h s
  rw [hr]
  exact hm.trans hs

theorem pure (a : α) : Poisons (pure a : M α) :=
  of_run fun s => ⟨_, s, [], Program.run_pure a s, rfl, by simp⟩

theorem fault (e : Fault) : Poisons (Program.fault e : M α) :=
  of_run fun s => ⟨_, s, [], Program.run_fault e s, rfl, by simp⟩

theorem emit {e : Event} (he : e.Mapped) : Poisons (Program.emit e : M Unit) :=
  of_run fun s => ⟨_, s, [e], Program.run_emit e s, rfl, by simpa using he⟩

theorem load {f : Mem → α} : Poisons (load p f) := by
  by_cases hp : Valid p
  · exact of_run fun s => ⟨_, s, [], run_load hp, rfl, by simp⟩
  · exact of_run fun s => ⟨_, s, [], run_load_of_not hp, rfl, by simp⟩

theorem store {f : Mem → Mem} : Poisons (store p f) := by
  by_cases hp : Valid p
  · exact of_run fun s => ⟨_, _, _, run_store hp, rfl, by simp [Event.Mapped]⟩
  · exact of_run fun s => ⟨_, s, [], run_store_of_not hp, rfl, by simp⟩

theorem global {f : State → α} : Poisons (global f) :=
  of_run fun s => ⟨_, s, [], run_global, rfl, by simp⟩

theorem setGlobal {f : State → State} (hf : ∀ s, (f s).metaArena = s.metaArena) :
    Poisons (setGlobal f) :=
  of_run fun s => ⟨_, _, [], run_setGlobal, hf s, by simp⟩

theorem memsetL2 : Poisons (memsetL2 p) := by
  by_cases hp : Valid p
  · exact of_run fun s => ⟨_, _, _, run_memsetL2 hp, rfl, mapped_stores _ _⟩
  · exact of_run fun s => ⟨_, s, [], run_memsetL2_of_not hp, rfl, by simp⟩

theorem memsetL3 : Poisons (memsetL3 p) := by
  by_cases hp : Valid p
  · exact of_run fun s => ⟨_, _, _, run_memsetL3 hp, rfl, mapped_stores _ _⟩
  · exact of_run fun s => ⟨_, s, [], run_memsetL3_of_not hp, rfl, by simp⟩

theorem ite {c : Prop} [Decidable c] {f g : M α} (hf : Poisons f) (hg : Poisons g) :
    Poisons (if c then f else g) := by
  split
  · exact hf
  · exact hg

/-- Sequencing: a failure in the first part stays one. -/
theorem bind {f : M α} {g : α → M β} (hf : Poisons f) (hg : ∀ a, Poisons (g a)) :
    Poisons (f >>= g) := by
  constructor
  · intro s hs
    obtain ⟨hm, hn⟩ := hf.stays s hs
    rcases hr : f.run s with ⟨r, s', t⟩
    rw [hr] at hm hn
    cases r with
    | error e =>
      rw [Program.run_bind_error hr]
      exact ⟨hm, hn⟩
    | ok a =>
      obtain ⟨hm', hn'⟩ := (hg a).stays s' hm
      rw [Program.run_bind_ok hr]
      refine ⟨hm', ?_⟩
      rintro ⟨site, he⟩
      rcases List.mem_append.mp he with he | he
      · exact hn ⟨site, he⟩
      · exact hn' ⟨site, he⟩
  · rintro s ⟨site, he⟩
    have hl := hf.loses s
    rcases hr : f.run s with ⟨r, s', t⟩
    rw [hr] at hl
    cases r with
    | error e =>
      rw [Program.run_bind_error hr] at he ⊢
      exact hl ⟨site, he⟩
    | ok a =>
      rw [Program.run_bind_ok hr] at he ⊢
      rcases List.mem_append.mp he with he | he
      · exact ((hg a).stays s' (hl ⟨site, he⟩)).1
      · exact (hg a).loses s' ⟨site, he⟩

end Poisons

/-! ## The metadata functions -/

section

variable {pf : Platform}

theorem poisons_takeFromArena (size : Nat) : Poisons (takeFromArena size) :=
  .bind .global fun _ => .bind .load fun _ => .bind .store fun _ => .pure _

/-- With `meta_arena` lost, the end of the chunk is read through it. -/
theorem run_bumpMetadata_lost {s : State} (size : Nat) (hs : s.metaArena = MAP_FAILED) :
    (bumpMetadata pf size).run s = ⟨.error .segfault, s, []⟩ := by
  have hne : s.metaArena ≠ NULL := by
    rw [hs]
    decide
  have hload : ¬ Valid s.metaArena := fun h => h.2 hs
  refine Program.run_bind_read (run_global (f := (·.metaArena))) ?_
  refine Program.run_bind_error ?_
  rw [if_neg hne]
  exact run_load_of_not hload

/-- A failure after a part that reports none is one of the rest. -/
theorem loses_bind {α β : Type} {f : M α} {g : α → M β} (hf : ∀ s, ¬ Failed (f.run s))
    (hg : ∀ a s, Failed ((g a).run s) → ((g a).run s).state.metaArena = MAP_FAILED) (s : State)
    (h : Failed ((f >>= g).run s)) : ((f >>= g).run s).state.metaArena = MAP_FAILED := by
  have hn := hf s
  rcases hr : f.run s with ⟨r, s', t⟩
  rw [hr] at hn
  obtain ⟨site, he⟩ := h
  cases r with
  | error e =>
    rw [Program.run_bind_error hr] at he
    exact absurd ⟨site, he⟩ hn
  | ok a =>
    rw [Program.run_bind_ok hr] at he ⊢
    rcases List.mem_append.mp he with he | he
    · exact absurd ⟨site, he⟩ hn
    · exact hg a s' ⟨site, he⟩

theorem not_failed_global {α : Type} {f : State → α} (s : State) : ¬ Failed ((global f).run s) := by
  rintro ⟨site, he⟩
  simp [run_global] at he

theorem not_failed_load {α : Type} {p : Nat} {f : Mem → α} (s : State) :
    ¬ Failed ((load p f).run s) := by
  rintro ⟨site, he⟩
  by_cases hp : Valid p
  · simp [run_load hp] at he
  · simp [run_load_of_not hp] at he

theorem poisons_bumpMetadata (size : Nat) : Poisons (bumpMetadata pf size) := by
  constructor
  · intro s hs
    rw [run_bumpMetadata_lost size hs]
    exact ⟨hs, by rintro ⟨site, he⟩; simp at he⟩
  refine loses_bind not_failed_global fun arena => loses_bind (fun s => ?_) fun full s hf => ?_
  · split
    · rintro ⟨site, he⟩
      simp at he
    · exact not_failed_load s
  cases full with
  | false => exact (poisons_takeFromArena size).loses s hf
  | true =>
    rw [if_pos rfl] at hf ⊢
    by_cases hr : pf.FreshRegion s.maps ⟨s.proposals s.calls, metaChunkSize, .metaChunk⟩
    · rw [Program.run_bind_ok (if_pos hr)] at hf ⊢
      refine loses_bind (fun s => ?_) (fun _ s hf => ?_) _ (by simpa [Failed] using hf)
      · rintro ⟨site, he⟩
        simp [run_setGlobal] at he
      · refine Poisons.loses (.ite (.pure _) ?_) s hf
        exact .bind .store fun _ => .bind .store fun _ => .bind .store fun _ =>
          poisons_takeFromArena size
    · have hrun : (mmap pf .metaChunk metaChunkSize).run s
          = ⟨.ok MAP_FAILED, { s with calls := s.calls + 1 }, [.mmapFailed .metaChunk]⟩ := if_neg hr
      rw [Program.run_bind_ok hrun]
      dsimp only
      rw [Program.run_bind_ok run_setGlobal, if_pos rfl]
      rfl

theorem poisons_cmallocGet (r key : Nat) : Poisons (cmallocGet r key) :=
  .bind .load fun _ => .ite (.pure _) (.bind .load fun _ => .ite (.pure _) .load)

theorem poisons_cmallocMapWith {alloc : Nat → M Nat} (halloc : ∀ size, Poisons (alloc size))
    (r value key : Nat) : Poisons (cmallocMapWith alloc r value key) :=
  .bind (.bind .load fun _ => .ite (.bind (halloc _) fun _ => .bind .store fun _ => .memsetL2)
    (.pure _)) fun _ =>
  .bind (.bind .load fun _ => .bind .load fun _ => .ite
    (.bind (halloc _) fun _ => .bind .store fun _ => .bind .memsetL3 fun _ => .bind .load fun _ =>
      .store) (.pure _)) fun _ =>
  .bind .load fun _ => .bind .load fun _ => .bind .load fun _ =>
    .ite (.bind .load fun _ => .bind .store fun _ => .store) .store

theorem poisons_cmallocAllocMetadata (size : Nat) : Poisons (cmallocAllocMetadata pf size) := by
  rw [cmallocAllocMetadata_eq]
  exact .bind .global fun _ => .bind (.ite (.pure _) (poisons_cmallocGet _ _)) fun _ =>
    .ite (poisons_bumpMetadata size) <| .bind .load fun _ =>
      .bind (poisons_cmallocMapWith (fun _ => .fault _) _ _ _) fun _ =>
        .bind (.ite (.emit trivial) (.pure _)) fun _ => .pure _

theorem poisons_cmallocFreeMetadata (ptr size : Nat) : Poisons (cmallocFreeMetadata pf ptr size) :=
  .bind (.bind .global fun _ => .ite (.bind (poisons_cmallocAllocMetadata _) fun _ =>
    .setGlobal fun _ => rfl) (.pure _)) fun _ =>
  .bind .global fun _ => .bind (poisons_cmallocGet _ _) fun _ => .bind .store fun _ =>
    poisons_cmallocMapWith poisons_cmallocAllocMetadata _ _ _

/-! ## The calls of the client -/

inductive MetaCall
  | alloc (size : Nat)
  | free (ptr size : Nat)

/-- A call and its result; `cmalloc_free_metadata` has none. -/
def MetaCall.call (pf : Platform) : MetaCall → M Nat
  | .alloc size => cmallocAllocMetadata pf size
  | .free ptr size => do
    cmallocFreeMetadata pf ptr size
    pure NULL

/-- The arena of `s'` is that of `s`: the chunks, their headers and the free
lists. -/
structure SameArena (s s' : State) : Prop where
  metaArena : s'.metaArena = s.metaArena
  metaChunk : s'.mem.metaChunk = s.mem.metaChunk
  freeListMap : s'.freeListMap = s.freeListMap
  lists : ∀ size l, IsSize size → (s'.FreeList size l ↔ s.FreeList size l)

/-- The call came through a failed `mmap` as a caller could wish: it returned
NULL and left the arena as it was. -/
def SurvivesFailure (pf : Platform) (c : MetaCall) (s : State) : Prop :=
  ((c.call pf).run s).result = .ok NULL ∧ SameArena s ((c.call pf).run s).state

/-- No call comes through a failed `mmap`: whatever the state before, it
leaves `meta_arena` at `MAP_FAILED`, where it was not; and from then on every
allocation that finds no free object faults, also when `mmap` works again. -/
theorem mmap_failure_loses_arena (c : MetaCall) (s : State) (hf : Failed ((c.call pf).run s)) :
    ¬ SurvivesFailure pf c s ∧
    ∀ s', s'.metaArena = ((c.call pf).run s).state.metaArena → s'.freeListMap = NULL →
      ∀ size, ((cmallocAllocMetadata pf size).run s').result = .error .segfault := by
  have hp : Poisons (c.call pf) := by
    cases c with
    | alloc size => exact poisons_cmallocAllocMetadata size
    | free ptr size => exact .bind (poisons_cmallocFreeMetadata ptr size) fun _ => .pure _
  have hlost := hp.loses s hf
  have hbefore : s.metaArena ≠ MAP_FAILED := fun hs => (hp.stays s hs).2 hf
  refine ⟨fun h => hbefore (h.2.metaArena.symm.trans hlost), fun s' hs' hF size => ?_⟩
  have hmf : s'.metaArena = MAP_FAILED := hs'.trans hlost
  rw [cmallocAllocMetadata_eq]
  unfold cmallocAllocMetadataAt
  rw [Program.run_bind_read run_global rfl]
  simp only [hF, if_true]
  rw [Program.run_bind_read (Program.run_pure _ _) rfl, if_pos rfl, run_bumpMetadata_lost size hmf]

end

/-- An operating system whose first answer is a failure. -/
def failsFirst (n : Nat) : Nat := if n = 0 then NULL else 2 ^ 26

theorem failed_first : Failed (((MetaCall.alloc sizeofSpan).call .smallPages).run
    (.initial failsFirst)) :=
  ⟨.metaChunk, List.mem_cons_self ..⟩

/-- The very first allocation is such a call. -/
theorem mmap_failure_loses_arena_first :
    ¬ SurvivesFailure .smallPages (.alloc sizeofSpan) (.initial failsFirst) :=
  (mmap_failure_loses_arena _ _ failed_first).1

/-- The first allocation returns NULL and leaves `meta_arena` at
`MAP_FAILED`; the second, with `mmap` working again, faults. -/
theorem alloc_after_failed_mmap_faults :
    let first := (cmallocAllocMetadata .smallPages sizeofSpan).run (.initial failsFirst)
    first.result = .ok NULL ∧ first.state.metaArena = MAP_FAILED ∧
    (State.initial failsFirst).metaArena = NULL ∧
    ((cmallocAllocMetadata .smallPages sizeofSpan).run first.state).result = .error .segfault := by
  decide +kernel

end FastAlloc
