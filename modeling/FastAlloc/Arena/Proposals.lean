/-
FastAlloc.Arena.Proposals — an operating system that always finds room.

The proofs of the library assume that every `mmap` succeeds. That such runs
exist is a matter of the proposals: `spaced` answers the `n`-th call at the
`n`-th multiple of `2 ^ 27`, so that calls for at most that many bytes
succeed while there are few of them. `FewMmaps k f s` bounds the calls of a
program; the bounds add up along it.
-/
import FastAlloc.Arena.System

namespace FastAlloc

open Lib

def spaced (n : Nat) : Nat := (n + 1) * 2 ^ 27

/-- All mappings so far lie below the next proposal. -/
structure Spaced (s : State) : Prop where
  proposals : s.proposals = spaced
  below : ∀ r ∈ s.maps, r.base + r.len ≤ (s.calls + 1) * 2 ^ 27

theorem Spaced.initial : Spaced (.initial spaced) := ⟨rfl, by simp [State.initial]⟩

/-- From `s` the program makes at most `k` calls to `mmap`, and all succeed. -/
def FewMmaps {α : Type} (k : Nat) (f : M α) (s : State) : Prop :=
  Spaced s → s.calls + k ≤ 2 ^ 19 →
    (∀ e ∈ (f.run s).trace, e.Mapped) ∧ Spaced (f.run s).state ∧ (f.run s).state.calls ≤ s.calls + k

namespace FewMmaps

variable {α β : Type} {j k p : Nat} {s : State}

theorem mono {f : M α} (h : FewMmaps j f s) (hjk : j ≤ k) : FewMmaps k f s := by
  intro hs hc
  obtain ⟨ht, hs', hc'⟩ := h hs (by omega)
  exact ⟨ht, hs', by omega⟩

/-- A run that leaves the operating system as it was. -/
theorem of_run {f : M α} {r : Except Fault α} {s' : State} {t : List Event}
    (h : f.run s = ⟨r, s', t⟩) (ht : ∀ e ∈ t, e.Mapped) (hp : s'.proposals = s.proposals)
    (hm : ∀ r ∈ s'.maps, r ∈ s.maps) (hc : s'.calls = s.calls) : FewMmaps k f s := by
  intro hs _
  rw [h]
  refine ⟨ht, ⟨hp.trans hs.proposals, fun r hr => ?_⟩, by dsimp only; omega⟩
  rw [hc]
  exact hs.below r (hm r hr)

theorem pure (a : α) : FewMmaps k (pure a : M α) s :=
  of_run (Program.run_pure a s) (by simp) rfl (fun _ h => h) rfl

theorem fault (e : Fault) : FewMmaps k (Program.fault e : M α) s :=
  of_run (Program.run_fault e s) (by simp) rfl (fun _ h => h) rfl

/-- Sequencing adds the bounds. -/
theorem bind {f : M α} {g : α → M β} (hf : FewMmaps j f s)
    (hg : ∀ a s' t, f.run s = ⟨.ok a, s', t⟩ → FewMmaps k (g a) s') :
    FewMmaps (j + k) (f >>= g) s := by
  intro hs hc
  obtain ⟨ht, hs', hc'⟩ := hf hs (by omega)
  rcases hr : f.run s with ⟨r, s', t⟩
  rw [hr] at ht hs' hc'
  cases r with
  | error e =>
    rw [Program.run_bind_error hr]
    exact ⟨ht, hs', by dsimp only at hc' ⊢; omega⟩
  | ok a =>
    dsimp only at ht hs' hc'
    obtain ⟨ht₂, hs₂, hc₂⟩ := hg a s' t hr hs' (by omega)
    rw [Program.run_bind_ok hr]
    refine ⟨fun e he => ?_, hs₂, by dsimp only; omega⟩
    rcases List.mem_append.mp he with he | he
    · exact ht e he
    · exact ht₂ e he

/-- A first part without calls adds nothing. -/
theorem then_bind {f : M α} {g : α → M β} (hf : FewMmaps 0 f s)
    (hg : ∀ a s' t, f.run s = ⟨.ok a, s', t⟩ → FewMmaps k (g a) s') :
    FewMmaps k (f >>= g) s :=
  (bind hf hg).mono (by omega)

theorem load {f : Mem → α} : FewMmaps k (load p f) s := by
  by_cases hp : Valid p
  · exact of_run (run_load hp) (by simp) rfl (fun _ h => h) rfl
  · exact of_run (run_load_of_not hp) (by simp) rfl (fun _ h => h) rfl

theorem store {f : Mem → Mem} : FewMmaps k (store p f) s := by
  by_cases hp : Valid p
  · exact of_run (run_store hp) (by simp [Event.Mapped]) rfl (fun _ h => h) rfl
  · exact of_run (run_store_of_not hp) (by simp) rfl (fun _ h => h) rfl

theorem global {f : State → α} : FewMmaps k (global f) s :=
  of_run run_global (by simp) rfl (fun _ h => h) rfl

theorem setGlobal {f : State → State} (hp : (f s).proposals = s.proposals)
    (hm : ∀ r ∈ (f s).maps, r ∈ s.maps) (hc : (f s).calls = s.calls) :
    FewMmaps k (setGlobal f) s :=
  of_run run_setGlobal (by simp) hp hm hc

theorem assertThat {P : Prop} [Decidable P] : FewMmaps k (assertThat P) s := by
  unfold FastAlloc.assertThat
  split
  · exact pure ()
  · exact fault _

theorem emit {e : Event} (he : e.Mapped) : FewMmaps k (Program.emit e : M Unit) s :=
  of_run (Program.run_emit e s) (by simpa using he) rfl (fun _ h => h) rfl

theorem memsetL2 : FewMmaps k (memsetL2 p) s := by
  by_cases hp : Valid p
  · exact of_run (run_memsetL2 hp) (mapped_stores _ _) rfl (fun _ h => h) rfl
  · exact of_run (run_memsetL2_of_not hp) (by simp) rfl (fun _ h => h) rfl

theorem memsetL3 : FewMmaps k (memsetL3 p) s := by
  by_cases hp : Valid p
  · exact of_run (run_memsetL3 hp) (mapped_stores _ _) rfl (fun _ h => h) rfl
  · exact of_run (run_memsetL3_of_not hp) (by simp) rfl (fun _ h => h) rfl

theorem ite {c : Prop} [Decidable c] {f g : M α} (hf : c → FewMmaps k f s)
    (hg : ¬ c → FewMmaps k g s) : FewMmaps k (if c then f else g) s := by
  split
  · exact hf ‹_›
  · exact hg ‹_›

theorem loop {body : Nat → M Unit} (hb : ∀ i s, FewMmaps k (body i) s) (n : Nat) :
    ∀ i s, FewMmaps (n * k) (Program.loop body i n) s := by
  induction n with
  | zero => exact fun i s => pure ()
  | succ n ih =>
    intro i s
    refine (bind (j := k) (k := n * k) (hb i s) fun _ s' _ _ => ih (i + 1) s').mono ?_
    rw [Nat.succ_mul]
    omega

end FewMmaps

theorem Spaced.fresh {s : State} (hs : Spaced s) {pf : Platform} (site : Site) {len : Nat}
    (hc : s.calls < 2 ^ 19) (h0 : len ≠ 0) (hlen : len ≤ 2 ^ 27) (hpf : pf.pageShift ≤ 27) :
    pf.FreshRegion s.maps ⟨s.proposals s.calls, len, site⟩ := by
  have hbase : s.proposals s.calls = (s.calls + 1) * 2 ^ 27 := by rw [hs.proposals, spaced]
  refine ⟨h0, ?_, ?_, ?_, fun r' hr' => .inr ?_⟩
  · rw [hbase]
    change (s.calls + 1) * 2 ^ 27 ≠ 0
    omega
  · rw [hbase]
    exact Nat.mod_eq_zero_of_dvd ((pow_dvd_pow 2 hpf).mul_left _)
  · rw [hbase]
    change (s.calls + 1) * 2 ^ 27 + len ≤ 2 ^ 47
    omega
  · rw [hbase]
    exact hs.below r' hr'

namespace FewMmaps

variable {s : State}

/-- The one call that counts. -/
theorem mmap {pf : Platform} {site : Site} {len : Nat} (h0 : len ≠ 0) (hlen : len ≤ 2 ^ 27)
    (hpf : pf.pageShift ≤ 27) : FewMmaps 1 (mmap pf site len) s := by
  intro hs hc
  have hfresh := hs.fresh site (by omega) h0 hlen hpf
  have hrun : (FastAlloc.mmap pf site len).run s
      = ⟨.ok (s.proposals s.calls), s.mapped ⟨s.proposals s.calls, len, site⟩, []⟩ := if_pos hfresh
  rw [hrun]
  refine ⟨by simp, ⟨hs.proposals, fun r hr => ?_⟩, le_rfl⟩
  have hnext : (s.mapped ⟨s.proposals s.calls, len, site⟩).calls = s.calls + 1 := rfl
  rw [hnext]
  rcases List.mem_cons.mp hr with rfl | hr
  · have hbase : s.proposals s.calls = (s.calls + 1) * 2 ^ 27 := by rw [hs.proposals, spaced]
    dsimp only
    omega
  · exact (hs.below r hr).trans (Nat.mul_le_mul_right _ (Nat.le_succ _))

end FewMmaps

/-! ## The metadata functions -/

section

variable {pf : Platform} {s : State} (hpf : pf.pageShift ≤ 27)

theorem fewMmaps_takeFromArena {size : Nat} : FewMmaps 0 (takeFromArena size) s :=
  .then_bind .global fun _ _ _ _ => .then_bind .load fun _ _ _ _ =>
    .then_bind .store fun _ _ _ _ => .pure _

include hpf in
theorem fewMmaps_bumpMetadata {size : Nat} : FewMmaps 1 (bumpMetadata pf size) s := by
  refine .then_bind .global fun arena _ _ _ => .then_bind (.ite (fun _ => .pure _) fun _ => .load)
    fun full _ _ _ => .ite (fun _ => ?_) fun _ => fewMmaps_takeFromArena.mono (by omega)
  have hlen : metaChunkSize ≠ 0 ∧ metaChunkSize ≤ 2 ^ 27 := by decide
  refine FewMmaps.bind (k := 0) (.mmap hlen.1 hlen.2 hpf) fun chunk _ _ _ =>
    .then_bind (.setGlobal rfl (fun _ h => h) rfl) fun _ _ _ _ => ?_
  refine .ite (fun _ => .pure _) fun _ => ?_
  exact .then_bind .store fun _ _ _ _ => .then_bind .store fun _ _ _ _ =>
    .then_bind .store fun _ _ _ _ => fewMmaps_takeFromArena

theorem fewMmaps_cmallocGet {r key : Nat} : FewMmaps 0 (cmallocGet r key) s :=
  .then_bind .load fun _ _ _ _ => .ite (fun _ => .pure _) fun _ =>
    .then_bind .load fun _ _ _ _ => .ite (fun _ => .pure _) fun _ => .load

theorem fewMmaps_storeSlot {r value key : Nat} : FewMmaps 0 (storeSlot r value key) s :=
  .then_bind .load fun _ _ _ _ => .then_bind .load fun _ _ _ _ => .then_bind .load fun _ _ _ _ =>
    .ite (fun _ => .then_bind .load fun _ _ _ _ => .then_bind .store fun _ _ _ _ => .store)
      fun _ => .store

theorem fewMmaps_cmallocMapWith {alloc : Nat → M Nat} {k r value key : Nat}
    (halloc : ∀ size s, FewMmaps k (alloc size) s) :
    FewMmaps (k + k) (cmallocMapWith alloc r value key) s := by
  have h2 : ∀ s, FewMmaps k (ensureL2Node alloc r key) s := fun s =>
    .then_bind .load fun _ _ _ _ => .ite (fun _ => FewMmaps.bind (k := 0) (halloc _ _)
      fun _ _ _ _ => .then_bind .store fun _ _ _ _ => .memsetL2) fun _ => .pure _
  have h3 : ∀ s, FewMmaps k (ensureL3Node alloc r key) s := fun s =>
    .then_bind .load fun _ _ _ _ => .then_bind .load fun _ _ _ _ => .ite
      (fun _ => FewMmaps.bind (k := 0) (halloc _ _) fun _ _ _ _ =>
        .then_bind .store fun _ _ _ _ => .then_bind .memsetL3 fun _ _ _ _ =>
          .then_bind .load fun _ _ _ _ => .store) fun _ => .pure _
  exact .bind (h2 s) fun _ _ _ _ => FewMmaps.bind (k := 0) (h3 _) fun _ _ _ _ => fewMmaps_storeSlot

include hpf in
theorem fewMmaps_cmallocAllocMetadata (size : Nat) : FewMmaps 1 (cmallocAllocMetadata pf size) s := by
  rw [cmallocAllocMetadata_eq]
  refine .then_bind .global fun _ _ _ _ => .then_bind (.ite (fun _ => .pure _)
    fun _ => fewMmaps_cmallocGet) fun _ _ _ _ => .ite (fun _ => fewMmaps_bumpMetadata hpf) fun _ => ?_
  have hmap : ∀ r v key s, FewMmaps 0 (cmallocMapWith (cmallocAllocMetadataAt pf 0) r v key) s :=
    fun _ _ _ _ => fewMmaps_cmallocMapWith (k := 0) fun _ _ => .fault .depth
  exact .then_bind .load fun _ _ _ _ => .then_bind (hmap _ _ _ _) fun _ _ _ _ =>
    .then_bind (.ite (fun _ => .emit trivial) fun _ => .pure _) fun _ _ _ _ => .pure _

include hpf in
theorem fewMmaps_cmallocMap {r value key : Nat} : FewMmaps 2 (cmallocMap pf r value key) s :=
  fewMmaps_cmallocMapWith fun size _ => fewMmaps_cmallocAllocMetadata hpf size

include hpf in
theorem fewMmaps_cmallocFreeMetadata (ptr size : Nat) :
    FewMmaps 3 (cmallocFreeMetadata pf ptr size) s := by
  have hroot : ∀ s, FewMmaps 1 (ensureFreeListMap pf) s := fun s =>
    .then_bind .global fun _ _ _ _ => .ite (fun _ => FewMmaps.bind (k := 0)
      (fewMmaps_cmallocAllocMetadata hpf _) fun _ _ _ _ => .setGlobal rfl (fun _ h => h) rfl)
      fun _ => .pure _
  exact FewMmaps.bind (k := 2) (hroot s) fun _ _ _ _ => .then_bind .global fun _ _ _ _ =>
    .then_bind fewMmaps_cmallocGet fun _ _ _ _ => .then_bind .store fun _ _ _ _ =>
      fewMmaps_cmallocMap hpf

theorem fewMmaps_cmallocUnmapWith {free : Nat → Nat → M Unit} {k r key : Nat}
    (hfree : ∀ ptr size s, FewMmaps k (free ptr size) s) :
    FewMmaps (k + k) (cmallocUnmapWith free r key) s := by
  have h2 : ∀ l2 s, FewMmaps k (dropEmptyL2 free r key l2) s := fun l2 s =>
    .then_bind .load fun _ _ _ _ => .ite (fun _ => FewMmaps.bind (k := 0) (hfree _ _ _)
      fun _ _ _ _ => .store) fun _ => .pure _
  exact .then_bind .load fun _ _ _ _ => .then_bind .assertThat fun _ _ _ _ =>
    .then_bind .load fun _ _ _ _ => .then_bind .assertThat fun _ _ _ _ =>
    .then_bind .load fun _ _ _ _ => .then_bind .assertThat fun _ _ _ _ =>
    .then_bind .store fun _ _ _ _ => .then_bind .load fun _ _ _ _ =>
    .then_bind .store fun _ _ _ _ => .then_bind .load fun _ _ _ _ => .ite
      (fun _ => .bind (hfree _ _ _) fun _ _ _ _ => .then_bind .store fun _ _ _ _ =>
        .then_bind .load fun _ _ _ _ => .then_bind .store fun _ _ _ _ => h2 _ _)
      fun _ => (h2 _ _).mono (by omega)

include hpf in
theorem fewMmaps_cmallocUnmap {r key : Nat} : FewMmaps 6 (cmallocUnmap pf r key) s :=
  fewMmaps_cmallocUnmapWith fun ptr size _ => fewMmaps_cmallocFreeMetadata hpf ptr size

include hpf in
theorem fewMmaps_cmallocMapRange {r data start stop : Nat} :
    FewMmaps ((stop - start) * 2) (cmallocMapRange pf r data start stop) s :=
  .loop (fun _ _ => fewMmaps_cmallocMap hpf) _ _ _

include hpf in
theorem fewMmaps_cmallocUnmapRange {r start stop : Nat} :
    FewMmaps ((stop - start) * 6) (cmallocUnmapRange pf r start stop) s :=
  .loop (fun _ _ => fewMmaps_cmallocUnmap hpf) _ _ _

end

end FastAlloc
