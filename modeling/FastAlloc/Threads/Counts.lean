/-
FastAlloc.Threads.Counts — the occupancy counters of both range maps.

The page map is written with spans and cleared with `cmalloc_unmap`, so its
counters are exact in every reachable world. The map of metadata free lists
is only ever written with `cmalloc_map`, also when a pop leaves NULL behind,
and that is never counted down: its counters are exact as long as no pop
empties a list.
-/
import FastAlloc.Threads.Direct

namespace FastAlloc

open Lib Mem View

/-- The counters of the range map `r` are exact, and none of its nodes is
empty. -/
structure Mem.CountsExact (m : Mem) (r : Nat) : Prop where
  l2_count : ∀ k, m.l2Of r k ≠ NULL →
    (m.l2 (m.l2Of r k)).count = occupied l2Size (m.l2 (m.l2Of r k)).l2
  l3_count : ∀ k, m.l3Of r k ≠ NULL →
    (m.l3 (m.l3Of r k)).count = occupied l3Size (m.l3 (m.l3Of r k)).l3
  l2_ne_zero : ∀ k, m.l2Of r k ≠ NULL → occupied l2Size (m.l2 (m.l2Of r k)).l2 ≠ 0
  l3_ne_zero : ∀ k, m.l3Of r k ≠ NULL → occupied l3Size (m.l3 (m.l3Of r k)).l3 ≠ 0

/-- Both range maps of the library have exact counters. -/
structure State.CountsExact (s : State) : Prop where
  pageMap : s.pageMap ≠ NULL → s.mem.CountsExact s.pageMap
  freeListMap : s.freeListMap ≠ NULL → s.mem.CountsExact s.freeListMap

/-- The step began no wrapping request, every `mmap` in it succeeded, and no
pop in it emptied a metadata free list. -/
def Platform.SteadyLabel (pf : Platform) (l : Label) : Prop :=
  (∀ n ∈ l.request, pf.NonWrapping n) ∧ ∀ e ∈ l.trace, Allowed true e

section

variable {R : Nat → Nat → Prop} {out : Nat → Option Nat} {m : Mem} {r k : Nat}

/-- A node above a key that is found is not empty. -/
theorem Mem.NoEmptyNode.occupied_l2 (h : m.NoEmptyNode r) (hk : m.l2Of r k ≠ NULL) :
    occupied l2Size (m.l2 (m.l2Of r k)).l2 ≠ 0 := by
  obtain ⟨k', h₁, hlook⟩ := h.l2 k hk
  have h3 := l3Of_ne_of_lookup_ne hlook
  have h2 := l2Of_ne_of_l3Of_ne h3
  rw [l3Of_of_l2Of h2] at h3
  rw [← l2Of_congr h₁]
  exact (occupied_pos (l2IndexOf_lt k') h3).ne'

theorem Mem.NoEmptyNode.occupied_l3 (h : m.NoEmptyNode r) (hk : m.l3Of r k ≠ NULL) :
    occupied l3Size (m.l3 (m.l3Of r k)).l3 ≠ 0 := by
  obtain ⟨k', h₁, h₂, hlook⟩ := h.l3 k hk
  have h3 := l3Of_ne_of_lookup_ne hlook
  rw [lookup_of_l3Of h3] at hlook
  rw [← l3Of_congr h₁ h₂]
  exact (occupied_pos (l3IndexOf_lt k') hlook).ne'

theorem Trie.countsExact (h : Trie R out m r) (hR : ∀ n c, R n c → n = c) (hne : m.NoEmptyNode r) :
    m.CountsExact r where
  l2_count := h.l2_count
  l3_count k hk := (hR _ _ (h.l3_count k hk)).symm
  l2_ne_zero _ := hne.occupied_l2
  l3_ne_zero _ := hne.occupied_l3

/-- A leaf that counts entries it does not have. -/
theorem Mem.CountsExact.not_of_leaf (h3 : m.l3Of r k ≠ NULL)
    (hcount : (m.l3 (m.l3Of r k)).count ≠ 0)
    (hnull : (List.range l3Size).all fun i => decide ((m.l3 (m.l3Of r k)).l3 i = NULL)) :
    ¬ m.CountsExact r := by
  intro h
  refine hcount ((h.l3_count k h3).trans (occupied_eq_zero.mpr fun i hi => ?_))
  exact of_decide_eq_true (List.all_eq_true.mp hnull i (List.mem_range.mpr hi))

end

section

variable {pf : Platform} {strict : Bool} {w w' : World} {v : View} {l : Label} {W : Watch}
  {s : State} {proposals : Nat → Nat}

theorem Shows.pageMap_countsExact (h : Shows pf strict W s v) (hr : s.pageMap ≠ NULL) :
    s.mem.CountsExact s.pageMap := by
  obtain ⟨st, h⟩ := h
  rw [h.root] at hr ⊢
  exact (h.trie hr).countsExact (fun _ _ => id) (h.noEmptyNode hr)

theorem Shows.countsExact (h : Shows pf true W s v) : s.CountsExact := by
  refine ⟨h.pageMap_countsExact, fun hF => ?_⟩
  obtain ⟨st, h⟩ := h
  exact (h.arena.trie hF).countsExact (fun _ _ he => he rfl) (h.settled rfl hF)

/-- In every reachable world the counters of the page map are exact. -/
theorem Reachable.pageMap_countsExact (h : Reachable pf w) (hr : w.state.pageMap ≠ NULL) :
    w.state.mem.CountsExact w.state.pageMap := by
  obtain ⟨v, hv⟩ := h.inv
  exact hv.heap.shows.pageMap_countsExact hr

theorem WorldInv.steady_run {w₀ : World} {v₀ : View} (h : WorldInv pf true w₀ v₀)
    (hrun : Run (Step pf) pf.SteadyLabel w₀ w) : ∃ v, WorldInv pf true w v :=
  hrun.invariant (P := fun w => ∃ v, WorldInv pf true w v) ⟨v₀, h⟩
    fun _ _ _ ⟨_, hv⟩ hst hg => hv.step hst hg.1 hg.2

/-- While no pop empties a free list, all counters are exact. -/
theorem counts_exact (hrun : Run (Step pf) pf.SteadyLabel (.initial proposals) w) :
    w.state.CountsExact := by
  obtain ⟨v, hv⟩ := (WorldInv.initial pf true proposals).steady_run hrun
  exact hv.heap.shows.countsExact

/-- A run goes on with a part of a call whose events are known. -/
theorem steady_part {w₀ : World} {t : Tid} {o : Option Call} {f : M Progress} {p : Progress}
    (hrun : Run (Step pf) pf.SteadyLabel w₀ w) (hf : NextPart pf w t o f)
    (hres : (f.run w.state).result = .ok p)
    (hall : (f.run w.state).trace.all fun e => decide (Allowed true e)) :
    ∃ w', Run (Step pf) pf.SteadyLabel w₀ w' ∧ w'.state = (f.run w.state).state ∧
      w'.pc t = p.reply.pc := by
  have htrace : ∀ e ∈ (f.run w.state).trace, Allowed true e := fun e he =>
    of_decide_eq_true (List.all_eq_true.mp hall e he)
  refine ⟨w.after t (f.run w.state).state p, ?_, rfl, Function.update_self ..⟩
  cases hf with
  | enter hpc hperm hreq =>
    exact hrun.tail (.enter hpc hperm (Program.run_of_result hres)) ⟨hreq, htrace⟩
  | resume hpc =>
    exact hrun.tail (.resume hpc (Program.run_of_result hres)) ⟨fun _ hn => (nomatch hn), htrace⟩

/-- A first request up to the span it initialises, on 32 MiB pages. -/
theorem counts_exact_first : ∃ w : World, w.state.pageMap ≠ NULL ∧ w.state.CountsExact := by
  have hresume : ((resume .hugePages 0 (.initSpan .malloc 16)).run
      (.initial fun n => 2 ^ 30 * (n + 1))).result =
        .ok ⟨.more (.allocate .malloc 16 (2 ^ 30 + 32816)), none, none⟩ := by decide +kernel
  have htrace : ((resume .hugePages 0 (.initSpan .malloc 16)).run
      (.initial fun n => 2 ^ 30 * (n + 1))).trace.all fun e => decide (Allowed true e) := by
    decide +kernel
  have hmap : ((resume .hugePages 0 (.initSpan .malloc 16)).run
      (.initial fun n => 2 ^ 30 * (n + 1))).state.pageMap ≠ NULL := by decide +kernel
  have hstart : ∃ w, Run (Step .hugePages) Platform.hugePages.SteadyLabel
      (.initial fun n => 2 ^ 30 * (n + 1)) w ∧ w.pc 0 = none ∧
        w.state = .initial fun n => 2 ^ 30 * (n + 1) := ⟨_, .refl, rfl, rfl⟩
  obtain ⟨w₀, hrun₀, hpc₀, hs₀⟩ := hstart
  have hbin : (enter .hugePages 0 (.malloc 16)).run w₀.state =
      ⟨.ok ⟨.more (.initSpan .malloc 16), none, none⟩, w₀.state, []⟩ := by
    rw [hs₀]
    rfl
  have hpart : NextPart .hugePages w₀ 0 (some (.malloc 16)) (enter .hugePages 0 (.malloc 16)) :=
    .enter hpc₀ trivial (by decide)
  obtain ⟨w₁, hrun₁, hs₁, hpc₁⟩ := steady_part hrun₀ hpart (congrArg Outcome.result hbin)
    (by rw [hbin]; rfl)
  have hs : w₁.state = .initial fun n => 2 ^ 30 * (n + 1) :=
    (hs₁.trans (congrArg Outcome.state hbin)).trans hs₀
  rw [← hs] at hresume htrace hmap
  obtain ⟨w₂, hrun₂, hs₂, -⟩ := steady_part hrun₁ (.resume hpc₁) hresume htrace
  exact ⟨w₂, hs₂ ▸ hmap, counts_exact hrun₂⟩

/-- A direct span handed out, given back and handed out again, on 4 KiB
pages: the second `cmalloc` pops the only free span record. -/
theorem not_counts_exact : ∃ w : World, Reachable .smallPages w ∧
    w.state = ((cmalloc .smallPages 0 directSize).run ((cfree .smallPages 0 (2 ^ 28)).run
      ((cmalloc .smallPages 0 directSize).run (.initial spaced)).state).state).state ∧
    ¬ w.state.CountsExact := by
  obtain ⟨w, hw, -, hs⟩ := Reachable.directAgain
  have hleaf := direct_again
  rw [← hs] at hleaf
  obtain ⟨hF, h3, hcount, hnull⟩ := hleaf
  exact ⟨w, hw, hs, fun h => Mem.CountsExact.not_of_leaf h3 (hcount.trans_ne Nat.one_ne_zero) hnull
    (h.freeListMap hF)⟩

end

end FastAlloc
