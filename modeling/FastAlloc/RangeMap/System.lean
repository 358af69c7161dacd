/-
FastAlloc.RangeMap.System — a range map as a finite map, over whole runs.

A client calls the five range-map functions in any order, on keys below
`2 ^ 35`, with any values; it unmaps only what is mapped. The counters of the
leaves are 64-bit words, and storing NULL counts a slot up without filling
it. So one thing is asked of a run besides: that no call counts a slot in a
leaf whose counter already stands at `2 ^ 64 - 1`.
-/
import FastAlloc.Lib.Run
import FastAlloc.RangeMap.Range

namespace FastAlloc

open Lib Mem

inductive MapOp
  | map (value key : Nat)
  | unmap (key : Nat)
  | mapRange (data start stop : Nat)
  | unmapRange (start stop : Nat)
  | get (key : Nat)

/-- What the operation makes of a finite map. -/
def MapOp.apply (f : Nat → Nat) : MapOp → Nat → Nat
  | .map value key => Function.update f key value
  | .unmap key => Function.update f key NULL
  | .mapRange data start stop => fun k => if start ≤ k ∧ k < stop then data else f k
  | .unmapRange start stop => fun k => if start ≤ k ∧ k < stop then NULL else f k
  | .get _ => f

/-- What a client may ask of a map with the contents `f`. -/
def MapOp.Permitted (f : Nat → Nat) : MapOp → Prop
  | .map _ key => key < 2 ^ 35
  | .unmap key => key < 2 ^ 35 ∧ f key ≠ NULL
  | .mapRange _ start stop => start ≤ stop ∧ stop ≤ 2 ^ 35
  | .unmapRange start stop => start ≤ stop ∧ stop ≤ 2 ^ 35 ∧ ∀ k, start ≤ k → k < stop → f k ≠ NULL
  | .get key => key < 2 ^ 35

/-- Counting the slot of `key` does not wrap its leaf's counter. -/
def Mem.CounterRoom (m : Mem) (r key : Nat) : Prop :=
  m.lookup r key = NULL → m.leafCount r key ≠ 2 ^ 64 - 1

/-- The number of non-NULL slots is at most the counter: NULL stores count
too, and nothing takes them back. -/
def CountsAtMost (n count : Nat) : Prop := n ≤ count ∧ count < 2 ^ 64

theorem countsUnmap_atMost : CountsUnmap CountsAtMost := by
  rintro n c ⟨h, hc⟩
  obtain ⟨c, rfl⟩ := Nat.exists_eq_succ_of_ne_zero (show c ≠ 0 by omega)
  rw [Nat.succ_eq_add_one] at *
  rw [sizeDec_succ]
  exact ⟨⟨by omega, by omega⟩, by omega⟩

theorem filled_le_one (v : Nat) : filled v ≤ 1 := by
  unfold filled
  split <;> omega

theorem countsMap_atMost {m : Mem} {r key value : Nat} (h : m.CounterRoom r key) :
    CountsMap CountsAtMost (m.lookup r key) value (m.leafCount r key) := by
  rintro n n' - ⟨hn, hc⟩ hcount
  have hv := filled_le_one value
  split
  · rename_i hnull
    have hroom := h hnull
    rw [hnull, filled_zero] at hcount
    rw [sizeInc_of_lt (by omega)]
    exact ⟨by omega, by omega⟩
  · rename_i hne
    rw [filled_of_ne hne] at hcount
    exact ⟨by omega, hc⟩

section

variable {A : Event → Prop} (N : NodeAllocator A) (r : Nat)

/-- The call that carries out an operation; only `get` has a result. -/
def MapOp.call : MapOp → M (Option Nat)
  | .map value key => do
    cmallocMapWith N.alloc r value key
    pure none
  | .unmap key => do
    cmallocUnmapWith N.free r key
    pure none
  | .mapRange data start stop => do
    cmallocMapRangeWith N.alloc r data start stop
    pure none
  | .unmapRange start stop => do
    cmallocUnmapRangeWith N.free r start stop
    pure none
  | .get key => do
    let value ← cmallocGet r key
    pure (some value)

/-- Every `cmalloc_map` in the operation, also those inside a range call,
finds room in the counter. -/
def MapOp.Room (s : State) : MapOp → Prop
  | .map _ key => s.mem.CounterRoom r key
  | .mapRange data start stop => ∀ j s' t, start + j < stop →
      (cmallocMapRangeWith N.alloc r data start (start + j)).run s = ⟨.ok (), s', t⟩ →
      s'.mem.CounterRoom r (start + j)
  | _ => True

/-- The range map in memory, and the finite map it should be. -/
structure MapWorld where
  state : State
  contents : Nat → Nat

/-- What a step was: the operation, the state before it, and its events. -/
structure MapLabel where
  op : MapOp
  before : State
  trace : List Event

inductive MapStep : MapWorld → MapLabel → MapWorld → Prop
  | call {w : MapWorld} {op : MapOp} {a : Option Nat} {s : State} {t : List Event} :
      op.Permitted w.contents → (op.call N r).run w.state = ⟨.ok a, s, t⟩ →
      MapStep w ⟨op, w.state, t⟩ ⟨s, op.apply w.contents⟩

/-- The step's calls found room in the counters, and its events are allowed. -/
def MapLabel.Good (l : MapLabel) : Prop := l.op.Room N r l.before ∧ ∀ e ∈ l.trace, A e

/-- What holds between two operations. -/
structure MapInv (w : MapWorld) (g : N.Ghost) : Prop where
  inv : N.Inv w.state g
  trie : Trie CountsAtMost (N.out g) w.state.mem r
  lookup_eq : ∀ k < 2 ^ 35, w.state.mem.lookup r k = w.contents k

end

variable {A : Event → Prop} {N : NodeAllocator A} {r : Nat}

theorem run_cmallocGet_of_trie {R : Nat → Nat → Prop} {s : State} {g : N.Ghost} (hi : N.Inv s g)
    (h : Trie R (N.out g) s.mem r) (k : Nat) :
    (cmallocGet r k).run s = ⟨.ok (s.mem.lookup r k), s, []⟩ :=
  have hp : s.mem.ValidPath r k := N.validPath hi h
  run_cmallocGet hp.root hp.l2 hp.l3

/-- Below `2 ^ 35` a change at the same key is a change at the key. -/
theorem ite_sameKey {f : Nat → Nat} {k key value : Nat} (hk : k < 2 ^ 35) (hkey : key < 2 ^ 35) :
    (if SameKey k key then value else f k) = Function.update f key value k := by
  rw [Function.update_apply]
  by_cases he : k = key
  · rw [if_pos he, if_pos (show SameKey k key from he ▸ rfl)]
  · rw [if_neg he, if_neg fun hs : SameKey k key => he (hs.eq hk hkey)]

/-- Each permitted operation returns, and leaves the map it should. -/
theorem MapInv.call_spec {w : MapWorld} {g : N.Ghost} (h : MapInv N r w g) {op : MapOp}
    (hp : op.Permitted w.contents) (hroom : op.Room N r w.state) :
    Spec A (onStore fun _ => True) (op.call N r) w.state fun a s' =>
      (∃ g', MapInv N r ⟨s', op.apply w.contents⟩ g') ∧
      ∀ k, op = .get k → a = some (w.contents k) := by
  cases op with
  | map value key =>
    refine Spec.bind (cmallocMapWith_spec h.inv h.trie ⟨le_rfl, by decide⟩ (countsMap_atMost hroom)
      fun _ _ => trivial) ?_
    rintro _ s' ⟨g', h'⟩
    refine Spec.pure ⟨⟨g', h'.inv, h'.trie, fun k hk => ?_⟩, by simp⟩
    rw [h'.lookup_eq, h.lookup_eq k hk]
    exact ite_sameKey hk hp
  | unmap key =>
    refine Spec.bind (cmallocUnmapWith_spec h.inv h.trie countsUnmap_atMost
      (by rw [h.lookup_eq key hp.1]; exact hp.2) fun _ _ => trivial) ?_
    rintro _ s' ⟨g', h'⟩
    refine Spec.pure ⟨⟨g', h'.inv, h'.trie, fun k hk => ?_⟩, by simp⟩
    rw [h'.lookup_eq, h.lookup_eq k hk]
    exact ite_sameKey hk hp.1
  | mapRange data start stop =>
    obtain ⟨n, rfl⟩ := Nat.exists_eq_add_of_le hp.1
    refine Spec.bind (cmallocMapRangeWith_spec h.inv h.trie ⟨le_rfl, by decide⟩
      (fun j s' t hj ht => countsMap_atMost (hroom j s' t (by omega) ht)) fun _ _ => trivial) ?_
    rintro _ s' ⟨g', h'⟩
    refine Spec.pure ⟨⟨g', h'.inv, h'.trie, fun k hk => ?_⟩, by simp⟩
    dsimp only [MapOp.apply]
    split
    · exact h'.lookup_in k ((inRange_iff hp.2 hk).mpr ‹_›)
    · exact (h'.lookup_out k fun hs => ‹¬ _› ((inRange_iff hp.2 hk).mp hs)).trans
        (h.lookup_eq k hk)
  | unmapRange start stop =>
    obtain ⟨n, rfl⟩ := Nat.exists_eq_add_of_le hp.1
    have hstop := hp.2.1
    refine Spec.bind (cmallocUnmapRangeWith_spec h.inv h.trie countsUnmap_atMost (by omega)
      (fun k h₁ h₂ => ?_) fun _ _ => trivial) ?_
    · rw [h.lookup_eq k (by omega)]
      exact hp.2.2 k h₁ h₂
    rintro _ s' ⟨g', h'⟩
    refine Spec.pure ⟨⟨g', h'.inv, h'.trie, fun k hk => ?_⟩, by simp⟩
    dsimp only [MapOp.apply]
    split
    · exact h'.lookup_in k ((inRange_iff hstop hk).mpr ‹_›)
    · exact (h'.lookup_out k fun hs => ‹¬ _› ((inRange_iff hstop hk).mp hs)).trans
        (h.lookup_eq k hk)
  | get key =>
    refine Spec.bind (Q := fun a s' => a = w.contents key ∧ s' = w.state)
      (Spec.of_run (run_cmallocGet_of_trie h.inv h.trie key) (by simp)
        ⟨h.lookup_eq key hp, rfl⟩) ?_
    rintro _ _ ⟨rfl, rfl⟩
    refine Spec.pure ⟨⟨g, h⟩, fun k hk => ?_⟩
    cases hk
    rfl

/-- The invariant passes along every good step. -/
theorem MapInv.step {w w' : MapWorld} {g : N.Ghost} {l : MapLabel} (h : MapInv N r w g)
    (hst : MapStep N r w l w') (hl : l.Good N r) : ∃ g', MapInv N r w' g' := by
  cases hst with
  | call hp hrun => exact ((h.call_spec hp hl.1).elim hrun hl.2).1.1

/-- The invariant holds after every good run from an empty map. -/
theorem mapInv_of_run {s₀ : State} {g₀ : N.Ghost} {w : MapWorld} (hi : N.Inv s₀ g₀)
    (hr : N.out g₀ r = some sizeofL1Node) (hz : s₀.mem.l1 r = .zero)
    (hrun : Run (MapStep N r) (MapLabel.Good N r) ⟨s₀, fun _ => NULL⟩ w) :
    ∃ g, MapInv N r w g :=
  hrun.invariant (P := fun w => ∃ g, MapInv N r w g)
    ⟨g₀, hi, Trie.zero hr hz, fun _ _ => lookup_zero hz⟩
    fun _ _ _ ⟨_, h⟩ hst hl => h.step hst hl

/-- What a range map owes its client in every state: lookups agree with the
finite map, permitted calls return, and every node a lookup reads is handed
out. -/
structure MapSound (N : NodeAllocator A) (r : Nat) (w : MapWorld) : Prop where
  get : ∀ k < 2 ^ 35, (cmallocGet r k).run w.state = ⟨.ok (w.contents k), w.state, []⟩
  returns : ∀ op : MapOp, op.Permitted w.contents → op.Room N r w.state →
    (∀ e ∈ ((op.call N r).run w.state).trace, A e) →
    ∃ a, ((op.call N r).run w.state).result = .ok a
  nodes_out : ∃ g, N.Inv w.state g ∧ ∀ k < 2 ^ 35,
    N.out g r = some sizeofL1Node ∧
    (w.state.mem.l2Of r k ≠ NULL → N.out g (w.state.mem.l2Of r k) = some sizeofL2Node) ∧
    (w.state.mem.l3Of r k ≠ NULL → N.out g (w.state.mem.l3Of r k) = some sizeofL3Node)

theorem MapInv.sound {w : MapWorld} {g : N.Ghost} (h : MapInv N r w g) : MapSound N r w where
  get k hk := by
    rw [run_cmallocGet_of_trie h.inv h.trie k, h.lookup_eq k hk]
  returns op hp hroom ht := by
    obtain ⟨⟨a, ha, -⟩, -⟩ := h.call_spec hp hroom ht
    exact ⟨a, ha⟩
  nodes_out := ⟨g, h.inv, fun k _ => ⟨h.trie.root, h.trie.l2_out k, h.trie.l3_out k⟩⟩

/-- After any run of operations that found room in the counters, over any
node allocator, the range map is the finite map it should be. -/
theorem range_map_refines {s₀ : State} {g₀ : N.Ghost} {w : MapWorld} (hi : N.Inv s₀ g₀)
    (hr : N.out g₀ r = some sizeofL1Node) (hz : s₀.mem.l1 r = .zero)
    (hrun : Run (MapStep N r) (MapLabel.Good N r) ⟨s₀, fun _ => NULL⟩ w) : MapSound N r w := by
  obtain ⟨g, h⟩ := mapInv_of_run hi hr hz hrun
  exact h.sound

end FastAlloc
