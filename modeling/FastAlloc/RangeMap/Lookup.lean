/-
FastAlloc.RangeMap.Lookup — what a range map in memory says, as a function
of the memory: the nodes on a key's path (`l2Of`, `l3Of`) and the value at
its end (`lookup`), and what each single write does to them.

Keys are cut to 35 bits by the index masks, so everything here depends on a
key modulo `2 ^ 35` only (`SameKey`).
-/
import FastAlloc.Model.Metadata
import FastAlloc.Model.Rules
import FastAlloc.Lib.Slots

namespace FastAlloc

open Lib

/-! ## Key indices -/

theorem l1IndexOf_eq (k : Nat) : l1IndexOf k = k / 2 ^ 23 % 2 ^ 12 := by
  rw [l1IndexOf, Nat.shiftRight_eq_div_pow]
  exact Nat.and_two_pow_sub_one_eq_mod _ 12

theorem l2IndexOf_eq (k : Nat) : l2IndexOf k = k / 2 ^ 11 % 2 ^ 12 := by
  rw [l2IndexOf, Nat.shiftRight_eq_div_pow]
  exact Nat.and_two_pow_sub_one_eq_mod _ 12

theorem l3IndexOf_eq (k : Nat) : l3IndexOf k = k % 2 ^ 11 := by
  rw [l3IndexOf]
  exact Nat.and_two_pow_sub_one_eq_mod _ 11

theorem l1IndexOf_lt (k : Nat) : l1IndexOf k < l1Size := by
  rw [l1IndexOf_eq]; exact Nat.mod_lt _ (by decide)

theorem l2IndexOf_lt (k : Nat) : l2IndexOf k < l2Size := by
  rw [l2IndexOf_eq]; exact Nat.mod_lt _ (by decide)

theorem l3IndexOf_lt (k : Nat) : l3IndexOf k < l3Size := by
  rw [l3IndexOf_eq]; exact Nat.mod_lt _ (by decide)

/-- Two keys a range map cannot tell apart. -/
def SameKey (k k' : Nat) : Prop := k % 2 ^ 35 = k' % 2 ^ 35

instance (k k' : Nat) : Decidable (SameKey k k') := inferInstanceAs (Decidable (_ = _))

theorem sameKey_iff (k k' : Nat) :
    SameKey k k' ↔ l1IndexOf k = l1IndexOf k' ∧ l2IndexOf k = l2IndexOf k' ∧
      l3IndexOf k = l3IndexOf k' := by
  simp only [SameKey, l1IndexOf_eq, l2IndexOf_eq, l3IndexOf_eq]
  omega

theorem SameKey.eq {k k' : Nat} (h : SameKey k k') (hk : k < 2 ^ 35) (hk' : k' < 2 ^ 35) :
    k = k' := by
  rwa [SameKey, Nat.mod_eq_of_lt hk, Nat.mod_eq_of_lt hk'] at h

theorem SameKey.refl (k : Nat) : SameKey k k := rfl

theorem SameKey.symm {k k' : Nat} (h : SameKey k k') : SameKey k' k := Eq.symm h

/-- The key with given indices. -/
theorem exists_key {i j l : Nat} (hi : i < l1Size) (hj : j < l2Size) (hl : l < l3Size) :
    ∃ k, l1IndexOf k = i ∧ l2IndexOf k = j ∧ l3IndexOf k = l := by
  have hi' : i < 4096 := hi
  have hj' : j < 4096 := hj
  have hl' : l < 2048 := hl
  refine ⟨i * 2 ^ 23 + j * 2 ^ 11 + l, ?_⟩
  simp only [l1IndexOf_eq, l2IndexOf_eq, l3IndexOf_eq]
  omega

/-! ## Paths and lookups -/

namespace Mem

/-- The L2 node on the path of `k`, or `NULL`. -/
def l2Of (m : Mem) (r : Nat) (k : Nat) : Nat := (m.l1 r).l1 (l1IndexOf k)

/-- The L3 node on the path of `k`, or `NULL`. -/
def l3Of (m : Mem) (r : Nat) (k : Nat) : Nat :=
  if m.l2Of r k = NULL then NULL else (m.l2 (m.l2Of r k)).l2 (l2IndexOf k)

/-- What `k` is mapped to, `NULL` for nothing. -/
def lookup (m : Mem) (r : Nat) (k : Nat) : Nat :=
  if m.l3Of r k = NULL then NULL else (m.l3 (m.l3Of r k)).l3 (l3IndexOf k)

/-- The counter of the L3 node on the path of `k`, 0 where there is none. -/
def leafCount (m : Mem) (r : Nat) (k : Nat) : Nat :=
  if m.l3Of r k = NULL then 0 else (m.l3 (m.l3Of r k)).count

variable {m : Mem} {r : Nat} {k k' : Nat}

theorem l1_l1IndexOf : (m.l1 r).l1 (l1IndexOf k) = m.l2Of r k := rfl

theorem l2Of_congr (h : l1IndexOf k = l1IndexOf k') : m.l2Of r k = m.l2Of r k' := by
  rw [l2Of, l2Of, h]

theorem l3Of_congr (h₁ : l1IndexOf k = l1IndexOf k') (h₂ : l2IndexOf k = l2IndexOf k') :
    m.l3Of r k = m.l3Of r k' := by
  rw [l3Of, l3Of, l2Of_congr h₁, h₂]

theorem lookup_congr (h : SameKey k k') : m.lookup r k = m.lookup r k' := by
  obtain ⟨h₁, h₂, h₃⟩ := (sameKey_iff k k').mp h
  rw [lookup, lookup, l3Of_congr h₁ h₂, h₃]

theorem l2Of_ne_of_l3Of_ne (h : m.l3Of r k ≠ NULL) : m.l2Of r k ≠ NULL := by
  intro h0
  exact h (by rw [l3Of, if_pos h0])

theorem l3Of_of_l2Of (h : m.l2Of r k ≠ NULL) :
    m.l3Of r k = (m.l2 (m.l2Of r k)).l2 (l2IndexOf k) := by
  rw [l3Of, if_neg h]

theorem l3Of_ne_of_lookup_ne (h : m.lookup r k ≠ NULL) : m.l3Of r k ≠ NULL := by
  intro h0
  exact h (by rw [lookup, if_pos h0])

theorem lookup_of_l3Of (h : m.l3Of r k ≠ NULL) :
    m.lookup r k = (m.l3 (m.l3Of r k)).l3 (l3IndexOf k) := by
  rw [lookup, if_neg h]

theorem l2Of_zero (h : m.l1 r = .zero) : m.l2Of r k = NULL := by
  rw [l2Of, h]; rfl

theorem lookup_zero (h : m.l1 r = .zero) : m.lookup r k = NULL := by
  rw [lookup, l3Of, l2Of_zero h]; rfl

/-- `a` is the root of the range map `r`, or a node below it. -/
def TrieNode (m : Mem) (r a : Nat) : Prop :=
  a = r ∨ a ≠ NULL ∧ ∃ k, a = m.l2Of r k ∨ a = m.l3Of r k

/-- A map that only gains nodes keeps those it had. -/
theorem TrieNode.mono {m' : Mem} {a : Nat} (h : m.TrieNode r a)
    (h2 : ∀ k, m'.l2Of r k = m.l2Of r k ∨ m.l2Of r k = NULL)
    (h3 : ∀ k, m'.l3Of r k = m.l3Of r k ∨ m.l3Of r k = NULL) : m'.TrieNode r a := by
  rcases h with rfl | ⟨hne, k, rfl | rfl⟩
  · exact .inl rfl
  · exact .inr ⟨hne, k, .inl ((h2 k).resolve_right hne).symm⟩
  · exact .inr ⟨hne, k, .inr ((h3 k).resolve_right hne).symm⟩

end Mem

/-- `cmalloc_get` computes `lookup` and touches nothing. -/
theorem run_cmallocGet {s : State} {r k : Nat} (hr : Valid r)
    (h₂ : s.mem.l2Of r k ≠ NULL → Valid (s.mem.l2Of r k))
    (h₃ : s.mem.l3Of r k ≠ NULL → Valid (s.mem.l3Of r k)) :
    (cmallocGet r k).run s = ⟨.ok (s.mem.lookup r k), s, []⟩ := by
  refine Program.run_bind_read (run_load hr) ?_
  change (if s.mem.l2Of r k = NULL then _ else _ : M Nat).run s = _
  by_cases h2 : s.mem.l2Of r k = NULL
  · rw [if_pos h2, Mem.lookup, Mem.l3Of, if_pos h2]
    rfl
  · rw [if_neg h2]
    refine Program.run_bind_read (run_load (h₂ h2)) ?_
    simp only [Mem.l1_l1IndexOf, ← Mem.l3Of_of_l2Of h2, Mem.lookup]
    split
    · rfl
    · exact run_load (h₃ ‹_›)

end FastAlloc
