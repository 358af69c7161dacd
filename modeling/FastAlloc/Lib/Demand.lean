/-
FastAlloc.Lib.Demand — what a list of requests opens when each kind of
request is served from bundles of units.

A bundle of kind `k` has `cap k` units and takes up `wide k`; a new one is
opened for a request whose kind has no unit left. Nothing is given back. The
bundles opened depend on how many requests of each kind there are, not on
the order they come in, and fewer requests open fewer.
-/
import Mathlib.Data.List.Perm.Basic
import Mathlib.Data.Multiset.Count

namespace FastAlloc.Lib

/-- The units left of each kind, and how wide the bundles opened so far are. -/
structure Demand (κ : Type) where
  rest : κ → Nat
  opened : Multiset Nat

namespace Demand

variable {κ : Type} [DecidableEq κ] {cap wide : κ → Nat} {d : Demand κ} {j k : κ} {l l' : List κ}

def none : Demand κ := ⟨fun _ => 0, 0⟩

/-- Serve one request. -/
def ask (cap wide : κ → Nat) (d : Demand κ) (k : κ) : Demand κ :=
  if d.rest k = 0 then ⟨Function.update d.rest k (cap k - 1), wide k ::ₘ d.opened⟩
  else ⟨Function.update d.rest k (d.rest k - 1), d.opened⟩

theorem ask_of_zero (h : d.rest k = 0) :
    ask cap wide d k = ⟨Function.update d.rest k (cap k - 1), wide k ::ₘ d.opened⟩ := if_pos h

theorem ask_of_ne (h : d.rest k ≠ 0) :
    ask cap wide d k = ⟨Function.update d.rest k (d.rest k - 1), d.opened⟩ := if_neg h

/-- Requests of two kinds do not get in each other's way. -/
theorem ask_comm : ask cap wide (ask cap wide d j) k = ask cap wide (ask cap wide d k) j := by
  by_cases hjk : j = k
  · rw [hjk]
  have hkj : k ≠ j := fun h => hjk h.symm
  by_cases hj : d.rest j = 0
  · by_cases hk : d.rest k = 0
    · simp [ask, hj, hk, hjk, hkj, Function.update_comm hjk, Multiset.cons_swap]
    · simp [ask, hj, hk, hjk, hkj, Function.update_comm hjk]
  · by_cases hk : d.rest k = 0
    · simp [ask, hj, hk, hjk, hkj, Function.update_comm hjk]
    · simp [ask, hj, hk, hjk, hkj, Function.update_comm hjk]

theorem foldl_perm (h : l.Perm l') : l.foldl (ask cap wide) d = l'.foldl (ask cap wide) d :=
  h.foldl_eq' (fun _ _ _ _ _ => ask_comm) d

theorem opened_le_ask : d.opened ≤ (ask cap wide d k).opened := by
  unfold ask
  split
  · exact Multiset.le_cons_self ..
  · exact le_rfl

theorem opened_le_foldl : d.opened ≤ (l.foldl (ask cap wide) d).opened := by
  induction l generalizing d with
  | nil => exact le_rfl
  | cons k l ih => exact opened_le_ask.trans ih

/-- Some of the requests, in any order, open no more than all of them. -/
theorem opened_le_of_subperm (h : l'.Subperm l) :
    (l'.foldl (ask cap wide) d).opened ≤ (l.foldl (ask cap wide) d).opened := by
  obtain ⟨l₁, hperm, hsub⟩ := h
  obtain ⟨l₂, hall⟩ := hsub.exists_perm_append
  rw [foldl_perm hall, List.foldl_append, foldl_perm hperm]
  exact opened_le_foldl

end Demand

end FastAlloc.Lib
