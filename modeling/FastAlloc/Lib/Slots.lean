/-
FastAlloc.Lib.Slots — how many entries of a finite table of pointers are
non-zero, and how one write changes that number.
-/
import Mathlib.Algebra.Order.BigOperators.Group.Finset

namespace FastAlloc.Lib

/-- The number of non-zero entries among the first `n`. -/
def occupied (n : Nat) (f : Nat → Nat) : Nat := ((Finset.range n).filter fun i => f i ≠ 0).card

/-- 1 for a non-zero entry, 0 for an empty one. -/
def filled (v : Nat) : Nat := if v = 0 then 0 else 1

@[simp] theorem filled_zero : filled 0 = 0 := rfl

theorem filled_of_ne {v : Nat} (h : v ≠ 0) : filled v = 1 := if_neg h

@[simp] theorem occupied_zero (n : Nat) : occupied n (fun _ => 0) = 0 := by
  simp [occupied]

theorem occupied_le (n : Nat) (f : Nat → Nat) : occupied n f ≤ n := by
  simpa [occupied] using Finset.card_filter_le (Finset.range n) fun i => f i ≠ 0

theorem occupied_congr {n : Nat} {f g : Nat → Nat} (h : ∀ i < n, f i = g i) :
    occupied n f = occupied n g := by
  unfold occupied
  congr 1
  ext i
  simp only [Finset.mem_filter, Finset.mem_range]
  constructor
  · rintro ⟨hi, hf⟩; exact ⟨hi, by rwa [← h i hi]⟩
  · rintro ⟨hi, hg⟩; exact ⟨hi, by rwa [h i hi]⟩

theorem occupied_eq_zero {n : Nat} {f : Nat → Nat} :
    occupied n f = 0 ↔ ∀ i < n, f i = 0 := by
  simp [occupied, Finset.filter_eq_empty_iff]

/-- Only which entries are empty counts. -/
theorem occupied_eq_of_iff {n : Nat} {f g : Nat → Nat} (h : ∀ i < n, f i = 0 ↔ g i = 0) :
    occupied n f = occupied n g := by
  unfold occupied
  refine congrArg Finset.card (Finset.filter_congr fun i hi => ?_)
  exact not_congr (h i (Finset.mem_range.mp hi))

theorem exists_of_occupied {n : Nat} {f : Nat → Nat} (h : occupied n f ≠ 0) : ∃ i < n, f i ≠ 0 := by
  by_contra hnone
  refine h (occupied_eq_zero.mpr fun i hi => ?_)
  by_contra hne
  exact hnone ⟨i, hi, hne⟩

/-- A non-zero entry counts. -/
theorem occupied_pos {n : Nat} {f : Nat → Nat} {i : Nat} (hi : i < n) (hf : f i ≠ 0) :
    0 < occupied n f :=
  Nat.pos_of_ne_zero fun h => hf (occupied_eq_zero.mp h i hi)

/-- Writing entry `i`: what it held stops counting, what it holds counts. -/
theorem occupied_update {n : Nat} {f : Nat → Nat} {i : Nat} (hi : i < n) (v : Nat) :
    occupied n (Function.update f i v) + filled (f i) = occupied n f + filled v := by
  have hsplit : ∀ g : Nat → Nat, (∀ j, j ≠ i → g j = f j) →
      occupied n g = (((Finset.range n).erase i).filter fun j => f j ≠ 0).card + filled (g i) := by
    intro g hg
    have hrange : Finset.range n = insert i ((Finset.range n).erase i) :=
      (Finset.insert_erase (Finset.mem_range.mpr hi)).symm
    have hrest : (((Finset.range n).erase i).filter fun j => g j ≠ 0)
        = ((Finset.range n).erase i).filter fun j => f j ≠ 0 :=
      Finset.filter_congr fun j hj => by rw [hg j (Finset.ne_of_mem_erase hj)]
    unfold occupied
    rw [hrange, Finset.filter_insert]
    by_cases hgi : g i = 0
    · simp [hgi, hrest]
    · rw [if_pos hgi, Finset.card_insert_of_notMem (by simp), hrest, filled_of_ne hgi]
      simp
  rw [hsplit _ fun j hj => Function.update_of_ne hj _ _, hsplit f fun _ _ => rfl,
    Function.update_self]
  omega

end FastAlloc.Lib
