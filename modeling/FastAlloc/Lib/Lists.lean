/-
FastAlloc.Lib.Lists — several doubly linked lists that share their link
fields, as when a record can be in one of many bins.

`bin a` is the list that `a` is in. Pushing and removing change the links of
one list, and the lemmas say that the others keep theirs.
-/
import FastAlloc.Lib.Chain
import Mathlib.Logic.Function.Basic

namespace FastAlloc.Lib

variable {α ι : Type} {null a b : α} {next prev next' prev' : α → α} {head head' : ι → α}
  {bin bin' : α → Option ι} {i j : ι}

/-- For every `i`, the nodes with `bin a = some i` form the list that starts
at `head i`. -/
def Lists (null : α) (next prev : α → α) (head : ι → α) (bin : α → Option ι) : Prop :=
  ∀ i, LinkedOf null next prev (head i) fun a => bin a = some i

namespace Lists

theorem ne_null (h : Lists null next prev head bin) (ha : bin a = some i) : a ≠ null :=
  (h i).chainOf.ne_null ha

theorem head_mem (h : Lists null next prev head bin) (hi : head i ≠ null) : bin (head i) = some i :=
  (h i).chainOf.head_mem hi

/-- Only the members matter. -/
theorem congr (h : Lists null next prev head bin)
    (hn : ∀ a i, bin a = some i → next' a = next a ∧ prev' a = prev a)
    (hh : ∀ i, head' i = head i) (hb : ∀ a, bin' a = bin a) :
    Lists null next' prev' head' bin' := by
  intro i
  rw [hh i]
  exact (h i).congr (fun a ha => (hn a i ha).1) (fun a ha => (hn a i ha).2) fun a => by rw [hb a]

section

variable [DecidableEq α] [DecidableEq ι]

/-- The `prev` links after `a` went in front of `first`. -/
def pushPrev (null : α) (prev : α → α) (first a : α) : α → α := fun b =>
  if b = a then null else if b = first then a else prev b

/-- The `next` links after `a` was taken out. -/
def removeNext (null : α) (next prev : α → α) (a : α) : α → α := fun b =>
  if b = a then null else if b = prev a then next a else next b

/-- The `prev` links after `a` was taken out. -/
def removePrev (null : α) (next prev : α → α) (a : α) : α → α := fun b =>
  if b = a then null else if b = next a then prev a else prev b

theorem push (h : Lists null next prev head bin) (ha : a ≠ null) (hb : bin a = none) :
    Lists null (Function.update next a (head i)) (pushPrev null prev (head i) a)
      (Function.update head i a) (Function.update bin a (some i)) := by
  have hne : ∀ j b, bin b = some j → b ≠ a := by
    intro j b hj he
    rw [he, hb] at hj
    cases hj
  have hnext : ∀ j b, bin b = some j → Function.update next a (head i) b = next b :=
    fun j b hj => Function.update_of_ne (hne j b hj) _ _
  intro j
  by_cases hij : j = i
  · subst hij
    rw [Function.update_self]
    have hprev : pushPrev null prev (head j) a a = null := if_pos rfl
    refine ((h j).push ha (Function.update_self ..) hprev (fun h0 => ?_) (hnext j)
      fun b hj hh => ?_).congr (fun _ _ => rfl) (fun _ _ => rfl) fun b => ?_
    · rw [pushPrev, if_neg (hne j _ (h.head_mem h0)), if_pos rfl]
    · rw [pushPrev, if_neg (hne j b hj), if_neg hh]
    · by_cases hba : b = a
      · simp [hba]
      · simp [hba]
  · rw [Function.update_of_ne hij]
    refine (h j).congr (hnext j) (fun b hj => ?_) fun b => ?_
    · -- a member of list `j` is not the head of list `i`
      have hhead : b ≠ head i := by
        intro he
        have hi := h.head_mem (he ▸ h.ne_null hj)
        rw [← he, hj] at hi
        exact hij (Option.some.inj hi)
      rw [pushPrev, if_neg (hne j b hj), if_neg hhead]
    · by_cases hba : b = a
      · simp [hba, hb, Ne.symm hij]
      · simp [hba]

theorem remove (h : Lists null next prev head bin) (hb : bin a = some i) :
    Lists null (removeNext null next prev a) (removePrev null next prev a)
      (Function.update head i (if prev a = null then next a else head i))
      (Function.update bin a none) := by
  intro j
  by_cases hij : j = i
  · subst hij
    rw [Function.update_self]
    refine ((h j).remove hb (fun b _ hba => ?_) fun b _ hba => ?_).congr (fun _ _ => rfl)
      (fun _ _ => rfl) fun b => ?_
    · rw [removeNext, if_neg hba]
    · rw [removePrev, if_neg hba]
    · by_cases hba : b = a
      · simp [hba]
      · simp [hba]
  · rw [Function.update_of_ne hij]
    -- the neighbours of `a` are in list `i`
    have hother : ∀ b c, bin b = some j → (c ≠ null → bin c = some i) → b ≠ c := by
      intro b c hj hc he
      have hi := hc (he ▸ h.ne_null hj)
      rw [← he, hj] at hi
      exact hij (Option.some.inj hi)
    have hba : ∀ b, bin b = some j → b ≠ a := fun b hj => hother b a hj fun _ => hb
    refine (h j).congr (fun b hj => ?_) (fun b hj => ?_) fun b => ?_
    · have hp := hother b (prev a) hj fun h0 => ((h i).prev_mem hb h0).1
      rw [removeNext, if_neg (hba b hj), if_neg hp]
    · have hn := hother b (next a) hj fun h0 => ((h i).next_mem hb h0).1
      rw [removePrev, if_neg (hba b hj), if_neg hn]
    · by_cases he : b = a
      · simp [he, hb, Ne.symm hij]
      · simp [he]

omit [DecidableEq ι] in
/-- Taking out the head of a list and putting it back restores the links. -/
theorem push_remove_head (h : Lists null next prev head bin) (hb : bin a = some i)
    (hhead : head i = a) (h0 : b ≠ null) :
    Function.update (removeNext null next prev a) a (next a) b = next b ∧
      pushPrev null (removePrev null next prev a) (next a) a b = prev b := by
  have hprev : prev a = null := ((h i).prev_eq_null_iff hb).mpr hhead.symm
  by_cases hba : b = a
  · subst hba
    exact ⟨Function.update_self .., (if_pos rfl).trans hprev.symm⟩
  · rw [Function.update_of_ne hba, removeNext, if_neg hba, hprev, if_neg h0, pushPrev, if_neg hba]
    refine ⟨rfl, ?_⟩
    by_cases hbn : b = next a
    · rw [if_pos hbn, hbn, (h i).prev_next hb (hbn ▸ h0)]
    · rw [if_neg hbn, removePrev, if_neg hba, if_neg hbn]

end

end Lists

end FastAlloc.Lib
