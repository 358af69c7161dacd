/-
FastAlloc.Lib.Tiling — intervals that partition a range.

`Tiles lo len start stop l` says that the intervals `[lo a, lo a + len a)`
of the items of `l` follow one another from `start` to `stop`: none is
empty, none overlaps another, and nothing of the range is left out.
-/
import Mathlib.Data.List.Basic

namespace FastAlloc.Lib

variable {α : Type} {lo len lo' len' : α → Nat} {start stop x : Nat} {a b : α} {l l' : List α}

def Tiles (lo len : α → Nat) : Nat → Nat → List α → Prop
  | start, stop, [] => start = stop
  | start, stop, a :: l => lo a = start ∧ 0 < len a ∧ Tiles lo len (start + len a) stop l

namespace Tiles

theorem le (h : Tiles lo len start stop l) : start ≤ stop := by
  induction l generalizing start with
  | nil => exact Nat.le_of_eq h
  | cons b l ih =>
    have := ih h.2.2
    omega

/-- The intervals lie inside the range. -/
theorem bounds (h : Tiles lo len start stop l) (ha : a ∈ l) :
    start ≤ lo a ∧ lo a + len a ≤ stop ∧ 0 < len a := by
  induction l generalizing start with
  | nil => simp at ha
  | cons b l ih =>
    obtain ⟨hb, hlen, hl⟩ := h
    rcases List.mem_cons.mp ha with rfl | ha
    · have := hl.le
      omega
    · have := ih hl ha
      omega

/-- Every point of the range lies in one of them. -/
theorem exists_cover (h : Tiles lo len start stop l) (h₁ : start ≤ x) (h₂ : x < stop) :
    ∃ a ∈ l, lo a ≤ x ∧ x < lo a + len a := by
  induction l generalizing start with
  | nil =>
    have : start = stop := h
    omega
  | cons b l ih =>
    obtain ⟨hb, hlen, hl⟩ := h
    by_cases hx : x < start + len b
    · exact ⟨b, List.mem_cons_self .., by omega, by omega⟩
    · obtain ⟨a, ha, hcover⟩ := ih hl (by omega)
      exact ⟨a, List.mem_cons_of_mem _ ha, hcover⟩

/-- Two of them do not overlap. -/
theorem apart (h : Tiles lo len start stop l) (ha : a ∈ l) (hb : b ∈ l) (hne : a ≠ b) :
    lo a + len a ≤ lo b ∨ lo b + len b ≤ lo a := by
  induction l generalizing start with
  | nil => simp at ha
  | cons c l ih =>
    obtain ⟨hc, hlen, hl⟩ := h
    rcases List.mem_cons.mp ha with rfl | ha'
    · have := hl.bounds ((List.mem_cons.mp hb).resolve_left hne.symm)
      omega
    · rcases List.mem_cons.mp hb with rfl | hb'
      · have := hl.bounds ha'
        omega
      · exact ih hl ha' hb'

theorem congr (h : Tiles lo len start stop l) (hlo : ∀ a ∈ l, lo' a = lo a)
    (hlen : ∀ a ∈ l, len' a = len a) : Tiles lo' len' start stop l := by
  induction l generalizing start with
  | nil => exact h
  | cons b l ih =>
    obtain ⟨hb, hb', hl⟩ := h
    refine ⟨(hlo b (List.mem_cons_self ..)).trans hb, ?_, ?_⟩
    · rw [hlen b (List.mem_cons_self ..)]
      exact hb'
    · rw [hlen b (List.mem_cons_self ..)]
      exact ih hl (fun a ha => hlo a (List.mem_cons_of_mem _ ha))
        fun a ha => hlen a (List.mem_cons_of_mem _ ha)

/-- Each interval ends where the next one starts. -/
theorem next (h : Tiles lo len start stop (l ++ a :: b :: l')) : lo b = lo a + len a := by
  induction l generalizing start with
  | nil =>
    obtain ⟨ha, -, hb, -⟩ := h
    omega
  | cons c l ih => exact ih h.2.2

/-- The last one ends where the range does. -/
theorem last (h : Tiles lo len start stop (l ++ [a])) : lo a + len a = stop := by
  induction l generalizing start with
  | nil =>
    obtain ⟨ha, -, hs⟩ := h
    have : start + len a = stop := hs
    omega
  | cons c l ih => exact ih h.2.2

/-- Cutting the interval of `a` in two. -/
theorem split (h : Tiles lo len start stop (l ++ a :: l')) (hlo : lo' a = lo a)
    (ha : 0 < len' a) (hb : 0 < len' b) (hlob : lo' b = lo a + len' a)
    (hsum : len' a + len' b = len a) (hlo' : ∀ x, x ∈ l ∨ x ∈ l' → lo' x = lo x)
    (hlen' : ∀ x, x ∈ l ∨ x ∈ l' → len' x = len x) :
    Tiles lo' len' start stop (l ++ a :: b :: l') := by
  induction l generalizing start with
  | nil =>
    obtain ⟨has, -, hl⟩ := h
    refine ⟨hlo.trans has, ha, by omega, hb, ?_⟩
    rw [show start + len' a + len' b = start + len a by omega]
    exact hl.congr (fun x hx => hlo' x (.inr hx)) fun x hx => hlen' x (.inr hx)
  | cons c l ih =>
    obtain ⟨hc, hc', hl⟩ := h
    have hmem : c ∈ c :: l := List.mem_cons_self ..
    have hlenc : len' c = len c := hlen' c (.inl hmem)
    refine ⟨(hlo' c (.inl hmem)).trans hc, by omega, ?_⟩
    rw [hlenc]
    exact ih hl (fun x hx => hlo' x (hx.imp_left (List.mem_cons_of_mem _)))
      fun x hx => hlen' x (hx.imp_left (List.mem_cons_of_mem _))

end Tiles

end FastAlloc.Lib
