/-
FastAlloc.Spans.BestFit — the search of `find_best_fitting_uninitialized_span`.

The word-by-word scan, with its masked first word and its partial last one,
finds the first non-empty bin from `page_count` on, as a linear scan would.
-/
import FastAlloc.Spans.Blocks
import FastAlloc.Spans.Pool

namespace FastAlloc

open Lib Mem

/-- `r` is the first set bit from `start` on, `NO_FITTING_PAGE_SEQUENCE` for none. -/
def FirstBit (bm : Nat → BitVec 64) (start r : Nat) : Prop :=
  (r < maxBinnedPages ∧ start ≤ r ∧ bitAt bm r = true ∧ ∀ i, start ≤ i → i < r → bitAt bm i = false) ∨
    (r = noFittingPageSequence ∧ ∀ i, start ≤ i → bitAt bm i = false)

theorem bitAt_word (bm : Nat → BitVec 64) {w j : Nat} (hj : j < 64) :
    bitAt bm (w * 64 + j) = (bm w).getLsbD j := by
  rw [bitAt, show (w * 64 + j) / 64 = w by omega, show (w * 64 + j) % 64 = j by omega]

section

variable {bm : Nat → BitVec 64} {word : BitVec 64} {b i n w : Nat}

/-- The rest of word `w`, from bit `b` on. -/
def Masked (bm : Nat → BitVec 64) (w b : Nat) (word : BitVec 64) : Prop :=
  ∀ j < 64, word.getLsbD j = (decide (b ≤ j) && (bm w).getLsbD j)

theorem Masked.zero (bm : Nat → BitVec 64) (w : Nat) : Masked bm w 0 (bm w) := by
  intro j _
  simp

theorem masked_shiftLeft (bm : Nat → BitVec 64) (w b : Nat) :
    Masked bm w b (bm w &&& (BitVec.allOnes 64 <<< b)) := by
  intro j hj
  rw [BitVec.getLsbD_and, BitVec.getLsbD_shiftLeft, BitVec.getLsbD_allOnes, Bool.and_comm]
  congr 1
  by_cases hbj : b ≤ j
  · simp [hbj, hj]
    omega
  · simp [hbj]

/-- The word has a bit: its lowest is the first from there on. -/
theorem Masked.firstBit (h : Masked bm w b word) (hbm : ∀ i, bitAt bm i = true → i < maxBinnedPages)
    (h0 : word ≠ 0) : FirstBit bm (w * 64 + b) (w * 64 + lowest word) := by
  have hlt := lowest_lt h0
  have hbit := h _ hlt
  rw [getLsbD_lowest h0] at hbit
  simp only [Bool.true_eq, Bool.and_eq_true, decide_eq_true_eq] at hbit
  obtain ⟨hle, hset⟩ := hbit
  rw [← bitAt_word bm hlt] at hset
  refine .inl ⟨hbm _ hset, by omega, hset, fun i h₁ h₂ => ?_⟩
  -- bit `i` is in the same word, below the lowest
  obtain ⟨j, rfl⟩ := Nat.exists_eq_add_of_le (show w * 64 ≤ i by omega)
  have hj : j < 64 := by omega
  have hlow := h j hj
  rw [getLsbD_of_lt_lowest (by omega)] at hlow
  rw [bitAt_word bm hj]
  simpa [show b ≤ j by omega] using hlow.symm

/-- The word has no bit: there is none up to the next word. -/
theorem Masked.no_bit (h : Masked bm w b word) (h0 : word = 0) (h₁ : w * 64 + b ≤ i)
    (h₂ : i < (w + 1) * 64) : bitAt bm i = false := by
  obtain ⟨j, rfl⟩ := Nat.exists_eq_add_of_le (show w * 64 ≤ i by omega)
  have hj : j < 64 := by omega
  have hz := h j hj
  rw [h0] at hz
  rw [bitAt_word bm hj]
  simpa [show b ≤ j by omega] using hz.symm

theorem FirstBit.of_later {start start' r : Nat} (h : FirstBit bm start' r) (hle : start ≤ start')
    (hno : ∀ i, start ≤ i → i < start' → bitAt bm i = false) : FirstBit bm start r := by
  rcases h with ⟨hr, hs, hset, hlow⟩ | ⟨hr, hall⟩
  · refine .inl ⟨hr, by omega, hset, fun i h₁ h₂ => ?_⟩
    by_cases hi : i < start'
    · exact hno i h₁ hi
    · exact hlow i (by omega) h₂
  · refine .inr ⟨hr, fun i h₁ => ?_⟩
    by_cases hi : i < start'
    · exact hno i h₁ hi
    · exact hall i (by omega)

/-- The scan stops at a word with a bit. -/
theorem Masked.scan (h : Masked bm w b word) (hbm : ∀ i, bitAt bm i = true → i < maxBinnedPages)
    (h0 : word ≠ 0) (n : Nat) :
    FirstBit bm (w * 64 + b) (scanNonEmptyBitmap bm n w word) := by
  have hfirst := h.firstBit hbm h0
  have hlt : w * 64 + lowest word < maxBinnedPages := by
    rcases hfirst with ⟨hr, -⟩ | ⟨-, hall⟩
    · exact hr
    · have hbit := h _ (lowest_lt h0)
      rw [getLsbD_lowest h0, ← bitAt_word bm (lowest_lt h0)] at hbit
      simp only [Bool.true_eq, Bool.and_eq_true] at hbit
      exact hbm _ hbit.2
  unfold scanNonEmptyBitmap
  rw [if_pos h0, builtinCtzll_eq]
  change FirstBit bm _ (if w * 64 + lowest word < maxBinnedPages then _ else _)
  rwa [if_pos hlt]

/-- The scan from bit `b` of word `w` on. -/
theorem scanNonEmptyBitmap_spec (hbm : ∀ i, bitAt bm i = true → i < maxBinnedPages)
    (hw : w + n = freeBitmapWords - 1) (h : Masked bm w b word) (hb : b < 64) :
    FirstBit bm (w * 64 + b) (scanNonEmptyBitmap bm n w word) := by
  have hwords : freeBitmapWords = 129 := by decide
  have hmax : maxBinnedPages = 8193 := rfl
  induction n generalizing w b word with
  | zero =>
    by_cases h0 : word = 0
    · -- the last word: the bits after it would be past the last bin
      unfold scanNonEmptyBitmap
      rw [if_neg (by simpa using h0)]
      refine .inr ⟨rfl, fun i h₁ => ?_⟩
      by_cases hi : i < (w + 1) * 64
      · exact h.no_bit h0 h₁ hi
      · by_contra hset
        have := hbm i (by simpa using hset)
        omega
    · exact h.scan hbm h0 0
  | succ n ih =>
    by_cases h0 : word = 0
    · unfold scanNonEmptyBitmap
      rw [if_neg (by simpa using h0)]
      have hnext := ih (by omega) (Masked.zero bm (w + 1)) (by decide)
      exact hnext.of_later (by omega) fun i h₁ h₂ => h.no_bit h0 h₁ (by omega)
    · exact h.scan hbm h0 (n + 1)

/-- The search over a whole pool. -/
theorem View.Pool.firstBit {held : Nat → Prop} {v : View} (h : v.Pool held)
    (hn : n < maxBinnedPages) :
    FirstBit v.bitmap n (scanNonEmptyBitmap v.bitmap (freeBitmapWords - 1 - pageBitmapWordIndex n)
      (pageBitmapWordIndex n)
      (v.bitmap (pageBitmapWordIndex n) &&& (BitVec.allOnes 64 <<< pageBitmapBitIndex n))) := by
  have hwords : freeBitmapWords = 129 := by decide
  have hmax : maxBinnedPages = 8193 := rfl
  have hw : pageBitmapWordIndex n = n / 64 := Nat.shiftRight_eq_div_pow n 6
  have hb : pageBitmapBitIndex n = n % 64 := Nat.and_two_pow_sub_one_eq_mod n 6
  rw [hw, hb]
  have := scanNonEmptyBitmap_spec (n := freeBitmapWords - 1 - n / 64)
    (fun i hi => ((h.bitmap i).mp hi).1) (by omega) (masked_shiftLeft v.bitmap (n / 64) (n % 64))
    (by omega)
  rwa [show n / 64 * 64 + n % 64 = n by omega] at this

/-- What `find_best_fitting_uninitialized_span` answers: the smallest page
count from `n` on that a cached span has. -/
def View.BestFit (v : View) (n r : Nat) : Prop :=
  (r < maxBinnedPages ∧ n ≤ r ∧ v.bin r ≠ NULL ∧ ∀ i, n ≤ i → i < r → v.bin i = NULL) ∨
    (r = noFittingPageSequence ∧ ∀ i, n ≤ i → i < maxBinnedPages → v.bin i = NULL)

theorem findBestFittingUninitializedSpan_spec {pf : Platform} {strict : Bool} {W : Watch}
    {s : State} {v : View} {held : Nat → Prop} {A : Event → Prop} (h : Shows pf strict W s v)
    (hp : v.Pool held) (hn : n < maxBinnedPages) :
    Spec A (onStore W.Ok) (findBestFittingUninitializedSpan n) s
      fun r s' => s = s' ∧ v.BestFit n r := by
  have hfirst := hp.firstBit hn
  have hoff : ∀ i < maxBinnedPages, bitAt v.bitmap i = false → v.bin i = NULL := by
    intro i hi hb
    by_contra hne
    rw [(hp.bitmap i).mpr ⟨hi, hne⟩] at hb
    cases hb
  refine Spec.of_run run_global (by simp) ⟨rfl, ?_⟩
  rw [h.bitmap_eq]
  rcases hfirst with ⟨h₁, h₂, h₃, h₄⟩ | ⟨h₁, h₂⟩
  · exact .inl ⟨h₁, h₂, ((hp.bitmap _).mp h₃).2, fun i hi hlt => hoff i (hlt.trans h₁) (h₄ i hi hlt)⟩
  · exact .inr ⟨h₁, fun i hi hlt => hoff i hlt (h₂ i hi)⟩

end

end FastAlloc
