/-
FastAlloc.Lib.Bitmap — sets of numbers as tables of 64-bit words.

`bitAt t i` is bit `i` of the table `t`. A table may have a summary word
whose bit `w` says whether word `w` is non-zero; the lowest bit of the table
is then found through the lowest bit of the summary.
-/
import Mathlib.Data.Nat.Basic
import Mathlib.Logic.Function.Basic

namespace FastAlloc.Lib

variable {t t' : Nat → BitVec 64} {i j w : Nat}

/-- Bit `i` of the table. -/
def bitAt (t : Nat → BitVec 64) (i : Nat) : Bool := (t (i / 64)).getLsbD (i % 64)

/-- The table with bit `i` set. -/
def setBit (t : Nat → BitVec 64) (i : Nat) : Nat → BitVec 64 :=
  Function.update t (i / 64) (t (i / 64) ||| 1#64 <<< (i % 64))

/-- The table with bit `i` cleared. -/
def clearBit (t : Nat → BitVec 64) (i : Nat) : Nat → BitVec 64 :=
  Function.update t (i / 64) (t (i / 64) &&& ~~~ (1#64 <<< (i % 64)))

theorem getLsbD_one_shiftLeft (hj : j < 64) : (1#64 <<< i).getLsbD j = decide (j = i) := by
  simp only [BitVec.getLsbD_shiftLeft, BitVec.getLsbD_one]
  by_cases h : j = i
  · simp [h]
    omega
  · simp [h]
    omega

theorem bitAt_setBit : bitAt (setBit t i) j = (decide (j = i) || bitAt t j) := by
  unfold bitAt setBit
  by_cases hw : j / 64 = i / 64
  · rw [hw, Function.update_self, BitVec.getLsbD_or, getLsbD_one_shiftLeft (by omega), Bool.or_comm]
    congr 2
    simp only [eq_iff_iff]
    omega
  · rw [Function.update_of_ne hw]
    have : j ≠ i := fun h => hw (h ▸ rfl)
    simp [this]

theorem bitAt_clearBit : bitAt (clearBit t i) j = (!decide (j = i) && bitAt t j) := by
  unfold bitAt clearBit
  by_cases hw : j / 64 = i / 64
  · have hlt : j % 64 < 64 := Nat.mod_lt _ (by decide)
    rw [hw, Function.update_self, BitVec.getLsbD_and, BitVec.getLsbD_not,
      getLsbD_one_shiftLeft hlt, Bool.and_comm]
    simp only [hlt, decide_true, Bool.true_and]
    congr 3
    simp only [eq_iff_iff]
    omega
  · rw [Function.update_of_ne hw]
    have : j ≠ i := fun h => hw (h ▸ rfl)
    simp [this]

theorem word_eq_zero_iff : t w = 0 ↔ ∀ b < 64, bitAt t (w * 64 + b) = false := by
  have hbit : ∀ b < 64, bitAt t (w * 64 + b) = (t w).getLsbD b := fun b hb => by
    rw [bitAt, show (w * 64 + b) / 64 = w by omega, show (w * 64 + b) % 64 = b by omega]
  constructor
  · intro h b hb
    rw [hbit b hb, h]
    simp
  · intro h
    refine BitVec.eq_of_getLsbD_eq fun b hb => ?_
    rw [← hbit b hb, h b hb]
    simp

theorem exists_bit_of_word (h : t w ≠ 0) : ∃ b < 64, bitAt t (w * 64 + b) = true := by
  by_contra hall
  refine h (word_eq_zero_iff.mpr fun b hb => ?_)
  by_contra hne
  exact hall ⟨b, hb, by simpa using hne⟩

theorem word_ne_zero_of_bit (h : bitAt t i = true) : t (i / 64) ≠ 0 := by
  intro h0
  rw [bitAt, h0] at h
  simp at h

/-- Tables with the same bits are the same. -/
theorem table_ext (h : ∀ i, bitAt t i = bitAt t' i) : t = t' := by
  funext w
  refine BitVec.eq_of_getLsbD_eq fun b hb => ?_
  have hb' := h (w * 64 + b)
  rwa [bitAt, bitAt, show (w * 64 + b) / 64 = w by omega,
    show (w * 64 + b) % 64 = b by omega] at hb'

/-- Clearing a bit just set, where it was not set before, and the reverse. -/
theorem setBit_clearBit (h : bitAt t i = true) : setBit (clearBit t i) i = t := by
  refine table_ext fun j => ?_
  rw [bitAt_setBit, bitAt_clearBit]
  by_cases hj : j = i
  · simp [hj, h]
  · simp [hj]

/-! ## The lowest bit -/

/-- The position of the lowest one of a word. -/
def lowest (x : BitVec 64) : Nat := x.ctz.toNat

theorem lowest_lt {x : BitVec 64} (h : x ≠ 0) : lowest x < 64 := by
  have := BitVec.ctz_lt_iff_ne_zero.mpr h
  rw [BitVec.lt_def] at this
  simpa [lowest] using this

theorem getLsbD_lowest {x : BitVec 64} (h : x ≠ 0) : x.getLsbD (lowest x) = true :=
  BitVec.getLsbD_true_ctz_of_ne_zero h

theorem getLsbD_of_lt_lowest {x : BitVec 64} (h : j < lowest x) : x.getLsbD j = false :=
  BitVec.getLsbD_false_of_lt_ctz h

/-- The summary says which of the first 64 words are non-zero. -/
def Summary (summary : BitVec 64) (t : Nat → BitVec 64) : Prop :=
  ∀ w < 64, summary.getLsbD w = true ↔ t w ≠ 0

/-- The lowest bit of the table, by way of the summary. -/
def lowestBit (summary : BitVec 64) (t : Nat → BitVec 64) : Nat :=
  lowest (t (lowest summary)) + lowest summary * 64

section

variable {summary : BitVec 64} (h : Summary summary t) (h0 : summary ≠ 0)
include h h0

theorem word_lowest_ne : t (lowest summary) ≠ 0 :=
  (h _ (lowest_lt h0)).mp (getLsbD_lowest h0)

theorem lowestBit_div : lowestBit summary t / 64 = lowest summary := by
  have := lowest_lt (word_lowest_ne h h0)
  unfold lowestBit
  omega

theorem lowestBit_mod : lowestBit summary t % 64 = lowest (t (lowest summary)) := by
  have := lowest_lt (word_lowest_ne h h0)
  unfold lowestBit
  omega

theorem lowestBit_lt : lowestBit summary t < 4096 := by
  have := lowest_lt (word_lowest_ne h h0)
  have := lowest_lt h0
  unfold lowestBit
  omega

theorem bitAt_lowestBit : bitAt t (lowestBit summary t) = true := by
  rw [bitAt, lowestBit_div h h0, lowestBit_mod h h0]
  exact getLsbD_lowest (word_lowest_ne h h0)

theorem bitAt_of_lt_lowestBit (hj : j < lowestBit summary t) : bitAt t j = false := by
  have hdiv := lowestBit_div h h0
  have hmod := lowestBit_mod h h0
  have hlt := lowest_lt h0
  by_cases hw : j / 64 = lowest summary
  · rw [bitAt, hw]
    exact getLsbD_of_lt_lowest (by omega)
  · -- an earlier word, which the summary says is zero
    have hw' : j / 64 < lowest summary := by omega
    have hz : ¬ t (j / 64) ≠ 0 := fun hne => by
      rw [← h _ (by omega), getLsbD_of_lt_lowest hw'] at hne
      simp at hne
    by_contra hb
    exact hz (word_ne_zero_of_bit (by simpa using hb))

end

theorem Summary.eq_zero_iff {summary : BitVec 64} (h : Summary summary t) :
    summary = 0 ↔ ∀ i < 4096, bitAt t i = false := by
  constructor
  · intro h0 i hi
    by_contra hb
    have := (h (i / 64) (by omega)).mpr (word_ne_zero_of_bit (by simpa using hb))
    simp [h0] at this
  · intro hall
    refine BitVec.eq_of_getLsbD_eq fun w hw => ?_
    have hz : t w = 0 := word_eq_zero_iff.mpr fun b hb => hall _ (by omega)
    by_contra hne
    have : summary.getLsbD w = true := by simpa using hne
    exact (h w hw).mp this hz

/-- Clearing a bit, with the summary bit of its word cleared where the word
becomes zero. -/
theorem Summary.clearBit {summary : BitVec 64} (h : Summary summary t) :
    Summary (if Lib.clearBit t i (i / 64) = 0 then summary &&& ~~~ (1#64 <<< (i / 64)) else summary)
      (Lib.clearBit t i) := by
  intro w hw
  by_cases hwi : w = i / 64
  · subst hwi
    split
    · rename_i hz
      simp [BitVec.getLsbD_and, getLsbD_one_shiftLeft hw, hz]
    · rename_i hz
      refine ⟨fun _ => hz, fun _ => (h _ hw).mpr fun h0 => hz ?_⟩
      simp [Lib.clearBit, h0]
  · have ht : Lib.clearBit t i w = t w := Function.update_of_ne hwi _ _
    rw [ht, ← h w hw]
    split
    · rw [BitVec.getLsbD_and, BitVec.getLsbD_not, getLsbD_one_shiftLeft hw]
      simp [hwi, hw]
    · rfl

/-- Setting a bit and the summary bit of its word. -/
theorem Summary.setBit {summary : BitVec 64} (h : Summary summary t) :
    Summary (summary ||| 1#64 <<< (i / 64)) (Lib.setBit t i) := by
  intro w hw
  rw [BitVec.getLsbD_or, getLsbD_one_shiftLeft hw]
  by_cases hwi : w = i / 64
  · have : bitAt (Lib.setBit t i) i = true := by simp [bitAt_setBit]
    have hne := word_ne_zero_of_bit this
    simpa [hwi] using hne
  · have ht : Lib.setBit t i w = t w := Function.update_of_ne hwi _ _
    rw [ht, ← h w hw]
    simp [hwi]

end FastAlloc.Lib
