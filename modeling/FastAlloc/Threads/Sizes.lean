/-
FastAlloc.Threads.Sizes — the size class of a request: the table that
`cmalloc_runtime_init` fills has, for every size up to the largest class, a
class whose blocks are big enough, and it is the first one that a scan of
the classes would find.
-/
import FastAlloc.Spans.Initialize

namespace FastAlloc

/-- The inner loop stops at a class that holds the bucket, before it runs
out of classes. -/
theorem advanceClass_spec {largest n cls : Nat} (hn : cls + n = sizeClassCount)
    (hl : largest ≤ maxSizeClass) (hc : cls < sizeClassCount) :
    advanceClass largest n cls < sizeClassCount ∧
      largest ≤ sizeClasses.getD (advanceClass largest n cls) 0 := by
  induction n generalizing cls with
  | zero => omega
  | succ n ih =>
    rw [advanceClass]
    split
    · rename_i hstep
      -- the last class holds every bucket
      have hlast : cls ≠ 47 := by
        rintro rfl
        have h47 : sizeClasses.getD 47 0 = maxSizeClass := rfl
        omega
      have hcount : sizeClassCount = 48 := rfl
      exact ih (by omega) (by omega)
    · rename_i hstop
      exact ⟨hc, Nat.le_of_not_lt fun hlt => hstop ⟨hc, hlt⟩⟩

theorem fillSizeClassTable_spec {n b cls i : Nat} (hn : b + n ≤ sizeClassTableLen)
    (hc : cls < sizeClassCount) (hi : i < n) :
    (fillSizeClassTable n b cls).getD i 0 < sizeClassCount ∧
      (b + i) <<< 4 ≤ sizeClasses.getD ((fillSizeClassTable n b cls).getD i 0) 0 := by
  induction n generalizing b cls i with
  | zero => omega
  | succ n ih =>
    have hlen : sizeClassTableLen = 2049 := rfl
    have hmax : maxSizeClass = 32768 := rfl
    have hbucket : b <<< 4 ≤ maxSizeClass := by
      rw [Nat.shiftLeft_eq]
      omega
    obtain ⟨hlt, hle⟩ := advanceClass_spec (n := sizeClassCount - cls) (by omega) hbucket hc
    rw [fillSizeClassTable]
    cases i with
    | zero =>
      rw [if_pos hlt]
      exact ⟨hlt, hle⟩
    | succ i =>
      have hrest := ih (b := b + 1) (i := i) (by omega) hlt (by omega)
      rw [show b + 1 + i = b + (i + 1) by omega] at hrest
      exact hrest

section

variable {pf : Platform} {size : Nat}

theorem getSizeClassIndex_large (h : maxSizeClass < size) :
    getSizeClassIndex size = largeClassSizeIndex := if_pos h

theorem getSizeClassIndex_small (h : size ≤ maxSizeClass) :
    0 ≤ getSizeClassIndex size ∧ getSizeClassIndex size < sizeClassCount ∧
      size ≤ sizeClasses.getD (getSizeClassIndex size).toNat 0 := by
  have hmax : maxSizeClass = 32768 := rfl
  have halign : byteAlignment = 16 := rfl
  have hidx : (size + (byteAlignment - 1)) >>> 4 < sizeClassTableLen := by
    have hlen : sizeClassTableLen = 2049 := rfl
    rw [Nat.shiftRight_eq_div_pow]
    omega
  have hfirst : 0 < sizeClassCount := by decide
  obtain ⟨h₁, h₂⟩ := fillSizeClassTable_spec (b := 0) (by omega) hfirst hidx
  rw [getSizeClassIndex, if_neg (by omega)]
  refine ⟨Int.natCast_nonneg _, Int.ofNat_lt.mpr h₁, ?_⟩
  rw [Int.toNat_natCast]
  refine le_trans ?_ h₂
  rw [Nat.zero_add, Nat.shiftLeft_eq, Nat.shiftRight_eq_div_pow]
  omega

theorem getSizeClassIndex_ne_large_iff :
    getSizeClassIndex size ≠ largeClassSizeIndex ↔ size ≤ maxSizeClass := by
  constructor
  · intro h
    by_contra hlt
    exact h (getSizeClassIndex_large (Nat.lt_of_not_le hlt))
  · intro h hl
    have := (getSizeClassIndex_small h).1
    have hneg : largeClassSizeIndex = -1 := rfl
    omega

/-- The blocks of the class of a size hold it. -/
theorem size_le_requestBlockSize : size ≤ requestBlockSize (getSizeClassIndex size) size := by
  rw [requestBlockSize]
  split
  · exact le_rfl
  · rename_i h
    exact (getSizeClassIndex_small (getSizeClassIndex_ne_large_iff.mp h)).2.2

theorem request_of_nonWrapping (h : pf.NonWrapping size) :
    pf.Request (getSizeClassIndex size) size := by
  by_cases hs : size ≤ maxSizeClass
  · obtain ⟨h₁, h₂, -⟩ := getSizeClassIndex_small hs
    exact .inr ⟨h₁, h₂⟩
  · have hlt := Nat.lt_of_not_le hs
    exact .inl ⟨getSizeClassIndex_large hlt, Nat.zero_lt_of_lt hlt, h⟩

/-- No request of a megabyte or less needs a direct span, -/
theorem pages_lt (hs : size ≤ 2 ^ 20) : pf.roundUpPage size >>> pf.pageShift < maxBinnedPages := by
  have hpos := pf.pageSize_pos
  have hge := pf.pageSize_ge
  have hps : pf.pageSize ≤ 2 ^ 63 := Nat.pow_le_pow_right Nat.two_pos (by have := pf.shift_lt; omega)
  have hwrap : pf.NonWrapping size := hs.trans (by omega)
  rw [pf.roundUpPage_pages hwrap, Nat.div_lt_iff_lt_mul hpos]
  change _ < 8193 * pf.pageSize
  omega

/-- and no size class does. -/
theorem requestPages_small {c : Int} (hc : 0 ≤ c ∧ c < sizeClassCount) :
    pf.roundUpPage (sizeClassSpanSize.getD c.toNat 0) >>> pf.pageShift < maxBinnedPages := by
  obtain ⟨-, -, -, -, -, hle⟩ := sizeClass_fits c.toNat (by omega)
  exact pages_lt hle

theorem requestPages_lt {c : Int} (hc : 0 ≤ c ∧ c < sizeClassCount) :
    pf.requestPages c size < maxBinnedPages := by
  have hne : c ≠ largeClassSizeIndex := by
    rintro rfl
    exact absurd hc.1 (by decide)
  rw [Platform.requestPages, requestBytes, if_neg hne]
  exact requestPages_small hc

/-! ## The first class that is big enough -/

/-- The inner loop passes over no class that would do. -/
theorem advanceClass_min {largest n cls : Nat}
    (hbefore : ∀ i < cls, sizeClasses.getD i 0 < largest) :
    ∀ i < advanceClass largest n cls, sizeClasses.getD i 0 < largest := by
  induction n generalizing cls with
  | zero => exact hbefore
  | succ n ih =>
    rw [advanceClass]
    split
    · rename_i hstep
      refine ih fun i hi => ?_
      rcases Nat.lt_succ_iff_lt_or_eq.mp hi with hlt | rfl
      · exact hbefore i hlt
      · exact hstep.2
    · exact hbefore

theorem fillSizeClassTable_min {n b cls i : Nat} (hn : b + n ≤ sizeClassTableLen)
    (hc : cls < sizeClassCount) (hi : i < n)
    (hbefore : ∀ j < cls, sizeClasses.getD j 0 < b <<< 4) :
    ∀ j < (fillSizeClassTable n b cls).getD i 0, sizeClasses.getD j 0 < (b + i) <<< 4 := by
  induction n generalizing b cls i with
  | zero => omega
  | succ n ih =>
    have hlen : sizeClassTableLen = 2049 := rfl
    have hmax : maxSizeClass = 32768 := rfl
    have hbucket : b <<< 4 ≤ maxSizeClass := by
      rw [Nat.shiftLeft_eq]
      omega
    obtain ⟨hlt, -⟩ := advanceClass_spec (n := sizeClassCount - cls) (by omega) hbucket hc
    have hmin := advanceClass_min (n := sizeClassCount - cls) hbefore
    rw [fillSizeClassTable]
    cases i with
    | zero =>
      rw [if_pos hlt]
      exact hmin
    | succ i =>
      -- the next bucket is bigger, so what was too small still is
      have hrest := ih (b := b + 1) (i := i) (by omega) hlt (by omega) fun j hj => by
        have hj' := hmin j hj
        rw [Nat.shiftLeft_eq] at hj' ⊢
        omega
      rw [show b + 1 + i = b + (i + 1) by omega] at hrest
      exact hrest

/-- No smaller class holds a request. -/
theorem getSizeClassIndex_min {j : Nat} (h : size ≤ maxSizeClass)
    (hj : j < (getSizeClassIndex size).toNat) : sizeClasses.getD j 0 < size := by
  have hmax : maxSizeClass = 32768 := rfl
  have halign : byteAlignment = 16 := rfl
  have hmult : ∀ i < sizeClassCount, sizeClasses.getD i 0 % 16 = 0 := by decide
  have hidx : (size + (byteAlignment - 1)) >>> 4 < sizeClassTableLen := by
    have hlen : sizeClassTableLen = 2049 := rfl
    rw [Nat.shiftRight_eq_div_pow]
    omega
  have hcount := (getSizeClassIndex_small h).2.1
  rw [getSizeClassIndex, if_neg (by omega), Int.toNat_natCast] at hj
  rw [getSizeClassIndex, if_neg (by omega)] at hcount
  have hstart : ∀ j < 0, sizeClasses.getD j 0 < 0 <<< 4 := fun j hj => absurd hj (Nat.not_lt_zero j)
  have hlt := fillSizeClassTable_min (by omega) (by decide) hidx hstart j hj
  rw [Nat.zero_add, Nat.shiftLeft_eq, Nat.shiftRight_eq_div_pow] at hlt
  -- the classes are multiples of 16, so rounding up to a bucket loses nothing
  have hclass := hmult j (by omega)
  omega

/-- A scan of the classes for the first that holds `size` bytes. -/
def scanSizeClasses (size : Nat) : Int :=
  match sizeClasses.findIdx? fun c => decide (size ≤ c) with
  | some i => i
  | none => largeClassSizeIndex

theorem getSizeClassIndex_eq_scan (size : Nat) : getSizeClassIndex size = scanSizeClasses size := by
  unfold scanSizeClasses
  rcases hf : sizeClasses.findIdx? fun c => decide (size ≤ c) with _ | i
  · -- the last class is too small
    have hnone := List.findIdx?_eq_none_iff.mp hf maxSizeClass (by decide)
    exact getSizeClassIndex_large (Nat.lt_of_not_le (of_decide_eq_false hnone))
  · obtain ⟨hi, hle, hbefore⟩ := List.findIdx?_eq_some_iff_getElem.mp hf
    have hget : ∀ j (hj : j < sizeClasses.length), sizeClasses.getD j 0 = sizeClasses[j] :=
      fun j hj => by simp [List.getD, List.getElem?_eq_getElem hj]
    have hle' : size ≤ sizeClasses.getD i 0 := by
      rw [hget i hi]
      exact of_decide_eq_true hle
    have hbound : ∀ j < 48, sizeClasses.getD j 0 ≤ maxSizeClass := by decide
    have hsmall : size ≤ maxSizeClass := hle'.trans (hbound i hi)
    obtain ⟨h₀, h₁, h₂⟩ := getSizeClassIndex_small hsmall
    have hfirst : ¬ (getSizeClassIndex size).toNat < i := by
      intro hlt
      have hno := hbefore _ hlt
      have hlen : (getSizeClassIndex size).toNat < sizeClasses.length := hlt.trans hi
      rw [hget _ hlen] at h₂
      exact hno (decide_eq_true h₂)
    have hleast : ¬ i < (getSizeClassIndex size).toNat := fun hlt =>
      absurd hle' (Nat.not_le.mpr (getSizeClassIndex_min hsmall hlt))
    change getSizeClassIndex size = (i : Int)
    omega

/-- What a size class costs. -/
structure SizeClassOk (size : Nat) : Prop where
  scan : getSizeClassIndex size = scanSizeClasses size
  /-- a block is less than twice the size, but for the smallest -/
  block : size ≤ maxSizeClass →
    requestBlockSize (getSizeClassIndex size) size ≤ max byteAlignment (2 * (size - 1))
  /-- a span has no room for another block -/
  span : size ≤ maxSizeClass →
    requestBlockCount (getSizeClassIndex size) * requestBlockSize (getSizeClassIndex size) size
      ≤ requestBytes (getSizeClassIndex size) size ∧
    requestBytes (getSizeClassIndex size) size <
      (requestBlockCount (getSizeClassIndex size) + 1) * requestBlockSize (getSizeClassIndex size) size

/-- The table lookup is the scan, and the classes waste little. -/
theorem sizeClass_sound (size : Nat) : SizeClassOk size := by
  have hdouble : ∀ i < 47, sizeClasses.getD (i + 1) 0 ≤ 2 * sizeClasses.getD i 0 := by decide
  have hfull : ∀ i < sizeClassCount, sizeClassBlockCount.getD i 0 * sizeClasses.getD i 0 ≤
      sizeClassSpanSize.getD i 0 ∧ sizeClassSpanSize.getD i 0 <
        (sizeClassBlockCount.getD i 0 + 1) * sizeClasses.getD i 0 := by decide
  constructor
  case scan => exact getSizeClassIndex_eq_scan size
  case block =>
    intro h
    have hne := getSizeClassIndex_ne_large_iff.mpr h
    obtain ⟨h₀, h₁, -⟩ := getSizeClassIndex_small h
    rw [requestBlockSize, if_neg hne]
    rcases hi : (getSizeClassIndex size).toNat with _ | i
    · exact Nat.le_max_left ..
    · have hprev := getSizeClassIndex_min (j := i) h (by omega)
      have hstep := hdouble i (by have : sizeClassCount = 48 := rfl; omega)
      exact (by omega : sizeClasses.getD (i + 1) 0 ≤ 2 * (size - 1)).trans (Nat.le_max_right ..)
  case span =>
    intro h
    have hne := getSizeClassIndex_ne_large_iff.mpr h
    obtain ⟨h₀, h₁, -⟩ := getSizeClassIndex_small h
    rw [requestBlockSize, requestBlockCount, requestBytes, if_neg hne, if_neg hne, if_neg hne]
    exact hfull _ (by omega)

end

end FastAlloc
