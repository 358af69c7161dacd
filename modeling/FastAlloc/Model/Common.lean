/-
FastAlloc.Model.Common — `src/common.h`: the constants, the size-class
tables and the page and alignment arithmetic every other module uses.

Addresses and `size_t` values are natural numbers (`Nat`). Where the C arithmetic
can wrap (`round_up_page` near `SIZE_MAX`, the 64-bit counters) the wrap is
written out as `% 2 ^ 64`; a mask `& ~m` is written with `bitNot`.

`Platform` carries what the library reads from the system once, at start:
the page shift. `depth` bounds the nesting of the two mutually recursive
metadata functions (`Model/Metadata`); every positive bound gives the same
runs, which is a theorem about them and not an assumption.
-/
import Mathlib.Algebra.Group.Nat.Defs

namespace FastAlloc

/-- `NULL`. -/
abbrev NULL : Nat := 0

/-- `MAP_FAILED`, that is `(void *)-1`. -/
abbrev MAP_FAILED : Nat := 2 ^ 64 - 1

/-- The 64-bit complement `~x`. -/
@[irreducible] def bitNot (x : Nat) : Nat := 2 ^ 64 - 1 - x

/-- `x + 1` on a `size_t`, which wraps to 0. -/
@[irreducible] def sizeInc (x : Nat) : Nat := if x = 2 ^ 64 - 1 then 0 else x + 1

/-- `x - 1` on a `size_t`, which wraps to `2 ^ 64 - 1`. -/
@[irreducible] def sizeDec (x : Nat) : Nat := if x = 0 then 2 ^ 64 - 1 else x - 1

theorem sizeInc_of_lt {x : Nat} (h : x < 2 ^ 64 - 1) : sizeInc x = x + 1 := by
  rw [sizeInc, if_neg (Nat.ne_of_lt h)]

theorem sizeInc_eq_mod {x : Nat} (h : x < 2 ^ 64) : sizeInc x = (x + 1) % 2 ^ 64 := by
  unfold sizeInc
  split <;> omega

theorem sizeDec_succ (x : Nat) : sizeDec (x + 1) = x := by
  rw [sizeDec, if_neg (Nat.succ_ne_zero x), Nat.add_sub_cancel]

/-- The page shift the system reports, and the model's recursion bound. -/
structure Platform where
  pageShift : Nat
  depth : Nat
  twelve_le : 12 ≤ pageShift
  shift_lt : pageShift < 64
  depth_pos : 0 < depth

/-- `PAGE_SIZE`. -/
def Platform.pageSize (pf : Platform) : Nat := 2 ^ pf.pageShift

/-- Pages of 4 KiB. -/
def Platform.smallPages : Platform := ⟨12, 1, by decide, by decide, by decide⟩

/-- Pages of 32 MiB, so that a data chunk is one page. -/
def Platform.hugePages : Platform := ⟨25, 1, by decide, by decide, by decide⟩

/-! ## Constants -/

abbrev mmapAccessableBitSize : Nat := 47
abbrev byteAlignment : Nat := 16
abbrev largeClassSizeIndex : Int := -1
abbrev maxSizeClass : Nat := 32768
abbrev maxSpanBlockCount : Nat := 4096

def sizeClasses : List Nat := [
  16,   32,   48,   64,   80,   96,   112,  128,
  144,  160,  176,  192,  208,  224,  240,  256,
  288,  320,  352,  384,  416,  448,  480,  512,
  576,  640,  704,  768,  832,  896,  960,  1024,
  1152, 1280, 1408, 1536, 1792, 2048,
  2560, 3072, 3584, 4096,
  5120, 6144, 7168, 8192,
  16384, 32768]

def sizeClassSpanSize : List Nat := [
  65536, 65536, 65536, 65536, 65536, 65536, 65536, 65536,
  65536, 65536, 65536, 65536, 65536, 65536, 65536, 65536,
  131072, 131072, 131072, 131072, 131072, 131072, 131072, 131072,
  131072, 131072, 131072, 131072, 131072, 131072, 131072, 131072,
  262144, 262144, 262144, 262144, 262144, 262144,
  524288, 524288, 524288, 524288,
  524288, 524288, 524288, 524288,
  1048576, 1048576]

def sizeClassBlockCount : List Nat := [
  4096, 2048, 1365, 1024, 819, 682, 585, 512,
  455, 409, 372, 341, 315, 292, 273, 256,
  455, 409, 372, 341, 315, 292, 273, 256,
  227, 204, 186, 170, 157, 146, 136, 128,
  227, 204, 186, 170, 146, 128,
  204, 170, 146, 128,
  102, 85, 73, 64,
  64, 32]

abbrev sizeClassCount : Nat := 48
abbrev sizeClassTableLen : Nat := (maxSizeClass >>> 4) + 1

/-! ## The size-class lookup table -/

/-- The inner `while` of `cmalloc_runtime_init`: advance `cls` past the
classes smaller than `largestInBucket`. The first argument counts the
classes still ahead. -/
def advanceClass (largestInBucket : Nat) : Nat → Nat → Nat
  | 0, cls => cls
  | n + 1, cls =>
    if cls < sizeClassCount ∧ sizeClasses.getD cls 0 < largestInBucket then
      advanceClass largestInBucket n (cls + 1)
    else cls

/-- The outer `for` of `cmalloc_runtime_init`, from bucket `b` on, with the
running `cls`. -/
def fillSizeClassTable : Nat → Nat → Nat → List Nat
  | 0, _, _ => []
  | n + 1, b, cls =>
    let cls := advanceClass (b <<< 4) (sizeClassCount - cls) cls
    (if cls < sizeClassCount then cls else 0) :: fillSizeClassTable n (b + 1) cls

/-- `cmalloc_size_class_table` as `cmalloc_runtime_init` leaves it. -/
def cmallocSizeClassTable : List Nat := fillSizeClassTable sizeClassTableLen 0 0

/-- `get_size_class_index`. -/
def getSizeClassIndex (size : Nat) : Int :=
  if size > maxSizeClass then largeClassSizeIndex
  else (cmallocSizeClassTable.getD ((size + (byteAlignment - 1)) >>> 4) 0 : Nat)

/-! ## Page and alignment arithmetic -/

/-- `round_down_page_index`. -/
def Platform.roundDownPageIndex (pf : Platform) (ptr : Nat) : Nat := ptr >>> pf.pageShift

/-- `round_up_page`: the addition is on `uint64_t` and wraps. -/
def Platform.roundUpPage (pf : Platform) (num : Nat) : Nat :=
  ((num + (pf.pageSize - 1)) % 2 ^ 64) &&& bitNot (pf.pageSize - 1)

/-- `align_up_ptr`. -/
def alignUpPtr (ptr : Nat) : Nat :=
  (ptr + (byteAlignment - 1)) &&& bitNot (byteAlignment - 1)

end FastAlloc
