/-
FastAlloc.Model.Shim — `bench/shim/alloc_shim.c`, the backend that sends the
benchmark's calls to this library.
-/
import FastAlloc.Model.Alloc

namespace FastAlloc

open Lib

section

variable (pf : Platform) (t : Tid)

/-- `cm_usable`. -/
def cmUsable (ptr : Nat) : M Nat := do
  if ptr = NULL then pure 0
  else do
    let span ← cmallocGetSpan pf ptr
    if span = NULL then pure 0
    else do
      let sp ← loadSpan span
      if sp.isInitialized = false then pure 0
      else do
        let offset := ptr - sp.base
        let blockIndex := offset / sp.blockSize
        let blockStart := sp.base + blockIndex * sp.blockSize
        pure (sp.blockSize - (ptr - blockStart))

/-- `shim_free`. -/
def shimFree (ptr : Nat) : M Unit := cfree pf t ptr

/-- `shim_usable_size`. -/
def shimUsableSize (ptr : Nat) : M Nat := cmUsable pf ptr

/-- `shim_realloc`. -/
def shimRealloc (ptr size : Nat) : M Nat := crealloc pf t ptr size

/-- The address `shim_memalign` returns for the block `raw`; the addition is
on `uintptr_t` and wraps. -/
def alignedAddress (alignment raw : Nat) : Nat :=
  ((raw + alignment - 1) % 2 ^ 64) &&& bitNot (alignment - 1)

/-- `shim_memalign`. -/
def shimMemalign (alignment size : Nat) : M Nat := do
  if alignment ≤ 16 then cmalloc pf t size
  else if size > 2 ^ 64 - 1 - alignment then pure NULL
  else do
    let raw ← cmalloc pf t (size + alignment - 1)
    if raw = NULL then pure NULL
    else pure (alignedAddress alignment raw)

end

end FastAlloc
