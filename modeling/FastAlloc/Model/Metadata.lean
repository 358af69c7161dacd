/-
FastAlloc.Model.Metadata — `src/range_map.c` and `src/metadata.c`.

The two files call each other: a range map takes its nodes from the
metadata arena, and the arena keeps its free lists in a range map. The
range-map functions take the node allocator as an argument, so that the
same text serves both the arena's own map and any other; the recursion
`cmalloc_alloc_metadata → cmalloc_map → cmalloc_alloc_metadata` is tied by a
nesting bound, with its own fault when the bound is met.

Where the C code re-reads a node pointer it has just tested or stored, the
model reads it once: nothing in between writes that slot.
-/
import FastAlloc.Model.State

namespace FastAlloc

open Lib

/-! ## range_map.c -/

@[irreducible] def l1IndexOf (key : Nat) : Nat := (key >>> (l2Bits + l3Bits)) &&& (l1Size - 1)
@[irreducible] def l2IndexOf (key : Nat) : Nat := (key >>> l3Bits) &&& (l2Size - 1)
@[irreducible] def l3IndexOf (key : Nat) : Nat := key &&& (l3Size - 1)

section RangeMap

variable (alloc : Nat → M Nat) (free : Nat → Nat → M Unit)

/-- `cmalloc_initialize_range_map`. -/
def cmallocInitializeRangeMapWith : M Nat := alloc sizeofL1Node

/-- First test of `cmalloc_map`: create the missing L2 node. -/
def ensureL2Node (rangeMap : Nat) (key : Nat) : M Unit := do
  let l2 ← load rangeMap fun m => (m.l1 rangeMap).l1 (l1IndexOf key)
  if l2 = NULL then do
    let node ← alloc sizeofL2Node
    store rangeMap (·.setL1 rangeMap (l1IndexOf key) node)
    memsetL2 node
  else pure ()

/-- Second test of `cmalloc_map`: create the missing L3 node. -/
def ensureL3Node (rangeMap : Nat) (key : Nat) : M Unit := do
  let l2 ← load rangeMap fun m => (m.l1 rangeMap).l1 (l1IndexOf key)
  let l3 ← load l2 fun m => (m.l2 l2).l2 (l2IndexOf key)
  if l3 = NULL then do
    let node ← alloc sizeofL3Node
    store l2 (·.setL2 l2 (l2IndexOf key) node)
    memsetL3 node
    let count ← load l2 fun m => (m.l2 l2).count
    store l2 (·.setL2Count l2 (sizeInc count))
  else pure ()

/-- The rest of `cmalloc_map`: count the slot if it was empty, and write it. -/
def storeSlot (rangeMap : Nat) (value : Nat) (key : Nat) : M Unit := do
  let l2 ← load rangeMap fun m => (m.l1 rangeMap).l1 (l1IndexOf key)
  let l3 ← load l2 fun m => (m.l2 l2).l2 (l2IndexOf key)
  let old ← load l3 fun m => (m.l3 l3).l3 (l3IndexOf key)
  if old = NULL then do
    let count ← load l3 fun m => (m.l3 l3).count
    store l3 (·.setL3Count l3 (sizeInc count))
    store l3 (·.setL3 l3 (l3IndexOf key) value)
  else store l3 (·.setL3 l3 (l3IndexOf key) value)

/-- `cmalloc_map`. -/
def cmallocMapWith (rangeMap : Nat) (value : Nat) (key : Nat) : M Unit := do
  ensureL2Node alloc rangeMap key
  ensureL3Node alloc rangeMap key
  storeSlot rangeMap value key

/-- Second half of `cmalloc_unmap`: give back the L2 node once it has no
child. -/
def dropEmptyL2 (rangeMap : Nat) (key : Nat) (l2 : Nat) : M Unit := do
  let count ← load l2 fun m => (m.l2 l2).count
  if count = 0 then do
    free l2 sizeofL2Node
    store rangeMap (·.setL1 rangeMap (l1IndexOf key) NULL)
  else pure ()

/-- `cmalloc_unmap`. -/
def cmallocUnmapWith (rangeMap : Nat) (key : Nat) : M Unit := do
  let l2 ← load rangeMap fun m => (m.l1 rangeMap).l1 (l1IndexOf key)
  assertThat (l2 ≠ NULL)
  let l3 ← load l2 fun m => (m.l2 l2).l2 (l2IndexOf key)
  assertThat (l3 ≠ NULL)
  let old ← load l3 fun m => (m.l3 l3).l3 (l3IndexOf key)
  assertThat (old ≠ NULL)
  store l3 (·.setL3 l3 (l3IndexOf key) NULL)
  let count ← load l3 fun m => (m.l3 l3).count
  store l3 (·.setL3Count l3 (sizeDec count))
  let count ← load l3 fun m => (m.l3 l3).count
  if count = 0 then do
    free l3 sizeofL3Node
    store l2 (·.setL2 l2 (l2IndexOf key) NULL)
    let count ← load l2 fun m => (m.l2 l2).count
    store l2 (·.setL2Count l2 (sizeDec count))
    dropEmptyL2 free rangeMap key l2
  else dropEmptyL2 free rangeMap key l2

/-- `cmalloc_map_range`, the last key exclusive. -/
def cmallocMapRangeWith (rangeMap : Nat) (data : Nat) (start stop : Nat) : M Unit :=
  Program.loop (fun i => cmallocMapWith alloc rangeMap data i) start (stop - start)

/-- `cmalloc_unmap_range`, the last key exclusive. -/
def cmallocUnmapRangeWith (rangeMap : Nat) (start stop : Nat) : M Unit :=
  Program.loop (fun i => cmallocUnmapWith free rangeMap i) start (stop - start)

end RangeMap

/-- `cmalloc_get`. -/
def cmallocGet (rangeMap : Nat) (key : Nat) : M Nat := do
  let l2 ← load rangeMap fun m => (m.l1 rangeMap).l1 (l1IndexOf key)
  if l2 = NULL then pure NULL
  else do
    let l3 ← load l2 fun m => (m.l2 l2).l2 (l2IndexOf key)
    if l3 = NULL then pure NULL
    else load l3 fun m => (m.l3 l3).l3 (l3IndexOf key)

/-! ## metadata.c -/

abbrev metaChunkSize : Nat := 4 * 1024 * 1024

/-- The end of `cmalloc_alloc_metadata`: take `size` bytes at `cur`. -/
def takeFromArena (size : Nat) : M Nat := do
  let arena ← global (·.metaArena)
  let cur ← load arena fun m => (m.metaChunk arena).cur
  store arena (·.setMetaChunk arena fun c => { c with cur := alignUpPtr (cur + size) })
  pure cur

/-- The middle of `cmalloc_alloc_metadata`: map a new chunk if the current
one cannot hold `size` bytes. -/
def bumpMetadata (pf : Platform) (size : Nat) : M Nat := do
  let arena ← global (·.metaArena)
  let full ← (if arena = NULL then pure true
    else load arena fun m =>
      decide (((m.metaChunk arena).end : Int) - (m.metaChunk arena).cur < size))
  if full then do
    let chunk ← mmap pf .metaChunk metaChunkSize
    setGlobal fun s => { s with metaArena := chunk }
    if chunk = MAP_FAILED then pure NULL
    else do
      store chunk (·.setMetaChunk chunk fun c => { c with prev := arena })
      store chunk (·.setMetaChunk chunk fun c =>
        { c with cur := alignUpPtr (chunk + sizeofMetaChunk) })
      store chunk (·.setMetaChunk chunk fun c => { c with «end» := chunk + metaChunkSize })
      takeFromArena size
  else takeFromArena size

/-- `cmalloc_alloc_metadata`, nested at most `depth` deep. A pop that leaves
a free list empty is reported. -/
def cmallocAllocMetadataAt (pf : Platform) : Nat → Nat → M Nat
  | 0, _ => Program.fault .depth
  | depth + 1, size => do
    let freeListMap ← global (·.freeListMap)
    let freeList ← (if freeListMap = NULL then pure NULL else cmallocGet freeListMap size)
    if freeList = NULL then bumpMetadata pf size
    else do
      let next ← load freeList (·.firstWord size freeList)
      cmallocMapWith (cmallocAllocMetadataAt pf depth) freeListMap next size
      (if next = NULL then Program.emit (.lastPop size) else pure ())
      pure freeList

/-- `cmalloc_alloc_metadata`. -/
def cmallocAllocMetadata (pf : Platform) (size : Nat) : M Nat :=
  cmallocAllocMetadataAt pf pf.depth size

/-- `cmalloc_initialize_range_map`. -/
def cmallocInitializeRangeMap (pf : Platform) : M Nat :=
  cmallocInitializeRangeMapWith (cmallocAllocMetadata pf)

/-- `cmalloc_map`. -/
def cmallocMap (pf : Platform) (rangeMap value : Nat) (key : Nat) : M Unit :=
  cmallocMapWith (cmallocAllocMetadata pf) rangeMap value key

/-- First test of `cmalloc_free_metadata`: create the free-list map. -/
def ensureFreeListMap (pf : Platform) : M Unit := do
  let freeListMap ← global (·.freeListMap)
  if freeListMap = NULL then do
    let root ← cmallocInitializeRangeMap pf
    setGlobal fun s => { s with freeListMap := root }
  else pure ()

/-- `cmalloc_free_metadata`. -/
def cmallocFreeMetadata (pf : Platform) (ptr : Nat) (size : Nat) : M Unit := do
  ensureFreeListMap pf
  let freeListMap ← global (·.freeListMap)
  let head ← cmallocGet freeListMap size
  store ptr (·.setFirstWord size ptr head)
  cmallocMap pf freeListMap ptr size

/-- `cmalloc_unmap`. -/
def cmallocUnmap (pf : Platform) (rangeMap : Nat) (key : Nat) : M Unit :=
  cmallocUnmapWith (cmallocFreeMetadata pf) rangeMap key

/-- `cmalloc_map_range`. -/
def cmallocMapRange (pf : Platform) (rangeMap data : Nat) (start stop : Nat) : M Unit :=
  cmallocMapRangeWith (cmallocAllocMetadata pf) rangeMap data start stop

/-- `cmalloc_unmap_range`. -/
def cmallocUnmapRange (pf : Platform) (rangeMap : Nat) (start stop : Nat) : M Unit :=
  cmallocUnmapRangeWith (cmallocFreeMetadata pf) rangeMap start stop

end FastAlloc
