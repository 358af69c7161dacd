/-
FastAlloc.Model.Span — `src/span.h` and `src/span.c`: spans, their block
bitmaps, the pool of cached spans, and the page map.

`alloc_span` is cut at its branches: `allocDirectSpan` (a request too big to
be binned), `takeExactFit`, `splitBestFit` and `allocFreshChunk`.
-/
import FastAlloc.Model.Metadata

namespace FastAlloc

open Lib

/-! ## Block bitmaps -/

abbrev spanBlockBitmapBitsPerWord : Nat := 64
abbrev spanBlockBitmapWordCount : Nat :=
  (maxSpanBlockCount + spanBlockBitmapBitsPerWord - 1) / spanBlockBitmapBitsPerWord

/-- `SPAN_BLOCK_BITMAP_WORD_INDEX`. -/
def spanBlockBitmapWordIndex (blockIndex : Nat) : Nat := blockIndex >>> 6

/-- `SPAN_BLOCK_BITMAP_BIT`. -/
def spanBlockBitmapBit (blockIndex : Nat) : BitVec 64 := 1#64 <<< (blockIndex &&& 63)

/-- `__builtin_ctzll`. -/
def builtinCtzll (w : BitVec 64) : Nat := w.ctz.toNat

/-- `allocate_block`. -/
def allocateBlock (span : Nat) : M Nat := do
  let nonfull ← load span fun m => (m.span span).nonfullBitmap
  if nonfull = 0 then pure NULL
  else do
    storeSpan span fun sp => { sp with freeCount := sizeDec sp.freeCount }
    let sp ← loadSpan span
    let wordIndex := builtinCtzll sp.nonfullBitmap
    let word := sp.blockBitmap wordIndex
    let bitIndex := builtinCtzll word
    let blockIndex := bitIndex + wordIndex * spanBlockBitmapBitsPerWord
    storeSpan span fun sp =>
      { sp with
        blockBitmap := Function.update sp.blockBitmap wordIndex
          (word &&& ~~~ spanBlockBitmapBit blockIndex) }
    let sp ← loadSpan span
    (if sp.blockBitmap wordIndex = 0 then
      storeSpan span fun sp =>
        { sp with nonfullBitmap := sp.nonfullBitmap &&& ~~~ spanBlockBitmapBit wordIndex }
    else pure ())
    let sp ← loadSpan span
    pure (sp.base + blockIndex * sp.blockSize)

/-- `free_block`. -/
def freeBlock (block span : Nat) : M Unit := do
  storeSpan span fun sp => { sp with freeCount := sizeInc sp.freeCount }
  let sp ← loadSpan span
  let relAddress := block - sp.base
  let blockIndex := relAddress / sp.blockSize
  let wordIndex := spanBlockBitmapWordIndex blockIndex
  storeSpan span fun sp =>
    { sp with
      blockBitmap := Function.update sp.blockBitmap wordIndex
        (sp.blockBitmap wordIndex ||| spanBlockBitmapBit blockIndex) }
  storeSpan span fun sp =>
    { sp with nonfullBitmap := sp.nonfullBitmap ||| spanBlockBitmapBit wordIndex }

/-! ## The pool of cached spans -/

abbrev dataChunkSize : Nat := 32 * 1024 * 1024
abbrev maxBinnedPages : Nat := 8193
abbrev freeBitmapWords : Nat := (maxBinnedPages + 63) >>> 6
abbrev noFittingPageSequence : Nat := 2 ^ 64 - 1
abbrev bitsPerWord : Nat := 64

/-- `DATA_CHUNK_PAGE_COUNT`. -/
def Platform.dataChunkPageCount (pf : Platform) : Nat := dataChunkSize >>> pf.pageShift

/-- `PAGE_BITMAP_WORD_INDEX`. -/
def pageBitmapWordIndex (pageCount : Nat) : Nat := pageCount >>> 6

/-- `PAGE_BITMAP_BIT_INDEX`. -/
def pageBitmapBitIndex (pageCount : Nat) : Nat := pageCount &&& 63

/-- `mark_binned_span_non_empty`. -/
def markBinnedSpanNonEmpty (pageCount : Nat) : M Unit :=
  setGlobal fun s =>
    { s with
      nonEmptyBitmap := Function.update s.nonEmptyBitmap (pageBitmapWordIndex pageCount)
        (s.nonEmptyBitmap (pageBitmapWordIndex pageCount) |||
          (1#64 <<< pageBitmapBitIndex pageCount)) }

/-- `mark_binned_span_empty`. -/
def markBinnedSpanEmpty (pageCount : Nat) : M Unit :=
  setGlobal fun s =>
    { s with
      nonEmptyBitmap := Function.update s.nonEmptyBitmap (pageBitmapWordIndex pageCount)
        (s.nonEmptyBitmap (pageBitmapWordIndex pageCount) &&&
          ~~~ (1#64 <<< pageBitmapBitIndex pageCount)) }

/-- The `while (1)` of `find_best_fitting_uninitialized_span`, at
`wordIndex` with `word` loaded; `n` words follow. -/
def scanNonEmptyBitmap (bitmap : Nat → BitVec 64) : Nat → Nat → BitVec 64 → Nat
  | n, wordIndex, word =>
    if word ≠ 0 then
      let result := wordIndex * bitsPerWord + builtinCtzll word
      if result < maxBinnedPages then result else noFittingPageSequence
    else
      match n with
      | 0 => noFittingPageSequence
      | n + 1 => scanNonEmptyBitmap bitmap n (wordIndex + 1) (bitmap (wordIndex + 1))

/-- `find_best_fitting_uninitialized_span`. -/
def findBestFittingUninitializedSpan (pageCount : Nat) : M Nat :=
  global fun s =>
    let wordIndex := pageBitmapWordIndex pageCount
    let bitIndex := pageBitmapBitIndex pageCount
    scanNonEmptyBitmap s.nonEmptyBitmap (freeBitmapWords - 1 - wordIndex) wordIndex
      (s.nonEmptyBitmap wordIndex &&& (BitVec.allOnes 64 <<< bitIndex))

/-- `uninitilized_span_bin[pageCount] = span`. -/
def setUninitilizedSpanBin (pageCount : Nat) (span : Nat) : M Unit :=
  setGlobal fun s =>
    { s with uninitilizedSpanBin := Function.update s.uninitilizedSpanBin pageCount span }

/-- Take the first span of bin `pageCount`, and clear the bin's bit if that
was its only one. -/
def popUninitilizedSpanBin (pageCount : Nat) : M Nat := do
  let span ← global fun s => s.uninitilizedSpanBin pageCount
  let next ← load span fun m => (m.span span).nextInUninitializedBin
  setUninitilizedSpanBin pageCount next
  (if next = NULL then markBinnedSpanEmpty pageCount else pure ())
  pure span

section

variable (pf : Platform)

/-- Record the pages of `span` in the page map. -/
def mapSpanPages (span : Nat) : M Unit := do
  let pageMap ← global (·.pageMap)
  let sp ← loadSpan span
  cmallocMapRange pf pageMap span (pf.roundDownPageIndex sp.base)
    (pf.roundDownPageIndex sp.base + sp.pageCount)

/-- First branch of `alloc_span`: map the pages just for this span. -/
def allocDirectSpan (pageCount : Nat) : M Nat := do
  let span ← cmallocAllocMetadata pf sizeofSpan
  let base ← mmap pf .direct (pageCount <<< pf.pageShift)
  storeSpan span fun sp => { sp with base := base }
  storeSpan span fun sp => { sp with pageCount := pageCount }
  storeSpan span fun sp => { sp with isInitialized := false }
  mapSpanPages pf span
  pure span

/-- Third branch of `alloc_span`: cut the best-fitting cached span, of
`bestFittingPages` pages, and cache what is left. -/
def splitBestFit (pageCount bestFittingPages : Nat) : M Nat := do
  let bestFit ← popUninitilizedSpanBin bestFittingPages
  storeSpan bestFit fun sp => { sp with pageCount := pageCount }
  let split ← cmallocAllocMetadata pf sizeofSpan
  let fit ← loadSpan bestFit
  let binHead ← global fun s => s.uninitilizedSpanBin (bestFittingPages - pageCount)
  storeSpan split fun sp => { sp with base := fit.base + (pageCount <<< pf.pageShift) }
  storeSpan split fun sp => { sp with pageCount := bestFittingPages - pageCount }
  storeSpan split fun sp => { sp with isInitialized := false }
  storeSpan split fun sp => { sp with physNext := fit.physNext }
  storeSpan split fun sp => { sp with physPrev := bestFit }
  storeSpan split fun sp => { sp with nextInUninitializedBin := binHead }
  setUninitilizedSpanBin (bestFittingPages - pageCount) split
  mapSpanPages pf split
  markBinnedSpanNonEmpty (bestFittingPages - pageCount)
  let next ← load bestFit fun m => (m.span bestFit).physNext
  (if next ≠ NULL then storeSpan next fun sp => { sp with physPrev := split } else pure ())
  storeSpan bestFit fun sp => { sp with physNext := split }
  pure bestFit

/-- The remainder of a fresh chunk, in the last branch of `alloc_span`:
`remainingPages` pages from `base` on, cached behind the span `fit`. -/
def cacheRemainder (fit : Nat) (base : Nat) (remainingPages : Nat) : M Unit := do
  let split ← cmallocAllocMetadata pf sizeofSpan
  storeSpan split fun sp => { sp with base := base }
  storeSpan split fun sp => { sp with pageCount := remainingPages }
  storeSpan split fun sp => { sp with isInitialized := false }
  mapSpanPages pf split
  storeSpan fit fun sp => { sp with physNext := split }
  storeSpan split fun sp => { sp with physPrev := fit }
  storeSpan split fun sp => { sp with physNext := NULL }
  let binHead ← global fun s => s.uninitilizedSpanBin remainingPages
  storeSpan split fun sp => { sp with nextInUninitializedBin := binHead }
  setUninitilizedSpanBin remainingPages split
  markBinnedSpanNonEmpty remainingPages

/-- Last branch of `alloc_span`: cut the span off a fresh data chunk. -/
def allocFreshChunk (pageCount : Nat) : M Nat := do
  let chunkPageCount := max pf.dataChunkPageCount pageCount
  let prev ← global (·.dataArena)
  let dataArena ← cmallocAllocMetadata pf sizeofDataChunk
  setGlobal fun s => { s with dataArena := dataArena }
  store dataArena (·.setDataChunk dataArena fun c => { c with prev := prev })
  let base ← mmap pf .dataChunk (chunkPageCount <<< pf.pageShift)
  store dataArena (·.setDataChunk dataArena fun c => { c with base := base })
  if base = MAP_FAILED then do
    setGlobal fun s => { s with dataArena := prev }
    pure NULL
  else do
    let fit ← cmallocAllocMetadata pf sizeofSpan
    storeSpan fit fun sp => { sp with base := base }
    storeSpan fit fun sp => { sp with nextInUninitializedBin := NULL }
    storeSpan fit fun sp => { sp with pageCount := pageCount }
    storeSpan fit fun sp => { sp with isInitialized := false }
    mapSpanPages pf fit
    storeSpan fit fun sp => { sp with physPrev := NULL }
    storeSpan fit fun sp => { sp with physNext := NULL }
    let remainingPages := chunkPageCount - pageCount
    (if remainingPages > 0 ∧ remainingPages < maxBinnedPages then
      cacheRemainder pf fit (base + (pageCount <<< pf.pageShift)) remainingPages
    else pure ())
    pure fit

/-- First line of `alloc_span`: create the page map. -/
def ensurePageMap : M Unit := do
  let pageMap ← global (·.pageMap)
  if pageMap = NULL then do
    let root ← cmallocInitializeRangeMap pf
    setGlobal fun s => { s with pageMap := root }
  else pure ()

/-- `alloc_span`. -/
def allocSpan (size : Nat) : M Nat := do
  ensurePageMap pf
  let pageCount := pf.roundUpPage size >>> pf.pageShift
  if pageCount ≥ maxBinnedPages then allocDirectSpan pf pageCount
  else do
    let bestFittingPages ← findBestFittingUninitializedSpan pageCount
    let dataArena ← global (·.dataArena)
    if dataArena ≠ NULL ∧ bestFittingPages ≠ noFittingPageSequence then
      if pageCount = bestFittingPages then popUninitilizedSpanBin pageCount
      else splitBestFit pf pageCount bestFittingPages
    else allocFreshChunk pf pageCount

/-- `cmalloc_cache_span`. -/
def cmallocCacheSpan (span : Nat) : M Unit := do
  let sp ← loadSpan span
  if sp.pageCount ≥ maxBinnedPages then do
    let pageMap ← global (·.pageMap)
    cmallocUnmapRange pf pageMap (pf.roundDownPageIndex sp.base)
      (pf.roundDownPageIndex sp.base + sp.pageCount)
    munmap sp.base (sp.pageCount <<< pf.pageShift)
    cmallocFreeMetadata pf span sizeofSpan
  else do
    storeSpan span fun sp => { sp with isInitialized := false }
    let binHead ← global fun s => s.uninitilizedSpanBin sp.pageCount
    storeSpan span fun sp => { sp with nextInUninitializedBin := binHead }
    setUninitilizedSpanBin sp.pageCount span
    markBinnedSpanNonEmpty sp.pageCount

/-! ## Initialisation -/

/-- The word `cmalloc_initialize_span` writes at `wordIndex`: all ones,
but for the partial last word. -/
def freeBlocksWord (wordCount blocksInLastWord wordIndex : Nat) : BitVec 64 :=
  if wordIndex = wordCount - 1 ∧ blocksInLastWord < spanBlockBitmapBitsPerWord then
    (1#64 <<< blocksInLastWord) - 1#64
  else BitVec.allOnes 64

/-- The end of `cmalloc_initialize_span`: set up both bitmaps for
`blockCount` free blocks. -/
def initializeBitmaps (span : Nat) (blockCount : Nat) : M Unit := do
  let wordCount := (blockCount + (spanBlockBitmapBitsPerWord - 1)) / spanBlockBitmapBitsPerWord
  let blocksInLastWord := blockCount - (wordCount - 1) * spanBlockBitmapBitsPerWord
  storeSpan span fun sp => { sp with nonfullBitmap := 0 }
  Program.loop (fun i => storeSpan span fun sp =>
    { sp with blockBitmap := Function.update sp.blockBitmap i 0 }) 0 spanBlockBitmapWordCount
  Program.loop (fun wordIndex => do
    storeSpan span fun sp =>
      { sp with
        blockBitmap := Function.update sp.blockBitmap wordIndex
          (freeBlocksWord wordCount blocksInLastWord wordIndex) }
    storeSpan span fun sp =>
      { sp with nonfullBitmap := sp.nonfullBitmap ||| spanBlockBitmapBit wordIndex }) 0 wordCount

/-- `cmalloc_initialize_span`. -/
def cmallocInitializeSpan (sizeClassIndex : Int) (requestedSize : Nat) : M Nat := do
  let large : Bool := decide (sizeClassIndex = largeClassSizeIndex)
  let span ← allocSpan pf
    (if large then requestedSize else sizeClassSpanSize.getD sizeClassIndex.toNat 0)
  assertThat (span ≠ NULL)
  let blockCount := if large then 1 else sizeClassBlockCount.getD sizeClassIndex.toNat 0
  storeSpan span fun sp =>
    { sp with
      blockSize := if large then requestedSize else sizeClasses.getD sizeClassIndex.toNat 0 }
  storeSpan span fun sp => { sp with blockCount := blockCount }
  storeSpan span fun sp => { sp with isInitialized := true }
  storeSpan span fun sp => { sp with sizeClassIndex := sizeClassIndex }
  storeSpan span fun sp => { sp with freeCount := sp.blockCount }
  initializeBitmaps span blockCount
  pure span

/-- `cmalloc_get_span`. -/
def cmallocGetSpan (ptr : Nat) : M Nat := do
  let pageMap ← global (·.pageMap)
  cmallocGet pageMap (pf.roundDownPageIndex ptr)

end

end FastAlloc
