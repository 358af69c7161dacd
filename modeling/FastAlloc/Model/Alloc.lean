/-
FastAlloc.Model.Alloc — `src/cmalloc.c`: the thread-local bins and the
public entry points.

Each call is cut where it takes `lock`. `enter` is the part of a call before
its first critical section, `resume` goes on from a `Pc`: either through the
next critical section or through the unlocked part after it. `cmalloc`,
`cfree`, `ccalloc` and `crealloc` are the whole calls, run without
interruption.
-/
import FastAlloc.Model.Span

namespace FastAlloc

open Lib

/-! ## Thread-local bins -/

def setThreadLocalBin (t : Tid) (c : Int) (span : Nat) : M Unit :=
  setGlobal fun s =>
    { s with
      threadLocalBin := Function.update s.threadLocalBin t
        (Function.update (s.threadLocalBin t) c span) }

/-- `bin_push`. -/
def binPush (t : Tid) (sizeClassIndex : Int) (span : Nat) : M Unit := do
  let head ← global fun s => s.threadLocalBin t sizeClassIndex
  storeSpan span fun sp => { sp with prevInSizeClassBin := NULL }
  storeSpan span fun sp => { sp with nextInSizeClassBin := head }
  (if head ≠ NULL then storeSpan head fun sp => { sp with prevInSizeClassBin := span }
  else pure ())
  setThreadLocalBin t sizeClassIndex span

/-- `bin_remove`. -/
def binRemove (t : Tid) (sizeClassIndex : Int) (span : Nat) : M Unit := do
  let prev ← load span fun m => (m.span span).prevInSizeClassBin
  let next ← load span fun m => (m.span span).nextInSizeClassBin
  (if prev ≠ NULL then storeSpan prev fun sp => { sp with nextInSizeClassBin := next }
  else setThreadLocalBin t sizeClassIndex next)
  (if next ≠ NULL then storeSpan next fun sp => { sp with prevInSizeClassBin := prev }
  else pure ())
  storeSpan span fun sp => { sp with prevInSizeClassBin := NULL }
  storeSpan span fun sp => { sp with nextInSizeClassBin := NULL }

/-! ## The unlocked parts of the calls -/

/-- `cmalloc` up to its lock: the block, if the bin had one. -/
def cmallocFromBin (t : Tid) (sizeClassIndex : Int) : M (Option Nat) := do
  if sizeClassIndex ≠ largeClassSizeIndex then do
    let span ← global fun s => s.threadLocalBin t sizeClassIndex
    if span ≠ NULL then do
      let freeCount ← load span fun m => (m.span span).freeCount
      (if freeCount = 1 then binRemove t sizeClassIndex span else pure ())
      let p ← allocateBlock span
      pure (some p)
    else pure none
  else pure none

/-- `cmalloc` after its critical section, which initialised `span`. -/
def cmallocFromSpan (t : Tid) (sizeClassIndex : Int) (span : Nat) : M Nat := do
  (if sizeClassIndex ≠ largeClassSizeIndex then binPush t sizeClassIndex span else pure ())
  allocateBlock span

section

variable (pf : Platform)

/-- `cfree` of a non-null pointer up to its lock: the span to cache, if the
call goes on to cache one. -/
def cfreeUnlocked (t : Tid) (ptr : Nat) : M (Option Nat) := do
  let span ← cmallocGetSpan pf ptr
  let sizeClassIndex ← load span fun m => (m.span span).sizeClassIndex
  if sizeClassIndex = largeClassSizeIndex then pure (some span)
  else do
    let freeCount ← load span fun m => (m.span span).freeCount
    (if freeCount = 0 then binPush t sizeClassIndex span else pure ())
    freeBlock ptr span
    let sp ← loadSpan span
    if sp.freeCount = sp.blockCount then do
      binRemove t sizeClassIndex span
      pure (some span)
    else pure none

/-! ## The calls -/

/-- `cmalloc`. -/
def cmalloc (t : Tid) (size : Nat) : M Nat := do
  let sizeClassIndex := getSizeClassIndex size
  match ← cmallocFromBin t sizeClassIndex with
  | some p => pure p
  | none => do
    let span ← cmallocInitializeSpan pf sizeClassIndex size
    cmallocFromSpan t sizeClassIndex span

/-- `cfree`. -/
def cfree (t : Tid) (ptr : Nat) : M Unit := do
  if ptr = NULL then pure ()
  else
    match ← cfreeUnlocked pf t ptr with
    | some span => cmallocCacheSpan pf span
    | none => pure ()

/-- `ccalloc`. -/
def ccalloc (t : Tid) (num size : Nat) : M Nat := do
  if num ≠ 0 ∧ size > (2 ^ 64 - 1) / num then pure NULL
  else do
    let total := num * size % 2 ^ 64
    let ptr ← cmalloc pf t total
    if ptr = NULL then pure NULL
    else do
      (if total ≠ 0 then memsetBytes ptr total else pure ())
      pure ptr

/-- `crealloc`. -/
def crealloc (t : Tid) (ptr : Nat) (size : Nat) : M Nat := do
  if ptr = NULL then cmalloc pf t size
  else if size = 0 then do
    cfree pf t ptr
    pure NULL
  else do
    let span ← cmallocGetSpan pf ptr
    let blockSize ← load span fun m => (m.span span).blockSize
    if blockSize ≥ size then pure ptr
    else do
      let newPtr ← cmalloc pf t size
      if newPtr = NULL then pure NULL
      else do
        let blockSize ← load span fun m => (m.span span).blockSize
        memcpy newPtr ptr blockSize
        cfree pf t ptr
        pure newPtr

/-! ## Calls cut at the lock -/

inductive Call
  | malloc (size : Nat)
  | calloc (num size : Nat)
  | free (ptr : Nat)
  | realloc (ptr : Nat) (size : Nat)
  deriving DecidableEq

/-- What a `cmalloc` was called for: itself, `ccalloc` (which then clears
the block) or `crealloc` (which then copies `ptr`, of the span `span`, and
frees it). -/
inductive Client
  | malloc
  | calloc
  | realloc (ptr span : Nat)
  deriving DecidableEq

/-- Where a thread stands in a call that is not finished. -/
inductive Pc
  /-- about to enter the critical section of `cmalloc` -/
  | initSpan (client : Client) (size : Nat)
  /-- just left it, with the span it initialised -/
  | allocate (client : Client) (size : Nat) (span : Nat)
  /-- about to enter the critical section of `cfree`, then to return `q` -/
  | cache (span : Nat) (q : Nat)
  deriving DecidableEq

inductive Reply
  /-- the call returned `q` -/
  | done (q : Nat)
  /-- the call goes on from `pc` -/
  | more (pc : Pc)
  deriving DecidableEq

/-- What one uninterrupted part of a call did, as its client sees it: the
reply, the block it handed out with the size asked for, and the block it
took back. -/
structure Progress where
  reply : Reply
  gained : Option (Nat × Nat)
  lost : Option Nat
  deriving DecidableEq

/-- `cfree` up to its lock, inside a call that will return `q`. -/
def freePart (t : Tid) (ptr q : Nat) (gained : Option (Nat × Nat)) : M Progress := do
  match ← cfreeUnlocked pf t ptr with
  | some span => pure ⟨.more (.cache span q), gained, some ptr⟩
  | none => pure ⟨.done q, gained, some ptr⟩

/-- What follows once `cmalloc(size)` has its result `p`. -/
def afterMalloc (t : Tid) (client : Client) (size : Nat) (p : Nat) : M Progress := do
  if p = NULL then pure ⟨.done NULL, none, none⟩
  else
    match client with
    | .malloc => pure ⟨.done p, some (p, size), none⟩
    | .calloc => do
      (if size ≠ 0 then memsetBytes p size else pure ())
      pure ⟨.done p, some (p, size), none⟩
    | .realloc ptr span => do
      let blockSize ← load span fun m => (m.span span).blockSize
      memcpy p ptr blockSize
      freePart pf t ptr p (some (p, size))

/-- `cmalloc(size)` up to its lock. -/
def mallocPart (t : Tid) (client : Client) (size : Nat) : M Progress := do
  match ← cmallocFromBin t (getSizeClassIndex size) with
  | some p => afterMalloc pf t client size p
  | none => pure ⟨.more (.initSpan client size), none, none⟩

/-- The first uninterrupted part of a call. -/
def enter (t : Tid) : Call → M Progress
  | .malloc size => mallocPart pf t .malloc size
  | .calloc num size =>
    if num ≠ 0 ∧ size > (2 ^ 64 - 1) / num then pure ⟨.done NULL, none, none⟩
    else mallocPart pf t .calloc (num * size % 2 ^ 64)
  | .free ptr => if ptr = NULL then pure ⟨.done NULL, none, none⟩ else freePart pf t ptr NULL none
  | .realloc ptr size =>
    if ptr = NULL then mallocPart pf t .malloc size
    else if size = 0 then freePart pf t ptr NULL none
    else do
      let span ← cmallocGetSpan pf ptr
      let blockSize ← load span fun m => (m.span span).blockSize
      if blockSize ≥ size then pure ⟨.done ptr, some (ptr, size), none⟩
      else mallocPart pf t (.realloc ptr span) size

/-- The next part of a call that stands at a `Pc`. -/
def resume (t : Tid) : Pc → M Progress
  | .initSpan client size => do
    let span ← cmallocInitializeSpan pf (getSizeClassIndex size) size
    pure ⟨.more (.allocate client size span), none, none⟩
  | .allocate client size span => do
    let p ← cmallocFromSpan t (getSizeClassIndex size) span
    afterMalloc pf t client size p
  | .cache span q => do
    cmallocCacheSpan pf span
    pure ⟨.done q, none, none⟩

end

end FastAlloc
