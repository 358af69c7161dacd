/-
FastAlloc.Model.State — the memory and the global variables of the library,
and the primitive steps the modelled functions are written in.

Metadata memory is held per C type: `Mem.span p` is the `span_t` at address
`p`, `Mem.l3 p` the `l3_node` there, and so on. The arena recycles an object
only for a request of the same size, and the five sizes differ, so an address
keeps its type; that the byte ranges of distinct objects are disjoint is
proved of the arena (`Arena/…`). The one access that ignores types, the
free-list link `*(void **)ptr`, is `firstWord`: the first word of the object
of that size. User data is the byte memory `bytes`.

A program can fault (`Fault`) and reports events (`Event`): every store to
metadata memory with the memory after it, every `mmap` that failed, and the
pops that empty a metadata free list. Only proofs read the events.

The operating system proposes an address for each `mmap`; a proposal that is
not a fresh, page-aligned region below `2 ^ 47` counts as a failed call.
-/
import FastAlloc.Lib.Program
import FastAlloc.Model.Common
import Mathlib.Logic.Function.Basic

namespace FastAlloc

open Lib

/-! ## Objects -/

abbrev l1Bits : Nat := 12
abbrev l2Bits : Nat := 12
abbrev l3Bits : Nat := 11
abbrev l1Size : Nat := 1 <<< l1Bits
abbrev l2Size : Nat := 1 <<< l2Bits
abbrev l3Size : Nat := 1 <<< l3Bits

/-- `l3_node`. -/
structure L3Node where
  l3 : Nat → Nat
  count : Nat

/-- `l2_node`. -/
structure L2Node where
  l2 : Nat → Nat
  count : Nat

/-- `l1_node`. -/
structure L1Node where
  l1 : Nat → Nat

/-- `span_t`. -/
structure Span where
  physNext : Nat
  physPrev : Nat
  nextInUninitializedBin : Nat
  base : Nat
  pageCount : Nat
  isInitialized : Bool
  sizeClassIndex : Int
  blockSize : Nat
  blockCount : Nat
  freeCount : Nat
  nonfullBitmap : BitVec 64
  blockBitmap : Nat → BitVec 64
  nextInSizeClassBin : Nat
  prevInSizeClassBin : Nat

/-- `data_chunk_t`. -/
structure DataChunk where
  base : Nat
  prev : Nat

/-- `meta_chunk_t`. -/
structure MetaChunk where
  prev : Nat
  cur : Nat
  «end» : Nat

def L3Node.zero : L3Node := ⟨fun _ => 0, 0⟩
def L2Node.zero : L2Node := ⟨fun _ => 0, 0⟩
def L1Node.zero : L1Node := ⟨fun _ => 0⟩
def Span.zero : Span := ⟨0, 0, 0, 0, 0, false, 0, 0, 0, 0, 0, fun _ => 0, 0, 0⟩
def DataChunk.zero : DataChunk := ⟨0, 0⟩
def MetaChunk.zero : MetaChunk := ⟨0, 0, 0⟩

/-- `sizeof` on an LP64 target. -/
abbrev sizeofL3Node : Nat := l3Size * 8 + 8
abbrev sizeofL2Node : Nat := l2Size * 8 + 8
abbrev sizeofL1Node : Nat := l1Size * 8
abbrev sizeofSpan : Nat := 608
abbrev sizeofDataChunk : Nat := 16
abbrev sizeofMetaChunk : Nat := 24

/-! ## Memory -/

/-- Metadata memory, one map per C type. -/
structure Mem where
  l1 : Nat → L1Node
  l2 : Nat → L2Node
  l3 : Nat → L3Node
  span : Nat → Span
  dataChunk : Nat → DataChunk
  metaChunk : Nat → MetaChunk

namespace Mem

def zero : Mem where
  l1 := fun _ => .zero
  l2 := fun _ => .zero
  l3 := fun _ => .zero
  span := fun _ => .zero
  dataChunk := fun _ => .zero
  metaChunk := fun _ => .zero

def setL1 (m : Mem) (p i v : Nat) : Mem :=
  { m with l1 := Function.update m.l1 p ⟨Function.update (m.l1 p).l1 i v⟩ }

def setL2 (m : Mem) (p i v : Nat) : Mem :=
  { m with l2 := Function.update m.l2 p ⟨Function.update (m.l2 p).l2 i v, (m.l2 p).count⟩ }

def setL2Count (m : Mem) (p v : Nat) : Mem :=
  { m with l2 := Function.update m.l2 p ⟨(m.l2 p).l2, v⟩ }

def setL3 (m : Mem) (p i v : Nat) : Mem :=
  { m with l3 := Function.update m.l3 p ⟨Function.update (m.l3 p).l3 i v, (m.l3 p).count⟩ }

def setL3Count (m : Mem) (p v : Nat) : Mem :=
  { m with l3 := Function.update m.l3 p ⟨(m.l3 p).l3, v⟩ }

def setSpan (m : Mem) (p : Nat) (f : Span → Span) : Mem :=
  { m with span := Function.update m.span p (f (m.span p)) }

def setDataChunk (m : Mem) (p : Nat) (f : DataChunk → DataChunk) : Mem :=
  { m with dataChunk := Function.update m.dataChunk p (f (m.dataChunk p)) }

def setMetaChunk (m : Mem) (p : Nat) (f : MetaChunk → MetaChunk) : Mem :=
  { m with metaChunk := Function.update m.metaChunk p (f (m.metaChunk p)) }

/-- The `l2_node` at `p` after a `memset` to zero has written `n` words. -/
def clearL2 (m : Mem) (p n : Nat) : Mem :=
  let node : L2Node :=
    ⟨fun i => if i < n then 0 else (m.l2 p).l2 i, if l2Size < n then 0 else (m.l2 p).count⟩
  { m with l2 := Function.update m.l2 p node }

/-- The `l3_node` at `p` after a `memset` to zero has written `n` words. -/
def clearL3 (m : Mem) (p n : Nat) : Mem :=
  let node : L3Node :=
    ⟨fun i => if i < n then 0 else (m.l3 p).l3 i, if l3Size < n then 0 else (m.l3 p).count⟩
  { m with l3 := Function.update m.l3 p node }

/-- The first word of the object of `size` bytes at `p`, read as a pointer. -/
def firstWord (m : Mem) (size : Nat) (p : Nat) : Nat :=
  if size = sizeofSpan then (m.span p).physNext
  else if size = sizeofDataChunk then (m.dataChunk p).base
  else if size = sizeofL1Node then (m.l1 p).l1 0
  else if size = sizeofL2Node then (m.l2 p).l2 0
  else if size = sizeofL3Node then (m.l3 p).l3 0
  else 0

def setFirstWord (m : Mem) (size : Nat) (p v : Nat) : Mem :=
  if size = sizeofSpan then m.setSpan p fun sp => { sp with physNext := v }
  else if size = sizeofDataChunk then m.setDataChunk p fun c => { c with base := v }
  else if size = sizeofL1Node then m.setL1 p 0 v
  else if size = sizeofL2Node then m.setL2 p 0 v
  else if size = sizeofL3Node then m.setL3 p 0 v
  else m

/-- `[a, a + len)` as a fresh anonymous mapping shows it: all zero. -/
def clear (m : Mem) (a len : Nat) : Mem where
  l1 := fun p => if a ≤ p ∧ p < a + len then .zero else m.l1 p
  l2 := fun p => if a ≤ p ∧ p < a + len then .zero else m.l2 p
  l3 := fun p => if a ≤ p ∧ p < a + len then .zero else m.l3 p
  span := fun p => if a ≤ p ∧ p < a + len then .zero else m.span p
  dataChunk := fun p => if a ≤ p ∧ p < a + len then .zero else m.dataChunk p
  metaChunk := fun p => if a ≤ p ∧ p < a + len then .zero else m.metaChunk p

end Mem

/-! ## The operating system -/

/-- The three places `mmap` is called from. -/
inductive Site
  | metaChunk
  | dataChunk
  | direct
  deriving DecidableEq

/-- A current mapping. -/
structure Region where
  base : Nat
  len : Nat
  site : Site
  deriving DecidableEq

def Region.Disjoint (r r' : Region) : Prop := r.base + r.len ≤ r'.base ∨ r'.base + r'.len ≤ r.base

instance (r r' : Region) : Decidable (r.Disjoint r') := inferInstanceAs (Decidable (_ ∨ _))

/-- What `mmap` promises of the region it returns: not empty, page-aligned,
not at `NULL`, below `2 ^ 47`, and disjoint from every current mapping. -/
def Platform.FreshRegion (pf : Platform) (maps : List Region) (r : Region) : Prop :=
  r.len ≠ 0 ∧ r.base ≠ NULL ∧ r.base % pf.pageSize = 0 ∧ r.base + r.len ≤ 2 ^ mmapAccessableBitSize ∧
    ∀ r' ∈ maps, r.Disjoint r'

instance (pf : Platform) (maps : List Region) (r : Region) :
    Decidable (pf.FreshRegion maps r) := inferInstanceAs (Decidable (_ ∧ _ ∧ _ ∧ _ ∧ _))

/-! ## State, events and faults -/

abbrev Tid := Nat

structure State where
  mem : Mem
  bytes : Nat → UInt8
  -- metadata.c
  metaArena : Nat
  freeListMap : Nat
  -- span.c
  pageMap : Nat
  dataArena : Nat
  uninitilizedSpanBin : Nat → Nat
  nonEmptyBitmap : Nat → BitVec 64
  -- cmalloc.c, one array per thread
  threadLocalBin : Tid → Int → Nat
  -- the operating system: current mappings, its next answers, calls so far
  maps : List Region
  proposals : Nat → Nat
  calls : Nat

/-- The state the library starts in, under an operating system that will
answer `proposals`. -/
def State.initial (proposals : Nat → Nat) : State where
  mem := .zero
  bytes := fun _ => 0
  metaArena := NULL
  freeListMap := NULL
  pageMap := NULL
  dataArena := NULL
  uninitilizedSpanBin := fun _ => NULL
  nonEmptyBitmap := fun _ => 0
  threadLocalBin := fun _ _ => NULL
  maps := []
  proposals := proposals
  calls := 0

/-- The state with other metadata memory. -/
def State.setMem (s : State) (m : Mem) : State := { s with mem := m }

namespace State

variable (s : State) (m m' : Mem)

@[simp] theorem setMem_mem : (s.setMem m).mem = m := rfl
@[simp] theorem setMem_setMem : (s.setMem m).setMem m' = s.setMem m' := rfl
@[simp] theorem setMem_self : s.setMem s.mem = s := rfl
@[simp] theorem setMem_bytes : (s.setMem m).bytes = s.bytes := rfl
@[simp] theorem setMem_metaArena : (s.setMem m).metaArena = s.metaArena := rfl
@[simp] theorem setMem_freeListMap : (s.setMem m).freeListMap = s.freeListMap := rfl
@[simp] theorem setMem_pageMap : (s.setMem m).pageMap = s.pageMap := rfl
@[simp] theorem setMem_dataArena : (s.setMem m).dataArena = s.dataArena := rfl
@[simp] theorem setMem_uninitilizedSpanBin :
    (s.setMem m).uninitilizedSpanBin = s.uninitilizedSpanBin := rfl
@[simp] theorem setMem_nonEmptyBitmap : (s.setMem m).nonEmptyBitmap = s.nonEmptyBitmap := rfl
@[simp] theorem setMem_threadLocalBin : (s.setMem m).threadLocalBin = s.threadLocalBin := rfl
@[simp] theorem setMem_maps : (s.setMem m).maps = s.maps := rfl
@[simp] theorem setMem_proposals : (s.setMem m).proposals = s.proposals := rfl
@[simp] theorem setMem_calls : (s.setMem m).calls = s.calls := rfl

end State

/-- The state after an `mmap` that returned the region `r`, all zero. -/
def State.mapped (s : State) (r : Region) : State :=
  { s with
    mem := s.mem.clear r.base r.len
    bytes := fun p => if r.base ≤ p ∧ p < r.base + r.len then 0 else s.bytes p
    maps := r :: s.maps
    calls := s.calls + 1 }

inductive Fault
  | segfault
  | assertion
  | depth
  deriving DecidableEq

inductive Event
  | store (m : Mem)
  | mmapFailed (site : Site)
  | lastPop (size : Nat)

/-- An event of a run in which every `mmap` succeeds. -/
def Event.Mapped : Event → Prop
  | .mmapFailed _ => False
  | _ => True

instance (e : Event) : Decidable e.Mapped :=
  match e with
  | .store _ => isTrue trivial
  | .mmapFailed _ => isFalse id
  | .lastPop _ => isTrue trivial

abbrev M := Program State Event Fault

/-! ## Primitive steps -/

/-- A pointer the library may dereference. -/
def Valid (p : Nat) : Prop := p ≠ NULL ∧ p ≠ MAP_FAILED

instance (p : Nat) : Decidable (Valid p) := inferInstanceAs (Decidable (_ ∧ _))

/-- Read through the pointer `p`. -/
def load {α : Type} (p : Nat) (f : Mem → α) : M α where
  run s := if Valid p then ⟨.ok (f s.mem), s, []⟩ else ⟨.error .segfault, s, []⟩

/-- One store through the pointer `p`. -/
def store (p : Nat) (f : Mem → Mem) : M Unit where
  run s :=
    if Valid p then ⟨.ok (), s.setMem (f s.mem), [.store (f s.mem)]⟩
    else ⟨.error .segfault, s, []⟩

/-- Read a global variable. -/
def global {α : Type} (f : State → α) : M α where
  run s := ⟨.ok (f s), s, []⟩

/-- Assign a global variable. -/
def setGlobal (f : State → State) : M Unit where
  run s := ⟨.ok (), f s, []⟩

/-- `assert`. -/
def assertThat (p : Prop) [Decidable p] : M Unit :=
  if p then pure () else Program.fault .assertion

def loadSpan (p : Nat) : M Span := load p (·.span p)
def storeSpan (p : Nat) (f : Span → Span) : M Unit := store p (·.setSpan p f)

/-- `memset(p, 0, sizeof(l2_node))`, word by word. -/
def memsetL2 (p : Nat) : M Unit where
  run s :=
    if Valid p then
      ⟨.ok (), s.setMem (s.mem.clearL2 p (l2Size + 1)),
        (List.range (l2Size + 1)).map fun i => .store (s.mem.clearL2 p (i + 1))⟩
    else ⟨.error .segfault, s, []⟩

/-- `memset(p, 0, sizeof(l3_node))`, word by word. -/
def memsetL3 (p : Nat) : M Unit where
  run s :=
    if Valid p then
      ⟨.ok (), s.setMem (s.mem.clearL3 p (l3Size + 1)),
        (List.range (l3Size + 1)).map fun i => .store (s.mem.clearL3 p (i + 1))⟩
    else ⟨.error .segfault, s, []⟩

/-- `mmap(NULL, len, PROT_READ | PROT_WRITE, MAP_PRIVATE | MAP_ANONYMOUS, -1, 0)`. -/
def mmap (pf : Platform) (site : Site) (len : Nat) : M Nat where
  run s :=
    let a := s.proposals s.calls
    if pf.FreshRegion s.maps ⟨a, len, site⟩ then ⟨.ok a, s.mapped ⟨a, len, site⟩, []⟩
    else ⟨.ok MAP_FAILED, { s with calls := s.calls + 1 }, [.mmapFailed site]⟩

/-- `munmap(a, len)`: the mapping made at `a` with that length is gone. -/
def munmap (a len : Nat) : M Unit :=
  setGlobal fun s => { s with maps := s.maps.filter fun r => ¬ (r.base = a ∧ r.len = len) }

/-- `memcpy(dst, src, n)`. -/
def memcpy (dst src n : Nat) : M Unit :=
  setGlobal fun s =>
    { s with bytes := fun p => if dst ≤ p ∧ p < dst + n then s.bytes (src + (p - dst)) else s.bytes p }

/-- `memset(dst, 0, n)` on user data. -/
def memsetBytes (dst n : Nat) : M Unit :=
  setGlobal fun s => { s with bytes := fun p => if dst ≤ p ∧ p < dst + n then 0 else s.bytes p }

end FastAlloc
