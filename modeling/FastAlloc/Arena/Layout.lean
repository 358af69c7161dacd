/-
FastAlloc.Arena.Layout — where the metadata arena puts its objects.

The ghost state `st : Nat → Slot` says what the arena uses each address
for. `Layout` is the geometry: the chunks are the metadata mappings, linked
from `meta_arena`, and every object lies 16-byte aligned inside the used
part of one of them, apart from all others.
-/
import FastAlloc.Lib.Bits
import FastAlloc.Lib.Chain
import FastAlloc.RangeMap.Allocator

namespace FastAlloc

open Lib Mem

/-- What the arena uses an address for. -/
inductive Slot
  | unused
  /-- an object handed out to a caller -/
  | out (sz : Nat)
  /-- an object on the free list of its size -/
  | free (sz : Nat)
  /-- a node of `free_list_map` -/
  | node (sz : Nat)
  deriving DecidableEq

def Slot.size : Slot → Option Nat
  | .unused => none
  | .out sz => some sz
  | .free sz => some sz
  | .node sz => some sz

def Slot.outSize : Slot → Option Nat
  | .out sz => some sz
  | _ => none

def Slot.nodeSize : Slot → Option Nat
  | .node sz => some sz
  | _ => none

/-- The objects handed out. -/
def outs (st : Nat → Slot) (a : Nat) : Option Nat := (st a).outSize

/-- The nodes of `free_list_map`. -/
def nodes (st : Nat → Slot) (a : Nat) : Option Nat := (st a).nodeSize

theorem outs_eq_some {st : Nat → Slot} {a : Nat} {sz : Nat} :
    outs st a = some sz ↔ st a = .out sz := by
  unfold outs Slot.outSize
  cases st a <;> simp

theorem nodes_eq_some {st : Nat → Slot} {a : Nat} {sz : Nat} :
    nodes st a = some sz ↔ st a = .node sz := by
  unfold nodes Slot.nodeSize
  cases st a <;> simp

theorem outs_update {st : Nat → Slot} {a : Nat} {v : Slot} :
    outs (Function.update st a v) = Function.update (outs st) a v.outSize := by
  funext b
  by_cases h : b = a
  · rw [h, Function.update_self, outs, Function.update_self]
  · rw [Function.update_of_ne h, outs, Function.update_of_ne h, outs]

theorem nodes_update {st : Nat → Slot} {a : Nat} {v : Slot} :
    nodes (Function.update st a v) = Function.update (nodes st) a v.nodeSize := by
  funext b
  by_cases h : b = a
  · rw [h, Function.update_self, nodes, Function.update_self]
  · rw [Function.update_of_ne h, nodes, Function.update_of_ne h, nodes]

/-- The sizes the library allocates metadata in. -/
def IsSize (sz : Nat) : Prop :=
  sz = sizeofSpan ∨ sz = sizeofDataChunk ∨ sz = sizeofL1Node ∨ sz = sizeofL2Node ∨ sz = sizeofL3Node

theorem IsNodeSize.isSize {sz : Nat} (h : IsNodeSize sz) : IsSize sz := by
  rcases h with rfl | rfl <;> simp [IsSize]

theorem IsSize.bounds {sz : Nat} (h : IsSize sz) : 16 ≤ sz ∧ sz ≤ 32776 := by
  rcases h with rfl | rfl | rfl | rfl | rfl <;> decide

/-! ## Mappings -/

/-- The current mappings are what `mmap` promises of each. -/
structure MapsOk (pf : Platform) (maps : List Region) : Prop where
  len : ∀ r ∈ maps, r.len ≠ 0
  base : ∀ r ∈ maps, r.base ≠ NULL
  aligned : ∀ r ∈ maps, r.base % pf.pageSize = 0
  below : ∀ r ∈ maps, r.base + r.len ≤ 2 ^ 47
  disjoint : maps.Pairwise Region.Disjoint

theorem MapsOk.cons {pf : Platform} {maps : List Region} {r : Region} (h : MapsOk pf maps)
    (hr : pf.FreshRegion maps r) : MapsOk pf (r :: maps) := by
  obtain ⟨h₁, h₂, h₃, h₄, h₅⟩ := hr
  refine ⟨?_, ?_, ?_, ?_, List.pairwise_cons.mpr ⟨h₅, h.disjoint⟩⟩
  · exact List.forall_mem_cons.mpr ⟨h₁, h.len⟩
  · exact List.forall_mem_cons.mpr ⟨h₂, h.base⟩
  · exact List.forall_mem_cons.mpr ⟨h₃, h.aligned⟩
  · exact List.forall_mem_cons.mpr ⟨h₄, h.below⟩

theorem MapsOk.filter {pf : Platform} {maps : List Region} (h : MapsOk pf maps)
    (p : Region → Bool) : MapsOk pf (maps.filter p) where
  len r hr := h.len r (List.mem_of_mem_filter hr)
  base r hr := h.base r (List.mem_of_mem_filter hr)
  aligned r hr := h.aligned r (List.mem_of_mem_filter hr)
  below r hr := h.below r (List.mem_of_mem_filter hr)
  disjoint := h.disjoint.filter p

/-- Two mappings that share an address are one. -/
theorem MapsOk.eq_of_mem {pf : Platform} {maps : List Region} (h : MapsOk pf maps) {r r' : Region}
    (hr : r ∈ maps) (hr' : r' ∈ maps) {a : Nat} (h₁ : r.base ≤ a) (h₂ : a < r.base + r.len)
    (h₃ : r'.base ≤ a) (h₄ : a < r'.base + r'.len) : r = r' := by
  by_contra hne
  have : Std.Symm Region.Disjoint := ⟨fun _ _ => Or.symm⟩
  rcases h.disjoint.forall hr hr' hne with h | h <;> omega

/-! ## The arena's chunks and objects -/

abbrev metaRegion (c : Nat) : Region := ⟨c, metaChunkSize, .metaChunk⟩

structure Layout (pf : Platform) (s : State) (st : Nat → Slot) : Prop where
  maps_ok : MapsOk pf s.maps
  meta_len : ∀ r ∈ s.maps, r.site = .metaChunk → r.len = metaChunkSize
  chunks : ChainOf NULL (fun c => (s.mem.metaChunk c).prev) s.metaArena fun c =>
    metaRegion c ∈ s.maps
  chunk : ∀ c, metaRegion c ∈ s.maps → c + 32 ≤ (s.mem.metaChunk c).cur ∧
    (s.mem.metaChunk c).cur ≤ c + metaChunkSize ∧ (s.mem.metaChunk c).cur % 16 = 0 ∧
    (s.mem.metaChunk c).end = c + metaChunkSize
  isSize : ∀ a sz, (st a).size = some sz → IsSize sz
  aligned : ∀ a sz, (st a).size = some sz → a % 16 = 0
  placed : ∀ a sz, (st a).size = some sz →
    ∃ c, metaRegion c ∈ s.maps ∧ c + 32 ≤ a ∧ a + sz ≤ (s.mem.metaChunk c).cur
  apart : ∀ a b sa sb, a ≠ b → (st a).size = some sa → (st b).size = some sb →
    a + sa ≤ b ∨ b + sb ≤ a
  fresh : ∀ a, (st a).size = none → s.mem.l1 a = .zero

namespace Layout

variable {pf : Platform} {s s' : State} {st st' : Nat → Slot} {a sz : Nat}

/-- An object lies inside one metadata mapping, below `2 ^ 47`. -/
theorem inside (h : Layout pf s st) (ha : (st a).size = some sz) :
    ∃ c, metaRegion c ∈ s.maps ∧ c + 32 ≤ a ∧ a + sz ≤ c + metaChunkSize := by
  obtain ⟨c, hc, h₁, h₂⟩ := h.placed a sz ha
  exact ⟨c, hc, h₁, h₂.trans (h.chunk c hc).2.1⟩

theorem valid (h : Layout pf s st) (ha : (st a).size ≠ none) : Valid a := by
  obtain ⟨sz, hsz⟩ := Option.ne_none_iff_exists'.mp ha
  obtain ⟨c, hc, h₁, h₂⟩ := h.inside hsz
  have hbelow : c + metaChunkSize ≤ 2 ^ 47 := h.maps_ok.below _ hc
  have hpos := (h.isSize a sz hsz).bounds.1
  exact valid_of_lt (by simp only [NULL]; omega) (by omega)

/-- The layout sees only which addresses are objects, and of what size. -/
theorem relabel (h : Layout pf s st) (hst : ∀ a, (st' a).size = (st a).size) :
    Layout pf s st' where
  maps_ok := h.maps_ok
  meta_len := h.meta_len
  chunks := h.chunks
  chunk := h.chunk
  isSize a sz ha := h.isSize a sz (hst a ▸ ha)
  aligned a sz ha := h.aligned a sz (hst a ▸ ha)
  placed a sz ha := h.placed a sz (hst a ▸ ha)
  apart a b sa sb hne ha hb := h.apart a b sa sb hne (hst a ▸ ha) (hst b ▸ hb)
  fresh a ha := h.fresh a (hst a ▸ ha)

/-- Nothing but the chunk headers and the root words of unused memory
matters for the layout. -/
theorem of_mem (h : Layout pf s st) (hmaps : s'.maps = s.maps) (harena : s'.metaArena = s.metaArena)
    (hmc : s'.mem.metaChunk = s.mem.metaChunk)
    (hl1 : ∀ a, (st a).size = none → s'.mem.l1 a = s.mem.l1 a) : Layout pf s' st where
  maps_ok := hmaps ▸ h.maps_ok
  meta_len := hmaps ▸ h.meta_len
  chunks := by rw [hmaps, harena, hmc]; exact h.chunks
  chunk := by rw [hmaps, hmc]; exact h.chunk
  isSize := h.isSize
  aligned := h.aligned
  placed := by rw [hmaps, hmc]; exact h.placed
  apart := h.apart
  fresh a ha := (hl1 a ha).trans (h.fresh a ha)

/-- A region `mmap` may return next holds no object. -/
theorem not_mem_fresh (h : Layout pf s st) {r : Region} (hr : pf.FreshRegion s.maps r)
    (ha : (st a).size ≠ none) : ¬ (r.base ≤ a ∧ a < r.base + r.len) := by
  obtain ⟨sz, hsz⟩ := Option.ne_none_iff_exists'.mp ha
  obtain ⟨c, hc, h₁, h₂⟩ := h.inside hsz
  have hpos := (h.isSize a sz hsz).bounds.1
  have hd : r.base + r.len ≤ c ∨ c + metaChunkSize ≤ r.base := hr.2.2.2.2 _ hc
  omega

end Layout

/-! ## Clearing a fresh region -/

theorem Mem.agreeAt_clear {m : Mem} {a b len : Nat} (h : ¬ (b ≤ a ∧ a < b + len)) :
    m.AgreeAt (m.clear b len) a := by
  simp [Mem.AgreeAt, Mem.clear, h]

theorem Mem.metaChunk_clear_of_not_mem {m : Mem} {a b len : Nat} (h : ¬ (b ≤ a ∧ a < b + len)) :
    (m.clear b len).metaChunk a = m.metaChunk a := by
  simp [Mem.clear, h]

theorem alignUpPtr_eq {p : Nat} (h : p < 2 ^ 63) : alignUpPtr p = (p + 15) / 16 * 16 := by
  unfold alignUpPtr bitNot
  exact and_mask (p + 15) 4 (by omega) (by omega)

theorem alignUpPtr_bounds {p : Nat} (h : p < 2 ^ 63) :
    p ≤ alignUpPtr p ∧ alignUpPtr p < p + 16 ∧ alignUpPtr p % 16 = 0 := by
  rw [alignUpPtr_eq h]
  omega

end FastAlloc
