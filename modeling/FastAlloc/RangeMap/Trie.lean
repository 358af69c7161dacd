/-
FastAlloc.RangeMap.Trie — the shape of a range map in memory, and how each
write of `cmalloc_map` and `cmalloc_unmap` moves it.

`Trie R out m r` says that the map rooted at `r` is a tree of nodes that are
handed out (`out`), that every L2 counter is the number of its children, and
that every L3 counter stands in the relation `R` to the number of its
non-NULL slots. `R` is equality where NULL is never stored; it is weaker
where it is.

The lemmas come per phase: linking a new L2 node, linking a new L3 node,
writing a slot, and the reverse of each. Each gives the new paths and
lookups and keeps `Trie`.
-/
import FastAlloc.RangeMap.Lookup

namespace FastAlloc

open Lib

/-- The nodes of the range map at `r`, and their counters. -/
structure Trie (R : Nat → Nat → Prop) (out : Nat → Option Nat) (m : Mem) (r : Nat) :
    Prop where
  root : out r = some sizeofL1Node
  l2_out : ∀ k, m.l2Of r k ≠ NULL → out (m.l2Of r k) = some sizeofL2Node
  l2_inj : ∀ k k', m.l2Of r k ≠ NULL → m.l2Of r k = m.l2Of r k' → l1IndexOf k = l1IndexOf k'
  l3_out : ∀ k, m.l3Of r k ≠ NULL → out (m.l3Of r k) = some sizeofL3Node
  l3_inj : ∀ k k', m.l3Of r k ≠ NULL → m.l3Of r k = m.l3Of r k' →
    l1IndexOf k = l1IndexOf k' ∧ l2IndexOf k = l2IndexOf k'
  l2_count : ∀ k, m.l2Of r k ≠ NULL →
    (m.l2 (m.l2Of r k)).count = occupied l2Size (m.l2 (m.l2Of r k)).l2
  l3_count : ∀ k, m.l3Of r k ≠ NULL →
    R (occupied l3Size (m.l3 (m.l3Of r k)).l3) (m.l3 (m.l3Of r k)).count

variable {R : Nat → Nat → Prop} {out out' : Nat → Option Nat} {m m' : Mem} {r : Nat}
  {key k : Nat}

/-! ## Frames -/

namespace Mem

/-- Two memories agree on every object at `a`. -/
def AgreeAt (m m' : Mem) (a : Nat) : Prop :=
  m'.l1 a = m.l1 a ∧ m'.l2 a = m.l2 a ∧ m'.l3 a = m.l3 a ∧ m'.span a = m.span a ∧
    m'.dataChunk a = m.dataChunk a

theorem AgreeAt.refl (m : Mem) (a : Nat) : m.AgreeAt m a := ⟨rfl, rfl, rfl, rfl, rfl⟩

theorem AgreeAt.trans {m₁ m₂ m₃ : Mem} {a : Nat} (h : m₁.AgreeAt m₂ a) (h' : m₂.AgreeAt m₃ a) :
    m₁.AgreeAt m₃ a :=
  ⟨h'.1.trans h.1, h'.2.1.trans h.2.1, h'.2.2.1.trans h.2.2.1, h'.2.2.2.1.trans h.2.2.2.1,
    h'.2.2.2.2.trans h.2.2.2.2⟩

/-- Two memories agree on every object that is handed out. -/
def Agree (out : Nat → Option Nat) (m m' : Mem) : Prop :=
  ∀ a, out a ≠ none → m.AgreeAt m' a

theorem Agree.refl (out : Nat → Option Nat) (m : Mem) : Agree out m m :=
  fun _ _ => AgreeAt.refl _ _

theorem Agree.trans {m₁ m₂ m₃ : Mem} (h : Agree out m₁ m₂) (h' : Agree out m₂ m₃) :
    Agree out m₁ m₃ := fun a ha => (h a ha).trans (h' a ha)

/-- The two memories lead `k` along the same nodes to the same value. -/
structure SamePath (r : Nat) (k : Nat) (m m' : Mem) : Prop where
  l2Of : m'.l2Of r k = m.l2Of r k
  l3Of : m'.l3Of r k = m.l3Of r k
  lookup : m'.lookup r k = m.lookup r k

theorem SamePath.refl (r k : Nat) (m : Mem) : SamePath r k m m := ⟨rfl, rfl, rfl⟩

theorem SamePath.trans {m₁ m₂ m₃ : Mem} (h : SamePath r k m₁ m₂) (h' : SamePath r k m₂ m₃) :
    SamePath r k m₁ m₃ :=
  ⟨h'.l2Of.trans h.l2Of, h'.l3Of.trans h.l3Of, h'.lookup.trans h.lookup⟩

/-- A lookup depends only on the three words of its path. -/
theorem SamePath.of_words (h₁ : m'.l2Of r k = m.l2Of r k)
    (h₂ : m.l2Of r k ≠ NULL →
      (m'.l2 (m.l2Of r k)).l2 (l2IndexOf k) = (m.l2 (m.l2Of r k)).l2 (l2IndexOf k))
    (h₃ : m.l3Of r k ≠ NULL →
      (m'.l3 (m.l3Of r k)).l3 (l3IndexOf k) = (m.l3 (m.l3Of r k)).l3 (l3IndexOf k)) :
    SamePath r k m m' := by
  have h3 : m'.l3Of r k = m.l3Of r k := by
    rw [Mem.l3Of, Mem.l3Of, h₁]
    split
    · rfl
    · exact h₂ ‹_›
  refine ⟨h₁, h3, ?_⟩
  rw [Mem.lookup, Mem.lookup, h3]
  split
  · rfl
  · exact h₃ ‹_›

/-- Every key but `key` that is mapped in `m` is found the same way in `m'`. -/
def KeepsOthers (r : Nat) (key : Nat) (m m' : Mem) : Prop :=
  ∀ k, ¬ SameKey k key → m.lookup r k ≠ NULL → SamePath r k m m'

theorem KeepsOthers.refl (r key : Nat) (m : Mem) : KeepsOthers r key m m :=
  fun _ _ _ => .refl _ _ _

theorem KeepsOthers.trans {m₁ m₂ m₃ : Mem} (h : KeepsOthers r key m₁ m₂)
    (h' : KeepsOthers r key m₂ m₃) : KeepsOthers r key m₁ m₃ := fun k hs hk =>
  (h k hs hk).trans (h' k hs (by rwa [(h k hs hk).lookup]))

/-- Every node of the range map has a mapped key below it. -/
structure NoEmptyNode (m : Mem) (r : Nat) : Prop where
  l2 : ∀ k, m.l2Of r k ≠ NULL → ∃ k', l1IndexOf k' = l1IndexOf k ∧ m.lookup r k' ≠ NULL
  l3 : ∀ k, m.l3Of r k ≠ NULL →
    ∃ k', l1IndexOf k' = l1IndexOf k ∧ l2IndexOf k' = l2IndexOf k ∧ m.lookup r k' ≠ NULL

/-- Mapping `key` while adding at most the nodes on its path leaves no empty
node. -/
theorem NoEmptyNode.map (h : m.NoEmptyNode r) (hkey : m'.lookup r key ≠ NULL)
    (hold : ∀ k, m.lookup r k ≠ NULL → m'.lookup r k ≠ NULL)
    (h2 : ∀ k, m'.l2Of r k = m.l2Of r k ∨ m.l2Of r k = NULL ∧ l1IndexOf k = l1IndexOf key)
    (h3 : ∀ k, m'.l3Of r k = m.l3Of r k ∨
      m.l3Of r k = NULL ∧ l1IndexOf k = l1IndexOf key ∧ l2IndexOf k = l2IndexOf key) :
    m'.NoEmptyNode r := by
  constructor
  · intro k hk
    rcases h2 k with he | ⟨-, he⟩
    · obtain ⟨k', h₁, h₂⟩ := h.l2 k (by rwa [he] at hk)
      exact ⟨k', h₁, hold k' h₂⟩
    · exact ⟨key, he.symm, hkey⟩
  · intro k hk
    rcases h3 k with he | ⟨-, he₁, he₂⟩
    · obtain ⟨k', h₁, h₂, h₃⟩ := h.l3 k (by rwa [he] at hk)
      exact ⟨k', h₁, h₂, hold k' h₃⟩
    · exact ⟨key, he₁.symm, he₂.symm, hkey⟩

/-- The memory once `cmalloc_map` has linked and cleared the L2 node `a`. -/
def linkL2 (m : Mem) (r : Nat) (key : Nat) (a : Nat) : Mem :=
  (m.setL1 r (l1IndexOf key) a).clearL2 a (l2Size + 1)

/-- The memory once `cmalloc_map` has linked, cleared and counted the L3
node `b`. -/
def linkL3 (m : Mem) (r : Nat) (key : Nat) (b : Nat) : Mem :=
  ((m.setL2 (m.l2Of r key) (l2IndexOf key) b).clearL3 b (l3Size + 1)).setL2Count (m.l2Of r key)
    (sizeInc (m.l2 (m.l2Of r key)).count)

/-- The L3 node `b` replaced by `n`. -/
def putL3 (m : Mem) (b : Nat) (n : L3Node) : Mem :=
  { m with l3 := Function.update m.l3 b n }

/-- The memory once `cmalloc_unmap` has unlinked the L3 node of `key`. -/
def unlinkL3 (m : Mem) (r : Nat) (key : Nat) : Mem :=
  (m.setL2 (m.l2Of r key) (l2IndexOf key) NULL).setL2Count (m.l2Of r key)
    (sizeDec (m.l2 (m.l2Of r key)).count)

/-- The memory once `cmalloc_unmap` has unlinked the L2 node of `key`. -/
def unlinkL2 (m : Mem) (r : Nat) (key : Nat) : Mem := m.setL1 r (l1IndexOf key) NULL

end Mem

open Mem

namespace Trie

theorem l2Of_agree (h : Trie R out m r) (ha : Agree out m m') : m'.l2Of r k = m.l2Of r k := by
  rw [l2Of, l2Of, (ha r (by rw [h.root]; simp)).1]

theorem l3Of_agree (h : Trie R out m r) (ha : Agree out m m') : m'.l3Of r k = m.l3Of r k := by
  rw [l3Of, l3Of, h.l2Of_agree ha]
  split
  · rfl
  · rw [(ha _ (by rw [h.l2_out k ‹_›]; simp)).2.1]

theorem lookup_agree (h : Trie R out m r) (ha : Agree out m m') :
    m'.lookup r k = m.lookup r k := by
  rw [lookup, lookup, h.l3Of_agree ha]
  split
  · rfl
  · rw [(ha _ (by rw [h.l3_out k ‹_›]; simp)).2.2.1]

theorem samePath_agree (h : Trie R out m r) (ha : Agree out m m') : SamePath r k m m' :=
  ⟨h.l2Of_agree ha, h.l3Of_agree ha, h.lookup_agree ha⟩

theorem keepsOthers_agree (h : Trie R out m r) (ha : Agree out m m') : KeepsOthers r key m m' :=
  fun _ _ _ => h.samePath_agree ha

theorem leafCount_agree (h : Trie R out m r) (ha : Agree out m m') :
    m'.leafCount r k = m.leafCount r k := by
  rw [leafCount, leafCount, h.l3Of_agree ha]
  split
  · rfl
  · rw [(ha _ (by rw [h.l3_out k ‹_›]; simp)).2.2.1]

/-- A range map survives what leaves the objects handed out alone. -/
theorem agree (h : Trie R out m r) (ha : Agree out m m') : Trie R out m' r where
  root := h.root
  l2_out k hk := by rw [h.l2Of_agree ha] at hk ⊢; exact h.l2_out k hk
  l2_inj k k' hk he := by
    rw [h.l2Of_agree ha] at hk he; rw [h.l2Of_agree ha] at he; exact h.l2_inj k k' hk he
  l3_out k hk := by rw [h.l3Of_agree ha] at hk ⊢; exact h.l3_out k hk
  l3_inj k k' hk he := by
    rw [h.l3Of_agree ha] at hk he; rw [h.l3Of_agree ha] at he; exact h.l3_inj k k' hk he
  l2_count k hk := by
    rw [h.l2Of_agree ha] at hk ⊢
    rw [(ha _ (by rw [h.l2_out k hk]; simp)).2.1]
    exact h.l2_count k hk
  l3_count k hk := by
    rw [h.l3Of_agree ha] at hk ⊢
    rw [(ha _ (by rw [h.l3_out k hk]; simp)).2.2.1]
    exact h.l3_count k hk

/-- A root cleared to zero is an empty map. -/
theorem zero (hout : out r = some sizeofL1Node) (hz : m.l1 r = .zero) : Trie R out m r := by
  have h2 : ∀ k, m.l2Of r k = NULL := fun k => l2Of_zero hz
  have h3 : ∀ k, m.l3Of r k = NULL := fun k => by rw [l3Of, if_pos (h2 k)]
  exact ⟨hout, fun k hk => absurd (h2 k) hk, fun k _ hk => absurd (h2 k) hk,
    fun k hk => absurd (h3 k) hk, fun k _ hk => absurd (h3 k) hk,
    fun k hk => absurd (h2 k) hk, fun k hk => absurd (h3 k) hk⟩

/-- Less may be said of the counters. -/
theorem weaken {R' : Nat → Nat → Prop} (h : Trie R out m r) (hR : ∀ n c, R n c → R' n c) :
    Trie R' out m r where
  root := h.root
  l2_out := h.l2_out
  l2_inj := h.l2_inj
  l3_out := h.l3_out
  l3_inj := h.l3_inj
  l2_count := h.l2_count
  l3_count k hk := hR _ _ (h.l3_count k hk)

/-- A range map survives the hand-out of further objects. -/
theorem grow (h : Trie R out m r) (ho : ∀ a sz, out a = some sz → out' a = some sz) :
    Trie R out' m r where
  root := ho _ _ h.root
  l2_out k hk := ho _ _ (h.l2_out k hk)
  l2_inj := h.l2_inj
  l3_out k hk := ho _ _ (h.l3_out k hk)
  l3_inj := h.l3_inj
  l2_count := h.l2_count
  l3_count := h.l3_count

/-! ## A new L2 node -/

section LinkL2

variable {a : Nat} (h : Trie R out m r) (h0 : m.l2Of r key = NULL) (hne : a ≠ NULL)
  (hfresh : out a = none)

omit h in
include h0 in
theorem index_ne (hk : m.l2Of r k ≠ NULL) : l1IndexOf k ≠ l1IndexOf key := fun he =>
  hk (by rw [l2Of_congr he, h0])

include h hfresh in
theorem l2Of_ne_fresh (hk : m.l2Of r k ≠ NULL) : m.l2Of r k ≠ a := fun he => by
  have := h.l2_out k hk
  rw [he, hfresh] at this
  simp at this

include h hfresh in
theorem l3Of_ne_fresh (hk : m.l3Of r k ≠ NULL) : m.l3Of r k ≠ a := fun he => by
  have := h.l3_out k hk
  rw [he, hfresh] at this
  simp at this

theorem l2Of_setL1 (m : Mem) (r i a k : Nat) :
    (m.setL1 r i a).l2Of r k = if l1IndexOf k = i then a else m.l2Of r k := by
  simp only [l2Of, Mem.setL1, Function.update_self, Function.update_apply]

omit h in
include h0 in
/-- Between the two stores of linking, and during the `memset`, no other
mapping is lost. -/
theorem keepsOthers_setL1 : KeepsOthers r key m (m.setL1 r (l1IndexOf key) a) := by
  intro k _ hk
  have h2 := l2Of_ne_of_l3Of_ne (l3Of_ne_of_lookup_ne hk)
  refine .of_words ?_ (fun _ => rfl) (fun _ => rfl)
  rw [l2Of_setL1, if_neg (index_ne h0 h2)]

include h h0 hfresh in
theorem keepsOthers_clearL2 (n : Nat) :
    KeepsOthers r key m ((m.setL1 r (l1IndexOf key) a).clearL2 a n) := by
  intro k _ hk
  have h2 := l2Of_ne_of_l3Of_ne (l3Of_ne_of_lookup_ne hk)
  refine .of_words ?_ (fun _ => ?_) (fun _ => rfl)
  · exact (l2Of_setL1 ..).trans (if_neg (index_ne h0 h2))
  · simp [Mem.clearL2, Mem.setL1, Function.update_of_ne (h.l2Of_ne_fresh hfresh h2)]

theorem l2Of_linkL2 : (m.linkL2 r key a).l2Of r k
    = if l1IndexOf k = l1IndexOf key then a else m.l2Of r k :=
  l2Of_setL1 ..

theorem l2_linkL2_self : (m.linkL2 r key a).l2 a
    = ⟨fun i => if i < l2Size + 1 then 0 else (m.l2 a).l2 i, 0⟩ := by
  simp [linkL2, Mem.clearL2, Mem.setL1]

theorem l2_linkL2_of_ne {b : Nat} (hb : b ≠ a) : (m.linkL2 r key a).l2 b = m.l2 b := by
  simp [linkL2, Mem.clearL2, Mem.setL1, Function.update_of_ne hb]

include h h0 hne hfresh in
theorem l3Of_linkL2 : (m.linkL2 r key a).l3Of r k = m.l3Of r k := by
  by_cases hi : l1IndexOf k = l1IndexOf key
  · have hk : m.l2Of r k = NULL := by rw [l2Of_congr hi, h0]
    rw [l3Of, l2Of_linkL2, if_pos hi, if_neg hne, l2_linkL2_self, l3Of, if_pos hk]
    simp [Nat.lt_succ_of_lt (l2IndexOf_lt k)]
  · rw [l3Of, l2Of_linkL2, if_neg hi, l3Of]
    split
    · rfl
    · rw [l2_linkL2_of_ne (h.l2Of_ne_fresh hfresh ‹_›)]

include h h0 hne hfresh in
theorem lookup_linkL2 : (m.linkL2 r key a).lookup r k = m.lookup r k := by
  rw [lookup, lookup, h.l3Of_linkL2 h0 hne hfresh]
  rfl

include h h0 hne hfresh in
theorem leafCount_linkL2 : (m.linkL2 r key a).leafCount r k = m.leafCount r k := by
  rw [leafCount, leafCount, h.l3Of_linkL2 h0 hne hfresh]
  rfl

include h h0 hne hfresh in
theorem linkL2 (ho : ∀ b sz, out b = some sz → out' b = some sz)
    (ha : out' a = some sizeofL2Node) : Trie R out' (m.linkL2 r key a) r where
  root := ho _ _ h.root
  l2_out k hk := by
    rw [l2Of_linkL2] at hk ⊢
    split
    · exact ha
    · rw [if_neg ‹_›] at hk; exact ho _ _ (h.l2_out k hk)
  l2_inj k k' hk he := by
    rw [l2Of_linkL2] at hk he
    rw [l2Of_linkL2] at he
    split at he
    · split at he
      · rw [‹l1IndexOf k = _›, ‹l1IndexOf k' = _›]
      · exact absurd he.symm (h.l2Of_ne_fresh hfresh (by rw [← he]; exact hne))
    · rw [if_neg ‹_›] at hk
      split at he
      · exact absurd he (h.l2Of_ne_fresh hfresh hk)
      · exact h.l2_inj k k' hk he
  l3_out k hk := by
    rw [h.l3Of_linkL2 h0 hne hfresh] at hk ⊢
    exact ho _ _ (h.l3_out k hk)
  l3_inj k k' hk he := by
    rw [h.l3Of_linkL2 h0 hne hfresh] at hk he
    rw [h.l3Of_linkL2 h0 hne hfresh] at he
    exact h.l3_inj k k' hk he
  l2_count k hk := by
    rw [l2Of_linkL2] at hk ⊢
    split
    · rw [l2_linkL2_self]
      exact (occupied_eq_zero.mpr fun i hi => by simp [Nat.lt_succ_of_lt hi]).symm
    · rw [if_neg ‹_›] at hk
      rw [l2_linkL2_of_ne (h.l2Of_ne_fresh hfresh hk)]
      exact h.l2_count k hk
  l3_count k hk := by
    rw [h.l3Of_linkL2 h0 hne hfresh] at hk ⊢
    exact h.l3_count k hk

end LinkL2

/-! ## A new L3 node -/

section LinkL3

variable {b : Nat} (h : Trie R out m r) (h2 : m.l2Of r key ≠ NULL) (h0 : m.l3Of r key = NULL)
  (hne : b ≠ NULL) (hfresh : out b = none)

omit hfresh in
theorem l2Of_linkL3 : (m.linkL3 r key b).l2Of r k = m.l2Of r k := rfl

theorem l2_linkL3_self : (m.linkL3 r key b).l2 (m.l2Of r key)
    = ⟨Function.update (m.l2 (m.l2Of r key)).l2 (l2IndexOf key) b,
       sizeInc (m.l2 (m.l2Of r key)).count⟩ := by
  simp [linkL3, Mem.setL2Count, Mem.clearL3, Mem.setL2]

theorem l2_linkL3_of_ne {a : Nat} (ha : a ≠ m.l2Of r key) :
    (m.linkL3 r key b).l2 a = m.l2 a := by
  simp [linkL3, Mem.setL2Count, Mem.clearL3, Mem.setL2, Function.update_of_ne ha]

theorem l3_linkL3_self : (m.linkL3 r key b).l3 b
    = ⟨fun i => if i < l3Size + 1 then 0 else (m.l3 b).l3 i, 0⟩ := by
  simp [linkL3, Mem.setL2Count, Mem.clearL3, Mem.setL2]

theorem l3_linkL3_of_ne {a : Nat} (ha : a ≠ b) : (m.linkL3 r key b).l3 a = m.l3 a := by
  simp [linkL3, Mem.setL2Count, Mem.clearL3, Mem.setL2, Function.update_of_ne ha]

include h h2 in
/-- The slot `key` hangs its L3 node in, after a write there. -/
theorem l3Of_setL2 {n : Mem} {v : Nat} (h₁ : n.l1 r = m.l1 r)
    (hself : (n.l2 (m.l2Of r key)).l2
      = Function.update (m.l2 (m.l2Of r key)).l2 (l2IndexOf key) v)
    (hother : ∀ a, a ≠ m.l2Of r key → (n.l2 a).l2 = (m.l2 a).l2) :
    n.l3Of r k
      = if l1IndexOf k = l1IndexOf key ∧ l2IndexOf k = l2IndexOf key then v else m.l3Of r k := by
  have hl2 : n.l2Of r k = m.l2Of r k := by rw [l2Of, l2Of, h₁]
  rw [l3Of, hl2]
  by_cases hk : m.l2Of r k = NULL
  · rw [if_pos hk, l3Of, if_pos hk, if_neg]
    rintro ⟨h₁, -⟩
    exact h2 (by rw [← l2Of_congr h₁, hk])
  · rw [if_neg hk]
    by_cases he : m.l2Of r k = m.l2Of r key
    · have hi := h.l2_inj k key hk he
      simp only [he, hself, Function.update_apply, hi, true_and, l3Of_of_l2Of hk]
    · rw [hother _ he, if_neg, l3Of_of_l2Of hk]
      rintro ⟨h₁, -⟩
      exact he (l2Of_congr h₁)

include h h2 in
theorem l3Of_linkL3 : (m.linkL3 r key b).l3Of r k
    = if l1IndexOf k = l1IndexOf key ∧ l2IndexOf k = l2IndexOf key then b else m.l3Of r k :=
  h.l3Of_setL2 h2 rfl (by rw [l2_linkL3_self]) fun a ha => by rw [l2_linkL3_of_ne ha]

include h h2 h0 in
theorem l3Of_setL2_of_ne (hk : m.l3Of r k ≠ NULL) :
    (m.setL2 (m.l2Of r key) (l2IndexOf key) b).l3Of r k = m.l3Of r k := by
  rw [h.l3Of_setL2 (n := m.setL2 (m.l2Of r key) (l2IndexOf key) b) (v := b) h2 rfl
    (by simp [Mem.setL2]) (fun a ha => by simp [Mem.setL2, Function.update_of_ne ha]), if_neg]
  rintro ⟨h₁, h₂⟩
  exact hk (by rw [l3Of_congr h₁ h₂, h0])

include h h2 h0 in
/-- Right after the new node is linked no other mapping is lost. -/
theorem keepsOthers_setL2 :
    KeepsOthers r key m (m.setL2 (m.l2Of r key) (l2IndexOf key) b) := by
  intro k _ hk
  have h3 := h.l3Of_setL2_of_ne (b := b) h2 h0 (l3Of_ne_of_lookup_ne hk)
  refine ⟨rfl, h3, ?_⟩
  rw [lookup, lookup, h3]
  rfl

include h h2 h0 hfresh in
theorem keepsOthers_clearL3 (n : Nat) :
    KeepsOthers r key m ((m.setL2 (m.l2Of r key) (l2IndexOf key) b).clearL3 b n) := by
  intro k hs hk
  have h3 := l3Of_ne_of_lookup_ne hk
  refine (h.keepsOthers_setL2 h2 h0 k hs hk).trans (.of_words rfl (fun _ => rfl) fun _ => ?_)
  rw [h.l3Of_setL2_of_ne h2 h0 h3]
  simp [Mem.clearL3, Function.update_of_ne (h.l3Of_ne_fresh hfresh h3)]

omit h in
theorem samePath_setL2Count {p c : Nat} : SamePath r k m (m.setL2Count p c) := by
  refine .of_words rfl (fun _ => ?_) fun _ => rfl
  simp only [Mem.setL2Count, Function.update_apply]
  split
  · rw [‹m.l2Of r k = p›]
  · rfl

include h h2 h0 hfresh in
theorem keepsOthers_linkL3 : KeepsOthers r key m (m.linkL3 r key b) := fun k hs hk =>
  (h.keepsOthers_clearL3 h2 h0 hfresh _ k hs hk).trans samePath_setL2Count

include h h2 h0 hfresh in
theorem lookup_linkL3 (hne : b ≠ NULL) : (m.linkL3 r key b).lookup r k = m.lookup r k := by
  rw [lookup, h.l3Of_linkL3 h2]
  split
  · rename_i he
    have hk : m.l3Of r k = NULL := by rw [l3Of_congr he.1 he.2, h0]
    rw [l3_linkL3_self, lookup, if_pos hk]
    simp [Nat.lt_succ_of_lt (l3IndexOf_lt k)]
  · rw [lookup]
    split
    · rfl
    · rw [l3_linkL3_of_ne (h.l3Of_ne_fresh hfresh ‹_›)]

include h h2 h0 hne hfresh in
theorem linkL3 (hR : R 0 0) (ho : ∀ a sz, out a = some sz → out' a = some sz)
    (hb : out' b = some sizeofL3Node) : Trie R out' (m.linkL3 r key b) r where
  root := ho _ _ h.root
  l2_out k hk := ho _ _ (h.l2_out k hk)
  l2_inj := h.l2_inj
  l3_out k hk := by
    rw [h.l3Of_linkL3 h2] at hk ⊢
    split
    · exact hb
    · rw [if_neg ‹_›] at hk; exact ho _ _ (h.l3_out k hk)
  l3_inj k k' hk he := by
    rw [h.l3Of_linkL3 h2] at hk he
    rw [h.l3Of_linkL3 h2] at he
    split at he
    · split at he
      · rename_i h₁ h₂
        exact ⟨h₁.1.trans h₂.1.symm, h₁.2.trans h₂.2.symm⟩
      · exact absurd he.symm (h.l3Of_ne_fresh hfresh (by rw [← he]; exact hne))
    · rw [if_neg ‹_›] at hk
      split at he
      · exact absurd he (h.l3Of_ne_fresh hfresh hk)
      · exact h.l3_inj k k' hk he
  l2_count k hk := by
    change m.l2Of r k ≠ NULL at hk
    rw [l2Of_linkL3]
    by_cases he : m.l2Of r k = m.l2Of r key
    · rw [he, l2_linkL3_self]
      have hold : (m.l2 (m.l2Of r key)).l2 (l2IndexOf key) = NULL := by
        rw [← l3Of_of_l2Of h2, h0]
      have hup := occupied_update (f := (m.l2 (m.l2Of r key)).l2) (l2IndexOf_lt key) b
      rw [hold, filled_of_ne hne, filled_zero] at hup
      have hle := occupied_le l2Size (Function.update (m.l2 (m.l2Of r key)).l2 (l2IndexOf key) b)
      have hl2 : l2Size = 4096 := rfl
      rw [h.l2_count key h2, sizeInc_of_lt (by omega)]
      dsimp only
      omega
    · rw [l2_linkL3_of_ne he]
      exact h.l2_count k hk
  l3_count k hk := by
    rw [h.l3Of_linkL3 h2] at hk ⊢
    split
    · rw [l3_linkL3_self, occupied_eq_zero.mpr fun i hi => by simp [Nat.lt_succ_of_lt hi]]
      exact hR
    · rw [if_neg ‹_›] at hk
      rw [l3_linkL3_of_ne (h.l3Of_ne_fresh hfresh hk)]
      exact h.l3_count k hk

include h h2 in
omit h0 in
theorem leafCount_linkL3 (hne : b ≠ NULL) : (m.linkL3 r key b).leafCount r key = 0 := by
  have hl : (m.linkL3 r key b).l3Of r key = b := by simp [h.l3Of_linkL3 h2]
  rw [leafCount, hl, if_neg hne, l3_linkL3_self]

end LinkL3

/-! ## Writing in an L3 node -/

section PutL3

variable {n : L3Node} (h : Trie R out m r) (h3 : m.l3Of r key ≠ NULL)

theorem l3Of_putL3 (b : Nat) : (m.putL3 b n).l3Of r k = m.l3Of r k := rfl

include h h3 in
/-- Replacing the node of `key` changes exactly the lookups that end in it. -/
theorem lookup_putL3 : (m.putL3 (m.l3Of r key) n).lookup r k
    = if l1IndexOf k = l1IndexOf key ∧ l2IndexOf k = l2IndexOf key then n.l3 (l3IndexOf k)
      else m.lookup r k := by
  rw [lookup, l3Of_putL3]
  by_cases he : m.l3Of r k = m.l3Of r key
  · have hi := h.l3_inj key k h3 he.symm
    simp [he, h3, Mem.putL3, hi]
  · rw [if_neg (c := _ ∧ _) fun hi => he (l3Of_congr hi.1 hi.2), lookup]
    simp [putL3, Function.update_of_ne he]

include h h3 in
/-- Writing `v` in the slot of `key`, whatever happens to the counter. -/
theorem lookup_putL3_slot {v c : Nat} :
    (m.putL3 (m.l3Of r key) ⟨Function.update (m.l3 (m.l3Of r key)).l3 (l3IndexOf key) v, c⟩).lookup
      r k = if SameKey k key then v else m.lookup r k := by
  rw [h.lookup_putL3 h3]
  by_cases hs : SameKey k key
  · obtain ⟨h₁, h₂, h₃⟩ := (sameKey_iff _ _).mp hs
    simp [hs, h₁, h₂, h₃]
  · rw [if_neg hs]
    split
    · rename_i hi
      have h₃ : l3IndexOf k ≠ l3IndexOf key := fun h₃ =>
        hs ((sameKey_iff _ _).mpr ⟨hi.1, hi.2, h₃⟩)
      have hk : m.l3Of r k = m.l3Of r key := l3Of_congr hi.1 hi.2
      simp only [Function.update_of_ne h₃]
      rw [← hk, lookup_of_l3Of (by rw [hk]; exact h3)]
    · rfl

include h h3 in
/-- Changing only the counter changes no lookup. -/
theorem lookup_putL3_count {c : Nat} :
    (m.putL3 (m.l3Of r key) ⟨(m.l3 (m.l3Of r key)).l3, c⟩).lookup r k = m.lookup r k := by
  rw [h.lookup_putL3 h3]
  split
  · rename_i hi
    have hk : m.l3Of r k = m.l3Of r key := l3Of_congr hi.1 hi.2
    rw [← hk, lookup_of_l3Of (by rw [hk]; exact h3)]
  · rfl

include h h3 in
theorem keepsOthers_putL3_slot {v c : Nat} : KeepsOthers r key m
    (m.putL3 (m.l3Of r key) ⟨Function.update (m.l3 (m.l3Of r key)).l3 (l3IndexOf key) v, c⟩) :=
  fun k hs _ => ⟨rfl, rfl, by rw [h.lookup_putL3_slot h3, if_neg hs]⟩

include h h3 in
theorem keepsOthers_putL3_count {c : Nat} : KeepsOthers r key m
    (m.putL3 (m.l3Of r key) ⟨(m.l3 (m.l3Of r key)).l3, c⟩) :=
  fun _ _ _ => ⟨rfl, rfl, h.lookup_putL3_count h3⟩

omit h3 in
include h in
theorem putL3 (hR : R (occupied l3Size n.l3) n.count) :
    Trie R out (m.putL3 (m.l3Of r key) n) r where
  root := h.root
  l2_out := h.l2_out
  l2_inj := h.l2_inj
  l3_out := h.l3_out
  l3_inj := h.l3_inj
  l2_count := h.l2_count
  l3_count k hk := by
    rw [l3Of_putL3] at hk ⊢
    by_cases he : m.l3Of r k = m.l3Of r key
    · simpa [Mem.putL3, he] using hR
    · simpa [Mem.putL3, Function.update_of_ne he] using h.l3_count k hk

end PutL3

/-! ## Giving an empty L3 node back -/

section UnlinkL3

variable (h : Trie R out m r) (h3 : m.l3Of r key ≠ NULL)
  (hempty : ∀ i < l3Size, (m.l3 (m.l3Of r key)).l3 i = NULL)

theorem l2_unlinkL3_self : (m.unlinkL3 r key).l2 (m.l2Of r key)
    = ⟨Function.update (m.l2 (m.l2Of r key)).l2 (l2IndexOf key) NULL,
       sizeDec (m.l2 (m.l2Of r key)).count⟩ := by
  simp [unlinkL3, Mem.setL2Count, Mem.setL2]

theorem l2_unlinkL3_of_ne {a : Nat} (ha : a ≠ m.l2Of r key) :
    (m.unlinkL3 r key).l2 a = m.l2 a := by
  simp [unlinkL3, Mem.setL2Count, Mem.setL2, Function.update_of_ne ha]

include h h3 in
theorem l3Of_unlinkL3 : (m.unlinkL3 r key).l3Of r k
    = if l1IndexOf k = l1IndexOf key ∧ l2IndexOf k = l2IndexOf key then NULL
      else m.l3Of r k :=
  h.l3Of_setL2 (l2Of_ne_of_l3Of_ne h3) rfl (by rw [l2_unlinkL3_self])
    fun a ha => by rw [l2_unlinkL3_of_ne ha]

include hempty in
theorem lookup_eq_null_of_empty (h₁ : l1IndexOf k = l1IndexOf key)
    (h₂ : l2IndexOf k = l2IndexOf key) : m.lookup r k = NULL := by
  rw [lookup]
  split
  · rfl
  · rw [l3Of_congr h₁ h₂]
    exact hempty _ (l3IndexOf_lt k)

include h h3 hempty in
theorem lookup_unlinkL3 : (m.unlinkL3 r key).lookup r k = m.lookup r k := by
  rw [lookup, h.l3Of_unlinkL3 h3]
  split
  · rename_i hi
    exact (lookup_eq_null_of_empty hempty hi.1 hi.2).symm
  · rw [lookup]
    rfl

include h h3 hempty in
/-- Unlinking an empty leaf loses no mapping, at either of its stores. -/
theorem keepsOthers_setL2_null :
    KeepsOthers r key m (m.setL2 (m.l2Of r key) (l2IndexOf key) NULL) := by
  intro k _ hk
  have hl3 := h.l3Of_setL2 (n := m.setL2 (m.l2Of r key) (l2IndexOf key) NULL) (v := NULL) (k := k)
    (l2Of_ne_of_l3Of_ne h3) rfl (by simp [Mem.setL2])
    fun a ha => by simp [Mem.setL2, Function.update_of_ne ha]
  rw [if_neg fun hi => hk (lookup_eq_null_of_empty hempty hi.1 hi.2)] at hl3
  refine ⟨rfl, hl3, ?_⟩
  rw [lookup, lookup, hl3]
  rfl

include h h3 hempty in
theorem keepsOthers_unlinkL3 : KeepsOthers r key m (m.unlinkL3 r key) := fun k hs hk =>
  (h.keepsOthers_setL2_null h3 hempty k hs hk).trans samePath_setL2Count

include h h3 in
theorem unlinkL3 (ho : ∀ a sz, a ≠ m.l3Of r key → out a = some sz → out' a = some sz) :
    Trie R out' (m.unlinkL3 r key) r := by
  have hsz : ∀ {a sz}, out a = some sz → sz ≠ sizeofL3Node → a ≠ m.l3Of r key := by
    rintro a sz ha hne rfl
    rw [h.l3_out key h3] at ha
    exact hne (Option.some.inj ha).symm
  constructor
  case root => exact ho _ _ (hsz h.root (by decide)) h.root
  case l2_out =>
    intro k hk
    exact ho _ _ (hsz (h.l2_out k hk) (by decide)) (h.l2_out k hk)
  case l2_inj => exact h.l2_inj
  case l3_out =>
    intro k hk
    rw [h.l3Of_unlinkL3 h3] at hk ⊢
    split
    · rw [if_pos ‹_›] at hk; exact absurd rfl hk
    · rename_i hi
      rw [if_neg hi] at hk
      refine ho _ _ (fun he => hi ?_) (h.l3_out k hk)
      exact h.l3_inj k key hk he
  case l3_inj =>
    intro k k' hk he
    rw [h.l3Of_unlinkL3 h3] at hk he
    rw [h.l3Of_unlinkL3 h3] at he
    split at he
    · rw [if_pos ‹_›] at hk; exact absurd rfl hk
    · rw [if_neg ‹_›] at hk
      split at he
      · exact absurd he hk
      · exact h.l3_inj k k' hk he
  case l2_count =>
    intro k hk
    change m.l2Of r k ≠ NULL at hk
    change ((m.unlinkL3 r key).l2 (m.l2Of r k)).count = _
    by_cases he : m.l2Of r k = m.l2Of r key
    · have h2 := l2Of_ne_of_l3Of_ne h3
      have he' : (m.unlinkL3 r key).l2Of r k = m.l2Of r key := he
      rw [he, he', l2_unlinkL3_self]
      have hold : (m.l2 (m.l2Of r key)).l2 (l2IndexOf key) ≠ NULL := by
        rwa [← l3Of_of_l2Of h2]
      have hup := occupied_update (f := (m.l2 (m.l2Of r key)).l2) (l2IndexOf_lt key) NULL
      rw [filled_of_ne hold, filled_zero] at hup
      have hle := occupied_le l2Size (m.l2 (m.l2Of r key)).l2
      have hl2 : l2Size = 4096 := rfl
      rw [h.l2_count key h2, show occupied l2Size (m.l2 (m.l2Of r key)).l2
        = occupied l2Size (Function.update (m.l2 (m.l2Of r key)).l2 (l2IndexOf key) NULL) + 1 by
        omega]
      exact sizeDec_succ _
    · rw [show (m.unlinkL3 r key).l2Of r k = m.l2Of r k from rfl, l2_unlinkL3_of_ne he]
      exact h.l2_count k hk
  case l3_count =>
    intro k hk
    rw [h.l3Of_unlinkL3 h3] at hk ⊢
    split
    · rw [if_pos ‹_›] at hk; exact absurd rfl hk
    · rw [if_neg ‹_›] at hk
      exact h.l3_count k hk

end UnlinkL3

/-! ## Giving an empty L2 node back -/

section UnlinkL2

variable (h : Trie R out m r) (h2 : m.l2Of r key ≠ NULL)
  (hempty : ∀ j < l2Size, (m.l2 (m.l2Of r key)).l2 j = NULL)

theorem l2Of_unlinkL2 : (m.unlinkL2 r key).l2Of r k
    = if l1IndexOf k = l1IndexOf key then NULL else m.l2Of r k :=
  l2Of_setL1 ..

include hempty in
theorem l3Of_eq_null_of_empty (h₁ : l1IndexOf k = l1IndexOf key) : m.l3Of r k = NULL := by
  rw [l3Of]
  split
  · rfl
  · rw [l2Of_congr h₁]
    exact hempty _ (l2IndexOf_lt k)

include hempty in
theorem l3Of_unlinkL2 : (m.unlinkL2 r key).l3Of r k = m.l3Of r k := by
  rw [l3Of, l2Of_unlinkL2]
  split
  · rename_i hi
    exact (l3Of_eq_null_of_empty hempty hi).symm
  · rfl

include hempty in
theorem lookup_unlinkL2 : (m.unlinkL2 r key).lookup r k = m.lookup r k := by
  rw [lookup, l3Of_unlinkL2 hempty]
  rfl

include hempty in
theorem keepsOthers_unlinkL2 : KeepsOthers r key m (m.unlinkL2 r key) := by
  intro k _ hk
  refine ⟨?_, l3Of_unlinkL2 hempty, lookup_unlinkL2 hempty⟩
  rw [l2Of_unlinkL2, if_neg]
  exact fun hi => l3Of_ne_of_lookup_ne hk (l3Of_eq_null_of_empty hempty hi)

include h h2 hempty in
theorem unlinkL2 (ho : ∀ a sz, a ≠ m.l2Of r key → out a = some sz → out' a = some sz) :
    Trie R out' (m.unlinkL2 r key) r := by
  have hsz : ∀ {a sz}, out a = some sz → sz ≠ sizeofL2Node → a ≠ m.l2Of r key := by
    rintro a sz ha hne rfl
    rw [h.l2_out key h2] at ha
    exact hne (Option.some.inj ha).symm
  constructor
  case root => exact ho _ _ (hsz h.root (by decide)) h.root
  case l2_out =>
    intro k hk
    rw [l2Of_unlinkL2] at hk ⊢
    split
    · rw [if_pos ‹_›] at hk; exact absurd rfl hk
    · rename_i hi
      rw [if_neg hi] at hk
      exact ho _ _ (fun he => hi (h.l2_inj k key hk he)) (h.l2_out k hk)
  case l2_inj =>
    intro k k' hk he
    rw [l2Of_unlinkL2] at hk he
    rw [l2Of_unlinkL2] at he
    split at he
    · rw [if_pos ‹_›] at hk; exact absurd rfl hk
    · rw [if_neg ‹_›] at hk
      split at he
      · exact absurd he hk
      · exact h.l2_inj k k' hk he
  case l3_out =>
    intro k hk
    rw [l3Of_unlinkL2 hempty] at hk ⊢
    exact ho _ _ (hsz (h.l3_out k hk) (by decide)) (h.l3_out k hk)
  case l3_inj =>
    intro k k' hk he
    rw [l3Of_unlinkL2 hempty] at hk he
    rw [l3Of_unlinkL2 hempty] at he
    exact h.l3_inj k k' hk he
  case l2_count =>
    intro k hk
    rw [l2Of_unlinkL2] at hk ⊢
    split
    · rw [if_pos ‹_›] at hk; exact absurd rfl hk
    · rw [if_neg ‹_›] at hk
      exact h.l2_count k hk
  case l3_count =>
    intro k hk
    rw [l3Of_unlinkL2 hempty] at hk ⊢
    exact h.l3_count k hk

end UnlinkL2

end Trie

end FastAlloc
