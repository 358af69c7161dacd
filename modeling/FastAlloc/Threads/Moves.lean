/-
FastAlloc.Threads.Moves — the five moves of the abstract heap, and that each
keeps its invariant.

A move changes one span and what its thread stands at. `HeapOk.touch` says
once what that leaves alone; each move then argues about its own span only.
-/
import FastAlloc.Threads.Heap

namespace FastAlloc

variable {pf : Platform} {H H' : Heap} {t t' : Tid} {a b p q i j n size : Nat} {u w : Usage}
  {client : Client} {pc : Pc}

namespace Heap

/-- Hand out block `i` of `a` for a request of `n` bytes. -/
def take (H : Heap) (t : Tid) (a : Nat) (u : Usage) (i n : Nat) : Heap where
  use := Function.update H.use a (some (u.take i))
  owner := H.owner
  live := Function.update H.live (u.block i) (some (t, n))
  pc := Function.update H.pc t none

/-- Where a thread stands after it gave back block `i` of `a`. -/
def givePc (a : Nat) (u : Usage) (i q : Nat) : Option Pc :=
  if u.cls = largeClassSizeIndex ∨ (u.give i).AllFree then some (.cache a q) else none

/-- Give back block `i` of `a`, inside a call that will return `q`. A span
that had no free block goes to the thread that frees one. -/
def give (H : Heap) (t : Tid) (a : Nat) (u : Usage) (i q : Nat) : Heap where
  use := Function.update H.use a (some (u.give i))
  owner := if u.free = ∅ then Function.update H.owner a t else H.owner
  live := Function.update H.live (u.block i) none
  pc := Function.update H.pc t (givePc a u i q)

/-- Ask for a span. -/
def ask (H : Heap) (t : Tid) (client : Client) (size : Nat) : Heap :=
  { H with pc := Function.update H.pc t (some (.initSpan client size)) }

/-- Receive the span `a`. -/
def start (H : Heap) (t : Tid) (a : Nat) (u : Usage) (client : Client) (size : Nat) : Heap where
  use := Function.update H.use a (some u)
  owner := Function.update H.owner a t
  live := H.live
  pc := Function.update H.pc t (some (.allocate client size a))

/-- Give up the span `a`. -/
def drop (H : Heap) (t : Tid) (a : Nat) : Heap :=
  { H with use := Function.update H.use a none, pc := Function.update H.pc t none }

/-- A live block is kept, for a request of `n` bytes now. -/
def resize (H : Heap) (t : Tid) (p n : Nat) : Heap :=
  { H with live := Function.update H.live p (some (t, n)) }

@[simp] theorem take_use_self : (H.take t a u i n).use a = some (u.take i) := Function.update_self ..
@[simp] theorem take_live_self : (H.take t a u i n).live (u.block i) = some (t, n) :=
  Function.update_self ..
@[simp] theorem take_pc_self : (H.take t a u i n).pc t = none := Function.update_self ..
@[simp] theorem give_use_self : (H.give t a u i q).use a = some (u.give i) := Function.update_self ..
@[simp] theorem give_pc_self : (H.give t a u i q).pc t = givePc a u i q := Function.update_self ..
@[simp] theorem ask_pc_self : (H.ask t client size).pc t = some (.initSpan client size) :=
  Function.update_self ..
@[simp] theorem start_use_self : (H.start t a u client size).use a = some u :=
  Function.update_self ..
@[simp] theorem start_pc_self : (H.start t a u client size).pc t = some (.allocate client size a) :=
  Function.update_self ..
@[simp] theorem drop_use_self : (H.drop t a).use a = none := Function.update_self ..
@[simp] theorem drop_pc_self : (H.drop t a).pc t = none := Function.update_self ..

/-- `H'` is `H` but for the span `a` and for where thread `t` stands. -/
structure Touches (H : Heap) (t : Tid) (a : Nat) (H' : Heap) : Prop where
  use : ∀ b, b ≠ a → H'.use b = H.use b
  owner : ∀ b, b ≠ a → H'.owner b = H.owner b
  pc : ∀ t', t' ≠ t → H'.pc t' = H.pc t'
  before : ∀ pc b, H.pc t = some pc → pc.span = some b → b = a
  after : ∀ pc b, H'.pc t = some pc → pc.span = some b → b = a
  live : ∀ p, H'.live p = H.live p ∨ ∃ u i, H.IsBlock p a u i

/-- What `H'` leaves to the other threads. -/
structure Frame (H : Heap) (t : Tid) (H' : Heap) : Prop where
  use : ∀ b w, H.use b = some w → H.owner b ≠ t → H'.use b = some w ∧ H'.owner b = H.owner b
  live : ∀ p t' n, t' ≠ t → H.live p = some (t', n) → H'.live p = some (t', n)

/-- The invariant of one span. -/
structure SpanOk (pf : Platform) (H : Heap) (a : Nat) (u : Usage) : Prop where
  sound : u.Sound pf
  apart : ∀ b w, b ≠ a → H.use b = some w →
    u.base + u.size pf ≤ w.base ∨ w.base + w.size pf ≤ u.base
  out : ∀ i < u.blockCount,
    ((∃ x, H.live (u.block i) = some x) ↔ i ∉ u.free ∧ ¬ H.Transit a)
  fits : ∀ i < u.blockCount, ∀ t n, H.live (u.block i) = some (t, n) → n ≤ u.blockSize
  full : u.AllFree → H.Transit a

theorem IsBlock.ne (hb : H.IsBlock p b w j) (ha : H.use a = none) : b ≠ a := by
  rintro rfl
  have huse := hb.use
  rw [ha] at huse
  cases huse

theorem Touches.isBlock_iff (ht : H.Touches t a H') (hb : b ≠ a) :
    H'.IsBlock p b w j ↔ H.IsBlock p b w j := by
  constructor
  · intro h
    exact ⟨ht.use b hb ▸ h.use, h.lt, h.eq⟩
  · intro h
    exact ⟨(ht.use b hb).symm ▸ h.use, h.lt, h.eq⟩

theorem Touches.transit_iff (ht : H.Touches t a H') (hb : b ≠ a) : H'.Transit b ↔ H.Transit b := by
  constructor
  · rintro ⟨t', pc, hpc, hsp⟩
    by_cases htt : t' = t
    · exact absurd (ht.after pc b (htt ▸ hpc) hsp) hb
    · exact ⟨t', pc, ht.pc t' htt ▸ hpc, hsp⟩
  · rintro ⟨t', pc, hpc, hsp⟩
    by_cases htt : t' = t
    · exact absurd (ht.before pc b (htt ▸ hpc) hsp) hb
    · exact ⟨t', pc, (ht.pc t' htt).symm ▸ hpc, hsp⟩

theorem ClientOk.frame {client : Client} (hf : H.Frame t H') (hne : t' ≠ t)
    (h : H.ClientOk t' size client) : H'.ClientOk t' size client := by
  cases client with
  | malloc => trivial
  | calloc => trivial
  | realloc ptr a =>
    obtain ⟨⟨n, hn⟩, ho, u, i, hb, hs⟩ := h
    obtain ⟨hu, ho'⟩ := hf.use a u hb.use (ho ▸ hne)
    exact ⟨⟨n, hf.live _ _ _ hne hn⟩, ho'.trans ho, u, i, ⟨hu, hb.lt, hb.eq⟩, hs⟩

theorem PcOk.frame (hf : H.Frame t H') (hne : t' ≠ t) (h : H.PcOk pf t' pc) : H'.PcOk pf t' pc := by
  cases pc with
  | initSpan client size => exact ⟨h.1, h.2.frame hf hne⟩
  | allocate client size a =>
    obtain ⟨ho, hc, u, hu, hrest⟩ := h
    obtain ⟨hu', ho'⟩ := hf.use a u hu (ho ▸ hne)
    exact ⟨ho'.trans ho, hc.frame hf hne, u, hu', hrest⟩
  | cache a q =>
    obtain ⟨ho, u, hu, hrest⟩ := h
    obtain ⟨hu', ho'⟩ := hf.use a u hu (ho ▸ hne)
    exact ⟨ho'.trans ho, u, hu', hrest⟩

end Heap

namespace HeapOk

variable (h : HeapOk pf H)
include h

theorem spanOk (ha : H.use a = some u) : H.SpanOk pf a u where
  sound := h.sound a u ha
  apart b w hb hw := h.apart a b u w ha hw hb.symm
  out i hi := h.out _ a u i ⟨ha, hi, rfl⟩
  fits i hi t n := h.fits _ a u i t n ⟨ha, hi, rfl⟩
  full := h.full a u ha

/-- A change of one span is sound if it is sound there. -/
theorem touch (ht : H.Touches t a H') (hspan : ∀ u, H'.use a = some u → H'.SpanOk pf a u)
    (hplace : ∀ p u i, H.IsBlock p a u i → ∀ x, H'.live p = some x → ∃ u' i', H'.IsBlock p a u' i')
    (hothers : ∀ t' pc, t' ≠ t → H.pc t' = some pc → H'.PcOk pf t' pc)
    (hmine : ∀ pc, H'.pc t = some pc → H'.PcOk pf t pc) : HeapOk pf H' := by
  -- a block of another span is none of `a`
  have hlive : ∀ p b w j, b ≠ a → H.IsBlock p b w j → H'.live p = H.live p := by
    intro p b w j hb hblock
    cases ht.live p with
    | inl he => exact he
    | inr hex =>
      obtain ⟨u, i, hblock'⟩ := hex
      exact absurd (h.block_unique hblock hblock').1 hb
  constructor
  case sound =>
    intro b w hw
    by_cases hb : b = a
    · subst hb
      exact (hspan w hw).sound
    · exact h.sound b w (ht.use b hb ▸ hw)
  case apart =>
    intro b c w x hw hx hbc
    by_cases hb : b = a
    · subst hb
      exact (hspan w hw).apart c x hbc.symm hx
    by_cases hc : c = a
    · subst hc
      exact ((hspan x hx).apart b w hbc hw).symm
    · exact h.apart b c w x (ht.use b hb ▸ hw) (ht.use c hc ▸ hx) hbc
  case place =>
    intro p x hx
    cases ht.live p with
    | inl he =>
      obtain ⟨b, w, j, hblock⟩ := h.place p x (he ▸ hx)
      by_cases hb : b = a
      · subst hb
        obtain ⟨u', i', h'⟩ := hplace p w j hblock x hx
        exact ⟨b, u', i', h'⟩
      · exact ⟨b, w, j, (ht.isBlock_iff hb).mpr hblock⟩
    | inr hex =>
      obtain ⟨u, i, hblock⟩ := hex
      obtain ⟨u', i', h'⟩ := hplace p u i hblock x hx
      exact ⟨a, u', i', h'⟩
  case out =>
    intro p b w j hblock
    by_cases hb : b = a
    · subst hb
      rw [hblock.eq]
      exact (hspan w hblock.use).out j hblock.lt
    · have hold := (ht.isBlock_iff hb).mp hblock
      rw [hlive p b w j hb hold, ht.transit_iff hb]
      exact h.out p b w j hold
  case fits =>
    intro p b w j t' n hblock hp
    by_cases hb : b = a
    · subst hb
      exact (hspan w hblock.use).fits j hblock.lt t' n (hblock.eq ▸ hp)
    · have hold := (ht.isBlock_iff hb).mp hblock
      exact h.fits p b w j t' n hold (hlive p b w j hb hold ▸ hp)
  case full =>
    intro b w hw hall
    by_cases hb : b = a
    · subst hb
      exact (hspan w hw).full hall
    · exact (ht.transit_iff hb).mpr (h.full b w (ht.use b hb ▸ hw) hall)
  case pcs =>
    intro t' pc hpc
    by_cases htt : t' = t
    · subst htt
      exact hmine pc hpc
    · exact hothers t' pc htt (ht.pc t' htt ▸ hpc)

/-! ## Handing out a block -/

/-- A span in transit that has a free block is all free. -/
theorem allFree_of_transit (ha : H.use a = some u) (ht : H.Transit a) (hi : i ∈ u.free) :
    u.AllFree := by
  by_contra hall
  have hs := h.sound a u ha
  have hlt : u.free.card < u.blockCount := Nat.lt_of_le_of_ne hs.card_le hall
  by_cases hl : u.cls = largeClassSizeIndex
  · have hone := hs.blockCount_large hl
    have hpos : 0 < u.free.card := Finset.card_pos.mpr ⟨i, hi⟩
    omega
  · exact h.not_transit ha hl hlt ht

theorem take_touches (ha : H.use a = some u) (hi : i ∈ u.free)
    (hpc : ∀ pc b, H.pc t = some pc → pc.span = some b → b = a) :
    H.Touches t a (H.take t a u i n) where
  use b hb := Function.update_of_ne hb _ _
  owner _ _ := rfl
  pc t' ht := Function.update_of_ne ht _ _
  before := hpc
  after pc b hpc _ := by
    rw [Heap.take_pc_self] at hpc
    cases hpc
  live p := by
    by_cases hp : p = u.block i
    · exact .inr ⟨u, i, ha, (h.sound a u ha).free i hi, hp⟩
    · exact .inl (Function.update_of_ne hp _ _)

theorem take_frame (ha : H.use a = some u) (ho : H.owner a = t) (hi : i ∈ u.free) :
    H.Frame t (H.take t a u i n) where
  use b w hw hb := by
    have hba : b ≠ a := fun he => hb (he ▸ ho)
    exact ⟨(Function.update_of_ne hba _ _).trans hw, rfl⟩
  live p t' m _ hp := by
    have hne : p ≠ u.block i := by
      intro he
      have hlt := (h.sound a u ha).free i hi
      exact ((h.out p a u i ⟨ha, hlt, he⟩).mp ⟨_, hp⟩).1 hi
    exact (Function.update_of_ne hne _ _).trans hp

/-- After its thread took a block from it, a span is in no transit. -/
theorem take_not_transit (ho : H.owner a = t) : ¬ (H.take t a u i n).Transit a := by
  rintro ⟨t', pc, hpc, hsp⟩
  by_cases htt : t' = t
  · rw [htt, Heap.take_pc_self] at hpc
    cases hpc
  · rw [show (H.take t a u i n).pc t' = H.pc t' from Function.update_of_ne htt _ _] at hpc
    have hok := h.pcs t' pc hpc
    have howner : H.owner a = t' := by
      cases pc with
      | initSpan client size => cases hsp
      | allocate client size b => exact Option.some.inj hsp ▸ hok.1
      | cache b q => exact Option.some.inj hsp ▸ hok.1
    exact htt (howner.symm.trans ho)

theorem take (ha : H.use a = some u) (ho : H.owner a = t) (hi : i ∈ u.free) (hn : n ≤ u.blockSize)
    (hpc : ∀ pc b, H.pc t = some pc → pc.span = some b → b = a) : HeapOk pf (H.take t a u i n) := by
  have hs := h.sound a u ha
  have hlt := hs.free i hi
  have hnot : ¬ (H.take t a u i n).Transit a := h.take_not_transit ho
  have hself : (H.take t a u i n).use a = some (u.take i) := Heap.take_use_self
  refine h.touch (h.take_touches ha hi hpc) (fun w hw => ?_) (fun p w j hb x _ => ?_)
    (fun t' pc htt hpc' => (h.pcs t' pc hpc').frame (h.take_frame ha ho hi) htt) fun pc hpc' => ?_
  · obtain rfl := Option.some.inj (hself.symm.trans hw)
    refine ⟨hs.take, fun b w hb hw => ?_, fun j hj => ?_, fun j hj t' m hm => ?_, fun hall => ?_⟩
    · rw [show (H.take t a u i n).use b = H.use b from Function.update_of_ne hb _ _] at hw
      exact h.apart a b u w ha hw hb.symm
    · change (∃ x, Function.update H.live (u.block i) (some (t, n)) (u.block j) = some x) ↔
        j ∉ u.free.erase i ∧ _
      by_cases hji : j = i
      · rw [hji, Function.update_self]
        simp [hnot]
      · rw [Function.update_of_ne fun he => hji (hs.block_inj he), h.out _ a u j ⟨ha, hj, rfl⟩]
        have herase : j ∉ u.free.erase i ↔ j ∉ u.free := by simp [hji]
        rw [herase]
        refine and_congr_right fun hjf => iff_of_true (fun ht => ?_) hnot
        exact hjf (hs.mem_of_allFree (h.allFree_of_transit ha ht hi) hj)
    · change Function.update H.live (u.block i) (some (t, n)) (u.block j) = some (t', m) at hm
      by_cases hji : j = i
      · rw [hji, Function.update_self] at hm
        cases hm
        exact hn
      · rw [Function.update_of_ne fun he => hji (hs.block_inj he)] at hm
        exact h.fits _ a u j t' m ⟨ha, hj, rfl⟩ hm
    · have hcard : (u.free.erase i).card = u.blockCount := hall
      have := Finset.card_erase_lt_of_mem hi
      have := hs.card_le
      omega
  · obtain rfl := Option.some.inj (ha.symm.trans hb.use)
    exact ⟨u.take i, j, hself, hb.lt, hb.eq⟩
  · rw [Heap.take_pc_self] at hpc'
    cases hpc'

/-- The block a `crealloc` will copy is not the one it has just got. -/
theorem take_clientOk (hc : H.ClientOk t size client) (ha : H.use a = some u) (hi : i ∈ u.free)
    (hn : size ≤ u.blockSize) : (H.take t a u i n).ClientOk t size client := by
  cases client with
  | malloc => trivial
  | calloc => trivial
  | realloc ptr b =>
    obtain ⟨⟨m, hm⟩, ho, w, j, hb, hs⟩ := hc
    have hba : b ≠ a := by
      rintro rfl
      obtain rfl := Option.some.inj (ha.symm.trans hb.use)
      omega
    have hne : ptr ≠ u.block i := by
      intro he
      exact hba (h.block_unique hb ⟨ha, (h.sound a u ha).free i hi, he⟩).1
    exact ⟨⟨m, (Function.update_of_ne hne _ _).trans hm⟩, ho, w, j,
      ⟨(Function.update_of_ne hba _ _).trans hb.use, hb.lt, hb.eq⟩, hs⟩

/-! ## Giving back a block -/

omit h in
theorem give_touches (hb : H.IsBlock p a u i) (hpc : H.pc t = none) :
    H.Touches t a (H.give t a u i q) where
  use b hb := Function.update_of_ne hb _ _
  owner b hb := by
    change (if u.free = ∅ then Function.update H.owner a t else H.owner) b = _
    split
    · exact Function.update_of_ne hb _ _
    · rfl
  pc t' ht := Function.update_of_ne ht _ _
  before pc b hpc' := by
    rw [hpc] at hpc'
    cases hpc'
  after pc b hpc' hsp := by
    rw [Heap.give_pc_self, Heap.givePc] at hpc'
    split at hpc'
    · cases hpc'
      exact (Option.some.inj hsp).symm
    · cases hpc'
  live p' := by
    by_cases hp : p' = u.block i
    · exact .inr ⟨u, i, hb.use, hb.lt, hp⟩
    · exact .inl (Function.update_of_ne hp _ _)

omit h in
theorem give_owner (ho : H.owner a = t) : (H.give t a u i q).owner = H.owner := by
  change (if u.free = ∅ then Function.update H.owner a t else H.owner) = _
  split
  · rw [← ho, Function.update_eq_self]
  · rfl

omit h in
/-- Who frees a block of its own leaves the other threads alone. -/
theorem give_frame (hb : H.IsBlock p a u i) (ho : H.owner a = t) (hp : H.live p = some (t, n)) :
    H.Frame t (H.give t a u i q) where
  use b w hw hbo := by
    have hba : b ≠ a := fun he => hbo (he ▸ ho)
    exact ⟨(Function.update_of_ne hba _ _).trans hw, by rw [give_owner ho]⟩
  live p' t' m htt hp' := by
    have hne : p' ≠ u.block i := by
      intro he
      rw [he, ← hb.eq, hp] at hp'
      cases hp'
      exact htt rfl
    exact (Function.update_of_ne hne _ _).trans hp'

/-- The last block back sends a span on its way to the pool. -/
theorem give (hb : H.IsBlock p a u i) (hp : H.live p = some (t', n)) (hpc : H.pc t = none)
    (hlast : u.free ≠ ∅ → (u.give i).AllFree → H.owner a = t)
    (hothers : H.owner a = t ∧ t' = t ∨ ∀ t', H.pc t' = none) :
    HeapOk pf (H.give t a u i q) := by
  have hs := h.sound a u hb.use
  obtain ⟨hi, htr⟩ := (h.out p a u i hb).mp ⟨_, hp⟩
  have hself : (H.give t a u i q).use a = some (u.give i) := Heap.give_use_self
  have hmypc : (H.give t a u i q).pc t = Heap.givePc a u i q := Heap.give_pc_self
  have hlarge : u.cls = largeClassSizeIndex → u.free = ∅ := by
    intro hl
    have hone := hs.blockCount_large hl
    have hlt := hs.card_lt hb.lt hi
    exact Finset.card_eq_zero.mp (by omega)
  -- in transit means by this thread
  have htransit : (H.give t a u i q).Transit a ↔
      u.cls = largeClassSizeIndex ∨ (u.give i).AllFree := by
    constructor
    · rintro ⟨t'', pc, hpc', hsp⟩
      by_cases htt : t'' = t
      · rw [htt, hmypc, Heap.givePc] at hpc'
        split at hpc'
        · assumption
        · cases hpc'
      · rw [show (H.give t a u i q).pc t'' = H.pc t'' from Function.update_of_ne htt _ _] at hpc'
        exact absurd ⟨t'', pc, hpc', hsp⟩ htr
    · intro hc
      refine ⟨t, .cache a q, ?_, rfl⟩
      rw [hmypc, Heap.givePc, if_pos hc]
  refine h.touch (give_touches hb hpc) (fun w hw => ?_) (fun p' w j hb' x _ => ?_)
    (fun t'' pc htt hpc' => ?_) fun pc hpc' => ?_
  · obtain rfl := Option.some.inj (hself.symm.trans hw)
    refine ⟨hs.give hb.lt, fun b w hb' hw => ?_, fun j hj => ?_, fun j hj t'' m hm => ?_,
      fun hall => htransit.mpr (.inr hall)⟩
    · rw [show (H.give t a u i q).use b = H.use b from Function.update_of_ne hb' _ _] at hw
      exact h.apart a b u w hb.use hw hb'.symm
    · change (∃ x, Function.update H.live (u.block i) none (u.block j) = some x) ↔
        (j ∉ if u.cls = largeClassSizeIndex then u.free else insert i u.free) ∧ _
      rw [htransit]
      by_cases hji : j = i
      · rw [hji, Function.update_self]
        by_cases hl : u.cls = largeClassSizeIndex
        · simp [hl]
        · simp [hl]
      · rw [Function.update_of_ne fun he => hji (hs.block_inj he), h.out _ a u j ⟨hb.use, hj, rfl⟩]
        have hl : u.cls ≠ largeClassSizeIndex := by
          intro hl
          have hone := hs.blockCount_large hl
          have hilt := hb.lt
          have hjlt : j < u.blockCount := hj
          omega
        rw [if_neg hl]
        have hinsert : j ∉ insert i u.free ↔ j ∉ u.free := by simp [hji]
        rw [hinsert]
        refine and_congr_right fun hjf => iff_of_true htr fun hc => ?_
        have hmem := (hs.give hb.lt).mem_of_allFree (hc.resolve_left hl) hj
        change j ∈ if u.cls = largeClassSizeIndex then u.free else insert i u.free at hmem
        rw [if_neg hl] at hmem
        exact hinsert.mpr hjf hmem
    · change Function.update H.live (u.block i) none (u.block j) = some (t'', m) at hm
      by_cases hji : j = i
      · rw [hji, Function.update_self] at hm
        cases hm
      · rw [Function.update_of_ne fun he => hji (hs.block_inj he)] at hm
        exact h.fits _ a u j t'' m ⟨hb.use, hj, rfl⟩ hm
  · obtain rfl := Option.some.inj (hb.use.symm.trans hb'.use)
    exact ⟨u.give i, j, hself, hb'.lt, hb'.eq⟩
  · cases hothers with
    | inl hown =>
      obtain ⟨ho, rfl⟩ := hown
      exact (h.pcs t'' pc hpc').frame (give_frame hb ho hp) htt
    | inr hnone =>
      rw [hnone t''] at hpc'
      cases hpc'
  · rw [hmypc, Heap.givePc] at hpc'
    split at hpc'
    · rename_i hc
      cases hpc'
      refine ⟨?_, u.give i, hself, hc⟩
      change (if u.free = ∅ then Function.update H.owner a t else H.owner) a = t
      by_cases hempty : u.free = ∅
      · rw [if_pos hempty, Function.update_self]
      · rw [if_neg hempty]
        exact hlast hempty (hc.resolve_left fun hl => hempty (hlarge hl))
    · cases hpc'

/-! ## Asking for a span, receiving it and giving it up -/

theorem ask (hpc : H.pc t = none) (hn : pf.NonWrapping size) (hc : H.ClientOk t size client) :
    HeapOk pf (H.ask t client size) := by
  -- the new `Pc` names no span
  have htr : ∀ a, (H.ask t client size).Transit a ↔ H.Transit a := by
    intro a
    constructor
    · rintro ⟨t', pc, hpc', hsp⟩
      by_cases htt : t' = t
      · rw [htt, Heap.ask_pc_self] at hpc'
        cases hpc'
        cases hsp
      · exact ⟨t', pc, (Function.update_of_ne htt _ _).symm.trans hpc', hsp⟩
    · rintro ⟨t', pc, hpc', hsp⟩
      have htt : t' ≠ t := by
        rintro rfl
        rw [hpc] at hpc'
        cases hpc'
      exact ⟨t', pc, (Function.update_of_ne htt _ _).trans hpc', hsp⟩
  refine ⟨h.sound, h.apart, fun p x hx => ?_, fun p a u i hb => ?_, fun p a u i t' n hb => ?_,
    fun a u ha hall => (htr a).mpr (h.full a u ha hall), fun t' pc hpc' => ?_⟩
  · obtain ⟨a, u, i, hb⟩ := h.place p x hx
    exact ⟨a, u, i, hb.use, hb.lt, hb.eq⟩
  · rw [htr]
    exact h.out p a u i ⟨hb.use, hb.lt, hb.eq⟩
  · exact h.fits p a u i t' n ⟨hb.use, hb.lt, hb.eq⟩
  · by_cases htt : t' = t
    · rw [htt, Heap.ask_pc_self] at hpc'
      cases hpc'
      subst htt
      refine ⟨hn, ?_⟩
      cases client with
      | malloc => trivial
      | calloc => trivial
      | realloc ptr a =>
        obtain ⟨hl, ho, u, i, hb, hs⟩ := hc
        exact ⟨hl, ho, u, i, ⟨hb.use, hb.lt, hb.eq⟩, hs⟩
    · have hframe : H.Frame t (H.ask t client size) := ⟨fun _ _ hw _ => ⟨hw, rfl⟩, fun _ _ _ _ hp => hp⟩
      exact (h.pcs t' pc ((Function.update_of_ne htt _ _).symm.trans hpc')).frame hframe htt

theorem start (ha : H.use a = none) (hpc : H.pc t = some (.initSpan client size)) (hs : u.Sound pf)
    (hall : u.AllFree) (hcls : u.cls = getSizeClassIndex size) (hn : size ≤ u.blockSize)
    (hap : ∀ b w, b ≠ a → H.use b = some w →
      u.base + u.size pf ≤ w.base ∨ w.base + w.size pf ≤ u.base) :
    HeapOk pf (H.start t a u client size) := by
  have hmypc : (H.start t a u client size).pc t = some (.allocate client size a) :=
    Heap.start_pc_self
  have hself : (H.start t a u client size).use a = some u := Heap.start_use_self
  have ht : H.Touches t a (H.start t a u client size) := by
    refine ⟨fun b hb => Function.update_of_ne hb _ _, fun b hb => Function.update_of_ne hb _ _,
      fun t' htt => Function.update_of_ne htt _ _, fun pc b hpc' hsp => ?_, fun pc b hpc' hsp => ?_,
      fun p => .inl rfl⟩
    · rw [hpc] at hpc'
      cases hpc'
      cases hsp
    · rw [hmypc] at hpc'
      cases hpc'
      exact (Option.some.inj hsp).symm
  have htransit : (H.start t a u client size).Transit a := ⟨t, _, hmypc, rfl⟩
  have hnone : ∀ i < u.blockCount, H.live (u.block i) = none := by
    intro i hi
    by_contra hne
    obtain ⟨x, hx⟩ := Option.ne_none_iff_exists'.mp hne
    obtain ⟨b, w, j, hb⟩ := h.place _ x hx
    exact hs.block_ne (h.sound b w hb.use) hi hb.lt (hap b w (hb.ne ha) hb.use) hb.eq
  have hframe : H.Frame t (H.start t a u client size) := by
    refine ⟨fun b w hw _ => ?_, fun _ _ _ _ hp => hp⟩
    have hba : b ≠ a := by
      rintro rfl
      rw [ha] at hw
      cases hw
    exact ⟨(Function.update_of_ne hba _ _).trans hw, Function.update_of_ne hba _ _⟩
  refine h.touch ht (fun w hw => ?_) (fun p w i hb => ?_)
    (fun t' pc htt hpc' => (h.pcs t' pc hpc').frame hframe htt) fun pc hpc' => ?_
  · obtain rfl := Option.some.inj (hself.symm.trans hw)
    refine ⟨hs, fun b w hb hw => hap b w hb (ht.use b hb ▸ hw), fun i hi => ?_,
      fun i hi t' m hm => ?_, fun _ => htransit⟩
    · change (∃ x, H.live (u.block i) = some x) ↔ _
      rw [hnone i hi]
      refine iff_of_false ?_ fun hx => hx.2 htransit
      rintro ⟨x, hx⟩
      cases hx
    · rw [show (H.start t a u client size).live = H.live from rfl, hnone i hi] at hm
      cases hm
  · exact absurd rfl (hb.ne ha)
  · rw [hmypc] at hpc'
    cases hpc'
    refine ⟨Function.update_self .., ?_, u, hself, hall, hcls, hn⟩
    obtain ⟨-, hc⟩ := h.pcs t _ hpc
    cases client with
    | malloc => trivial
    | calloc => trivial
    | realloc ptr b =>
      obtain ⟨hl, ho, w, i, hb, hlt⟩ := hc
      have hba := hb.ne ha
      exact ⟨hl, (Function.update_of_ne hba _ _).trans ho, w, i,
        ⟨(Function.update_of_ne hba _ _).trans hb.use, hb.lt, hb.eq⟩, hlt⟩

theorem drop (hpc : H.pc t = some (.cache a q)) : HeapOk pf (H.drop t a) := by
  have hmypc : (H.drop t a).pc t = none := Heap.drop_pc_self
  have hself : (H.drop t a).use a = none := Heap.drop_use_self
  have htransit : H.Transit a := ⟨t, _, hpc, rfl⟩
  have ht : H.Touches t a (H.drop t a) := by
    refine ⟨fun b hb => Function.update_of_ne hb _ _, fun _ _ => rfl,
      fun t' htt => Function.update_of_ne htt _ _, fun pc b hpc' hsp => ?_, fun pc b hpc' _ => ?_,
      fun p => .inl rfl⟩
    · rw [hpc] at hpc'
      cases hpc'
      exact (Option.some.inj hsp).symm
    · rw [hmypc] at hpc'
      cases hpc'
  have hframe : H.Frame t (H.drop t a) := by
    refine ⟨fun b w hw hbo => ?_, fun _ _ _ _ hp => hp⟩
    have hba : b ≠ a := fun he => hbo (he ▸ (h.pcs t _ hpc).1)
    exact ⟨(Function.update_of_ne hba _ _).trans hw, rfl⟩
  refine h.touch ht (fun w hw => ?_) (fun p w i hb x hx => ?_)
    (fun t' pc htt hpc' => (h.pcs t' pc hpc').frame hframe htt) fun pc hpc' => ?_
  · rw [hself] at hw
    cases hw
  · exact absurd htransit ((h.out p a w i hb).mp ⟨x, hx⟩).2
  · rw [hmypc] at hpc'
    cases hpc'

theorem resize (hb : H.IsBlock p a u i) (hp : H.live p = some (t, n)) (hn : size ≤ u.blockSize)
    (hpc : H.pc t = none) : HeapOk pf (H.resize t p size) := by
  have hlive : ∀ q, (∃ x, (H.resize t p size).live q = some x) ↔ ∃ x, H.live q = some x := by
    intro q
    change (∃ x, Function.update H.live p (some (t, size)) q = some x) ↔ _
    by_cases hq : q = p
    · rw [hq, Function.update_self, hp]
      simp
    · rw [Function.update_of_ne hq]
  have hframe : H.Frame t (H.resize t p size) := by
    refine ⟨fun _ _ hw _ => ⟨hw, rfl⟩, fun q t' m htt hq => ?_⟩
    have hne : q ≠ p := by
      rintro rfl
      rw [hp] at hq
      cases hq
      exact htt rfl
    exact (Function.update_of_ne hne _ _).trans hq
  refine ⟨h.sound, h.apart, fun q x hx => ?_, fun q b w j hb' => ?_, fun q b w j t' m hb' hq => ?_,
    h.full, fun t' pc hpc' => ?_⟩
  · obtain ⟨y, hy⟩ := (hlive q).mp ⟨x, hx⟩
    obtain ⟨b, w, j, hb'⟩ := h.place q y hy
    exact ⟨b, w, j, hb'.use, hb'.lt, hb'.eq⟩
  · rw [hlive q]
    exact h.out q b w j ⟨hb'.use, hb'.lt, hb'.eq⟩
  · have hold : H.IsBlock q b w j := ⟨hb'.use, hb'.lt, hb'.eq⟩
    change Function.update H.live p (some (t, size)) q = some (t', m) at hq
    by_cases hqp : q = p
    · subst hqp
      obtain ⟨-, rfl, -⟩ := h.block_unique hold hb
      rw [Function.update_self] at hq
      cases hq
      exact hn
    · rw [Function.update_of_ne hqp] at hq
      exact h.fits q b w j t' m hold hq
  · have htt : t' ≠ t := by
      rintro rfl
      exact nomatch hpc.symm.trans hpc'
    exact (h.pcs t' pc hpc').frame hframe htt

end HeapOk

/-! ## Whose blocks they are -/

namespace Heap.Owned

variable (h : H.Owned)
include h

theorem take (hok : HeapOk pf H) (ha : H.use a = some u) (ho : H.owner a = t) (hi : i ∈ u.free) :
    (H.take t a u i n).Owned := by
  intro p b w j t' m hb hp
  have hlt := (hok.sound a u ha).free i hi
  change Function.update H.live (u.block i) (some (t, n)) p = some (t', m) at hp
  change H.owner b = t'
  by_cases hba : b = a
  · subst hba
    by_cases hpi : p = u.block i
    · rw [hpi, Function.update_self] at hp
      cases hp
      exact ho
    · rw [Function.update_of_ne hpi] at hp
      obtain rfl := Option.some.inj (Heap.take_use_self.symm.trans hb.use)
      exact h p b u j t' m ⟨ha, hb.lt, hb.eq⟩ hp
  · have hold : H.IsBlock p b w j := ⟨(Function.update_of_ne hba _ _).symm.trans hb.use, hb.lt, hb.eq⟩
    have hpi : p ≠ u.block i := fun he => hba (hok.block_unique hold ⟨ha, hlt, he⟩).1
    rw [Function.update_of_ne hpi] at hp
    exact h p b w j t' m hold hp

theorem give (ha : H.use a = some u) (ho : H.owner a = t) : (H.give t a u i q).Owned := by
  intro p b w j t' m hb hp
  rw [HeapOk.give_owner ho]
  change Function.update H.live (u.block i) none p = some (t', m) at hp
  have hpi : p ≠ u.block i := by
    intro he
    rw [he, Function.update_self] at hp
    cases hp
  rw [Function.update_of_ne hpi] at hp
  by_cases hba : b = a
  · subst hba
    obtain rfl := Option.some.inj (Heap.give_use_self.symm.trans hb.use)
    exact h p b u j t' m ⟨ha, hb.lt, hb.eq⟩ hp
  · exact h p b w j t' m ⟨(Function.update_of_ne hba _ _).symm.trans hb.use, hb.lt, hb.eq⟩ hp

theorem ask : (H.ask t client size).Owned := fun p a u i t' m hb hp =>
  h p a u i t' m ⟨hb.use, hb.lt, hb.eq⟩ hp

theorem start (hok : HeapOk pf (H.start t a u client size)) :
    (H.start t a u client size).Owned := by
  intro p b w j t' m hb hp
  by_cases hba : b = a
  · have htransit : (H.start t a u client size).Transit a := ⟨t, _, Heap.start_pc_self, rfl⟩
    exact absurd (hba ▸ htransit) ((hok.out p b w j hb).mp ⟨_, hp⟩).2
  · have hold : H.IsBlock p b w j := ⟨(Function.update_of_ne hba _ _).symm.trans hb.use, hb.lt, hb.eq⟩
    exact (Function.update_of_ne hba _ _).trans (h p b w j t' m hold hp)

theorem resize (hp : H.live q = some (t, n)) : (H.resize t q size).Owned := by
  intro p b w j t' m hb hp'
  have hold : H.IsBlock p b w j := ⟨hb.use, hb.lt, hb.eq⟩
  change Function.update H.live q (some (t, size)) p = some (t', m) at hp'
  by_cases hpq : p = q
  · subst hpq
    rw [Function.update_self] at hp'
    cases hp'
    exact h p b w j t n hold hp
  · rw [Function.update_of_ne hpq] at hp'
    exact h p b w j t' m hold hp'

theorem drop : (H.drop t a).Owned := by
  intro p b w j t' m hb hp
  have hba : b ≠ a := by
    rintro rfl
    exact hb.ne Heap.drop_use_self rfl
  exact h p b w j t' m ⟨(Function.update_of_ne hba _ _).symm.trans hb.use, hb.lt, hb.eq⟩ hp

end Heap.Owned

end FastAlloc
