/-
FastAlloc.Threads.Frees — what a run of frees leaves does not depend on
their order.

`Sheds` is what any number of frees does to a heap: spans go out of use and
blocks become free, and nothing else moves. Two heaps shed from one, with
the same blocks live, are in states alike (`Sheds.alike`). The order of the
frees is one use of this, a direct span that comes and goes is another.
-/
import FastAlloc.Threads.Whole

namespace FastAlloc

open Lib Mem View

/-- The span `a` has `n` pages from `b` on, mapped for one request. -/
def View.BigAt (v : View) (a b n : Nat) : Prop := v.place a = some (b, n) ∧ maxBinnedPages ≤ n

/-- The heap `H'`, with view `v'`, is `H` with some spans given up and some
blocks freed. -/
structure Sheds (pf : Platform) (H : Heap) (v : View) (H' : Heap) (v' : View) : Prop where
  place : ∀ a, v'.place a = v.place a ∨ v'.place a = none ∧ ∃ b n, v.BigAt a b n
  region : ∀ r, v'.region r ↔ v.region r ∧
    ¬ ∃ a b n, v.BigAt a b n ∧ v'.place a = none ∧ r = ⟨b, n * pf.pageSize, .direct⟩
  use : ∀ a u, H'.use a = some u → ∃ u₀, H.use a = some u₀ ∧ u.shape = u₀.shape
  transit : ∀ a, H.Transit a → H'.use a = H.use a
  pc : H'.pc = H.pc
  owner : ∀ a u, H'.use a = some u → H'.owner a = H.owner a

section

variable {pf : Platform} {strict : Bool} {s s' : State} {v v₁ v₂ v' : View} {H K H₁ H₂ H' : Heap}
  {w w₁ w₂ : World} {a b i n p q : Nat} {u x : Usage} {sp : Span} {t t' : Tid}

/-- A span that is not all free has a block out. -/
theorem Usage.Sound.exists_out (h : u.Sound pf) (hall : ¬ u.AllFree) :
    ∃ i < u.blockCount, i ∉ u.free := by
  by_contra hno
  refine hall (h.card_le.antisymm ?_)
  have hsub : Finset.range u.blockCount ⊆ u.free := fun i hi => by
    by_contra hif
    exact hno ⟨i, Finset.mem_range.mp hi, hif⟩
  simpa using Finset.card_le_card hsub

/-- A span in no transit has the same free blocks where the same blocks are
live. -/
theorem HeapOk.free_eq (h₁ : HeapOk pf H₁) (h₂ : HeapOk pf H₂) (ha₁ : H₁.use a = some u)
    (ha₂ : H₂.use a = some x) (htr₁ : ¬ H₁.Transit a) (htr₂ : ¬ H₂.Transit a)
    (hshape : x.shape = u.shape) (hlive : ∀ p, H₁.live p = none ↔ H₂.live p = none) :
    x.free = u.free := by
  have hcount := Usage.shape_blockCount hshape
  have hiff : ∀ k < u.blockCount, k ∉ x.free ↔ k ∉ u.free := by
    intro k hk
    have hl := h₁.out _ _ u k ⟨ha₁, hk, rfl⟩
    have hl' := h₂.out _ _ x k ⟨ha₂, hcount ▸ hk, rfl⟩
    rw [Usage.shape_block hshape, and_iff_left htr₂, ← Option.ne_none_iff_exists'] at hl'
    rw [and_iff_left htr₁, ← Option.ne_none_iff_exists'] at hl
    rw [← hl, ← hl']
    exact not_congr (hlive _).symm
  ext k
  constructor
  · intro hk
    by_contra hno
    exact (hiff k (hcount ▸ (h₂.sound a x ha₂).free k hk)).mpr hno hk
  · intro hk
    by_contra hno
    exact (hiff k ((h₁.sound a u ha₁).free k hk)).mp hno hk

namespace Sheds

theorem refl : Sheds pf H v H v where
  place _ := .inl rfl
  region r := by
    refine (and_iff_left ?_).symm
    intro ⟨a, b, n, hbig, hnone, _⟩
    exact nomatch hbig.1.symm.trans hnone
  use _ u ha := ⟨u, ha, rfl⟩
  transit _ _ := rfl
  pc := rfl
  owner _ _ _ := rfl

theorem trans (h : Sheds pf H v K v₁) (h' : Sheds pf K v₁ H' v') : Sheds pf H v H' v' where
  place a := by
    rcases h'.place a with he | ⟨hnone, b, n, hbig⟩
    · rw [he]
      exact h.place a
    · rcases h.place a with he | ⟨hnone', -⟩
      · exact .inr ⟨hnone, b, n, he ▸ hbig.1, hbig.2⟩
      · exact nomatch hbig.1.symm.trans hnone'
  region r := by
    rw [h'.region, h.region, and_assoc, ← not_or]
    refine and_congr_right fun _ => not_congr ⟨fun hor => ?_, fun ⟨a, b, n, hbig, hnone, hr⟩ => ?_⟩
    · rcases hor with ⟨a, b, n, hbig, hnone, hr⟩ | ⟨a, b, n, hbig, hnone, hr⟩
      · refine ⟨a, b, n, hbig, ?_, hr⟩
        rcases h'.place a with he | ⟨hnone', -⟩
        · exact he.trans hnone
        · exact hnone'
      · rcases h.place a with he | ⟨hnone', -⟩
        · exact ⟨a, b, n, ⟨he ▸ hbig.1, hbig.2⟩, hnone, hr⟩
        · exact nomatch hbig.1.symm.trans hnone'
    · rcases h.place a with he | ⟨hnone', -⟩
      · exact .inr ⟨a, b, n, ⟨he.trans hbig.1, hbig.2⟩, hnone, hr⟩
      · exact .inl ⟨a, b, n, hbig, hnone', hr⟩
  use a u ha := by
    obtain ⟨x, hx, hu⟩ := h'.use a u ha
    obtain ⟨y, hy, hx'⟩ := h.use a x hx
    exact ⟨y, hy, hu.trans hx'⟩
  transit a ha := by
    have ha' : K.Transit a := by
      obtain ⟨t, pc, hpc, hsp⟩ := ha
      exact ⟨t, pc, h.pc ▸ hpc, hsp⟩
    exact (h'.transit a ha').trans (h.transit a ha)
  pc := h'.pc.trans h.pc
  owner a u ha := by
    obtain ⟨x, hx, -⟩ := h'.use a u ha
    exact (h'.owner a u ha).trans (h.owner a x hx)

theorem transit_iff (h : Sheds pf H v H' v') : H'.Transit a ↔ H.Transit a := by
  rw [Heap.Transit, h.pc]
  rfl

/-- Where the same blocks are live the same spans are in use. -/
theorem use_eq (hok : HeapOk pf H) (hok₁ : HeapOk pf H₁) (hok₂ : HeapOk pf H₂)
    (h₁ : Sheds pf H v H₁ v₁) (h₂ : Sheds pf H v H₂ v₂)
    (hlive : ∀ p, H₁.live p = none ↔ H₂.live p = none) (ha : H₁.use a = some u) :
    H₂.use a = some u := by
  by_cases htr : H.Transit a
  · rwa [h₂.transit a htr, ← h₁.transit a htr]
  have htr₁ : ¬ H₁.Transit a := fun hx => htr (h₁.transit_iff.mp hx)
  have htr₂ : ¬ H₂.Transit a := fun hx => htr (h₂.transit_iff.mp hx)
  -- a block of `a` that is out is out of the same span on the other side
  obtain ⟨i, hi, hif⟩ := (hok₁.sound a u ha).exists_out fun hall => htr₁ (hok₁.full a u ha hall)
  have hout := (hok₁.out _ a u i ⟨ha, hi, rfl⟩).mpr ⟨hif, htr₁⟩
  rw [← Option.ne_none_iff_exists', Ne, hlive, ← Ne, Option.ne_none_iff_exists'] at hout
  obtain ⟨y, hy⟩ := hout
  obtain ⟨c, x, j, hblock⟩ := hok₂.place _ y hy
  obtain ⟨u₀, hu₀, hu⟩ := h₁.use a u ha
  obtain ⟨x₀, hx₀, hx⟩ := h₂.use c x hblock.use
  have hin : H.IsBlock (u.block i) a u₀ i :=
    ⟨hu₀, Usage.shape_blockCount hu ▸ hi, Usage.shape_block hu⟩
  have hin' : H.IsBlock (u.block i) c x₀ j :=
    ⟨hx₀, Usage.shape_blockCount hx ▸ hblock.lt, hblock.eq.trans (Usage.shape_block hx)⟩
  obtain ⟨rfl, rfl, -⟩ := hok.block_unique hin hin'
  have hshape : x.shape = u.shape := hx.trans hu.symm
  have hfree := hok₁.free_eq hok₂ ha hblock.use htr₁ htr₂ hshape hlive
  exact Usage.shape_eq hshape hfree ▸ hblock.use

/-- So they lie in the same places. -/
theorem place_eq (h₁ : Sheds pf H v H₁ v₁) (h₂ : Sheds pf H v H₂ v₂) (hp₁ : v₁.Pool fun _ => False)
    (hp₂ : v₂.Pool fun _ => False) (hu : v₁.use = v₂.use) : v₁.place = v₂.place := by
  have hgone : ∀ {x y : View} {a : Nat}, y.Pool (fun _ => False) → x.use = y.use → x.place a = none →
      y.place a = v.place a → ¬ ∃ b n, v.BigAt a b n := by
    intro x y a hy hxy hnone hsome ⟨b, n, hbig⟩
    obtain ⟨sp, hsp, -, hn⟩ := place_eq_some.mp (hsome.trans hbig.1)
    have hi := (hy.direct a sp hsp (hn ▸ hbig.2)).resolve_right id
    have huse := View.use_of hsp hi
    rw [← hxy, View.use, place_eq_none.mp hnone] at huse
    cases huse
  funext a
  rcases h₁.place a with he₁ | ⟨hn₁, hbig⟩
  · rcases h₂.place a with he₂ | ⟨hn₂, hbig⟩
    · exact he₁.trans he₂.symm
    · exact absurd hbig (hgone hp₁ hu.symm hn₂ he₁)
  · rcases h₂.place a with he₂ | ⟨hn₂, -⟩
    · exact absurd hbig (hgone hp₂ hu hn₁ he₂)
    · exact hn₁.trans hn₂.symm

/-- Two worlds shed from one heap, with the same blocks live, are alike. -/
theorem alike (hok : HeapOk pf H) (hw₁ : WorldInv pf strict w₁ v₁) (hw₂ : WorldInv pf strict w₂ v₂)
    (h₁ : Sheds pf H v (w₁.heap v₁) v₁) (h₂ : Sheds pf H v (w₂.heap v₂) v₂)
    (hlive : ∀ p, w₁.live p = none ↔ w₂.live p = none) : w₁.state.Alike w₂.state := by
  have huse : v₂.use = v₁.use := by
    funext a
    refine Option.ext fun u => ?_
    constructor
    · exact use_eq hok hw₂.heap.heap hw₁.heap.heap h₂ h₁ fun p => (hlive p).symm
    · exact use_eq hok hw₁.heap.heap hw₂.heap.heap h₁ h₂ hlive
  have hplace := place_eq h₂ h₁ hw₂.heap.sound.toPool hw₁.heap.sound.toPool huse
  refine hw₁.alike hw₂ hplace huse (fun a u ha => ?_) fun r => ?_
  · have ha' : v₂.use a = some u := (congrFun huse a).trans ha
    exact (h₂.owner a u ha').trans (h₁.owner a u ha).symm
  · rw [h₂.region, h₁.region, hplace]

end Sheds

/-! ## Runs of frees -/

theorem Heap.free_pc (hpc : H.pc t = none) : (H.free t a u i).pc = H.pc := by
  unfold free
  split
  · change Function.update (Function.update H.pc t _) t none = H.pc
    rw [Function.update_idem, ← hpc, Function.update_eq_self]
  · rename_i hc
    change Function.update H.pc t (givePc a u i NULL) = H.pc
    rw [givePc, if_neg hc, ← hpc, Function.update_eq_self]

theorem Heap.free_live : (H.free t a u i).live = Function.update H.live (u.block i) none := by
  unfold free
  split
  · rfl
  · rfl

theorem Heap.free_owner (ho : H.owner a = t) : (H.free t a u i).owner = H.owner := by
  have hgive : (H.give t a u i NULL).owner = H.owner := HeapOk.give_owner ho
  unfold free
  split
  · exact hgive
  · exact hgive

theorem Heap.free_use_of_ne (hb : b ≠ a) : (H.free t a u i).use b = H.use b := by
  unfold free
  split
  · exact (Function.update_of_ne hb _ _).trans (Function.update_of_ne hb _ _)
  · exact Function.update_of_ne hb _ _

/-- What is left of the span in use that had a block freed. -/
theorem Heap.free_use (hx : (H.free t a u i).use a = some x) : x = u.give i := by
  unfold free at hx
  split at hx
  · rw [drop_use_self] at hx
    cases hx
  · exact Option.some.inj (hx.symm.trans give_use_self)

theorem Heap.Owned.free (h : H.Owned) (ha : H.use a = some u) (ho : H.owner a = t) :
    (H.free t a u i).Owned := by
  unfold Heap.free
  split
  · exact (h.give ha ho).drop
  · exact h.give ha ho

/-- A whole `cfree` of a block of the thread's own. -/
theorem Sheds.free (hpc : H.pc t = none) (ha : H.use a = some u) (ho : H.owner a = t)
    (htr : ¬ H.Transit a) (hp : v.place a = some (u.base, u.pages)) (hr : v.Releases pf a u v') :
    Sheds pf H v (H.free t a u i) v' where
  place b := by
    rw [hr.place]
    split
    · by_cases hb : b = a
      · rw [hb, Function.update_self]
        exact .inr ⟨rfl, _, _, hp, ‹_›⟩
      · exact .inl (Function.update_of_ne hb _ _)
    · exact .inl rfl
  region r := by
    rw [hr.region]
    refine and_congr_right fun _ => not_congr ⟨fun ⟨hbig, hr'⟩ => ?_, fun ⟨b, c, n, hbig, hnone, hr'⟩ => ?_⟩
    · refine ⟨a, _, _, ⟨hp, hbig⟩, ?_, hr'⟩
      rw [hr.place, if_pos hbig, Function.update_self]
    · rw [hr.place] at hnone
      split at hnone
      · rename_i hu
        by_cases hb : b = a
        · have hbc := Option.some.inj (hp.symm.trans (hb ▸ hbig.1))
          rw [Prod.mk.injEq] at hbc
          exact ⟨hu, by rw [hr', ← hbc.1, ← hbc.2]; rfl⟩
        · rw [Function.update_of_ne hb] at hnone
          exact nomatch hbig.1.symm.trans hnone
      · exact nomatch hbig.1.symm.trans hnone
  use b x hx := by
    by_cases hb : b = a
    · subst hb
      exact ⟨u, ha, by rw [Heap.free_use hx]; rfl⟩
    · exact ⟨x, (Heap.free_use_of_ne hb).symm.trans hx, rfl⟩
  transit b hb := Heap.free_use_of_ne fun he => htr (he ▸ hb)
  pc := Heap.free_pc hpc
  owner _ _ _ := by rw [Heap.free_owner ho]

end

/-- `cfree` by each thread of each pointer, in that order. -/
def cfreeAll (pf : Platform) : List (Tid × Nat) → M Unit
  | [] => pure ()
  | x :: l => do
    cfree pf x.1 x.2
    cfreeAll pf l

/-- The pointers are live blocks of the threads, which have no call open. -/
structure World.Frees (w : World) (l : List (Tid × Nat)) : Prop where
  idle : ∀ x ∈ l, w.pc x.1 = none
  live : ∀ x ∈ l, ∃ n, w.live x.2 = some (x.1, n)
  nodup : (l.map Prod.snd).Nodup

/-- The live blocks once those of `l` are freed. -/
def World.liveWithout (w : World) (l : List (Tid × Nat)) (p : Nat) : Option (Tid × Nat) :=
  if p ∈ l.map Prod.snd then none else w.live p

section

variable {pf : Platform} {strict : Bool} {s : State} {v v' : View} {H : Heap} {w w' : World}
  {a n p : Nat} {u : Usage} {t : Tid} {l l' : List (Tid × Nat)} {x : Tid × Nat}

/-- The world with library state `s` and heap `H`. -/
theorem HeapInv.world (h : HeapInv pf strict .none s v H) (hown : H.Owned) :
    ∃ w, w.state = s ∧ w.heap v = H ∧ WorldInv pf strict w v := by
  have hheap : World.heap ⟨s, H.pc, H.live, H.owner⟩ v = H := by
    rw [World.heap, h.use]
  exact ⟨⟨s, H.pc, H.live, H.owner⟩, rfl, hheap, hheap.symm ▸ h, hheap.symm ▸ hown⟩

theorem HeapInv.place_of_use (h : HeapInv pf strict .none s v H) (ha : H.use a = some u) :
    v.place a = some (u.base, u.pages) := by
  obtain ⟨sp, hsp, -, rfl, -⟩ := h.record ha
  exact place_of hsp

theorem WorldInv.cfree_sheds (h : WorldInv pf strict w v) (hpc : w.pc t = none)
    (hp : w.live p = some (t, n)) :
    Spec (Allowed strict) (onStore Watch.none.Ok) (cfree pf t p) w.state fun _ s' => ∃ w' v',
      w'.state = s' ∧ WorldInv pf strict w' v' ∧ Sheds pf (w.heap v) v (w'.heap v') v' ∧
        w'.live = Function.update w.live p none := by
  obtain ⟨a, u, i, hb, -, htr, -⟩ := h.heap.heap.live_block hp
  have ho := h.owned p a u i t n hb hp
  refine (h.heap.cfree hpc hb hp (fun _ _ => ho) (.inl ⟨ho, rfl⟩)).mono fun _ s' hs => ?_
  obtain ⟨v', hr, hinv⟩ := hs
  obtain ⟨w', hstate, hheap, hw'⟩ := hinv.world (h.owned.free hb.use ho)
  refine ⟨w', v', hstate, hw', ?_, ?_⟩
  · rw [hheap]
    exact .free hpc hb.use ho htr (h.heap.place_of_use hb.use) hr
  · have hlive : w'.live = ((w.heap v).free t a u i).live := congrArg Heap.live hheap
    rw [hlive, Heap.free_live, ← hb.eq]
    rfl

namespace World.Frees

theorem head (h : w.Frees (x :: l)) : w.pc x.1 = none ∧ ∃ n, w.live x.2 = some (x.1, n) :=
  ⟨h.idle x (List.mem_cons_self ..), h.live x (List.mem_cons_self ..)⟩

/-- The rest can still be freed once the first block is. -/
theorem tail (h : w.Frees (x :: l)) (hpc : w'.pc = w.pc)
    (hlive : w'.live = Function.update w.live x.2 none) :
    w'.Frees l ∧ w'.liveWithout l = w.liveWithout (x :: l) := by
  have hnd := h.nodup
  rw [List.map_cons, List.nodup_cons] at hnd
  refine ⟨⟨fun y hy => ?_, fun y hy => ?_, hnd.2⟩, ?_⟩
  · rw [hpc]
    exact h.idle y (List.mem_cons_of_mem x hy)
  · obtain ⟨n, hn⟩ := h.live y (List.mem_cons_of_mem x hy)
    have hne : y.2 ≠ x.2 := fun he => hnd.1 (he ▸ List.mem_map_of_mem hy)
    rw [hlive]
    exact ⟨n, (Function.update_of_ne hne _ _).trans hn⟩
  · funext p
    rw [liveWithout, liveWithout, hlive]
    by_cases hp : p = x.2
    · simp [hp]
    · rw [Function.update_of_ne hp]
      refine if_congr ?_ rfl rfl
      rw [List.map_cons, List.mem_cons, or_iff_right hp]

end World.Frees

theorem WorldInv.cfreeAll_spec : ∀ {l : List (Tid × Nat)} {w : World} {v : View},
    WorldInv pf strict w v → w.Frees l →
    Spec (Allowed strict) (onStore Watch.none.Ok) (cfreeAll pf l) w.state fun _ s' => ∃ w' v',
      w'.state = s' ∧ WorldInv pf strict w' v' ∧ Sheds pf (w.heap v) v (w'.heap v') v' ∧
        w'.live = w.liveWithout l := by
  intro l
  induction l with
  | nil =>
    intro w v h _
    exact Spec.pure ⟨w, v, rfl, h, .refl, funext fun p => by simp [World.liveWithout]⟩
  | cons x l ih =>
    intro w v h hl
    obtain ⟨hpc, n, hn⟩ := hl.head
    refine Spec.bind (h.cfree_sheds hpc hn) fun _ s₁ hs => ?_
    obtain ⟨w₁, v₁, rfl, hw₁, hsheds, hlive⟩ := hs
    obtain ⟨hl₁, hlive₁⟩ := hl.tail hsheds.pc hlive
    refine (ih hw₁ hl₁).mono fun _ s' hs => ?_
    obtain ⟨w', v', hstate, hw', hsheds', hlive'⟩ := hs
    exact ⟨w', v', hstate, hw', hsheds.trans hsheds', hlive'.trans hlive₁⟩

/-- Frees lead from a reachable world to a reachable one. -/
theorem Reachable.cfreeAll : ∀ {l : List (Tid × Nat)} {w : World} {tr : List Event},
    Reachable pf w → w.Frees l → (FastAlloc.cfreeAll pf l).run w.state = ⟨.ok (), s, tr⟩ →
    (∀ e ∈ tr, e.Mapped) →
    ∃ w', Reachable pf w' ∧ w'.state = s ∧ w'.pc = w.pc ∧ w'.live = w.liveWithout l := by
  intro l
  induction l with
  | nil =>
    intro w tr h _ hrun _
    cases hrun
    exact ⟨w, h, rfl, rfl, funext fun p => by simp [World.liveWithout]⟩
  | cons x l ih =>
    intro w tr h hl hrun hm
    obtain ⟨hpc, n, hn⟩ := hl.head
    obtain ⟨_, s₁, t₁, t₂, h₁, h₂, rfl⟩ := Program.run_bind_inv hrun
    have hm₁ : ∀ e ∈ ((FastAlloc.cfree pf x.1 x.2).run w.state).trace, e.Mapped := by
      rw [h₁]
      exact fun e he => hm e (List.mem_append_left _ he)
    obtain ⟨w₁, -, hw₁, hs₁, hpc₁, hlive⟩ := h.cfree hpc hn hm₁
    rw [h₁] at hs₁
    subst hs₁
    obtain ⟨hl₁, hlive₁⟩ := hl.tail hpc₁ hlive
    obtain ⟨w', hw', hs', hpc', hlive'⟩ := ih hw₁ hl₁ h₂ fun e he => hm e (List.mem_append_right _ he)
    exact ⟨w', hw', hs', hpc'.trans hpc₁, hlive'.trans hlive₁⟩

theorem World.Frees.perm (h : w.Frees l) (hperm : l.Perm l') :
    w.Frees l' ∧ w.liveWithout l' = w.liveWithout l := by
  refine ⟨⟨fun x hx => h.idle x (hperm.mem_iff.mpr hx), fun x hx => h.live x (hperm.mem_iff.mpr hx),
    (hperm.map Prod.snd).nodup_iff.mp h.nodup⟩, funext fun p => ?_⟩
  exact if_congr (hperm.map Prod.snd).mem_iff.symm rfl rfl

/-- Live blocks freed by their owners, in two orders: the worlds reached have
the same blocks live and are alike. -/
theorem cfreeAll_perm (h : Reachable pf w) (hl : w.Frees l) (hperm : l.Perm l')
    (hm : ∀ e ∈ ((cfreeAll pf l).run w.state).trace, e.Mapped)
    (hm' : ∀ e ∈ ((cfreeAll pf l').run w.state).trace, e.Mapped) :
    ∃ w₁ w₂, ((cfreeAll pf l).run w.state).result = .ok () ∧
      ((cfreeAll pf l').run w.state).result = .ok () ∧
      Reachable pf w₁ ∧ w₁.state = ((cfreeAll pf l).run w.state).state ∧
      Reachable pf w₂ ∧ w₂.state = ((cfreeAll pf l').run w.state).state ∧
      w₁.live = w₂.live ∧ w₁.state.Alike w₂.state := by
  obtain ⟨v, hv⟩ := h.inv
  obtain ⟨hl', hwithout⟩ := hl.perm hperm
  obtain ⟨⟨_, hok₁, x₁, v₁, hx₁, hinv₁, hs₁, hlive₁⟩, -⟩ := hv.cfreeAll_spec hl fun e he =>
    allowed_of_mapped (hm e he)
  obtain ⟨⟨_, hok₂, x₂, v₂, hx₂, hinv₂, hs₂, hlive₂⟩, -⟩ := hv.cfreeAll_spec hl' fun e he =>
    allowed_of_mapped (hm' e he)
  obtain ⟨w₁, hw₁, hst₁, -, hl₁⟩ := h.cfreeAll hl (Program.run_of_result hok₁) hm
  obtain ⟨w₂, hw₂, hst₂, -, hl₂⟩ := h.cfreeAll hl' (Program.run_of_result hok₂) hm'
  have halike := Sheds.alike hv.heap.heap hinv₁ hinv₂ hs₁ hs₂ fun p => by
    rw [hlive₁, hlive₂, hwithout]
  rw [hx₁, hx₂] at halike
  refine ⟨w₁, w₂, hok₁, hok₂, hw₁, hst₁, hw₂, hst₂, ?_, ?_⟩
  · rw [hl₁, hl₂, hwithout]
  · rwa [hst₁, hst₂]

/-- Two blocks of 16 bytes in the first span. -/
theorem Reachable.two : ∃ w, Reachable .hugePages w ∧ w.live (2 ^ 31) = some (0, 16) ∧
    w.live (2 ^ 31 + 16) = some (0, 16) ∧ (∀ t, w.pc t = none) ∧
    w.state = ((FastAlloc.cmalloc .hugePages 0 16).run ((FastAlloc.cmalloc .hugePages 0 16).run
      (.initial fun n => 2 ^ 30 * (n + 1))).state).state := by
  obtain ⟨w₀, hw₀, hlive₀, hpc₀, hs₀⟩ := Reachable.first
  have hres : ((FastAlloc.cmalloc .hugePages 0 16).run ((FastAlloc.cmalloc .hugePages 0 16).run
      (.initial fun n => 2 ^ 30 * (n + 1))).state).result = .ok (2 ^ 31 + 16) := by decide +kernel
  have htrace : (((FastAlloc.cmalloc .hugePages 0 16).run ((FastAlloc.cmalloc .hugePages 0 16).run
      (.initial fun n => 2 ^ 30 * (n + 1))).state).trace.all fun e => decide e.Mapped) = true := by
    decide +kernel
  rw [← hs₀] at hres htrace ⊢
  obtain ⟨q, w, hq, hw, hs, hpc, -, hlive⟩ := hw₀.cmalloc (hpc₀ 0) (by decide)
    (mapped_of_all htrace)
  obtain rfl : q = 2 ^ 31 + 16 := Except.ok.inj (hq.symm.trans hres)
  refine ⟨w, hw, ?_, ?_, fun t => hpc ▸ hpc₀ t, hs⟩
  · rw [hlive, Function.update_of_ne (by decide)]
    exact hlive₀
  · rw [hlive, Function.update_self]

/-- They may go in either order. -/
theorem cfreeAll_perm_two : ∃ w w₁ w₂ : World, w.live (2 ^ 31) = some (0, 16) ∧
    ((cfreeAll .hugePages [(0, 2 ^ 31), (0, 2 ^ 31 + 16)]).run w.state).state = w₁.state ∧
    ((cfreeAll .hugePages [(0, 2 ^ 31 + 16), (0, 2 ^ 31)]).run w.state).state = w₂.state ∧
    w₁.live = w₂.live ∧ w₁.state.Alike w₂.state := by
  obtain ⟨w, hw, hp, hq, hpc, hs⟩ := Reachable.two
  have hm : (((cfreeAll .hugePages [(0, 2 ^ 31), (0, 2 ^ 31 + 16)]).run
      ((FastAlloc.cmalloc .hugePages 0 16).run ((FastAlloc.cmalloc .hugePages 0 16).run
        (.initial fun n => 2 ^ 30 * (n + 1))).state).state).trace.all
          fun e => decide e.Mapped) = true := by decide +kernel
  have hm' : (((cfreeAll .hugePages [(0, 2 ^ 31 + 16), (0, 2 ^ 31)]).run
      ((FastAlloc.cmalloc .hugePages 0 16).run ((FastAlloc.cmalloc .hugePages 0 16).run
        (.initial fun n => 2 ^ 30 * (n + 1))).state).state).trace.all
          fun e => decide e.Mapped) = true := by decide +kernel
  rw [← hs] at hm hm'
  have hl : w.Frees [(0, 2 ^ 31), (0, 2 ^ 31 + 16)] := by
    refine ⟨fun x _ => hpc x.1, fun x hx => ?_, by decide⟩
    rcases List.mem_pair.mp hx with rfl | rfl
    · exact ⟨16, hp⟩
    · exact ⟨16, hq⟩
  obtain ⟨w₁, w₂, -, -, -, hs₁, -, hs₂, hlive, halike⟩ :=
    cfreeAll_perm hw hl (.swap _ _ _) (mapped_of_all hm) (mapped_of_all hm')
  exact ⟨w, w₁, w₂, hp, hs₁.symm, hs₂.symm, hlive, halike⟩

end

end FastAlloc
