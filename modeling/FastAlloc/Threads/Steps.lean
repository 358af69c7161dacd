/-
FastAlloc.Threads.Steps — one uninterrupted part of a call keeps the
invariant, whatever the other threads stand at.

`Advances` is what a part leaves: a state that represents the heap after the
progress the part reports, with the bytes of every block that was live.
-/
import FastAlloc.Model.System
import FastAlloc.Threads.Sections

namespace FastAlloc

open Lib Mem View

/-- The heap after thread `t` made progress `p`. -/
structure Heap.Progressed (H : Heap) (t : Tid) (p : Progress) (H' : Heap) : Prop where
  live : H'.live = liveAfter H.live t p
  pc : H'.pc = Function.update H.pc t p.reply.pc
  owner : ∀ a, H'.owner a = if p.reply.initialized = some a then t else H.owner a

/-- What a client does with the bytes of the block `p` it was handed. -/
def Heap.Fills (H : Heap) (p size : Nat) (s s' : State) : Client → Prop
  | .malloc => True
  | .calloc => ∀ b < size, s'.bytes (p + b) = 0
  | .realloc ptr a => ∀ u, H.use a = some u → ∀ b < u.blockSize,
      s'.bytes (p + b) = s.bytes (ptr + b)

/-- The live blocks are blocks still, of the same span, size and bytes. -/
def Heap.KeepsLive (H : Heap) (s : State) (H' : Heap) (s' : State) : Prop :=
  ∀ q a u i x, H.IsBlock q a u i → H.live q = some x →
    (∃ w, H'.IsBlock q a w i ∧ w.blockSize = u.blockSize) ∧
      ∀ b < u.blockSize, s'.bytes (q + b) = s.bytes (q + b)

/-- The pointer a call has in hand and will not return. -/
def Client.pointer : Client → Option Nat
  | .malloc => none
  | .calloc => none
  | .realloc ptr _ => some ptr

/-- What a call returns, once that is settled. -/
def Reply.returns : Reply → Option Nat
  | .done q => some q
  | .more (.cache _ q) => some q
  | .more (.initSpan _ _) => none
  | .more (.allocate _ _ _) => none

/-- A part handed out the block `p` for `size` bytes, and its client has
done its work. -/
structure Heap.Hands (H : Heap) (client : Client) (size : Nat) (s s' : State) (p : Nat)
    (pr : Progress) : Prop where
  gained : pr.gained = some (p, size)
  lost : pr.lost = client.pointer
  returns : pr.reply.returns = some p
  fresh : H.live p = none
  fills : H.Fills p size s s' client

/-- A part of a call went well. -/
structure Advances (pf : Platform) (strict : Bool) (W : Watch) (H : Heap) (t : Tid) (s : State)
    (p : Progress) (s' : State) (v' : View) (H' : Heap) : Prop where
  inv : HeapInv pf strict W s' v' H'
  owned : H'.Owned
  progressed : H.Progressed t p H'
  keeps : H.KeepsLive s H' s'

section

variable {pf : Platform} {strict : Bool} {W : Watch} {s s' : State} {v v' : View} {H K : Heap}
  {a b i j m n p q size : Nat} {sp : Span} {u w : Usage} {t : Tid} {client : Client}
  {A : Event → Prop} {x : Tid × Nat} {gained : Option (Nat × Nat)} {r : Reply} {o : World} {pr : Progress}

/-! ## Progress -/

theorem Reply.initialized_cache {a q : Nat} : (Reply.more (.cache a q)).initialized = none := rfl

/-- Where a thread stands once it has freed a block. -/
def freeReply (a : Nat) (u : Usage) (i q : Nat) : Reply :=
  if u.cls = largeClassSizeIndex ∨ (u.give i).AllFree then .more (.cache a q) else .done q

theorem freeReply_pc : (freeReply a u i q).pc = Heap.givePc a u i q := by
  unfold freeReply Heap.givePc
  split
  · rfl
  · rfl

theorem freeReply_initialized : (freeReply a u i q).initialized = none := by
  unfold freeReply
  split
  · rfl
  · rfl

theorem freeReply_returns : (freeReply a u i q).returns = some q := by
  unfold freeReply
  split
  · rfl
  · rfl

namespace Heap

theorem progressed_refl (hpc : H.pc t = none) : H.Progressed t ⟨.done q, none, none⟩ H := by
  refine ⟨rfl, ?_, fun a => rfl⟩
  rw [show (Reply.done q).pc = none from rfl, ← hpc, Function.update_eq_self]

theorem progressed_ask :
    H.Progressed t ⟨.more (.initSpan client size), none, none⟩ (H.ask t client size) :=
  ⟨rfl, rfl, fun _ => rfl⟩

theorem progressed_start : H.Progressed t ⟨.more (.allocate client size a), none, none⟩
    (H.start t a u client size) := by
  refine ⟨rfl, rfl, fun b => ?_⟩
  change Function.update H.owner a t b = if some a = some b then t else H.owner b
  by_cases hb : b = a
  · simp [hb]
  · simp [hb, Ne.symm hb]

theorem progressed_drop : H.Progressed t ⟨.done q, none, none⟩ (H.drop t a) := ⟨rfl, rfl, fun _ => rfl⟩

theorem progressed_take :
    H.Progressed t ⟨.done q, some (u.block i, n), none⟩ (H.take t a u i n) := by
  refine ⟨?_, rfl, fun _ => rfl⟩
  funext b
  change Function.update H.live (u.block i) (some (t, n)) b =
    if b = u.block i then some (t, n) else if none = some b then none else H.live b
  rw [Function.update_apply]
  simp

theorem progressed_resize (hpc : H.pc t = none) :
    H.Progressed t ⟨.done q, some (p, n), none⟩ (H.resize t p n) := by
  refine ⟨?_, ?_, fun _ => rfl⟩
  · funext b
    change Function.update H.live p (some (t, n)) b =
      if b = p then some (t, n) else if none = some b then none else H.live b
    rw [Function.update_apply]
    simp
  · rw [show (Reply.done q).pc = none from rfl, ← hpc, Function.update_eq_self]
    rfl

theorem progressed_give (ho : H.owner a = t) :
    H.Progressed t ⟨freeReply a u i q, none, some (u.block i)⟩ (H.give t a u i q) := by
  refine ⟨?_, ?_, fun b => ?_⟩
  · funext b
    change Function.update H.live (u.block i) none b =
      if some (u.block i) = some b then none else H.live b
    rw [Function.update_apply]
    by_cases hb : b = u.block i
    · simp [hb]
    · simp [hb, Ne.symm hb]
  · rw [freeReply_pc]
    rfl
  · rw [freeReply_initialized, HeapOk.give_owner ho]
    rfl

/-- Taking one block and then giving back another. -/
theorem Progressed.give (h : H.Progressed t ⟨r, some (p, n), none⟩ K) (ho : K.owner a = t)
    (hr : r.initialized = none) (hne : p ≠ u.block i) :
    H.Progressed t ⟨freeReply a u i q, some (p, n), some (u.block i)⟩ (K.give t a u i q) := by
  refine ⟨?_, ?_, fun b => ?_⟩
  · funext b
    change Function.update K.live (u.block i) none b =
      if b = p then some (t, n) else if some (u.block i) = some b then none else H.live b
    rw [Function.update_apply, h.live, liveAfter]
    by_cases hb : b = u.block i
    · simp [hb, Ne.symm hne]
    · simp [hb, Ne.symm hb]
  · rw [freeReply_pc]
    change Function.update K.pc t (givePc a u i q) = _
    rw [h.pc, Function.update_idem]
  · have hb := h.owner b
    rw [hr] at hb
    rw [freeReply_initialized, HeapOk.give_owner ho]
    exact hb

/-- The spans in use stay in use, with the blocks they had. -/
def KeepsSpans (H H' : Heap) : Prop :=
  ∀ a u, H.use a = some u → ∃ w, H'.use a = some w ∧ w.base = u.base ∧ w.blockSize = u.blockSize ∧
    w.blockCount = u.blockCount

theorem KeepsSpans.refl (hu : H'.use = H.use) : H.KeepsSpans H' := fun _ u ha =>
  ⟨u, hu ▸ ha, rfl, rfl, rfl⟩

theorem KeepsSpans.update (ha : H.use a = some u) (hu : H'.use = Function.update H.use a (some w))
    (hw : w.base = u.base ∧ w.blockSize = u.blockSize ∧ w.blockCount = u.blockCount) :
    H.KeepsSpans H' := by
  intro b x hb
  rw [hu]
  by_cases hba : b = a
  · subst hba
    obtain rfl := Option.some.inj (ha.symm.trans hb)
    exact ⟨w, Function.update_self .., hw⟩
  · exact ⟨x, (Function.update_of_ne hba _ _).trans hb, rfl, rfl, rfl⟩

theorem KeepsSpans.trans (h : H.KeepsSpans K) (h' : K.KeepsSpans H') : H.KeepsSpans H' := by
  intro a u ha
  obtain ⟨w, hw, h₁, h₂, h₃⟩ := h a u ha
  obtain ⟨x, hx, h₄, h₅, h₆⟩ := h' a w hw
  exact ⟨x, hx, h₄.trans h₁, h₅.trans h₂, h₆.trans h₃⟩

theorem KeepsSpans.block (h : H.KeepsSpans H') (hb : H.IsBlock p a u i) :
    ∃ w, H'.IsBlock p a w i ∧ w.blockSize = u.blockSize := by
  obtain ⟨w, hw, h₁, h₂, h₃⟩ := h a u hb.use
  refine ⟨w, ⟨hw, h₃ ▸ hb.lt, ?_⟩, h₂⟩
  rw [hb.eq, Usage.block, Usage.block, h₁, h₂]

/-- Where no byte is written the live blocks stay as the spans do. -/
theorem KeepsSpans.live (h : H.KeepsSpans H') (hbytes : s'.bytes = s.bytes) :
    H.KeepsLive s H' s' := fun _ _ _ _ _ hb _ =>
  ⟨h.block hb, fun _ _ => by rw [hbytes]⟩

theorem keepsSpans_take (ha : H.use a = some u) : H.KeepsSpans (H.take t a u i n) :=
  .update ha rfl ⟨rfl, rfl, rfl⟩

theorem keepsSpans_give (ha : H.use a = some u) : H.KeepsSpans (H.give t a u i q) :=
  .update ha rfl ⟨rfl, rfl, rfl⟩

theorem keepsSpans_start (ha : H.use a = none) : H.KeepsSpans (H.start t a u client size) := by
  intro b w hb
  have hba : b ≠ a := by
    rintro rfl
    exact nomatch ha.symm.trans hb
  exact ⟨w, (Function.update_of_ne hba _ _).trans hb, rfl, rfl, rfl⟩

end Heap

/-! ## Giving back a block -/

/-- `cfree` up to its lock, inside a call that will return `q`. -/
theorem freePart_spec (h : HeapInv pf strict W s v H) (hb : H.IsBlock p a u i)
    (hp : H.live p = some (t, n)) (ho : H.owner a = t) (hpc : H.pc t = none) :
    Spec A (onStore W.Ok) (freePart pf t p q gained) s fun pr s' =>
      pr = ⟨freeReply a u i q, gained, some p⟩ ∧
      Tracks pf strict W s s' (v.freeUnlocked t a i) ∧
      HeapInv pf strict W s' (v.freeUnlocked t a i) (H.give t a u i q) := by
  have hpos := (h.heap.sound a u hb.use).blockSize_pos
  have hheap := h.heap.give (q := q) hb hp hpc (fun _ _ => ho) (.inl ⟨ho, rfl⟩)
  refine Spec.bind (cfreeUnlocked_spec h hb hp le_rfl (Nat.lt_add_of_pos_right hpos)
    (fun _ _ => ho) q hheap) ?_
  rintro o s' ⟨rfl, ht, hinv⟩
  unfold freeReply
  by_cases hc : u.cls = largeClassSizeIndex ∨ (u.give i).AllFree
  · rw [if_pos hc, if_pos hc]
    exact Spec.pure ⟨rfl, ht, hinv⟩
  · rw [if_neg hc, if_neg hc]
    exact Spec.pure ⟨rfl, ht, hinv⟩

/-! ## After `cmalloc` has its block -/

/-- What follows in the same part once `cmalloc` has the block `p`. -/
theorem afterMalloc_spec (h : HeapInv pf strict W s v K) (hown : K.Owned) (hpc : K.pc t = none)
    (hb : K.IsBlock p a u i) (hp : K.live p = some (t, size)) (hsize : size ≤ u.blockSize)
    (hc : K.ClientOk t size client) :
    Spec A (onStore W.Ok) (afterMalloc pf t client size p) s fun pr s' => ∃ v' K',
      HeapInv pf strict W s' v' K' ∧ K'.Owned ∧
      (∀ b, b < p ∨ p + size ≤ b → s'.bytes b = s.bytes b) ∧ K.Fills p size s s' client ∧
      ((pr = ⟨.done p, some (p, size), none⟩ ∧ client.pointer = none ∧ K' = K) ∨ ∃ ptr b w j n,
        client = .realloc ptr b ∧ K.IsBlock ptr b w j ∧ K.live ptr = some (t, n) ∧
        K.owner b = t ∧ p ≠ ptr ∧ pr = ⟨freeReply b w j p, some (p, size), some ptr⟩ ∧
        K' = K.give t b w j p) := by
  unfold afterMalloc
  rw [if_neg (h.heap.live_ne_null hp)]
  cases client with
  | malloc => exact Spec.pure ⟨v, K, h, hown, fun _ _ => rfl, trivial, .inl ⟨rfl, rfl, rfl⟩⟩
  | calloc =>
    by_cases h0 : size = 0
    · subst h0
      exact Spec.pure ⟨v, K, h, hown, fun _ _ => rfl, fun b hb => absurd hb (Nat.not_lt_zero b),
        .inl ⟨rfl, rfl, rfl⟩⟩
    · dsimp only
      rw [if_pos h0]
      refine Spec.setGlobal_bind (Spec.pure ⟨_, K, h.setBytes _, hown, fun b hb => ?_,
        fun b hb => ?_, .inl ⟨rfl, rfl, rfl⟩⟩)
      · exact if_neg fun hin => by omega
      · exact if_pos ⟨Nat.le_add_right _ _, by omega⟩
  | realloc ptr b =>
    obtain ⟨⟨n, hn⟩, ho, w, j, hw, hlt⟩ := hc
    obtain ⟨sp, hsp, -, rfl, -⟩ := h.record hw.use
    have hne : p ≠ ptr := by
      rintro rfl
      obtain ⟨-, rfl, -⟩ := h.heap.block_unique hb hw
      omega
    refine h.shows.load_bind (F := Span.blockSize) hsp (Spec.setGlobal_bind ?_)
    refine (freePart_spec (h.setBytes _) hw hn ho hpc).mono ?_
    rintro pr s' ⟨rfl, ht, hinv⟩
    refine ⟨_, _, hinv, hown.give hw.use ho, fun x hx => ?_, fun u' hu' x hx => ?_,
      .inr ⟨ptr, b, sp.use, j, n, rfl, hw, hn, ho, hne, rfl, rfl⟩⟩
    · rw [ht.bytes_eq]
      exact if_neg fun hin => by
        have hlt' : sp.blockSize < size := hlt
        omega
    · obtain rfl := Option.some.inj (hw.use.symm.trans hu')
      rw [ht.bytes_eq]
      refine (if_pos ⟨Nat.le_add_right _ _, Nat.add_lt_add_left hx p⟩).trans ?_
      rw [Nat.add_sub_cancel_left]

/-- A block just handed out shares no byte with those that were live. -/
theorem offers_apart (h : HeapOk pf H) (hf : H.Offers t size a u i) {q b j : Nat} {w : Usage}
    {x : Tid × Nat} (hq : H.IsBlock q b w j) (hx : H.live q = some x) :
    q + w.blockSize ≤ u.block i ∨ u.block i + size ≤ q := by
  have hblock : H.IsBlock (u.block i) a u i := ⟨hf.use, (h.sound a u hf.use).free i hf.free, rfl⟩
  have hne : q ≠ u.block i := by
    rintro rfl
    obtain ⟨-, rfl, rfl⟩ := h.block_unique hq hblock
    exact ((h.out _ _ _ _ hq).mp ⟨x, hx⟩).1 hf.free
  have hsize := hf.size_le
  cases h.blocks_apart hq hblock hne with
  | inl hd => exact .inl hd
  | inr hd => exact .inr (by omega)

/-- It was not live before. -/
theorem offers_fresh (h : HeapOk pf H) (hf : H.Offers t size a u i) : H.live (u.block i) = none := by
  by_contra hne
  obtain ⟨x, hx⟩ := Option.ne_none_iff_exists'.mp hne
  have hblock : H.IsBlock (u.block i) a u i := ⟨hf.use, (h.sound a u hf.use).free i hf.free, rfl⟩
  exact ((h.out _ _ _ _ hblock).mp ⟨x, hx⟩).1 hf.free

/-- The part that hands out a block, and what its client does next. -/
theorem TakesBlock.afterMalloc (h : HeapInv pf strict W s v H) (hown : H.Owned)
    (hc : H.ClientOk t size client) (ht : TakesBlock pf strict W s H t size p s') :
    Spec A (onStore W.Ok) (afterMalloc pf t client size p) s' fun pr s'' =>
      (∃ v' H', Advances pf strict W H t s pr s'' v' H') ∧ H.Hands client size s s'' p pr := by
  obtain ⟨a, u, i, v₁, hf, rfl, htr, hinv⟩ := ht
  have hsound := h.heap.sound a u hf.use
  refine (afterMalloc_spec hinv (hown.take h.heap hf.use hf.owner hf.free) Heap.take_pc_self
    ⟨Heap.take_use_self, hsound.free i hf.free, rfl⟩ Heap.take_live_self hf.size_le
    (h.heap.take_clientOk hc hf.use hf.free hf.size_le)).mono fun pr s'' hp => ?_
  obtain ⟨v', K', hinv', hown', hbytes, hfills, hcase⟩ := hp
  rw [htr.bytes_eq, Usage.take_block] at hbytes
  have htake : H.Progressed t ⟨.done (u.block i), some (u.block i, size), none⟩
      (H.take t a u i size) := Heap.progressed_take
  have hspans : H.KeepsSpans (H.take t a u i size) := Heap.keepsSpans_take hf.use
  have hkeeps : H.KeepsSpans K' → H.KeepsLive s K' s'' := by
    intro hk q b w j x hq hx
    refine ⟨hk.block hq, fun k hlt => hbytes _ ?_⟩
    cases offers_apart h.heap hf hq hx with
    | inl hd => exact .inl (by omega)
    | inr hd => exact .inr (by omega)
  have hfills' : H.Fills (u.block i) size s s'' client := by
    cases client with
    | malloc => trivial
    | calloc => exact hfills
    | realloc ptr b =>
      intro w hw x hx
      rw [← htr.bytes_eq]
      obtain ⟨-, -, w', j, hw', hlt⟩ := hc
      obtain rfl := Option.some.inj (hw.symm.trans hw'.use)
      have hba : b ≠ a := by
        rintro rfl
        obtain rfl := Option.some.inj (hw.symm.trans hf.use)
        have := hf.size_le
        omega
      exact hfills w ((Function.update_of_ne hba _ _).trans hw) x hx
  have hfresh := offers_fresh h.heap hf
  rcases hcase with ⟨rfl, hp, rfl⟩ | ⟨ptr, b, w, j, n, rfl, hw, -, ho, hne, rfl, rfl⟩
  · exact ⟨⟨v', _, hinv', hown', htake, hkeeps hspans⟩, rfl, hp.symm, rfl, hfresh, hfills'⟩
  · refine ⟨⟨v', _, hinv', hown', ?_, hkeeps (hspans.trans (Heap.keepsSpans_give hw.use))⟩, rfl, rfl,
      freeReply_returns, hfresh, hfills'⟩
    rw [hw.eq] at hne ⊢
    exact htake.give ho rfl hne

/-! ## The parts of a call -/

/-- What the first part of a `cmalloc` inside a call does: it finds no block
in its bin, or hands one out. -/
def Client.Opens (H : Heap) (size : Nat) (s s' : State) (pr : Progress) (client : Client) : Prop :=
  pr = ⟨.more (.initSpan client size), none, none⟩ ∧ s' = s ∨ ∃ p, H.Hands client size s s' p pr

/-- What a part does that goes on from a `Pc`. -/
def Pc.Goes (H : Heap) (s s' : State) (pr : Progress) : Pc → Prop
  | .initSpan client size => ∃ a, pr = ⟨.more (.allocate client size a), none, none⟩
  | .allocate client size _ => ∃ p, H.Hands client size s s' p pr
  | .cache _ q => pr = ⟨.done q, none, none⟩

theorem Client.Opens.fresh (h : client.Opens H size s s' pr) (hg : pr.gained = some (q, n)) :
    H.live q = none := by
  rcases h with ⟨rfl, -⟩ | ⟨p, hp⟩
  · cases hg
  · cases hp.gained.symm.trans hg
    exact hp.fresh

theorem Pc.Goes.fresh {pc : Pc} (h : pc.Goes H s s' pr) (hg : pr.gained = some (q, n)) :
    H.live q = none := by
  cases pc with
  | initSpan client size =>
    obtain ⟨a, rfl⟩ := h
    cases hg
  | allocate client size a =>
    obtain ⟨p, hp⟩ := h
    cases hp.gained.symm.trans hg
    exact hp.fresh
  | cache a r =>
    obtain rfl : pr = ⟨.done r, none, none⟩ := h
    cases hg

theorem mallocPart_spec (h : HeapInv pf strict W s v H) (hown : H.Owned) (hpc : H.pc t = none)
    (hsize : pf.NonWrapping size) (hc : H.ClientOk t size client) :
    Spec A (onStore W.Ok) (mallocPart pf t client size) s fun pr s' =>
      (∃ v' H', Advances pf strict W H t s pr s' v' H') ∧ client.Opens H size s s' pr := by
  refine Spec.bind (cmallocFromBin_spec h hpc) fun r s' hr => ?_
  cases hr with
  | inl hr =>
    obtain ⟨rfl, rfl⟩ := hr
    have hinv : HeapInv pf strict W s' v (H.ask t client size) :=
      h.of_heap (h.heap.ask hpc hsize hc) rfl rfl
    exact Spec.pure ⟨⟨v, _, hinv, hown.ask, Heap.progressed_ask,
      Heap.KeepsSpans.live (.refl rfl) rfl⟩, .inl ⟨rfl, rfl⟩⟩
  | inr hr =>
    obtain ⟨p, rfl, ht⟩ := hr
    exact (ht.afterMalloc h hown hc).mono fun pr s'' hp => ⟨hp.1, .inr ⟨p, hp.2⟩⟩

/-- `cfree` up to its lock, as a whole part of a call. -/
theorem freePart_advances (h : HeapInv pf strict W s v H) (hown : H.Owned) (hpc : H.pc t = none)
    (hp : H.live p = some (t, n)) :
    Spec A (onStore W.Ok) (freePart pf t p q none) s fun pr s' =>
      (∃ v' H', Advances pf strict W H t s pr s' v' H') ∧
        pr.gained = none ∧ pr.lost = some p ∧ pr.reply.returns = some q := by
  obtain ⟨a, u, i, hb, -⟩ := h.heap.live_block hp
  have ho := hown p a u i t n hb hp
  refine (freePart_spec h hb hp ho hpc).mono fun pr s' hpr => ?_
  obtain ⟨rfl, ht, hinv⟩ := hpr
  refine ⟨⟨_, _, hinv, hown.give hb.use ho, ?_, (Heap.keepsSpans_give hb.use).live ht.bytes_eq⟩, rfl,
    rfl, freeReply_returns⟩
  rw [hb.eq]
  exact Heap.progressed_give ho

/-- The first part of a call. -/
theorem enter_spec {call : Call} (h : HeapInv pf strict W s v H) (hown : H.Owned)
    (hpc : H.pc t = none) (hreq : ∀ n ∈ call.request, pf.NonWrapping n) (hlive : H.live = o.live)
    (hperm : call.Permitted o t) :
    Spec A (onStore W.Ok) (enter pf t call) s fun pr s' =>
      (∃ v' H', Advances pf strict W H t s pr s' v' H') ∧
        ∀ q n, pr.gained = some (q, n) → H.live q = none ∨ call = .realloc q n := by
  have hsame : H.KeepsLive s H s := Heap.KeepsSpans.live (.refl rfl) rfl
  have hnull : (∃ v' H', Advances pf strict W H t s ⟨.done NULL, none, none⟩ s v' H') ∧
      ∀ q n, (none : Option (Nat × Nat)) = some (q, n) → H.live q = none ∨ call = .realloc q n :=
    ⟨⟨v, H, h, hown, Heap.progressed_refl hpc, hsame⟩, fun _ _ hg => nomatch hg⟩
  have hfree : ∀ {ptr n}, H.live ptr = some (t, n) →
      Spec A (onStore W.Ok) (freePart pf t ptr NULL none) s fun pr s' =>
        (∃ v' H', Advances pf strict W H t s pr s' v' H') ∧
          ∀ q n, pr.gained = some (q, n) → H.live q = none ∨ call = .realloc q n := fun hn =>
    (freePart_advances h hown hpc hn).mono fun _ _ hp => ⟨hp.1, fun _ _ hg => nomatch hp.2.1.symm.trans hg⟩
  have hmalloc : ∀ {client size}, pf.NonWrapping size → H.ClientOk t size client →
      Spec A (onStore W.Ok) (mallocPart pf t client size) s fun pr s' =>
        (∃ v' H', Advances pf strict W H t s pr s' v' H') ∧
          ∀ q n, pr.gained = some (q, n) → H.live q = none ∨ call = .realloc q n := fun hn hc =>
    (mallocPart_spec h hown hpc hn hc).mono fun _ _ hp => ⟨hp.1, fun _ _ hg => .inl (hp.2.fresh hg)⟩
  cases call with
  | malloc size => exact hmalloc (hreq size rfl) trivial
  | calloc num size =>
    unfold enter
    refine Spec.ite (fun _ => Spec.pure hnull) fun hover => ?_
    have hn : pf.NonWrapping (num * size) := hreq _ (if_neg hover)
    have hlt : num * size < 2 ^ 64 := Nat.lt_of_le_of_lt hn (Nat.sub_lt (by decide) pf.pageSize_pos)
    rw [Nat.mod_eq_of_lt hlt]
    exact hmalloc hn trivial
  | free ptr =>
    unfold enter
    refine Spec.ite (fun _ => Spec.pure hnull) fun hptr => ?_
    obtain ⟨n, hn⟩ := hperm.resolve_left hptr
    exact hfree (hlive ▸ hn)
  | realloc ptr size =>
    unfold enter
    have hsize : pf.NonWrapping size := hreq size rfl
    refine Spec.ite (fun _ => hmalloc hsize trivial) fun hptr => ?_
    obtain ⟨n, hn⟩ := hperm.resolve_left hptr
    rw [← hlive] at hn
    refine Spec.ite (fun _ => hfree hn) fun _ => ?_
    obtain ⟨a, u, i, hb, -⟩ := h.heap.live_block hn
    have hpos := (h.heap.sound a u hb.use).blockSize_pos
    refine h.getSpan_bind hb le_rfl (Nat.lt_add_of_pos_right hpos) ?_
    obtain ⟨sp, hsp, -, rfl, -⟩ := h.record hb.use
    refine h.shows.load_bind (F := Span.blockSize) hsp (Spec.ite (fun hle => ?_) fun hlt => ?_)
    · -- the block is big enough already
      have hinv : HeapInv pf strict W s v (H.resize t ptr size) :=
        h.of_heap (h.heap.resize hb hn hle hpc) rfl rfl
      refine Spec.pure ⟨⟨v, _, hinv, hown.resize hn, Heap.progressed_resize hpc,
        Heap.KeepsSpans.live (.refl rfl) rfl⟩, fun q m hg => .inr ?_⟩
      cases hg
      rfl
    · exact hmalloc hsize ⟨⟨n, hn⟩, hown ptr a _ i t n hb hn, sp.use, i, hb, Nat.lt_of_not_le hlt⟩

/-- The watched keys are those of spans in use, but for one that thread `t`
is about to give up. -/
def View.Watches (v : View) (pf : Platform) (W : Watch) (pc : Pc) : Prop :=
  ∀ k, W.keys k → ∃ b sp, v.span b = some sp ∧ sp.isInitialized = true ∧ sp.Covers pf k ∧
    ∀ q, pc ≠ .cache b q

/-- The next part of a call. -/
theorem resume_spec {pc : Pc} (h : HeapInv pf strict W s v H) (hown : H.Owned)
    (hpc : H.pc t = some pc) (hkeys : v.Watches pf W pc) :
    Spec (Allowed strict) (onStore W.Ok) (resume pf t pc) s fun pr s' =>
      (∃ v' H', Advances pf strict W H t s pr s' v' H') ∧ pc.Goes H s s' pr := by
  cases pc with
  | initSpan client size =>
    refine Spec.bind (initializeSpan_inv h hpc fun k hk => ?_) fun a s' ha => ?_
    · obtain ⟨b, sp, hsp, hi, hcov, -⟩ := hkeys k hk
      exact ⟨b, sp, hsp, hi, hcov⟩
    · obtain ⟨v', -, hnone, hinv, hbytes⟩ := ha
      refine Spec.pure ⟨⟨v', _, hinv, hown.start hinv.heap, Heap.progressed_start, ?_⟩, a, rfl⟩
      intro q b u i x hb _
      exact ⟨(Heap.keepsSpans_start hnone).block hb, fun k hk =>
        hbytes.block h.heap hb (Nat.le_add_right _ _) (Nat.add_lt_add_left hk _)⟩
  | allocate client size a =>
    obtain ⟨-, hc, -⟩ := h.heap.pcs t _ hpc
    refine Spec.bind (cmallocFromSpan_spec h hpc) fun p s' ht => ?_
    exact (ht.afterMalloc h hown hc).mono fun pr s'' hp => ⟨hp.1, p, hp.2⟩
  | cache a q =>
    refine Spec.bind (cacheSpan_inv h hpc fun sp hsp k hk hcov => ?_) fun _ s' hs => ?_
    · obtain ⟨b, sp', hsp', -, hcov', hne⟩ := hkeys k hk
      have hba : b = a := h.sound.eq_of_covers hsp' hsp hcov' hcov
      exact hne q (hba ▸ rfl)
    · obtain ⟨sp, hsp, hinv, hbytes⟩ := hs
      refine Spec.pure ⟨⟨_, H.drop t a, hinv, hown.drop, Heap.progressed_drop, ?_⟩, rfl⟩
      intro r b u i x hb hx
      have hba : b ≠ a := by
        rintro rfl
        exact ((h.heap.out r b u i hb).mp ⟨x, hx⟩).2 ⟨t, _, hpc, rfl⟩
      have hb' : (H.drop t a).IsBlock r b u i :=
        ⟨(Function.update_of_ne hba _ _).trans hb.use, hb.lt, hb.eq⟩
      exact ⟨⟨u, hb', rfl⟩, fun k hk =>
        hbytes.block (h.heap.drop hpc) hb' (Nat.le_add_right _ _) (Nat.add_lt_add_left hk _)⟩

end

end FastAlloc
