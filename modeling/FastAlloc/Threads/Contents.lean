/-
FastAlloc.Threads.Contents — what `ccalloc` and `crealloc` do to the bytes of
the heap.
-/
import FastAlloc.Threads.Live

namespace FastAlloc

open Lib Mem View

section

variable {pf : Platform} {strict : Bool} {w w' : World} {v v' : View} {a i n num p ptr q size : Nat}
  {u : Usage} {t : Tid} {client : Client}

/-! ## The whole calls -/

/-- The overflow check is exact. -/
theorem calloc_overflow_iff : (num ≠ 0 ∧ size > (2 ^ 64 - 1) / num) ↔ 2 ^ 64 ≤ num * size := by
  rcases Nat.eq_zero_or_pos num with rfl | hpos
  · simp
  · rw [gt_iff_lt, Nat.div_lt_iff_lt_mul hpos, Nat.mul_comm size num]
    omega

namespace WorldInv

variable (h : WorldInv pf strict w v)
include h

/-- `ccalloc` hands out a block of zeros. -/
theorem ccalloc_spec (hpc : w.pc t = none) (hsize : pf.NonWrapping (num * size)) :
    Spec (Allowed strict) (onStore Watch.none.Ok) (ccalloc pf t num size) w.state fun q s' =>
      ∃ w' v', w'.state = s' ∧ HandsOut pf strict w v t .calloc (num * size) q w' v' := by
  have hlt : num * size < 2 ^ 64 := Nat.lt_of_le_of_lt hsize (Nat.sub_lt (by decide) pf.pageSize_pos)
  have hover : ¬ (num ≠ 0 ∧ size > (2 ^ 64 - 1) / num) := fun hc =>
    absurd (calloc_overflow_iff.mp hc) (Nat.not_le.mpr hlt)
  have hreq : ∀ n ∈ (Call.calloc num size).request, pf.NonWrapping n := by
    intro n hn
    change n ∈ (if _ then none else _) at hn
    rw [if_neg hover] at hn
    exact Option.some.inj hn ▸ hsize
  have hc : (w.heap v).ClientOk t (num * size) .calloc := trivial
  rw [ccalloc_eq]
  refine h.callRun_opens (.enter hpc trivial hreq) hc ?_
  simp only [enter]
  rw [if_neg hover, Nat.mod_eq_of_lt hlt]
  exact (mallocPart_spec h.heap h.owned hpc hsize hc).mono fun _ _ hp => hp.2

/-- `crealloc` of a block that is too small hands out another one. -/
theorem crealloc_spec (hpc : w.pc t = none) (hb : (w.heap v).IsBlock ptr a u i)
    (hp : w.live ptr = some (t, n)) (hsize : pf.NonWrapping size) (hlt : u.blockSize < size) :
    Spec (Allowed strict) (onStore Watch.none.Ok) (crealloc pf t ptr size) w.state fun q s' =>
      ∃ w' v', w'.state = s' ∧ HandsOut pf strict w v t (.realloc ptr a) size q w' v' := by
  have hne := h.heap.heap.live_ne_null hp
  have hc : (w.heap v).ClientOk t size (.realloc ptr a) :=
    ⟨⟨n, hp⟩, h.owned ptr a u i t n hb hp, u, i, hb, hlt⟩
  have hreq : ∀ n ∈ (Call.realloc ptr size).request, pf.NonWrapping n := fun n hn =>
    Option.some.inj hn ▸ hsize
  obtain ⟨sp, hsp, -, rfl, -⟩ := h.heap.record hb.use
  have hlt' : sp.blockSize < size := hlt
  rw [crealloc_eq]
  refine h.callRun_opens (.enter hpc (.inr ⟨n, hp⟩) hreq) hc ?_
  simp only [enter]
  rw [if_neg hne, if_neg (by omega)]
  refine h.heap.getSpan_bind hb le_rfl
    (Nat.lt_add_of_pos_right (h.heap.heap.sound a _ hb.use).blockSize_pos) ?_
  refine h.heap.shows.load_bind (F := Span.blockSize) hsp ?_
  rw [if_neg (by omega)]
  exact (mallocPart_spec h.heap h.owned hpc hsize hc).mono fun _ _ hp => hp.2

/-- `crealloc` of a block that is big enough changes nothing. -/
theorem run_crealloc (hb : (w.heap v).IsBlock q a u i) (h₁ : q ≤ ptr) (h₂ : ptr < q + u.blockSize)
    (h0 : 0 < size) (hle : size ≤ u.blockSize) :
    (crealloc pf t ptr size).run w.state = ⟨.ok ptr, w.state, []⟩ := by
  have hne : ptr ≠ NULL := by
    refine ne_null_of_le ?_ h₁
    rw [hb.eq]
    exact (h.heap.heap.sound a u hb.use).block_ne_null
  obtain ⟨sp, hsp, -, rfl, -⟩ := h.heap.record hb.use
  have hload : (load a fun m => (m.span a).blockSize).run w.state = ⟨.ok sp.blockSize, w.state, []⟩ := by
    rw [run_load (h.heap.shows.valid_span hsp), h.heap.shows.record_eq hsp]
  unfold crealloc
  rw [if_neg hne, if_neg (Nat.pos_iff_ne_zero.mp h0)]
  refine Program.run_bind_read (h.heap.run_getSpan hb h₁ h₂) (Program.run_bind_read hload ?_)
  rw [if_pos (show sp.blockSize ≥ size from hle)]
  rfl

end WorldInv

/-! ## The contents law -/

/-- The blocks that are live and not `ptr` stay live, and keep their bytes. -/
def World.KeepsOthers (pf : Platform) (w : World) (ptr : Nat) (w' : World) : Prop :=
  ∀ p a, w.live p ≠ none → p ≠ ptr → ((cmallocGetSpan pf p).run w.state).result = .ok a →
    w'.live p = w.live p ∧
      ∀ b < (w.state.mem.span a).blockSize, w'.state.bytes (p + b) = w.state.bytes (p + b)

/-- A call ended in the world `w'` and handed the block `q` to thread `t`; the
block `ptr` is gone, unless it is NULL. -/
structure HandsBlock (pf : Platform) (w : World) (t : Tid) (ptr size : Nat)
    (out : Outcome State Event Fault Nat) (q : Nat) (w' : World) : Prop where
  returns : out.result = .ok q
  state : w'.state = out.state
  run : Run (Step pf) pf.GoodLabel w w'
  fresh : w.live q = none
  live : w'.live q = some (t, size)
  block : ∃ a, BlockAt pf w'.state q size a
  gone : ptr ≠ NULL → w'.live ptr = none
  others : w.KeepsOthers pf ptr w'

theorem Ran.keepsOthers (h : WorldInv pf strict w v) (hran : Ran pf strict w v t w' v')
    (hlive : ∀ p, w.live p ≠ none → p ≠ ptr → w'.live p = w.live p) : w.KeepsOthers pf ptr w' := by
  intro p a hp hne hget
  obtain ⟨⟨t', n'⟩, hx⟩ := Option.ne_none_iff_exists'.mp hp
  obtain ⟨b, sp, i, hsp, -, -, hb, -⟩ := h.live_record hx
  rw [h.run_getSpan_live hb] at hget
  cases hget
  rw [h.heap.shows.record_eq hsp]
  have hsame := hlive p hp hne
  have hp' : w'.live p ≠ none := fun hn => hp (hsame.symm.trans hn)
  exact ⟨hsame, (hran.keeps p a _ i hb hp hp').2⟩

theorem HandsOut.handsBlock {out : Outcome State Event Fault Nat} (h : WorldInv pf strict w v)
    (ho : HandsOut pf strict w v t client size q w' v') (hptr : client.pointer.getD NULL = ptr)
    (hr : out.result = .ok q) (hs : w'.state = out.state)
    (hne : ∀ p ∈ client.pointer, w.live p ≠ none) : HandsBlock pf w t ptr size out q w' := by
  have hself : w'.live q = some (t, size) := by
    rw [ho.live]
    exact if_pos rfl
  have hother : ∀ p, p ≠ q → w'.live p = if client.pointer = some p then none else w.live p := by
    intro p hpq
    rw [ho.live]
    exact if_neg hpq
  refine ⟨hr, hs, ho.ran.run, ho.fresh, hself, ho.ran.inv.blockAt hself, fun h0 => ?_,
    ho.ran.keepsOthers h fun p hp hpp => ?_⟩
  · rcases hc : client.pointer with _ | x
    · rw [hc] at hptr
      exact absurd hptr.symm h0
    · obtain rfl : x = ptr := by
        rw [hc] at hptr
        exact hptr
      have hxq : x ≠ q := fun he => hne x hc (he ▸ ho.fresh)
      rw [hother x hxq, if_pos hc]
  · have hpq : p ≠ q := fun he => hp (he ▸ ho.fresh)
    rw [hother p hpq, if_neg fun hc => hpp ?_]
    rw [hc] at hptr
    exact hptr

/-- The contents law of a thread that is in no call. -/
structure World.ContentsOk (pf : Platform) (w : World) (t : Tid) : Prop where
  malloc : ∀ size, pf.NonWrapping size →
    (∀ e ∈ ((cmalloc pf t size).run w.state).trace, e.Mapped) →
    ∃ q w', HandsBlock pf w t NULL size ((cmalloc pf t size).run w.state) q w'
  calloc_null : ∀ num size, 2 ^ 64 ≤ num * size →
    (ccalloc pf t num size).run w.state = ⟨.ok NULL, w.state, []⟩
  calloc : ∀ num size, pf.NonWrapping (num * size) →
    (∀ e ∈ ((ccalloc pf t num size).run w.state).trace, e.Mapped) →
    ∃ q w', HandsBlock pf w t NULL (num * size) ((ccalloc pf t num size).run w.state) q w' ∧
      q ≠ NULL ∧ ∀ b < num * size, w'.state.bytes (q + b) = 0
  realloc_same : ∀ ptr n a size, w.live ptr = some (t, n) →
    ((cmallocGetSpan pf ptr).run w.state).result = .ok a → 0 < size →
    size ≤ (w.state.mem.span a).blockSize →
    (crealloc pf t ptr size).run w.state = ⟨.ok ptr, w.state, []⟩
  realloc_move : ∀ ptr n a size, w.live ptr = some (t, n) →
    ((cmallocGetSpan pf ptr).run w.state).result = .ok a → (w.state.mem.span a).blockSize < size →
    pf.NonWrapping size → (∀ e ∈ ((crealloc pf t ptr size).run w.state).trace, e.Mapped) →
    ∃ q w', HandsBlock pf w t ptr size ((crealloc pf t ptr size).run w.state) q w' ∧
      ∀ b < min (w.state.mem.span a).blockSize size,
        w'.state.bytes (q + b) = w.state.bytes (ptr + b)
  realloc_null : ∀ size, crealloc pf t NULL size = cmalloc pf t size
  realloc_zero : ∀ ptr, ptr ≠ NULL → crealloc pf t ptr 0 = cfree pf t ptr >>= fun _ => pure NULL
  free : ∀ ptr n, w.live ptr = some (t, n) →
    (∀ e ∈ ((cfree pf t ptr).run w.state).trace, e.Mapped) →
    ∃ w', ((cfree pf t ptr).run w.state).result = .ok () ∧
      w'.state = ((cfree pf t ptr).run w.state).state ∧ Run (Step pf) pf.GoodLabel w w' ∧
      w'.live ptr = none ∧ w.KeepsOthers pf ptr w'

/-- The span a live block is looked up in is the one it is in. -/
theorem WorldInv.lookup_record (h : WorldInv pf strict w v) (hp : w.live p = some (t, n))
    (hget : ((cmallocGetSpan pf p).run w.state).result = .ok a) :
    ∃ sp i, v.span a = some sp ∧ (w.heap v).IsBlock p a sp.use i ∧ w.state.mem.span a = sp := by
  obtain ⟨b, sp, i, hsp, -, -, hb, -⟩ := h.live_record hp
  rw [h.run_getSpan_live hb] at hget
  cases hget
  exact ⟨sp, i, hsp, hb, h.heap.shows.record_eq hsp⟩

/-- In every reachable world the contents law holds of every thread. -/
theorem contents_sound (h : Reachable pf w) (hpc : w.pc t = none) : w.ContentsOk pf t := by
  obtain ⟨v, hv⟩ := h.inv
  have hallow : ∀ {tr : List Event}, (∀ e ∈ tr, e.Mapped) → ∀ e ∈ tr, Allowed false e :=
    fun hm e he => allowed_of_mapped (hm e he)
  constructor
  case malloc =>
    intro size hsize hm
    obtain ⟨⟨q, hq, w', v', hs, hout⟩, -⟩ := hv.cmalloc_spec hpc hsize (hallow hm)
    exact ⟨q, w', hout.handsBlock hv rfl hq hs (by simp [Client.pointer])⟩
  case calloc_null =>
    intro num size hover
    rw [ccalloc, if_pos (calloc_overflow_iff.mpr hover)]
    rfl
  case calloc =>
    intro num size hsize hm
    obtain ⟨⟨q, hq, w', v', hs, hout⟩, -⟩ := hv.ccalloc_spec hpc hsize (hallow hm)
    have hblock := hout.handsBlock hv rfl hq hs (by simp [Client.pointer])
    exact ⟨q, w', hblock, hout.ran.inv.heap.heap.live_ne_null hblock.live, hout.fills⟩
  case realloc_same =>
    intro ptr n a size hp hget h0 hle
    obtain ⟨sp, i, -, hb, hrec⟩ := hv.lookup_record hp hget
    rw [hrec] at hle
    exact hv.run_crealloc hb le_rfl
      (Nat.lt_add_of_pos_right (hv.heap.heap.sound a _ hb.use).blockSize_pos) h0 hle
  case realloc_move =>
    intro ptr n a size hp hget hlt hsize hm
    obtain ⟨sp, i, -, hb, hrec⟩ := hv.lookup_record hp hget
    rw [hrec] at hlt ⊢
    obtain ⟨⟨q, hq, w', v', hs, hout⟩, -⟩ := hv.crealloc_spec hpc hb hp hsize hlt (hallow hm)
    have hptr : ∀ p ∈ (Client.realloc ptr a).pointer, w.live p ≠ none := by
      intro p hpp hn
      cases hpp
      exact Option.some_ne_none _ (hp.symm.trans hn)
    refine ⟨q, w', hout.handsBlock hv rfl hq hs hptr, fun b hb' => ?_⟩
    exact hout.fills _ hb.use b (hb'.trans_le (Nat.min_le_left _ _))
  case realloc_null => exact fun size => if_pos rfl
  case realloc_zero =>
    intro ptr h0
    rw [crealloc, if_neg h0, if_pos rfl]
  case free =>
    intro ptr n hp hm
    obtain ⟨⟨_, hq, w', v', hs, hran, -, hlive⟩, -⟩ := hv.cfree_spec hpc hp (hallow hm)
    refine ⟨w', hq, hs, hran.run, ?_, hran.keepsOthers hv fun p _ hpp => ?_⟩
    · rw [hlive, Function.update_self]
    · rw [hlive, Function.update_of_ne hpp]

theorem contents_sound_first : ∃ w : World, w.live (2 ^ 31) = some (0, 16) ∧
    w.ContentsOk .hugePages 0 :=
  have ⟨w, hw, hlive, hpc, _⟩ := Reachable.first
  ⟨w, hlive, contents_sound hw (hpc 0)⟩

end

end FastAlloc
