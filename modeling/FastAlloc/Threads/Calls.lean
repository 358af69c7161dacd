/-
FastAlloc.Threads.Calls — whole calls, run without interruption.

`cmalloc`, `cfree`, `ccalloc` and `crealloc` are the parts of a call, one
after the other (`callRun`), so a whole call is a run of steps of one thread.
`Ran` is what such a run leaves of the rest of the world.
-/
import FastAlloc.Threads.System

namespace FastAlloc

open Lib

/-! ## A call as its parts -/

section

variable (pf : Platform) (t : Tid)

/-- Run what is left of a call, in `n` parts at most. -/
def finish : Nat → Reply → M Nat
  | _, .done q => pure q
  | 0, .more _ => pure NULL
  | n + 1, .more pc => do
    let p ← resume pf t pc
    finish n p.reply

/-- A call, part by part; none has more than four parts. -/
def callRun (call : Call) : M Nat := do
  let p ← enter pf t call
  finish pf t 3 p.reply

end

section

variable {pf : Platform} {t : Tid} {client : Client} {n num p ptr q size : Nat}
  {gained : Option (Nat × Nat)}

@[simp] theorem finish_done : finish pf t n (.done q) = pure q := by
  cases n with
  | zero => rfl
  | succ n => rfl

/-- `cfree`, inside a call that returns `q`. -/
theorem freePart_finish (h0 : ptr ≠ NULL) :
    (freePart pf t ptr q gained >>= fun p => finish pf t (n + 1) p.reply) =
      (cfree pf t ptr >>= fun _ => pure q) := by
  unfold freePart cfree
  rw [if_neg h0, bind_assoc, bind_assoc]
  refine bind_congr fun o => ?_
  cases o with
  | none => simp
  | some a => simp [finish, resume]

theorem cfree_eq : (cfree pf t ptr >>= fun _ => pure NULL) = callRun pf t (.free ptr) := by
  simp only [callRun, enter]
  by_cases h0 : ptr = NULL
  · rw [cfree, if_pos h0, if_pos h0]
    simp
  · rw [if_neg h0, freePart_finish h0]

/-- What is left of a `cmalloc` inside a call, once it has its block. -/
def afterMallocRun (pf : Platform) (t : Tid) (client : Client) (size p : Nat) : M Nat := do
  let pr ← afterMalloc pf t client size p
  finish pf t 1 pr.reply

theorem finish_afterMalloc (hc : ∀ ptr ∈ client.pointer, ptr ≠ NULL) : (afterMalloc pf t client size p >>= fun pr => finish pf t (n + 1) pr.reply)
    = afterMallocRun pf t client size p := by
  unfold afterMallocRun afterMalloc
  by_cases h0 : p = NULL
  · simp [h0]
  · rw [if_neg h0]
    cases client with
    | malloc => simp
    | calloc => simp
    | realloc ptr a =>
      dsimp only
      simp only [bind_assoc]
      refine bind_congr fun _ => bind_congr fun _ => ?_
      rw [freePart_finish (hc ptr rfl), freePart_finish (hc ptr rfl)]

/-- A `cmalloc` inside a call, and what its client does then. -/
theorem mallocPart_finish (hc : ∀ ptr ∈ client.pointer, ptr ≠ NULL) :
    (mallocPart pf t client size >>= fun p => finish pf t 3 p.reply) =
      (cmalloc pf t size >>= fun p => afterMallocRun pf t client size p) := by
  unfold mallocPart cmalloc
  rw [bind_assoc, bind_assoc]
  refine bind_congr fun o => ?_
  cases o with
  | some p =>
    rw [finish_afterMalloc hc, pure_bind]
  | none =>
    simp only [pure_bind, bind_assoc]
    rw [finish, resume, bind_assoc]
    refine bind_congr fun a => ?_
    rw [pure_bind, finish, resume, bind_assoc]
    refine bind_congr fun p => ?_
    rw [finish_afterMalloc hc]

theorem cmalloc_eq : cmalloc pf t size = callRun pf t (.malloc size) := by
  simp only [callRun, enter]
  rw [mallocPart_finish (by simp [Client.pointer])]
  refine (bind_pure (cmalloc pf t size)).symm.trans (bind_congr fun p => ?_)
  unfold afterMallocRun afterMalloc
  by_cases h0 : p = NULL
  · simp [h0]
  · simp [h0]

theorem ccalloc_eq : ccalloc pf t num size = callRun pf t (.calloc num size) := by
  simp only [ccalloc, callRun, enter]
  by_cases hover : num ≠ 0 ∧ size > (2 ^ 64 - 1) / num
  · rw [if_pos hover, if_pos hover]
    simp
  · rw [if_neg hover, if_neg hover, mallocPart_finish (by simp [Client.pointer])]
    refine bind_congr fun p => ?_
    unfold afterMallocRun afterMalloc
    by_cases h0 : p = NULL
    · simp [h0]
    · rw [if_neg h0, if_neg h0]
      simp

theorem crealloc_eq : crealloc pf t ptr size = callRun pf t (.realloc ptr size) := by
  simp only [crealloc, callRun, enter]
  by_cases h0 : ptr = NULL
  · rw [if_pos h0, if_pos h0]
    exact cmalloc_eq
  rw [if_neg h0, if_neg h0]
  by_cases hs : size = 0
  · rw [if_pos hs, if_pos hs, freePart_finish h0]
  rw [if_neg hs, if_neg hs, bind_assoc]
  refine bind_congr fun a => ?_
  rw [bind_assoc]
  refine bind_congr fun blockSize => ?_
  by_cases hb : blockSize ≥ size
  · rw [if_pos hb, if_pos hb]
    simp
  have hptr : ∀ q ∈ (Client.realloc ptr a).pointer, q ≠ NULL := fun q hq => Option.some.inj hq ▸ h0
  rw [if_neg hb, if_neg hb, mallocPart_finish hptr]
  refine bind_congr fun p => ?_
  unfold afterMallocRun afterMalloc
  by_cases hp : p = NULL
  · simp [hp]
  rw [if_neg hp, if_neg hp]
  simp only [bind_assoc]
  refine bind_congr fun _ => bind_congr fun _ => ?_
  rw [freePart_finish h0]

end

/-! ## What a whole call leaves -/

/-- A block live before and after is the same block, with the same bytes. -/
def Heap.KeepsBoth (H : Heap) (s : State) (H' : Heap) (s' : State) : Prop :=
  ∀ q a u i, H.IsBlock q a u i → H.live q ≠ none → H'.live q ≠ none →
    (∃ w, H'.IsBlock q a w i ∧ w.blockSize = u.blockSize) ∧
      ∀ b < u.blockSize, s'.bytes (q + b) = s.bytes (q + b)

/-- Thread `t` took `w` to `w'` while the other threads stood still. -/
structure Ran (pf : Platform) (strict : Bool) (w : World) (v : View) (t : Tid) (w' : World)
    (v' : View) : Prop where
  run : Run (Step pf) pf.GoodLabel w w'
  inv : WorldInv pf strict w' v'
  others : ∀ t', t' ≠ t → w'.pc t' = w.pc t'
  keeps : (w.heap v).KeepsBoth w.state (w'.heap v') w'.state

/-- A whole call of thread `t` handed out the block `q`. -/
structure HandsOut (pf : Platform) (strict : Bool) (w : World) (v : View) (t : Tid)
    (client : Client) (size q : Nat) (w' : World) (v' : View) : Prop where
  ran : Ran pf strict w v t w' v'
  idle : w'.pc t = none
  fresh : w.live q = none
  live : w'.live = liveAfter w.live t ⟨.done q, some (q, size), client.pointer⟩
  fills : (w.heap v).Fills q size w.state w'.state client

section

variable {pf : Platform} {strict : Bool} {w w₁ w' : World} {v v₁ v' : View} {H H' : Heap} {t : Tid}
  {call : Call} {client : Client} {o : Option Call} {f : M Progress} {n p q size : Nat} {r : Reply}
  {s s' : State} {I : Event → Prop} {Q : Progress → State → Prop} {pr : Progress}

theorem Heap.KeepsLive.both (h : H.KeepsLive s H' s') : H.KeepsBoth s H' s' := by
  intro q a u i hb hq _
  obtain ⟨x, hx⟩ := Option.ne_none_iff_exists'.mp hq
  exact h q a u i x hb hx

theorem allowed_mapped {e : Event} (h : Allowed strict e) : e.Mapped := by
  cases e with
  | store m => trivial
  | mmapFailed site => exact h
  | lastPop size => trivial

namespace Ran

theorem refl (h : WorldInv pf strict w v) : Ran pf strict w v t w v := by
  refine ⟨.refl, h, fun _ _ => rfl, fun q a u i hb _ _ => ⟨⟨u, hb, rfl⟩, fun _ _ => rfl⟩⟩

/-- Two stretches of a run, when what is live at both ends is live between. -/
theorem trans (h : Ran pf strict w v t w₁ v₁) (h' : Ran pf strict w₁ v₁ t w' v')
    (hmid : ∀ q, w.live q ≠ none → w'.live q ≠ none → w₁.live q ≠ none) :
    Ran pf strict w v t w' v' := by
  refine ⟨h.run.trans h'.run, h'.inv, fun t' ht => (h'.others t' ht).trans (h.others t' ht), ?_⟩
  intro q a u i hb hq hq'
  have hq₁ := hmid q hq hq'
  obtain ⟨⟨x, hx, hsize⟩, hbytes⟩ := h.keeps q a u i hb hq hq₁
  obtain ⟨⟨y, hy, hsize'⟩, hbytes'⟩ := h'.keeps q a x i hx hq₁ hq'
  exact ⟨⟨y, hy, hsize'.trans hsize⟩, fun b hlt =>
    (hbytes' b (hsize.symm ▸ hlt)).trans (hbytes b hlt)⟩

end Ran

namespace WorldInv

variable (h : WorldInv pf strict w v)
include h

/-- One part of a call, with what else is known of it. -/
theorem ran_part (hf : NextPart pf w t o f) (hQ : Spec (Allowed strict) I f w.state Q) :
    Spec (Allowed strict) I f w.state fun p s =>
      Q p s ∧ ∃ v', Ran pf strict w v t (w.after t s p) v' := by
  refine (hQ.and (h.part hf).with_run).mono fun p s hp => ?_
  obtain ⟨hq, ⟨⟨v', H', hadv⟩, -⟩, tr, hrun, hall⟩ := hp
  have hmapped : ∀ e ∈ tr, e.Mapped := fun e he => allowed_mapped (hall e he)
  refine ⟨hq, v', ?_, hadv.world, fun t' ht => Function.update_of_ne ht _ _, ?_⟩
  · cases hf with
    | enter hpc hperm hreq => exact .tail .refl (.enter hpc hperm hrun) ⟨hreq, hmapped⟩
    | resume hpc => exact .tail .refl (.resume hpc hrun) ⟨fun _ hn => (nomatch hn), hmapped⟩
  · rw [hadv.heap_eq]
    exact hadv.keeps.both

/-- A part that goes on from a `Pc`. -/
theorem ran_resume {pc : Pc} (hpc : w.pc t = some pc) :
    Spec (Allowed strict) (onStore Watch.none.Ok) (resume pf t pc) w.state fun p s =>
      pc.Goes (w.heap v) w.state s p ∧ ∃ v', Ran pf strict w v t (w.after t s p) v' :=
  h.ran_part (.resume hpc)
    ((resume_spec h.heap h.owned hpc fun _ hk => hk.elim).mono fun _ _ hp => hp.2)

/-- What is left of a call that knows what it will return. -/
theorem finish_returns (hpc : w.pc t = r.pc) (hr : r.returns = some q) :
    Spec (Allowed strict) (onStore Watch.none.Ok) (finish pf t (n + 1) r) w.state fun x s' =>
      x = q ∧ ∃ w' v', Ran pf strict w v t w' v' ∧ w'.state = s' ∧ w'.pc t = none ∧
        w'.live = w.live := by
  cases r with
  | done x =>
    cases hr
    exact Spec.pure ⟨rfl, w, v, .refl h, rfl, hpc, rfl⟩
  | more pc =>
    cases pc with
    | initSpan client size => cases hr
    | allocate client size a => cases hr
    | cache a x =>
      cases hr
      refine Spec.bind (h.ran_resume hpc) fun p s hp => ?_
      obtain ⟨hgoes, v', hran⟩ := hp
      obtain rfl : p = ⟨.done q, none, none⟩ := hgoes
      rw [finish_done]
      exact Spec.pure ⟨rfl, _, v', hran, rfl, Function.update_self .., rfl⟩

omit h in
theorem hands_finish (hc : (w.heap v).ClientOk t size client)
    (hran : Ran pf strict w v t (w.after t s pr) v₁)
    (hh : (w.heap v).Hands client size w.state s p pr) :
    Spec (Allowed strict) (onStore Watch.none.Ok) (finish pf t (n + 1) pr.reply) s fun x s' =>
      ∃ w' v', w'.state = s' ∧ HandsOut pf strict w v t client size x w' v' := by
  refine (hran.inv.finish_returns (Function.update_self ..) hh.returns).mono fun x s' hx => ?_
  obtain ⟨rfl, w', v', hran', rfl, hidle, hlive⟩ := hx
  have hafter : (w.after t s pr).live = liveAfter w.live t ⟨.done x, some (x, size), client.pointer⟩ := by
    change liveAfter w.live t pr = _
    unfold liveAfter
    rw [hh.gained, hh.lost]
  have hself : (w.after t s pr).live x = some (t, size) := by
    rw [hafter]
    exact if_pos rfl
  -- the block keeps its bytes while the call goes on
  have hbytes : ∀ b < size, w'.state.bytes (x + b) = s.bytes (x + b) := by
    intro b hb
    obtain ⟨a, u, i, hblock, -, -, hle⟩ := hran.inv.heap.heap.live_block hself
    have hne : (w.after t s pr).live x ≠ none := fun hn => Option.some_ne_none _ (hself.symm.trans hn)
    have hne' : w'.live x ≠ none := hlive.symm ▸ hne
    exact (hran'.keeps x a u i hblock hne hne').2 b (hb.trans_le hle)
  refine ⟨w', v', rfl, hran.trans hran' fun q _ hq => hlive ▸ hq, hidle, hh.fresh,
    hlive.trans hafter, ?_⟩
  have hfills := hh.fills
  cases client with
  | malloc => trivial
  | calloc => exact fun b hb => (hbytes b hb).trans (hfills b hb)
  | realloc ptr a =>
    intro u hu b hb
    obtain ⟨-, -, w₀, i, hblock, hlt⟩ := hc
    obtain rfl := Option.some.inj (hu.symm.trans hblock.use)
    exact (hbytes b (hb.trans hlt)).trans (hfills u hu b hb)

omit h in
/-- What a block is filled with does not depend on where its call stood. -/
theorem fills_of_ran (hc : (w.heap v).ClientOk t size client)
    (hran : Ran pf strict w v t w₁ v₁) (hlive : w₁.live = w.live)
    (hf : (w₁.heap v₁).Fills q size w₁.state s' client) :
    (w.heap v).Fills q size w.state s' client := by
  cases client with
  | malloc => trivial
  | calloc => exact hf
  | realloc ptr a =>
    intro u hu b hb
    obtain ⟨⟨n, hn⟩, -, w₀, i, hblock, -⟩ := hc
    obtain rfl := Option.some.inj (hu.symm.trans hblock.use)
    have hptr : w.live ptr ≠ none := fun h0 => nomatch hn.symm.trans h0
    have hptr' : w₁.live ptr ≠ none := hlive.symm ▸ hptr
    obtain ⟨⟨x, hx, hsize⟩, hbytes⟩ := hran.keeps ptr a u i hblock hptr hptr'
    exact (hf x hx.use b (hsize.symm ▸ hb)).trans (hbytes b hb)

/-- A whole call that opens with a `cmalloc`. -/
theorem callRun_opens (hf : NextPart pf w t (some call) (enter pf t call))
    (hc : (w.heap v).ClientOk t size client)
    (hopens : Spec (Allowed strict) (onStore Watch.none.Ok) (enter pf t call) w.state fun pr s =>
      client.Opens (w.heap v) size w.state s pr) :
    Spec (Allowed strict) (onStore Watch.none.Ok) (callRun pf t call) w.state fun q s' =>
      ∃ w' v', w'.state = s' ∧ HandsOut pf strict w v t client size q w' v' := by
  refine Spec.bind (h.ran_part hf hopens) fun pr s hp => ?_
  obtain ⟨ho, v₁, hran⟩ := hp
  rcases ho with ⟨rfl, rfl⟩ | ⟨p, hh⟩
  · -- no block in the bin: a span is initialised first
    refine Spec.bind (hran.inv.ran_resume (Function.update_self ..)) fun pr s hp => ?_
    obtain ⟨⟨a, rfl⟩, v₂, hran₂⟩ := hp
    have hpc : ((w.after t w.state ⟨.more (.initSpan client size), none, none⟩).after t s
      ⟨.more (.allocate client size a), none, none⟩).pc t = some (.allocate client size a) :=
      Function.update_self ..
    have hran' := hran.trans hran₂ fun q hq _ => hq
    refine Spec.bind (hran₂.inv.ran_resume hpc) fun pr s₃ hp => ?_
    obtain ⟨⟨p, hh⟩, v₃, hran₃⟩ := hp
    have hc₂ := (hran₂.inv.heap.heap.pcs t _ hpc).2.1
    refine (hands_finish hc₂ hran₃ hh).mono fun x s' hx => ?_
    obtain ⟨w', v', rfl, hout⟩ := hx
    refine ⟨w', v', rfl, hran'.trans hout.ran fun q hq _ => hq, hout.idle, hout.fresh, hout.live, ?_⟩
    exact fills_of_ran hc hran' rfl hout.fills
  · exact hands_finish hc hran hh

/-- `cmalloc` hands out a block. -/
theorem cmalloc_spec (hpc : w.pc t = none) (hsize : pf.NonWrapping size) :
    Spec (Allowed strict) (onStore Watch.none.Ok) (cmalloc pf t size) w.state fun q s' =>
      ∃ w' v', w'.state = s' ∧ HandsOut pf strict w v t .malloc size q w' v' := by
  rw [cmalloc_eq]
  have hreq : ∀ n ∈ (Call.malloc size).request, pf.NonWrapping n := fun n hn =>
    Option.some.inj hn ▸ hsize
  refine h.callRun_opens (.enter hpc trivial hreq) trivial ?_
  have hc : (w.heap v).ClientOk t size .malloc := trivial
  exact (mallocPart_spec h.heap h.owned hpc hsize hc).mono fun _ _ hp => hp.2

/-- `cfree` of a live block takes it back. -/
theorem cfree_spec (hpc : w.pc t = none) (hp : w.live p = some (t, n)) :
    Spec (Allowed strict) (onStore Watch.none.Ok) (cfree pf t p) w.state fun _ s' =>
      ∃ w' v', w'.state = s' ∧ Ran pf strict w v t w' v' ∧ w'.pc t = none ∧
        w'.live = Function.update w.live p none := by
  have h0 : p ≠ NULL := h.heap.heap.live_ne_null hp
  have hfree : Spec (Allowed strict) (onStore Watch.none.Ok) (enter pf t (.free p)) w.state
      fun pr _ => pr.gained = none ∧ pr.lost = some p ∧ pr.reply.returns = some NULL := by
    simp only [enter]
    rw [if_neg h0]
    exact (freePart_advances h.heap h.owned hpc hp).mono fun _ _ hp => hp.2
  have hcall : Spec (Allowed strict) (onStore Watch.none.Ok) (callRun pf t (.free p)) w.state
      fun _ s' => ∃ w' v', w'.state = s' ∧ Ran pf strict w v t w' v' ∧ w'.pc t = none ∧
        w'.live = Function.update w.live p none := by
    refine Spec.bind (h.ran_part (.enter hpc (.inr ⟨n, hp⟩) fun _ hn => nomatch hn) hfree) ?_
    intro pr s hpr
    obtain ⟨⟨hgained, hlost, hreturns⟩, v₁, hran⟩ := hpr
    have hafter : (w.after t s pr).live = Function.update w.live p none := by
      funext q
      change liveAfter w.live t pr q = _
      rw [liveAfter, hgained, hlost, Function.update_apply]
      simp [eq_comm]
    refine (hran.inv.finish_returns (Function.update_self ..) hreturns).mono fun x s' hx => ?_
    obtain ⟨rfl, w', v', hran', rfl, hidle, hlive⟩ := hx
    exact ⟨w', v', rfl, hran.trans hran' fun q _ hq => hlive ▸ hq, hidle, hlive.trans hafter⟩
  rw [← cfree_eq] at hcall
  exact hcall.of_bind_pure

end WorldInv

/-! ## Whole calls from a reachable world -/

theorem liveAfter_gained {live : Nat → Option (Tid × Nat)} :
    liveAfter live t ⟨r, some (q, size), none⟩ = Function.update live q (some (t, size)) := by
  funext b
  rw [Function.update_apply, liveAfter]
  simp

/-- A whole `cmalloc` that saw no `mmap` fail. -/
theorem Reachable.cmalloc (h : Reachable pf w) (hpc : w.pc t = none) (hsize : pf.NonWrapping size)
    (hm : ∀ e ∈ ((cmalloc pf t size).run w.state).trace, e.Mapped) :
    ∃ q w', ((FastAlloc.cmalloc pf t size).run w.state).result = .ok q ∧ Reachable pf w' ∧
      w'.state = ((FastAlloc.cmalloc pf t size).run w.state).state ∧ w'.pc = w.pc ∧
      w.live q = none ∧ w'.live = Function.update w.live q (some (t, size)) := by
  obtain ⟨v, hv⟩ := h.inv
  obtain ⟨⟨q, hq, w', v', hs, hout⟩, -⟩ := hv.cmalloc_spec hpc hsize fun e he =>
    allowed_of_mapped (hm e he)
  refine ⟨q, w', hq, h.run hout.ran.run, hs, funext fun t' => ?_, hout.fresh,
    hout.live.trans liveAfter_gained⟩
  by_cases ht : t' = t
  · rw [ht, hout.idle, hpc]
  · exact hout.ran.others t' ht

/-- A whole `cfree` of a live block. -/
theorem Reachable.cfree (h : Reachable pf w) (hpc : w.pc t = none) (hp : w.live p = some (t, n))
    (hm : ∀ e ∈ ((cfree pf t p).run w.state).trace, e.Mapped) :
    ∃ w', ((FastAlloc.cfree pf t p).run w.state).result = .ok () ∧ Reachable pf w' ∧
      w'.state = ((FastAlloc.cfree pf t p).run w.state).state ∧ w'.pc = w.pc ∧
      w'.live = Function.update w.live p none := by
  obtain ⟨v, hv⟩ := h.inv
  obtain ⟨⟨_, hq, w', v', hs, hran, hidle, hlive⟩, -⟩ := hv.cfree_spec hpc hp fun e he =>
    allowed_of_mapped (hm e he)
  refine ⟨w', hq, h.run hran.run, hs, funext fun t' => ?_, hlive⟩
  by_cases ht : t' = t
  · rw [ht, hidle, hpc]
  · exact hran.others t' ht

/-- 16 bytes handed out, on 32 MiB pages. -/
theorem Reachable.first : ∃ w, Reachable .hugePages w ∧ w.live (2 ^ 31) = some (0, 16) ∧
    (∀ t, w.pc t = none) ∧ w.state = ((FastAlloc.cmalloc .hugePages 0 16).run
      (.initial fun n => 2 ^ 30 * (n + 1))).state := by
  have hres : ((FastAlloc.cmalloc .hugePages 0 16).run
      (.initial fun n => 2 ^ 30 * (n + 1))).result = .ok (2 ^ 31) := by decide +kernel
  have htrace : (((FastAlloc.cmalloc .hugePages 0 16).run
      (.initial fun n => 2 ^ 30 * (n + 1))).trace.all fun e => decide e.Mapped) = true := by
    decide +kernel
  obtain ⟨q, w, hq, hw, hs, hpc, -, hlive⟩ := Reachable.cmalloc
    (w := .initial fun n => 2 ^ 30 * (n + 1)) ⟨_, .refl⟩ rfl (by decide) (mapped_of_all htrace)
  obtain rfl : q = 2 ^ 31 := Except.ok.inj (hq.symm.trans hres)
  exact ⟨w, hw, by rw [hlive]; exact Function.update_self .., fun t => congrFun hpc t, hs⟩

end

end FastAlloc
