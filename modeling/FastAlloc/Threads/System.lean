/-
FastAlloc.Threads.System — the allocator over whole runs of any number of
threads.

Every step keeps the invariant, so every reachable world has it. What it
says of the live blocks and of the bins is then read off the heap.
-/
import FastAlloc.Spans.System
import FastAlloc.Threads.Steps

namespace FastAlloc

open Lib Mem View

/-- The heap of a world whose library state has view `v`. -/
def World.heap (w : World) (v : View) : Heap := ⟨v.use, w.owner, w.live, w.pc⟩

/-- What holds between two steps. -/
structure WorldInv (pf : Platform) (strict : Bool) (w : World) (v : View) : Prop where
  heap : HeapInv pf strict .none w.state v (w.heap v)
  owned : (w.heap v).Owned

section

variable {pf : Platform} {strict : Bool} {w w' : World} {v v' : View} {H' : Heap} {t : Tid}
  {p : Progress} {s : State} {l : Label}

/-- At the start nothing is in use. -/
theorem View.use_empty : View.empty.use = fun _ => none := rfl

theorem WorldInv.initial (pf : Platform) (strict : Bool) (proposals : Nat → Nat) :
    WorldInv pf strict (.initial proposals) .empty := by
  have hempty : ∀ a u, ((World.initial proposals).heap .empty).use a ≠ some u := by
    intro a u ha
    cases ha
  have hblock : ∀ p a u i, ¬ ((World.initial proposals).heap .empty).IsBlock p a u i :=
    fun p a u i hb => hempty a u hb.use
  refine ⟨⟨.initial pf strict proposals, ⟨.empty pf, ?_⟩, rfl, ?_, ?_⟩, ?_⟩
  · intro a sp ha
    cases ha
  · constructor
    case sound => exact fun a u ha => absurd ha (hempty a u)
    case apart => exact fun a b u w ha => absurd ha (hempty a u)
    case place =>
      intro p x hx
      cases hx
    case out => exact fun p a u i hb => absurd hb (hblock p a u i)
    case fits => exact fun p a u i t n hb => absurd hb (hblock p a u i)
    case full => exact fun a u ha => absurd ha (hempty a u)
    case pcs =>
      intro t pc hpc
      cases hpc
  · refine ⟨fun i => .nil fun a ha => ?_, fun a i ha => ?_⟩
    · cases ha
    · cases ha
  · exact fun p a u i t n hb => absurd hb (hblock p a u i)

/-- A part of a call leads to the world it reports. -/
theorem Advances.heap_eq (h : Advances pf strict .none (w.heap v) t w.state p s v' H') :
    (w.after t s p).heap v' = H' := by
  obtain ⟨use, owner, live, pc⟩ := H'
  have huse : v'.use = use := h.inv.use
  have hlive : live = liveAfter w.live t p := h.progressed.live
  have hpc : pc = Function.update w.pc t p.reply.pc := h.progressed.pc
  have howner : owner = fun a => if p.reply.initialized = some a then t else w.owner a :=
    funext h.progressed.owner
  rw [World.heap, huse, hlive, hpc, howner]
  rfl

theorem Advances.world (h : Advances pf strict .none (w.heap v) t w.state p s v' H') :
    WorldInv pf strict (w.after t s p) v' :=
  ⟨h.heap_eq.symm ▸ h.inv, h.heap_eq.symm ▸ h.owned⟩

/-- A part of a call that thread `t` may run next, with the call it begins. -/
inductive NextPart (pf : Platform) (w : World) (t : Tid) : Option Call → M Progress → Prop
  | enter {call : Call} : w.pc t = none → call.Permitted w t →
      (∀ n ∈ call.request, pf.NonWrapping n) → NextPart pf w t (some call) (enter pf t call)
  | resume {pc : Pc} : w.pc t = some pc → NextPart pf w t none (resume pf t pc)

namespace WorldInv

/-- What a part of a call does to a world. -/
theorem part {o : Option Call} {f : M Progress} (h : WorldInv pf strict w v)
    (hf : NextPart pf w t o f) :
    Spec (Allowed strict) (onStore Watch.none.Ok) f w.state fun p s =>
      (∃ v' H', Advances pf strict .none (w.heap v) t w.state p s v' H') ∧
        ∀ q n, p.gained = some (q, n) → w.live q = none ∨ o = some (.realloc q n) := by
  cases hf with
  | enter hpc hperm hreq =>
    refine (enter_spec h.heap h.owned hpc hreq rfl hperm).mono fun p s hp => ?_
    exact ⟨hp.1, fun q n hg => (hp.2 q n hg).imp_right (congrArg some)⟩
  | resume hpc =>
    refine (resume_spec h.heap h.owned hpc fun _ hk => hk.elim).mono fun p s hp => ?_
    exact ⟨hp.1, fun q n hg => .inl (hp.2.fresh hg)⟩

/-- Every step keeps the invariant. -/
theorem step (h : WorldInv pf strict w v) (hst : Step pf w l w')
    (hreq : ∀ n ∈ l.request, pf.NonWrapping n) (hA : ∀ e ∈ l.trace, Allowed strict e) :
    ∃ v', WorldInv pf strict w' v' := by
  cases hst with
  | enter hpc hperm hrun =>
    obtain ⟨⟨⟨v', H', hadv⟩, -⟩, -⟩ := (h.part (.enter hpc hperm hreq)).elim hrun hA
    exact ⟨v', hadv.world⟩
  | resume hpc hrun =>
    obtain ⟨⟨⟨v', H', hadv⟩, -⟩, -⟩ := (h.part (.resume hpc)).elim hrun hA
    exact ⟨v', hadv.world⟩
  | write bytes => exact ⟨_, h.heap.setBytes bytes, h.owned⟩

/-- So does every run. -/
theorem run {w₀ : World} {v₀ : View} (h : WorldInv pf false w₀ v₀)
    (hrun : Run (Step pf) pf.GoodLabel w₀ w) : ∃ v, WorldInv pf false w v :=
  hrun.invariant (P := fun w => ∃ v, WorldInv pf false w v) ⟨v₀, h⟩
    fun _ _ _ ⟨_, hv⟩ hst hg => hv.step hst hg.1 fun e he => allowed_of_mapped (hg.2 e he)

end WorldInv

theorem Reachable.inv (h : Reachable pf w) : ∃ v, WorldInv pf false w v := by
  obtain ⟨proposals, hrun⟩ := h
  exact (WorldInv.initial pf false proposals).run hrun

theorem Reachable.run (h : Reachable pf w) (hrun : Run (Step pf) pf.GoodLabel w w') :
    Reachable pf w' := by
  obtain ⟨proposals, h⟩ := h
  exact ⟨proposals, h.trans hrun⟩

end

end FastAlloc
