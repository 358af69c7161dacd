/-
FastAlloc.Threads.Atomic — runs as runs of transactions.

With the parts of different threads movers (`movers`), a run from and to a
world in which no thread is inside a call can be reordered: each critical
section comes right after the part before it and right before the part after
it, and no part of another thread stands between them (`transactions_sound`).
User data is left out. A `realloc` that moves its block takes two
transactions, one for each of its critical sections.
-/
import FastAlloc.Threads.Movers
import FastAlloc.Threads.OutOfMemory

namespace FastAlloc

open Lib Mem View

section

variable {pf : Platform} {w w' : World} {v : View} {t o : Tid} {a : Part} {client : Client}
  {size p q b : Nat} {l : List (Tid × Part)}

/-! ## The part after a critical section -/

theorem reports_freeBlock (p b : Nat) : Reports Event.Mapped (freeBlock p b) :=
  .bind reports_store fun _ => .bind reports_load fun _ => .bind reports_store fun _ => reports_store

theorem reports_cfreeUnlocked (t : Tid) (p : Nat) : Reports Event.Mapped (cfreeUnlocked pf t p) :=
  .bind (.bind reports_global fun _ => reports_cmallocGet _ _) fun b => .bind reports_load fun _ =>
    .ite (fun _ => .pure _) fun _ => .bind reports_load fun _ =>
    .bind (.ite (fun _ => reports_binPush _ _ _) fun _ => .pure _) fun _ =>
    .bind (reports_freeBlock p b) fun _ => .bind reports_load fun _ =>
    .ite (fun _ => .bind (reports_binRemove _ _ _) fun _ => .pure _) fun _ => .pure _

theorem reports_freePart (t : Tid) (p q : Nat) (gained : Option (Nat × Nat)) :
    Reports Event.Mapped (freePart pf t p q gained) :=
  .bind (reports_cfreeUnlocked t p) fun o => by
    cases o with
    | none => exact .pure _
    | some b => exact .pure _

theorem reports_afterMalloc (t : Tid) (client : Client) (size p : Nat) :
    Reports Event.Mapped (afterMalloc pf t client size p) := by
  refine .ite (fun _ => .pure _) fun _ => ?_
  cases client with
  | malloc => exact .pure _
  | calloc => exact .bind (.ite (fun _ => reports_setGlobal) fun _ => .pure _) fun _ => .pure _
  | realloc ptr b =>
    exact .bind reports_load fun _ => .bind reports_setGlobal fun _ => reports_freePart t ptr p _

/-- What is left of a `cmalloc` after its critical section runs in every world. -/
theorem WorldInv.allocate_runs (h : WorldInv pf false w v)
    (hpc : w.pc t = some (.allocate client size b)) :
    ∃ pr s tr, (resume pf t (.allocate client size b)).run w.state = ⟨.ok pr, s, tr⟩ ∧
      ∀ e ∈ tr, e.Mapped := by
  have hc := (h.heap.heap.pcs t _ hpc).2.1
  have hspec : Spec (fun _ => True) (onStore Watch.none.Ok) (resume pf t (.allocate client size b))
      w.state fun _ _ => True :=
    (cmallocFromSpan_spec h.heap hpc).bind fun p s ht =>
      (ht.afterMalloc h.heap h.owned hc).mono fun _ _ _ => trivial
  obtain ⟨⟨pr, hpr, -⟩, -⟩ := hspec fun _ _ => trivial
  have hreports : Reports Event.Mapped (resume pf t (.allocate client size b)) :=
    .bind (reports_cmallocFromSpan _ _ _) fun p => reports_afterMalloc t client size p
  cases hrun : (resume pf t (.allocate client size b)).run w.state with
  | mk result s tr =>
    rw [hrun] at hpr
    obtain rfl : result = .ok pr := hpr
    exact ⟨pr, s, tr, rfl, hreports _ _ _ _ hrun trivial⟩

/-! ## Parts in their calls -/

/-- Where the parts of each kind start and end. -/
theorem Part.kind_inv (a : Part) :
    match a.kind with
    | .whole => a.pc = none ∧ ∃ q, a.progress.reply = .done q
    | .before => a.pc = none ∧ ∃ pc, a.progress.reply = .more pc
    | .commit => ∃ pc, a.pc = some pc ∧ pc.Locked
    | .after => ∃ client size b, a.pc = some (.allocate client size b) := by
  obtain ⟨pc, call, reply, gained, lost⟩ := a
  cases pc with
  | none =>
    cases reply with
    | done q => exact ⟨rfl, q, rfl⟩
    | more pc => exact ⟨rfl, pc, rfl⟩
  | some pc =>
    cases pc with
    | initSpan client size => exact ⟨_, rfl, trivial⟩
    | allocate client size b => exact ⟨client, size, b, rfl⟩
    | cache b q => exact ⟨_, rfl, trivial⟩

namespace PartStep

theorem pc_eq (h : PartStep pf w (t, a) w') : a.pc = w.pc t := by
  cases h
  rfl

theorem pc_self (h : PartStep pf w (t, a) w') : w'.pc t = a.progress.reply.pc := by
  cases h
  exact Function.update_self ..

theorem pc_other (h : PartStep pf w (t, a) w') (ho : o ≠ t) : w'.pc o = w.pc o := by
  cases h
  exact Function.update_of_ne ho _ _

/-- Only its critical section leaves a `cmalloc` with a part to go. -/
theorem not_late (hw : Reachable pf w) (h : PartStep pf w (t, a) w') (hl : ¬ w.Locked t) :
    ¬ w'.Late t := by
  intro ⟨client, size, b, hpc⟩
  have hself := h.pc_self.symm.trans hpc
  obtain ⟨v, hv⟩ := hw.inv
  cases h with
  | mk hf hrun hm =>
    have hinit := (hv.reports hf hrun (all_allowed hm)).initialized hl
    rename_i pr _ _
    cases hr : pr.reply with
    | done q => simp [hr, Reply.pc] at hself
    | more pc =>
      rw [hr] at hself hinit
      cases hself
      cases hinit

end PartStep

theorem World.Idle.not_locked (h : w.Idle t) : ¬ w.Locked t := fun ⟨_, hpc, _⟩ =>
  nomatch h.symm.trans hpc

theorem World.Late.not_locked (h : w.Late t) : ¬ w.Locked t := by
  obtain ⟨client, size, b, hpc⟩ := h
  intro ⟨pc, hpc', hl⟩
  cases hpc.symm.trans hpc'
  exact hl

/-- The parts of the calls can be moved past each other. -/
theorem movers : Movers (PartStep pf) (Reachable pf) Part.kind World.Idle World.Late where
  keeps _ _ _ hw h := h.reachable hw
  swap := by
    rintro w ⟨t, a⟩ w₁ ⟨o, b⟩ w₂ hw hap h₁ h₂
    have hb := h₂.pc_eq.trans (h₁.pc_other hap.1.symm)
    obtain ⟨hne, hl⟩ := (apart_iff h₁.pc_eq hb).mp hap
    exact h₁.swap hw hne hl h₂
  join := by
    rintro w ⟨t, a⟩ w₁ ⟨o, b⟩ w₂ hw hap h₁ h₂
    obtain ⟨hne, hl⟩ := (apart_iff h₁.pc_eq h₂.pc_eq).mp hap
    exact PartStep.join hw hne hl h₁ h₂
  other := by
    rintro w ⟨o, a⟩ w' t h hne
    rw [World.Idle, World.Idle, World.Late, World.Late, h.pc_other hne.symm]
    exact ⟨Iff.rfl, Iff.rfl⟩
  apart w t hidle := fun ⟨_, _, _, hpc⟩ => nomatch hidle.symm.trans hpc
  whole w t a w' hw h hk := by
    have hinv := a.kind_inv
    rw [hk] at hinv
    have hidle : w.Idle t := h.pc_eq.symm.trans hinv.1
    exact ⟨hidle, h.not_late hw hidle.not_locked⟩
  before w t a w' hw h hk := by
    have hinv := a.kind_inv
    rw [hk] at hinv
    obtain ⟨hpc, pc, hr⟩ := hinv
    have hidle : w.Idle t := h.pc_eq.symm.trans hpc
    refine ⟨hidle, fun hc => ?_, h.not_late hw hidle.not_locked⟩
    have hself := h.pc_self.symm.trans hc
    rw [hr] at hself
    cases hself
  commit w t a w' hw h hk := fun hl => hl.not_locked ((Part.kind_commit h.pc_eq).mp hk)
  after w t a w' hw h hk := by
    have hinv := a.kind_inv
    rw [hk] at hinv
    obtain ⟨client, size, b, hpc⟩ := hinv
    have hlate : w.Late t := ⟨client, size, b, h.pc_eq.symm.trans hpc⟩
    exact ⟨hlate, h.not_late hw hlate.not_locked⟩
  finish := by
    rintro w t hw ⟨client, size, b, hpc⟩
    obtain ⟨v, hv⟩ := hw.inv
    obtain ⟨pr, s, tr, hrun, hm⟩ := hv.allocate_runs hpc
    exact ⟨⟨w.pc t, none, pr⟩, _, by rw [hpc]; rfl, .mk (.resume hpc) hrun hm⟩
  unique := by
    rintro w t a w₁ b w₂ ⟨client, size, c, hpc⟩ h₁ h₂
    have hcall : ∀ {a : Part} {w' : World}, PartStep pf w (t, a) w' → a.call = none := by
      intro a w' h
      cases h with
      | mk hf _ _ =>
        cases hf with
        | enter hidle _ _ => exact nomatch hidle.symm.trans hpc
        | resume _ => rfl
    exact h₁.unique h₂ ((hcall h₁).trans (hcall h₂).symm)

/-! ## Runs and their parts -/

/-- A run in which no `mmap` fails, with the parts of calls it takes. -/
inductive Parts (pf : Platform) (w : World) : List (Tid × Part) → World → Prop
  | refl : Parts pf w [] w
  | part {l : List (Tid × Part)} {w' : World} {t : Tid} {oc : Option Call} {f : M Progress}
      {pr : Progress} {s : State} {tr : List Event} : Parts pf w l w' → NextPart pf w' t oc f →
      f.run w'.state = ⟨.ok pr, s, tr⟩ → (∀ e ∈ tr, e.Mapped) →
      Parts pf w (l ++ [(t, ⟨w'.pc t, oc, pr⟩)]) (w'.after t s pr)
  | write {l : List (Tid × Part)} {w' : World} (bytes : Nat → UInt8) : Parts pf w l w' →
      Parts pf w l { w' with state := { w'.state with bytes := bytes } }

/-- Every run has its parts. -/
theorem exists_parts (h : Run (Step pf) pf.GoodLabel w w') : ∃ l, Parts pf w l w' := by
  induction h with
  | refl => exact ⟨[], .refl⟩
  | tail _ hst hgood ih =>
    obtain ⟨l, hl⟩ := ih
    cases hst with
    | enter hpc hperm hrun => exact ⟨_, hl.part (.enter hpc hperm hgood.1) hrun hgood.2⟩
    | resume hpc hrun => exact ⟨_, hl.part (.resume hpc) hrun hgood.2⟩
    | write bytes => exact ⟨l, hl.write bytes⟩

theorem Parts.run (h : Parts pf w l w') : Run (Step pf) pf.GoodLabel w w' := by
  induction h with
  | refl => exact .refl
  | part _ hf hrun hm ih => exact ih.trans (hf.run hrun hm)
  | write bytes _ ih => exact ih.trans (run_setBytes _ bytes)

/-- The parts of a run are steps between its worlds, user data apart. -/
theorem Parts.path (h : Parts pf w l w') (hw : Reachable pf w) :
    Path (PartStep pf) w.blank l w'.blank := by
  induction h with
  | refl => exact .nil
  | @part l w₁ t oc f pr s tr hl hf hrun hm ih =>
    obtain ⟨v, hv⟩ := (hw.run hl.run).inv
    obtain ⟨s₂, tr₂, hrun₂, hs₂, hm₂⟩ := hv.run_blank hf hrun hm fun _ => 0
    have hstep : PartStep pf w₁.blank (t, ⟨w₁.pc t, oc, pr⟩) (w₁.blank.after t s₂ pr).blank :=
      .mk (hf.congr rfl fun _ _ hx => hx) hrun₂ hm₂
    have hworld : (w₁.blank.after t s₂ pr).blank = (w₁.after t s pr).blank :=
      congrArg (fun s => World.mk s _ _ _) hs₂
    exact ih.append (.single (hworld ▸ hstep))
  | write bytes _ ih => exact ih

/-- A run from a world where no thread is inside a call to another one has its
parts, and the same parts, each thread's in their order, make a run of
transactions between the two, user data apart. -/
theorem transactions_sound (hw : Reachable pf w) (hidle : ∀ t, w.Idle t)
    (hrun : Run (Step pf) pf.GoodLabel w w') (hidle' : ∀ t, w'.Idle t) :
    (∃ l, Parts pf w l w') ∧ ∀ l, Parts pf w l w' → ∃ l',
      Trace (Transaction (PartStep pf) Part.kind World.Late) w.blank l' w'.blank ∧
      ∀ t, stepsOf t l' = stepsOf t l := by
  refine ⟨exists_parts hrun, fun l hl => ?_⟩
  exact movers.reduction (hw.run (run_setBytes _ _)) hidle (hl.path hw) hidle'

theorem Parts.resume (h : Parts pf w l w') (t : Tid) (pc : Pc) (pr : Progress)
    (hpc : w'.pc t = some pc) (hres : ((resume pf t pc).run w'.state).result = .ok pr)
    (htr : (((resume pf t pc).run w'.state).trace.all fun e => decide e.Mapped) = true) :
    Parts pf w (l ++ [(t, ⟨some pc, none, pr⟩)])
      (w'.after t ((resume pf t pc).run w'.state).state pr) :=
  hpc ▸ h.part (.resume hpc) (Program.run_of_result hres) (mapped_of_all htr)

/-- Two threads, each in a `cmalloc`, take turns. -/
theorem transactions_sound_two : ∃ (w : World) (l l' : List (Tid × Part)),
    l.map Prod.fst = [0, 1, 0, 1, 1, 0] ∧ w.live (2 ^ 31) = some (0, 16) ∧
    w.live (3 * 2 ^ 30) = some (1, 16) ∧
    Parts .hugePages (.initial fun n => 2 ^ 30 * (n + 1)) l w ∧
    Trace (Transaction (PartStep .hugePages) Part.kind World.Late)
      (World.initial fun n => 2 ^ 30 * (n + 1)).blank l' w.blank ∧
    ∀ t, stepsOf t l' = stepsOf t l := by
  have henter : ∀ {w : World} {t : Tid}, w.pc t = none →
      NextPart .hugePages w t (some (.malloc 16)) (enter .hugePages t (.malloc 16)) := fun hpc =>
    .enter hpc trivial (by decide)
  have h₀ : Parts .hugePages (.initial fun n => 2 ^ 30 * (n + 1)) [] _ := .refl
  have h₁ := h₀.part (henter (t := 0) rfl) rfl fun _ he => nomatch he
  have h₂ := h₁.part (henter (t := 1) rfl) rfl fun _ he => nomatch he
  have h₃ := h₂.resume 0 (.initSpan .malloc 16)
    ⟨.more (.allocate .malloc 16 1073774640), none, none⟩ rfl (by decide +kernel) (by decide +kernel)
  have h₄ := h₃.resume 1 (.initSpan .malloc 16)
    ⟨.more (.allocate .malloc 16 1073824448), none, none⟩ rfl (by decide +kernel) (by decide +kernel)
  have h₅ := h₄.resume 1 (.allocate .malloc 16 1073824448)
    ⟨.done (3 * 2 ^ 30), some (3 * 2 ^ 30, 16), none⟩ rfl (by decide +kernel) (by decide +kernel)
  have h₆ := h₅.resume 0 (.allocate .malloc 16 1073774640)
    ⟨.done (2 ^ 31), some (2 ^ 31, 16), none⟩ rfl (by decide +kernel) (by decide +kernel)
  obtain ⟨-, hall⟩ := transactions_sound ⟨_, .refl⟩ (fun _ => rfl) h₆.run fun t => by
    by_cases h0 : t = 0
    · rw [h0]
      rfl
    · by_cases h1 : t = 1
      · rw [h1]
        rfl
      · simp [World.Idle, World.after, World.initial, Function.update_of_ne h0, Function.update_of_ne h1]
  obtain ⟨l', htrace, hsame⟩ := hall _ h₆
  exact ⟨_, _, l', rfl, rfl, rfl, h₆, htrace, hsame⟩

end

end FastAlloc
