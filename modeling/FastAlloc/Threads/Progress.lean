/-
FastAlloc.Threads.Progress — every call finishes.

Where no `mmap` fails no part of a call faults, whatever the other threads
stand at, and each part brings its call nearer to its end. So a call takes
four parts at most, the first one included, however the other threads run in
between, and a thread left alone gets to the end of its call.
-/
import FastAlloc.Threads.Direct
import FastAlloc.Threads.Linear

namespace FastAlloc

open Lib Mem View

/-- The parts a call that stands at a `Pc` has left, at most. -/
def Pc.left : Pc → Nat
  | .initSpan _ _ => 3
  | .allocate _ _ _ => 2
  | .cache _ _ => 1

def Reply.left : Reply → Nat
  | .done _ => 0
  | .more pc => pc.left

/-- The parts that the call of thread `t` has left, at most. -/
def World.partsLeft (w : World) (t : Tid) : Nat :=
  match w.pc t with
  | none => 0
  | some pc => pc.left

/-- A stretch of a run in which thread `t` takes `n` parts of its call, the
other threads taking any number of theirs in between. -/
inductive Turns (pf : Platform) (t : Tid) (w : World) : Nat → World → Prop
  | refl : Turns pf t w 0 w
  | own {n : Nat} {w' : World} {pc : Pc} {p : Progress} {s : State} {tr : List Event} :
      Turns pf t w n w' → w'.pc t = some pc → (resume pf t pc).run w'.state = ⟨.ok p, s, tr⟩ →
      pf.GoodLabel ⟨none, tr⟩ → Turns pf t w (n + 1) (w'.after t s p)
  | other {n : Nat} {w' w'' : World} {l : Label} :
      Turns pf t w n w' → Step pf w' l w'' → pf.GoodLabel l → w''.pc t = w'.pc t →
      Turns pf t w n w''

section

variable {pf : Platform} {strict : Bool} {w w' : World} {v v' : View} {H : Heap} {t : Tid} {pc : Pc}
  {p : Progress} {r : Reply} {s s' : State} {n q : Nat}

theorem Pc.left_pos : 0 < pc.left := by
  cases pc with
  | initSpan client size => simp [Pc.left]
  | allocate client size a => simp [Pc.left]
  | cache a q => simp [Pc.left]

theorem Reply.left_le : r.left ≤ 3 := by
  cases r with
  | done q => simp [Reply.left]
  | more pc =>
    cases pc with
    | initSpan client size => simp [Reply.left, Pc.left]
    | allocate client size a => simp [Reply.left, Pc.left]
    | cache a q => simp [Reply.left, Pc.left]

/-- A call whose result is settled has one part left at most. -/
theorem Reply.left_of_returns (h : r.returns = some q) : r.left ≤ 1 := by
  cases r with
  | done x => simp [Reply.left]
  | more pc =>
    cases pc with
    | initSpan client size => cases h
    | allocate client size a => cases h
    | cache a x => simp [Reply.left, Pc.left]

theorem partsLeft_after : (w.after t s p).partsLeft t = p.reply.left := by
  have hpc : (w.after t s p).pc t = p.reply.pc := Function.update_self ..
  rw [World.partsLeft, hpc]
  cases p.reply with
  | done q => rfl
  | more pc => rfl

/-- Each part brings the call nearer to its end. -/
theorem Pc.Goes.left_lt (h : pc.Goes H s s' p) : p.reply.left < pc.left := by
  cases pc with
  | initSpan client size =>
    obtain ⟨a, rfl⟩ := h
    simp [Reply.left, Pc.left]
  | allocate client size a =>
    obtain ⟨q, hh⟩ := h
    have hle := Reply.left_of_returns hh.returns
    change p.reply.left < 2
    omega
  | cache a q =>
    obtain rfl : p = ⟨.done q, none, none⟩ := h
    simp [Reply.left, Pc.left]

/-- What is left of a call, run without interruption. -/
theorem WorldInv.finishes (n : Nat) : ∀ {w : World} {v : View} {r : Reply}, WorldInv pf strict w v →
    w.pc t = r.pc → r.left ≤ n →
    Spec (Allowed strict) (onStore Watch.none.Ok) (finish pf t n r) w.state fun _ s' => ∃ w' v',
      Run (Step pf) pf.GoodLabel w w' ∧ WorldInv pf strict w' v' ∧ w'.state = s' ∧ w'.pc t = none ∧
        ∀ t', t' ≠ t → w'.pc t' = w.pc t' := by
  induction n with
  | zero =>
    intro w v r h hpc hleft
    cases r with
    | done q => exact Spec.pure ⟨w, v, .refl, h, rfl, hpc, fun _ _ => rfl⟩
    | more pc => exact absurd hleft (Nat.not_le.mpr Pc.left_pos)
  | succ n ih =>
    intro w v r h hpc hleft
    cases r with
    | done q => exact Spec.pure ⟨w, v, .refl, h, rfl, hpc, fun _ _ => rfl⟩
    | more pc =>
      refine Spec.bind (h.ran_resume hpc) fun p s hp => ?_
      obtain ⟨hgoes, v₁, hran⟩ := hp
      have hlt : p.reply.left < pc.left := hgoes.left_lt
      have hle : pc.left ≤ n + 1 := hleft
      refine (ih hran.inv (Function.update_self ..) (by omega)).mono fun q s' hq => ?_
      obtain ⟨w', v', hrun, hinv, hs, hidle, hothers⟩ := hq
      exact ⟨w', v', hran.run.trans hrun, hinv, hs, hidle, fun t' ht =>
        (hothers t' ht).trans (hran.others t' ht)⟩

/-- How the calls of thread `t` go on. -/
structure World.ProgressOk (pf : Platform) (w : World) (t : Tid) : Prop where
  /-- no part faults -/
  returns : ∀ o f, NextPart pf w t o f → (∀ e ∈ (f.run w.state).trace, e.Mapped) →
    ∃ p s tr, f.run w.state = ⟨.ok p, s, tr⟩ ∧ p.reply.left ≤ 3 ∧
      (o = none → p.reply.left < w.partsLeft t)
  /-- no other thread holds the call up -/
  bounded : ∀ n w', Turns pf t w n w' → n + w'.partsLeft t ≤ w.partsLeft t
  /-- alone it finishes -/
  alone : ∀ pc, w.pc t = some pc →
    (∀ e ∈ ((finish pf t 3 (.more pc)).run w.state).trace, e.Mapped) →
    ∃ q w', ((finish pf t 3 (.more pc)).run w.state).result = .ok q ∧ Reachable pf w' ∧
      w'.state = ((finish pf t 3 (.more pc)).run w.state).state ∧ w'.pc t = none ∧
      ∀ t', t' ≠ t → w'.pc t' = w.pc t'

theorem Turns.left_le (hw : Reachable pf w) (h : Turns pf t w n w') :
    Reachable pf w' ∧ n + w'.partsLeft t ≤ w.partsLeft t := by
  induction h with
  | refl => exact ⟨hw, (Nat.zero_add _).le⟩
  | @own n w' pc p s tr _ hpc hrun hgood ih =>
    obtain ⟨hw', hle⟩ := ih
    obtain ⟨v, hv⟩ := hw'.inv
    obtain ⟨⟨hgoes, -⟩, -⟩ := (hv.ran_resume hpc).elim hrun fun e he => allowed_of_mapped (hgood.2 e he)
    have hlt := hgoes.left_lt
    have hleft : w'.partsLeft t = pc.left := by rw [World.partsLeft, hpc]
    refine ⟨hw'.run (.tail .refl (.resume hpc hrun) hgood), ?_⟩
    rw [partsLeft_after]
    omega
  | @other n w' w'' l _ hst hgood hpc ih =>
    obtain ⟨hw', hle⟩ := ih
    refine ⟨hw'.run (.tail .refl hst hgood), ?_⟩
    rwa [World.partsLeft, hpc]

/-- In every reachable world every call goes on to its end. -/
theorem progress_sound (h : Reachable pf w) (t : Tid) : w.ProgressOk pf t := by
  obtain ⟨v, hv⟩ := h.inv
  constructor
  case returns =>
    intro o f hf hm
    obtain ⟨⟨p, hp, -⟩, -⟩ := hv.part hf fun e he => allowed_of_mapped (hm e he)
    have hrun := Program.run_of_result hp
    refine ⟨p, _, _, hrun, Reply.left_le, ?_⟩
    rintro rfl
    cases hf with
    | resume hpc =>
      obtain ⟨⟨hgoes, -⟩, -⟩ := (hv.ran_resume hpc).elim hrun fun e he => allowed_of_mapped (hm e he)
      rw [World.partsLeft, hpc]
      exact hgoes.left_lt
  case bounded => exact fun n w' hturns => (hturns.left_le h).2
  case alone =>
    intro pc hpc hm
    obtain ⟨⟨q, hq, w', v', hrun, -, hs, hidle, hothers⟩, -⟩ :=
      hv.finishes 3 hpc Reply.left_le fun e he => allowed_of_mapped (hm e he)
    exact ⟨q, w', hq, h.run hrun, hs, hidle, hothers⟩

/-- A call that waits for the lock. -/
theorem Reachable.asking : ∃ w, Reachable .hugePages w ∧ w.pc 0 = some (.initSpan .malloc 16) := by
  obtain ⟨w, hw, hpc, hs⟩ := Reachable.start .hugePages fun n => 2 ^ 30 * (n + 1)
  have hres : ((enter .hugePages 0 (.malloc 16)).run (.initial fun n => 2 ^ 30 * (n + 1))).result =
      .ok ⟨.more (.initSpan .malloc 16), none, none⟩ := by decide +kernel
  have htrace : (((enter .hugePages 0 (.malloc 16)).run
      (.initial fun n => 2 ^ 30 * (n + 1))).trace.all fun e => decide e.Mapped) = true := by
    decide +kernel
  rw [← hs] at hres htrace
  have hgood : Platform.hugePages.GoodLabel ⟨(Call.malloc 16).request, _⟩ :=
    ⟨fun n hn => Option.some.inj hn ▸ by decide, mapped_of_all htrace⟩
  have hstep : Step .hugePages w ⟨(Call.malloc 16).request, _⟩ _ :=
    .enter (hpc 0) trivial (Program.run_of_result hres)
  exact ⟨_, hw.run (.tail .refl hstep hgood), Function.update_self 0 _ w.pc⟩

theorem progress_sound_asking : ∃ w : World, w.pc 0 = some (.initSpan .malloc 16) ∧
    ∀ t, w.ProgressOk .hugePages t :=
  have ⟨w, hw, hpc⟩ := Reachable.asking
  ⟨w, hpc, progress_sound hw⟩

end

end FastAlloc
