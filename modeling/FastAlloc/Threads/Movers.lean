/-
FastAlloc.Threads.Movers — the unlocked parts of the calls are movers.

Two parts of different threads, not both critical sections, lead to the same
world in either order, user data apart: from a world where both can run
(`PartStep.join`), and when one has run after the other (`PartStep.swap`). Of a
call the part before the critical section moves right then, and the part after
it moves left.
-/
import FastAlloc.Lib.Reduction
import FastAlloc.Threads.Apart

namespace FastAlloc

open Lib Mem View

/-! ## Worlds without user data -/

def State.blank (s : State) : State := { s with bytes := fun _ => 0 }

def World.blank (w : World) : World := { w with state := w.state.blank }

/-- The share of nobody. -/
def Share.empty : Share where
  tid _ := False
  start _ _ := False
  block _ _ := False
  block_start _ _ h := h.elim

/-- One part of a call: where the thread stood, the call it began, what it
reports. -/
structure Part where
  pc : Option Pc
  call : Option Call
  progress : Progress

/-- A thread takes a part in which no `mmap` fails. -/
inductive PartStep (pf : Platform) : World → Tid × Part → World → Prop
  | mk {w : World} {t : Tid} {oc : Option Call} {f : M Progress} {pr : Progress} {s : State}
      {tr : List Event} : NextPart pf w t oc f → f.run w.state = ⟨.ok pr, s, tr⟩ →
      (∀ e ∈ tr, e.Mapped) → PartStep pf w (t, ⟨w.pc t, oc, pr⟩) (w.after t s pr).blank

/-- What a part is to its call. -/
def Part.kind (a : Part) : Kind :=
  match a.pc with
  | none =>
    match a.progress.reply with
    | .done _ => .whole
    | .more _ => .before
  | some (.initSpan _ _) => .commit
  | some (.allocate _ _ _) => .after
  | some (.cache _ _) => .commit

def World.Idle (w : World) (t : Tid) : Prop := w.pc t = none

/-- It has left the critical section of `cmalloc`. -/
def World.Late (w : World) (t : Tid) : Prop := ∃ client size a, w.pc t = some (.allocate client size a)

section

variable {pf : Platform} {w w' w₁ w₂ : World} {v v' v₁ : View} {S : Share} {s s' s₁ s₂ s₁₂ : State}
  {t o : Tid} {a b : Part} {oc oc' : Option Call} {f g : M Progress} {p q : Progress}
  {tr tr₁ tr₂ : List Event} {l l' : List Event} {x : Nat}

theorem blank_eq (hm : S.Mine s s') (ho : S.Others s s') : s'.blank = s.blank := by
  rw [Share.eq_of_sides hm ho]
  rfl

theorem forall₂_mapped (h : List.Forall₂ (fun e e' : Event => e.Mapped ↔ e'.Mapped) l l')
    (hl : ∀ e ∈ l, e.Mapped) : ∀ e ∈ l', e.Mapped := by
  induction h with
  | nil => exact hl
  | cons he _ ih =>
    intro e' hmem
    cases hmem with
    | head => exact he.mp (hl _ (.head _))
    | tail _ hmem => exact ih (fun e hx => hl e (.tail _ hx)) e' hmem

theorem all_allowed (h : ∀ e ∈ tr, e.Mapped) : ∀ e ∈ tr, Allowed false e := fun e he =>
  allowed_of_mapped (h e he)

theorem WorldInv.setBytes (h : WorldInv pf false w v) (bytes : Nat → UInt8) :
    WorldInv pf false { w with state := { w.state with bytes := bytes } } { v with bytes := bytes } :=
  ⟨h.heap.setBytes bytes, h.owned⟩

/-- What a thread may run next depends on where it stands and on its blocks. -/
theorem NextPart.congr (h : NextPart pf w o oc g) (hpc : w'.pc o = w.pc o)
    (hlive : ∀ p n, w.live p = some (o, n) → w'.live p = some (o, n)) : NextPart pf w' o oc g := by
  cases h with
  | enter hidle hperm hreq =>
    rename_i call
    refine .enter (hpc.trans hidle) ?_ hreq
    cases call with
    | malloc size => trivial
    | calloc num size => trivial
    | free ptr => exact hperm.imp_right fun ⟨n, hn⟩ => ⟨n, hlive _ _ hn⟩
    | realloc ptr size => exact hperm.imp_right fun ⟨n, hn⟩ => ⟨n, hlive _ _ hn⟩
  | resume hat => exact .resume (hpc.trans hat)

theorem NextPart.unique (h : NextPart pf w t oc f) (h' : NextPart pf w t oc g) : f = g := by
  cases h with
  | enter _ _ _ =>
    cases h'
    rfl
  | resume hpc =>
    cases h' with
    | resume hpc' =>
      cases hpc.symm.trans hpc'
      rfl

/-! ## User data -/

/-- User data makes no difference to what a part does. -/
theorem WorldInv.run_blank (h : WorldInv pf false w v) (hf : NextPart pf w t oc f)
    (hrun : f.run w.state = ⟨.ok p, s₁, tr⟩) (hm : ∀ e ∈ tr, e.Mapped) (bytes : Nat → UInt8) :
    ∃ s₂ tr₂, f.run { w.state with bytes := bytes } = ⟨.ok p, s₂, tr₂⟩ ∧ s₂.blank = s₁.blank ∧
      ∀ e ∈ tr₂, e.Mapped := by
  have hothers : ∀ S : Share, S.Others w.state { w.state with bytes := bytes } := fun S =>
    ⟨rfl, fun _ => rfl, fun _ _ => rfl, fun _ _ => rfl⟩
  by_cases hl : w.Locked t
  · have hw := h.within_locked (S := .empty) hf hl hrun (all_allowed hm) fun a ⟨_, hc⟩ => hc.elim
    obtain ⟨s₂, tr₂, hrun', hsame, -, htr⟩ := hw.elim (fun a ⟨_, hc⟩ => hc.elim)
      (fun a ⟨_, hc⟩ => hc.elim) (hothers _) hrun
    exact ⟨s₂, tr₂, hrun', blank_eq (S := .empty) ⟨fun a ⟨_, hc⟩ => hc.elim, fun _ hc => hc.elim⟩ hsame,
      forall₂_mapped htr hm⟩
  · have hw := h.within_part hf hl
    have hready := h.heap.ready t
    obtain ⟨s₂, tr₂, hrun', hsame, hrest, htr⟩ := hw.elim hready ((h.heap.setBytes bytes).ready t)
      ⟨fun _ _ => rfl, fun _ _ => rfl⟩ hrun
    have heq := Share.others_equivalence ((w.heap v).share t)
    exact ⟨s₂, tr₂, hrun', blank_eq hsame (heq.trans (heq.symm (hw.rest hready hrun))
      (heq.trans (hothers _) hrest)), forall₂_mapped htr hm⟩

/-! ## Two parts in either order -/

namespace WorldInv

variable (h : WorldInv pf false w v) (hne : o ≠ t) (hf : NextPart pf w t oc f)
include h hne hf

/-- An unlocked part beside a part of another thread. -/
theorem square (hg : NextPart pf w o oc' g) (hl : ¬ w.Locked t)
    (hrun₁ : f.run w.state = ⟨.ok p, s₁, tr₁⟩) (hm₁ : ∀ e ∈ tr₁, e.Mapped)
    (hrun₂ : g.run w.state = ⟨.ok q, s₂, tr₂⟩) (hm₂ : ∀ e ∈ tr₂, e.Mapped) :
    ∃ s₁₂ s₂₁ t₁ t₂, g.run s₁ = ⟨.ok q, s₁₂, t₂⟩ ∧ f.run s₂ = ⟨.ok p, s₂₁, t₁⟩ ∧
      s₂₁.blank = s₁₂.blank ∧ (∀ e ∈ t₁, e.Mapped) ∧ ∀ e ∈ t₂, e.Mapped := by
  have hfw := h.within_part hf hl
  have hothers := hfw.rest (h.heap.ready t) hrun₁
  obtain ⟨ok, hgw, hok, hok₁⟩ : ∃ ok, WithinAt (((w.heap v).share t).foreign ok) g w.state ∧
      ok w.state ∧ ok s₁ := by
    by_cases hlo : w.Locked o
    · refine ⟨_, h.within_locked hg hlo hrun₂ (all_allowed hm₂) fun a ha => (Heap.share_span.mp ha).2,
        h.heap.inMaps t, ?_⟩
      have hmaps : s₁.maps = w.state.maps := by rw [hothers.state]
      intro a ha
      rw [hmaps]
      exact h.heap.inMaps t a ha
    · refine ⟨((w.heap v).share o).Ready pf, (h.within_part hg hlo).widen (fun _ => Iff.rfl) rfl
        (fun s s' hs => hs.mine (fun a => share_apart hne) fun x hx hx' => hne (hx.symm.trans hx'))
        (fun s s' hs => hs.mine (fun a => share_apart hne.symm) fun x hx hx' => hne (hx'.symm.trans hx))
        ?_, h.heap.ready o, h.ready_after hf hrun₁ (all_allowed hm₁) hne⟩
      -- the rest of the first share is the second and what neither has
      intro s s' s₃ s₄ hs h₃ h₄ hmine
      refine ⟨?_, fun a => ?_, fun a ha => ?_, fun x hx => ?_⟩
      · rw [h₄.state, hs.state, h₃.state]
      · rw [h₄.span, hs.span, h₃.span]
      · by_cases hao : ((w.heap v).share o).span a
        · exact Span.eq_of_sides (hmine.span a hao) (by rw [h₄.span, hs.span, h₃.span])
        · rw [h₄.other a hao, hs.other a ha, h₃.other a hao]
      · by_cases hxo : x = o
        · exact hmine.bins x hxo
        · rw [h₄.bins x hxo, hs.bins x hx, h₃.bins x hxo]
  obtain ⟨s₁₂, s₂₁, t₁, t₂, h₁₂, h₂₁, hmine, hrest, ht₁, ht₂⟩ := hfw.swap hgw (fun _ _ hs => hs)
    (fun _ _ hs => hs) (h.heap.ready t) hok hok₁
    (h.ready_after hg hrun₂ (all_allowed hm₂) hne.symm) hrun₁ hrun₂
  exact ⟨s₁₂, s₂₁, t₁, t₂, h₁₂, h₂₁, blank_eq hmine hrest, forall₂_mapped ht₁ hm₁,
    forall₂_mapped ht₂ hm₂⟩

/-- A part that ran after a part of another thread could have run before it. -/
theorem back (hl : ¬ (w.Locked t ∧ w.Locked o)) (hrun₁ : f.run w.state = ⟨.ok p, s₁, tr₁⟩)
    (hm₁ : ∀ e ∈ tr₁, e.Mapped) (hg : NextPart pf (w.after t s₁ p) o oc' g)
    (hrun₂ : g.run s₁ = ⟨.ok q, s₁₂, tr₂⟩) (hm₂ : ∀ e ∈ tr₂, e.Mapped) :
    ∃ s₂ t₂, g.run w.state = ⟨.ok q, s₂, t₂⟩ ∧ ∀ e ∈ t₂, e.Mapped := by
  obtain ⟨v₁, h₁⟩ := h.exists_after hf hrun₁ (all_allowed hm₁)
  have hpc : (w.after t s₁ p).pc o = w.pc o := Function.update_of_ne hne _ _
  have hlock : (w.after t s₁ p).Locked o ↔ w.Locked o := by rw [World.Locked, hpc, World.Locked]
  by_cases hlo : w.Locked o
  · have hlt : ¬ w.Locked t := fun hlt => hl ⟨hlt, hlo⟩
    have hothers := (h.within_part hf hlt).rest (h.heap.ready t) hrun₁
    have hgw := h₁.within_locked (S := (w.heap v).share t) hg (hlock.mpr hlo) hrun₂ (all_allowed hm₂)
      fun a ha => by
        obtain ⟨-, u, hu⟩ := Heap.share_span.mp ha
        obtain ⟨huse, -⟩ := h.heap.use_iff.mp hu
        exact ⟨_, h₁.heap.use_iff.mpr ⟨hothers.inUse_iff.mpr huse, rfl⟩⟩
    have hmaps : s₁.maps = w.state.maps := by rw [hothers.state]
    obtain ⟨s₂, t₂, hrun, -, -, ht₂⟩ := hgw.elim (fun a ha => hmaps.symm ▸ h.heap.inMaps t a ha)
      (h.heap.inMaps t) ((Share.others_equivalence _).symm hothers) hrun₂
    exact ⟨s₂, t₂, hrun, forall₂_mapped ht₂ hm₂⟩
  · have hgw := h₁.within_part hg (hlock.not.mpr hlo)
    rw [(h.agrees hf hrun₁ (all_allowed hm₁) hne h₁).share_eq] at hgw
    obtain ⟨s₂, t₂, hrun, -, -, ht₂⟩ := hgw.elim (h.ready_after hf hrun₁ (all_allowed hm₁) hne)
      (h.heap.ready o) ((Share.mine_equivalence _).symm (h.leaves hf hrun₁ (all_allowed hm₁) hne)) hrun₂
    exact ⟨s₂, t₂, hrun, forall₂_mapped ht₂ hm₂⟩

end WorldInv

/-! ## The worlds they lead to -/

/-- The part hands out or takes back the block `x`. -/
def Progress.Touches (p : Progress) (x : Nat) : Prop := (∃ n, p.gained = some (x, n)) ∨ p.lost = some x

theorem liveAfter_of_not {live : Nat → Option (Tid × Nat)} (hx : ¬ p.Touches x) :
    liveAfter live t p x = live x := by
  unfold liveAfter
  rcases hg : p.gained with _ | ⟨q, n⟩
  · exact if_neg fun hl => hx (.inr hl)
  · dsimp only
    rw [if_neg fun he : x = q => hx (.inl ⟨n, by rw [he]; exact hg⟩), if_neg fun hl => hx (.inr hl)]

theorem liveAfter_of_touches {live live' : Nat → Option (Tid × Nat)} (hx : p.Touches x) :
    liveAfter live t p x = liveAfter live' t p x := by
  unfold liveAfter
  rcases hx with ⟨n, hg⟩ | hl
  · simp [hg]
  · simp [hl]

/-- Parts that touch different blocks. -/
theorem liveAfter_comm {live : Nat → Option (Tid × Nat)} (h : ∀ x, p.Touches x → ¬ q.Touches x) :
    liveAfter (liveAfter live t p) o q = liveAfter (liveAfter live o q) t p := by
  funext x
  by_cases hp : p.Touches x
  · rw [liveAfter_of_not (h x hp), liveAfter_of_touches hp]
  · rw [liveAfter_of_not hp]
    by_cases hq : q.Touches x
    · exact liveAfter_of_touches hq
    · rw [liveAfter_of_not hq, liveAfter_of_not hq, liveAfter_of_not hp]

/-- Two threads touch different blocks. -/
theorem ReportsOwn.apart (h : ReportsOwn w t p) (h' : ReportsOwn w o q)
    (hafter : ReportsOwn (w.after t s₁ p) o q) (hne : o ≠ t) (hp : p.Touches x) : ¬ q.Touches x := by
  have hown : ∀ {m n : Nat}, some (t, m) ≠ some (o, n) := by
    intro m n he
    cases he
    exact hne rfl
  intro hq
  rcases hp with ⟨n, hp⟩ | hp
  · have hlive : (w.after t s₁ p).live x = some (t, n) := by
      change liveAfter w.live t p x = _
      unfold liveAfter
      simp [hp]
    rcases hq with ⟨m, hq⟩ | hq
    · rcases hafter.gained x m hq with hnone | ⟨k, hk⟩
      · exact nomatch hnone.symm.trans hlive
      · exact hown (hlive.symm.trans hk)
    · obtain ⟨k, hk⟩ := hafter.lost x hq
      exact hown (hlive.symm.trans hk)
  · obtain ⟨n, hn⟩ := h.lost x hp
    rcases hq with ⟨m, hq⟩ | hq
    · rcases h'.gained x m hq with hnone | ⟨k, hk⟩
      · exact nomatch hnone.symm.trans hn
      · exact hown (hn.symm.trans hk)
    · obtain ⟨k, hk⟩ := h'.lost x hq
      exact hown (hn.symm.trans hk)

/-- The worlds after two parts, in either order. -/
theorem after_comm (hne : o ≠ t) (htouch : ∀ x, p.Touches x → ¬ q.Touches x)
    (hinit : p.reply.initialized = none ∨ q.reply.initialized = none) (hs : s₁.blank = s₂.blank) :
    ((w.after t s p).blank.after o s₁ q).blank = ((w.after o s' q).blank.after t s₂ p).blank := by
  have hpc : Function.update (Function.update w.pc t p.reply.pc) o q.reply.pc =
      Function.update (Function.update w.pc o q.reply.pc) t p.reply.pc := Function.update_comm hne.symm _ _ _
  have howner : (fun a => if q.reply.initialized = some a then o else
      if p.reply.initialized = some a then t else w.owner a) = fun a =>
      if p.reply.initialized = some a then t else if q.reply.initialized = some a then o else w.owner a := by
    funext a
    rcases hinit with hp | hq
    · simp [hp]
    · simp [hq]
  change World.mk _ _ _ _ = World.mk _ _ _ _
  exact congr (congr (congr (congrArg World.mk hs) hpc) (liveAfter_comm htouch)) howner

/-! ## Parts as steps -/

theorem Part.kind_commit (hat : a.pc = w.pc t) : a.kind = .commit ↔ w.Locked t := by
  unfold kind World.Locked
  rw [hat]
  rcases w.pc t with _ | pc
  · cases a.progress.reply with
    | done q => simp
    | more pc => simp
  · cases pc with
    | initSpan client size => simp [Pc.Locked]
    | allocate client size b => simp [Pc.Locked]
    | cache b q => simp [Pc.Locked]

theorem apart_iff (ha : a.pc = w.pc t) (hb : b.pc = w.pc o) :
    Apart Part.kind (t, a) (o, b) ↔ t ≠ o ∧ ¬ (w.Locked t ∧ w.Locked o) := by
  rw [Apart, Part.kind_commit ha, Part.kind_commit hb]

theorem PartStep.unique (h : PartStep pf w (t, a) w₁) (h' : PartStep pf w (t, b) w₂)
    (hc : a.call = b.call) : a = b ∧ w₁ = w₂ := by
  cases h with
  | mk hf hrun _ =>
    cases h' with
    | mk hg hrun' _ =>
      obtain rfl := hc
      obtain rfl := hf.unique hg
      rw [hrun] at hrun'
      cases hrun'
      exact ⟨rfl, rfl⟩

theorem NextPart.run (hf : NextPart pf w t oc f) (hrun : f.run w.state = ⟨.ok p, s, tr⟩)
    (hm : ∀ e ∈ tr, e.Mapped) : Run (Step pf) pf.GoodLabel w (w.after t s p) := by
  cases hf with
  | enter hpc hperm hreq => exact .tail .refl (.enter hpc hperm hrun) ⟨hreq, hm⟩
  | resume hpc => exact .tail .refl (.resume hpc hrun) ⟨fun _ hn => (nomatch hn), hm⟩

theorem run_setBytes (w : World) (bytes : Nat → UInt8) :
    Run (Step pf) pf.GoodLabel w { w with state := { w.state with bytes := bytes } } :=
  .tail .refl (.write bytes) ⟨fun _ hn => (nomatch hn), fun _ he => nomatch he⟩

theorem PartStep.reachable (hw : Reachable pf w) {x : Tid × Part} (h : PartStep pf w x w') :
    Reachable pf w' := by
  cases h with
  | mk hf hrun hm => exact (hw.run (hf.run hrun hm)).run (run_setBytes _ _)

/-- Parts of two threads that can both run next. -/
theorem PartStep.join (hw : Reachable pf w) (hne : t ≠ o) (hl : ¬ (w.Locked t ∧ w.Locked o))
    (h₁ : PartStep pf w (t, a) w₁) (h₂ : PartStep pf w (o, b) w₂) :
    ∃ w', PartStep pf w₁ (o, b) w' ∧ PartStep pf w₂ (t, a) w' := by
  obtain ⟨v, h⟩ := hw.inv
  cases h₁ with
  | @mk _ oc f p s₁ tr₁ hf hrun₁ hm₁ =>
  cases h₂ with
  | @mk _ oc' g q s₂ tr₂ hg hrun₂ hm₂ =>
  obtain ⟨s₁₂, s₂₁, t₁, t₂, hrun₁₂, hrun₂₁, hblank, hm₂₁, hm₁₂⟩ : ∃ s₁₂ s₂₁ t₁ t₂,
      g.run s₁ = ⟨.ok q, s₁₂, t₂⟩ ∧ f.run s₂ = ⟨.ok p, s₂₁, t₁⟩ ∧
      s₂₁.blank = s₁₂.blank ∧ (∀ e ∈ t₁, e.Mapped) ∧ ∀ e ∈ t₂, e.Mapped := by
    by_cases hlt : w.Locked t
    · obtain ⟨s₂₁, s₁₂, t₂, t₁, h₁, h₂, hs, hm, hm'⟩ :=
        h.square hne hg hf (fun hlo => hl ⟨hlt, hlo⟩) hrun₂ hm₂ hrun₁ hm₁
      exact ⟨s₁₂, s₂₁, t₁, t₂, h₂, h₁, hs.symm, hm', hm⟩
    · exact h.square hne.symm hf hg hlt hrun₁ hm₁ hrun₂ hm₂
  obtain ⟨v₁, h₁⟩ := h.exists_after hf hrun₁ (all_allowed hm₁)
  obtain ⟨v₂, h₂⟩ := h.exists_after hg hrun₂ (all_allowed hm₂)
  have hr₁ := h.reports hf hrun₁ (all_allowed hm₁)
  have hr₂ := h.reports hg hrun₂ (all_allowed hm₂)
  have hpc₁ : (w.after t s₁ p).pc o = w.pc o := Function.update_of_ne hne.symm _ _
  have hpc₂ : (w.after o s₂ q).pc t = w.pc t := Function.update_of_ne hne _ _
  have hg₁ : NextPart pf (w.after t s₁ p) o oc' g :=
    hg.congr hpc₁ fun x n hx => (hr₁.live hne.symm).mpr hx
  have hf₂ : NextPart pf (w.after o s₂ q) t oc f := hf.congr hpc₂ fun x n hx => (hr₂.live hne).mpr hx
  obtain ⟨x₁, u₁, hx₁, hs₁, hu₁⟩ := h₁.run_blank hg₁ hrun₁₂ hm₁₂ fun _ => 0
  obtain ⟨x₂, u₂, hx₂, hs₂, hu₂⟩ := h₂.run_blank hf₂ hrun₂₁ hm₂₁ fun _ => 0
  have hstep₁ : PartStep pf (w.after t s₁ p).blank (o, ⟨(w.after t s₁ p).pc o, oc', q⟩) _ :=
    .mk (hg₁.congr rfl fun _ _ hx => hx) hx₁ hu₁
  have hstep₂ : PartStep pf (w.after o s₂ q).blank (t, ⟨(w.after o s₂ q).pc t, oc, p⟩) _ :=
    .mk (hf₂.congr rfl fun _ _ hx => hx) hx₂ hu₂
  rw [hpc₁] at hstep₁
  rw [hpc₂] at hstep₂
  have hr₁₂ := h₁.reports hg₁ hrun₁₂ (all_allowed hm₁₂)
  have hinit : p.reply.initialized = none ∨ q.reply.initialized = none := by
    by_cases hlt : w.Locked t
    · exact .inr (hr₂.initialized fun hlo => hl ⟨hlt, hlo⟩)
    · exact .inl (hr₁.initialized hlt)
  have hworld : ((w.after t s₁ p).blank.after o x₁ q).blank = ((w.after o s₂ q).blank.after t x₂ p).blank :=
    after_comm hne.symm (fun x hx => hr₁.apart hr₂ hr₁₂ hne.symm hx) hinit
      (hs₁.trans (hblank.symm.trans hs₂.symm))
  exact ⟨_, hworld ▸ hstep₁, hstep₂⟩

/-- Parts of two threads that ran one after the other. -/
theorem PartStep.swap (hw : Reachable pf w) (hne : t ≠ o) (hl : ¬ (w.Locked t ∧ w.Locked o))
    (h₁ : PartStep pf w (t, a) w₁) (h₂ : PartStep pf w₁ (o, b) w₂) :
    ∃ w', PartStep pf w (o, b) w' ∧ PartStep pf w' (t, a) w₂ := by
  obtain ⟨v, h⟩ := hw.inv
  have hstep₁ := h₁
  have hstep₂ := h₂
  cases h₁ with
  | @mk _ oc f p s₁ tr₁ hf hrun₁ hm₁ =>
  cases h₂ with
  | @mk _ oc' g q s₂ tr₂ hg hrun₂ hm₂ =>
  obtain ⟨v₁, h₁⟩ := h.exists_after hf hrun₁ (all_allowed hm₁)
  have hg₁ : NextPart pf (w.after t s₁ p) o oc' g := hg.congr rfl fun _ _ hx => hx
  have hpc : (w.after t s₁ p).blank.pc o = w.pc o := Function.update_of_ne hne.symm _ _
  obtain ⟨x₁, u₁, hx₁, -, hu₁⟩ := WorldInv.run_blank (h₁.setBytes fun _ => 0) hg hrun₂ hm₂ s₁.bytes
  obtain ⟨s₃, t₃, hrun₃, hm₃⟩ := h.back hne.symm hf hl hrun₁ hm₁ hg₁ hx₁ hu₁
  have hgw : NextPart pf w o oc' g := hg₁.congr hpc.symm fun x n hx =>
    ((h.reports hf hrun₁ (all_allowed hm₁)).live hne.symm).mp hx
  have hstep₃ : PartStep pf w (o, ⟨w.pc o, oc', q⟩) _ := .mk hgw hrun₃ hm₃
  rw [hpc] at hstep₂ ⊢
  obtain ⟨w', hw₁, hw₂⟩ := PartStep.join hw hne hl hstep₁ hstep₃
  obtain ⟨-, rfl⟩ := hstep₂.unique hw₁ rfl
  exact ⟨_, hstep₃, hw₂⟩

/-- In every reachable world the next parts of two threads, one of them
outside the lock, can run in either order, and lead to the same world. -/
theorem parts_commute (hw : Reachable pf w) (hne : t ≠ o) (hl : ¬ (w.Locked t ∧ w.Locked o))
    (h₁ : PartStep pf w (t, a) w₁) :
    (∀ b w₂, PartStep pf w (o, b) w₂ → ∃ w', PartStep pf w₁ (o, b) w' ∧ PartStep pf w₂ (t, a) w') ∧
    ∀ b w₂, PartStep pf w₁ (o, b) w₂ → ∃ w', PartStep pf w (o, b) w' ∧ PartStep pf w' (t, a) w₂ :=
  ⟨fun _ _ h₂ => PartStep.join hw hne hl h₁ h₂, fun _ _ h₂ => PartStep.swap hw hne hl h₁ h₂⟩

/-- Two threads begin a `cmalloc` with no span in their bins. -/
theorem parts_commute_empty : ∃ (w₁ w₂ w' : World) (a b : Part),
    a.progress.reply = .more (.initSpan .malloc 16) ∧ b.progress.reply = .more (.initSpan .calloc 96) ∧
    PartStep .hugePages (.initial fun n => 2 ^ 30 * (n + 1)) (0, a) w₁ ∧ PartStep .hugePages w₁ (1, b) w' ∧
    PartStep .hugePages (.initial fun n => 2 ^ 30 * (n + 1)) (1, b) w₂ ∧
    PartStep .hugePages w₂ (0, a) w' := by
  have hidle : ∀ t, (World.initial fun n => 2 ^ 30 * (n + 1)).pc t = none := fun _ => rfl
  have hw : Reachable .hugePages (.initial fun n => 2 ^ 30 * (n + 1)) := ⟨_, .refl⟩
  have h₁ : PartStep .hugePages (.initial fun n => 2 ^ 30 * (n + 1))
      (0, ⟨none, some (.malloc 16), ⟨.more (.initSpan .malloc 16), none, none⟩⟩) _ :=
    .mk (.enter (hidle 0) trivial (by decide)) rfl fun _ he => nomatch he
  have h₂ : PartStep .hugePages (.initial fun n => 2 ^ 30 * (n + 1))
      (1, ⟨none, some (.calloc 12 8), ⟨.more (.initSpan .calloc 96), none, none⟩⟩) _ :=
    .mk (.enter (hidle 1) trivial (by decide)) rfl fun _ he => nomatch he
  have hl : ¬ ((World.initial fun n => 2 ^ 30 * (n + 1)).Locked 0 ∧
      (World.initial fun n => 2 ^ 30 * (n + 1)).Locked 1) := fun ⟨⟨_, hpc, _⟩, _⟩ => nomatch hpc
  obtain ⟨w', hx, hy⟩ := (parts_commute hw (by decide) hl h₁).1 _ _ h₂
  exact ⟨_, _, w', _, _, rfl, rfl, h₁, hx, h₂, hy⟩

end

end FastAlloc
