/-
FastAlloc.Threads.Links — the thread-local bins of a view: `bin_push`,
`bin_remove`, and the runs that write span records and bins only.

`Tracks s₀ s v` follows such a run from the state `s₀`: `s` has view `v` and
differs from `s₀` only in what `v` says. Two runs that end in the same view
therefore end in the same state.
-/
import FastAlloc.Lib.Lists
import FastAlloc.Spans.System

namespace FastAlloc

open Lib Mem View

namespace View

variable {pf : Platform} {held : Nat → Prop} {v : View} {a b k n : Nat} {sp : Span} {t : Tid}
  {c : Int} {bin : Nat → Option (Tid × Int)}

/-! ## Link fields -/

def nextLink (v : View) (a : Nat) : Nat := (v.record a).nextInSizeClassBin

def prevLink (v : View) (a : Nat) : Nat := (v.record a).prevInSizeClassBin

/-- The view with other link fields and bin heads. -/
def withLinks (v : View) (next prev : Nat → Nat) (bins : Tid → Int → Nat) : View :=
  { v with
    span := fun b => (v.span b).map fun sp =>
      { sp with nextInSizeClassBin := next b, prevInSizeClassBin := prev b }
    localBin := bins }

section

variable {next prev : Nat → Nat} {bins : Tid → Int → Nat}

theorem span_withLinks (ha : v.span a = some sp) : (v.withLinks next prev bins).span a =
    some { sp with nextInSizeClassBin := next a, prevInSizeClassBin := prev a } := by
  simp [withLinks, ha]

theorem span_withLinks_none (ha : v.span a = none) : (v.withLinks next prev bins).span a = none := by
  simp [withLinks, ha]

/-- What does not mention the links is said of the same spans. -/
theorem exists_withLinks_iff {P : Span → Prop}
    (hP : ∀ sp x y, P { sp with nextInSizeClassBin := x, prevInSizeClassBin := y } ↔ P sp) :
    (∃ x, (v.withLinks next prev bins).span a = some x ∧ P x) ↔ ∃ x, v.span a = some x ∧ P x := by
  rcases ha : v.span a with _ | sp
  · rw [span_withLinks_none ha]
  · rw [span_withLinks ha]
    simp [hP]

theorem record_withLinks_eq {β : Type} (F : Span → β)
    (hF : ∀ sp x y, F { sp with nextInSizeClassBin := x, prevInSizeClassBin := y } = F sp) :
    F ((v.withLinks next prev bins).record a) = F (v.record a) := by
  rcases ha : v.span a with _ | sp
  · rw [record, span_withLinks_none ha, record, ha]
  · rw [record_of (span_withLinks ha), record_of ha, hF]

/-- Every record of the relinked view comes from one of the old. -/
theorem forall_withLinks {P : Nat → Span → Prop} (h : ∀ b x, v.span b = some x → P b x)
    (hP : ∀ b sp x y, P b sp → P b { sp with nextInSizeClassBin := x, prevInSizeClassBin := y }) :
    ∀ b x, (v.withLinks next prev bins).span b = some x → P b x := by
  intro b x hx
  rcases hb : v.span b with _ | sp
  · rw [span_withLinks_none hb] at hx
    cases hx
  · rw [span_withLinks hb] at hx
    cases hx
    exact hP b sp _ _ (h b sp hb)

/-- Pages and pool do not see the links. -/
theorem Ok.withLinks (h : v.Ok pf held) : (v.withLinks next prev bins).Ok pf held where
  region_ok := h.region_ok
  region_apart := h.region_apart
  null := span_withLinks_none h.null
  placed := forall_withLinks h.placed fun _ _ _ _ hp => ⟨hp.aligned, hp.pages, hp.chunk, hp.direct⟩
  look k hk a ha := (h.look k hk a ha).trans (exists_withLinks_iff fun _ _ _ => Iff.rfl).symm
  headers := h.headers
  header_region := h.header_region
  region_header := h.region_header
  partitioned r hr hsite := by
    obtain ⟨first, l, hl, ht, hm⟩ := h.partitioned r hr hsite
    refine ⟨first, l, hl.congr (fun b _ => ?_) (fun b _ => ?_), ht.congr (fun b _ => ?_)
      (fun b _ => ?_), fun b => (hm b).trans (exists_withLinks_iff fun _ _ _ => Iff.rfl).symm⟩
    · exact record_withLinks_eq Span.physNext fun _ _ _ => rfl
    · exact record_withLinks_eq Span.physPrev fun _ _ _ => rfl
    · exact record_withLinks_eq Span.base fun _ _ _ => rfl
    · exact record_withLinks_eq (Span.size pf) fun _ _ _ => rfl
  bins n hn := (h.bins n hn).congr
    (fun b _ => record_withLinks_eq Span.nextInUninitializedBin fun _ _ _ => rfl)
    fun b => exists_withLinks_iff fun _ _ _ => Iff.rfl
  bitmap := h.bitmap
  direct := forall_withLinks h.direct fun _ _ _ _ hd => hd
  held_span b hb := by
    obtain ⟨x, hx⟩ := h.held_span b hb
    exact ⟨_, span_withLinks hx⟩

end

/-! ## Bins -/

/-- The thread-local bins: `bin a` is the thread and class whose bin the span
`a` is in. -/
structure Bins (v : View) (bin : Nat → Option (Tid × Int)) : Prop where
  lists : Lists NULL v.nextLink v.prevLink (fun i => v.localBin i.1 i.2) bin
  span : ∀ a i, bin a = some i → ∃ sp, v.span a = some sp

/-- The view after `bin_push`. -/
def binPush (v : View) (t : Tid) (c : Int) (a : Nat) : View :=
  v.withLinks (Function.update v.nextLink a (v.localBin t c))
    (Lists.pushPrev NULL v.prevLink (v.localBin t c) a)
    (Function.update v.localBin t (Function.update (v.localBin t) c a))

/-- The view after `bin_remove`. -/
def binRemove (v : View) (t : Tid) (c : Int) (a : Nat) : View :=
  v.withLinks (Lists.removeNext NULL v.nextLink v.prevLink a)
    (Lists.removePrev NULL v.nextLink v.prevLink a)
    (if v.prevLink a = NULL then
      Function.update v.localBin t (Function.update (v.localBin t) c (v.nextLink a))
    else v.localBin)

/-- One bin head changed, seen as a function of pairs. -/
theorem localBin_update (bins : Tid → Int → Nat) (i j : Tid × Int) :
    Function.update bins i.1 (Function.update (bins i.1) i.2 a) j.1 j.2
      = Function.update (fun i => bins i.1 i.2) i a j := by
  obtain ⟨t, c⟩ := i
  obtain ⟨t', c'⟩ := j
  by_cases ht : t' = t
  · subst ht
    by_cases hc : c' = c
    · subst hc
      simp
    · simp [hc]
  · simp [ht]

/-- Relinked as `next` and `prev` say, the lists are there. -/
theorem Bins.withLinks {next prev : Nat → Nat} {bins : Tid → Int → Nat}
    {bin' : Nat → Option (Tid × Int)}
    (hl : Lists NULL next prev (fun i => bins i.1 i.2) bin')
    (hs : ∀ a i, bin' a = some i → ∃ sp, v.span a = some sp) :
    (v.withLinks next prev bins).Bins bin' := by
  refine ⟨hl.congr (fun a i ha => ?_) (fun _ => rfl) fun _ => rfl, fun a i ha => ?_⟩
  · obtain ⟨sp, hsp⟩ := hs a i ha
    rw [nextLink, prevLink, record_of (span_withLinks hsp)]
    exact ⟨rfl, rfl⟩
  · obtain ⟨sp, hsp⟩ := hs a i ha
    exact ⟨_, span_withLinks hsp⟩

theorem Bins.push (h : v.Bins bin) (ha : v.span a = some sp) (h0 : a ≠ NULL) (hb : bin a = none) :
    (v.binPush t c a).Bins (Function.update bin a (some (t, c))) := by
  refine Bins.withLinks ((h.lists.push (i := (t, c)) h0 hb).congr (fun _ _ _ => ⟨rfl, rfl⟩)
    (fun j => localBin_update v.localBin (t, c) j) fun _ => rfl) fun b i hi => ?_
  by_cases hba : b = a
  · exact ⟨sp, hba ▸ ha⟩
  · rw [Function.update_of_ne hba] at hi
    exact h.span b i hi

theorem Bins.remove (h : v.Bins bin) (hb : bin a = some (t, c)) :
    (v.binRemove t c a).Bins (Function.update bin a none) := by
  refine Bins.withLinks ((h.lists.remove hb).congr (fun _ _ _ => ⟨rfl, rfl⟩) (fun j => ?_)
    fun _ => rfl) fun b i hi => ?_
  · split
    · exact localBin_update v.localBin (t, c) j
    · rw [Function.update_eq_self]
  · by_cases hba : b = a
    · rw [hba, Function.update_self] at hi
      cases hi
    · rw [Function.update_of_ne hba] at hi
      exact h.span b i hi

/-- A new record with the old links leaves the bins as they are. -/
theorem Bins.setSpan {sp' : Span} (h : v.Bins bin) (ha : v.span a = some sp)
    (hn : sp'.nextInSizeClassBin = sp.nextInSizeClassBin)
    (hp : sp'.prevInSizeClassBin = sp.prevInSizeClassBin) : (v.setSpan a sp').Bins bin := by
  refine ⟨h.lists.congr (fun b i hb => ?_) (fun _ => rfl) fun _ => rfl, fun b i hb => ?_⟩
  · exact ⟨record_setSpan_eq Span.nextInSizeClassBin ha hn,
      record_setSpan_eq Span.prevInSizeClassBin ha hp⟩
  · by_cases hba : b = a
    · exact ⟨sp', hba ▸ span_set_self⟩
    · obtain ⟨x, hx⟩ := h.span b i hb
      exact ⟨x, (span_set_of_ne hba).trans hx⟩

end View

/-! ## Runs that write spans only -/

/-- `s` has view `v`, and is `s₀` in all that `v` does not tell of its spans
and thread-local bins. -/
structure Tracks (pf : Platform) (strict : Bool) (W : Watch) (s₀ s : State) (v : View) : Prop where
  shows : Shows pf strict W s v
  state : s = { s₀ with
    mem := { s₀.mem with span := s.mem.span }, threadLocalBin := s.threadLocalBin }
  other : ∀ a, v.span a = none → s.mem.span a = s₀.mem.span a

namespace Tracks

variable {pf : Platform} {strict : Bool} {W : Watch} {s₀ s s' : State} {v v₀ : View} {a : Nat}
  {sp : Span} {α : Type} {A : Event → Prop} {G : Unit → M α} {Q : α → State → Prop}

theorem refl (h : Shows pf strict W s v) : Tracks pf strict W s s v := ⟨h, rfl, fun _ _ => rfl⟩

/-- Two runs from one state that come to one view come to one state. -/
theorem eq (h : Tracks pf strict W s₀ s v) (h' : Tracks pf strict W s₀ s' v₀)
    (hs : v.span = v₀.span) (hb : v.localBin = v₀.localBin) : s = s' := by
  have hspan : s.mem.span = s'.mem.span := by
    funext a
    rcases ha : v.span a with _ | sp
    · rw [h.other a ha, h'.other a (hs ▸ ha)]
    · rw [h.shows.record_eq ha, h'.shows.record_eq (hs ▸ ha)]
  have hbins : s.threadLocalBin = s'.threadLocalBin := by
    rw [h.shows.localBin_eq, h'.shows.localBin_eq, hb]
  rw [h.state, h'.state, hspan, hbins]

theorem bytes_eq (h : Tracks pf strict W s₀ s v) : s.bytes = s₀.bytes := by rw [h.state]

/-- A store to a span record. -/
theorem setSpan (f : Span → Span) (h : Tracks pf strict W s₀ s v) (ha : v.span a = some sp) :
    Tracks pf strict W s₀ (s.setMem (s.mem.setSpan a f)) (v.setSpan a (f sp)) := by
  obtain ⟨st, hs⟩ := h.shows
  refine ⟨⟨st, hs.setSpan f ha⟩, ?_, fun b hb => ?_⟩
  · rw [h.state]
    rfl
  · have hba : b ≠ a := by
      rintro rfl
      rw [span_set_self] at hb
      cases hb
    rw [span_set_of_ne hba] at hb
    exact (span_setSpan_of_ne hba).trans (h.other b hb)

/-- It is one that the watched keys do not see. -/
theorem watch_setSpan (f : Span → Span) (h : Tracks pf strict W s₀ s v) (ha : v.span a = some sp) :
    W.Ok (s.mem.setSpan a f) := by
  obtain ⟨st, hs⟩ := h.shows
  exact (hs.setSpan f ha).watch

theorem storeSpan {f : Span → Span} {Q : Unit → State → Prop} (h : Tracks pf strict W s₀ s v)
    (ha : v.span a = some sp)
    (hQ : ∀ s', Tracks pf strict W s₀ s' (v.setSpan a (f sp)) → Q () s') :
    Spec A (onStore W.Ok) (FastAlloc.storeSpan a f) s Q :=
  Spec.store (h.shows.valid_span ha) (h.watch_setSpan f ha) (hQ _ (h.setSpan f ha))

theorem storeSpan_bind {f : Span → Span} (h : Tracks pf strict W s₀ s v) (ha : v.span a = some sp)
    (hg : ∀ s', Tracks pf strict W s₀ s' (v.setSpan a (f sp)) → Spec A (onStore W.Ok) (G ()) s' Q) :
    Spec A (onStore W.Ok) (FastAlloc.storeSpan a f >>= G) s Q :=
  Spec.bind (Q := fun _ s' => Tracks pf strict W s₀ s' (v.setSpan a (f sp)))
    (h.storeSpan ha fun _ h => h) fun _ s' h => hg s' h

theorem setThreadLocalBin {t : Tid} {c : Int} {Q : Unit → State → Prop}
    (h : Tracks pf strict W s₀ s v)
    (hQ : ∀ s', Tracks pf strict W s₀ s' { v with
      localBin := Function.update v.localBin t (Function.update (v.localBin t) c a) } → Q () s') :
    Spec A (onStore W.Ok) (FastAlloc.setThreadLocalBin t c a) s Q := by
  refine Spec.setGlobal (hQ _ ⟨?_, ?_, h.other⟩)
  · rw [h.shows.localBin_eq]
    exact h.shows.setLocalBin
  · rw [h.state]

end Tracks

section

variable {pf : Platform} {strict : Bool} {W : Watch} {s₀ s : State} {v : View} {a b x : Nat}
  {sp : Span} {t : Tid} {c : Int} {A : Event → Prop} {bin : Nat → Option (Tid × Int)}
  {next prev next' prev' : Nat → Nat} {bins : Tid → Int → Nat}

namespace View

theorem nextLink_of (ha : v.span a = some sp) : v.nextLink a = sp.nextInSizeClassBin := by
  rw [nextLink, record_of ha]

theorem prevLink_of (ha : v.span a = some sp) : v.prevLink a = sp.prevInSizeClassBin := by
  rw [prevLink, record_of ha]

theorem withLinks_congr
    (h : ∀ b sp, v.span b = some sp → next' b = next b ∧ prev' b = prev b) :
    v.withLinks next' prev' bins = v.withLinks next prev bins := by
  have hspan : (v.withLinks next' prev' bins).span = (v.withLinks next prev bins).span := by
    funext b
    rcases hb : v.span b with _ | sp
    · rw [span_withLinks_none hb, span_withLinks_none hb]
    · rw [span_withLinks hb, span_withLinks hb, (h b sp hb).1, (h b sp hb).2]
  exact congrArg (fun span => ({ v with span := span, localBin := bins } : View)) hspan

theorem withLinks_self : v.withLinks v.nextLink v.prevLink v.localBin = v := by
  have hspan : (v.withLinks v.nextLink v.prevLink v.localBin).span = v.span := by
    funext b
    rcases hb : v.span b with _ | sp
    · rw [span_withLinks_none hb]
    · rw [span_withLinks hb, nextLink_of hb, prevLink_of hb]
  exact congrArg (fun span => ({ v with span := span } : View)) hspan

theorem setSpan_withLinks (next prev : Nat → Nat) (ha : v.span a = some sp)
    (hn : ∀ b, b ≠ a → next' b = next b) (hp : ∀ b, b ≠ a → prev' b = prev b) :
    (v.withLinks next prev bins).setSpan a
        { sp with nextInSizeClassBin := next' a, prevInSizeClassBin := prev' a }
      = v.withLinks next' prev' bins := by
  have hspan : Function.update (v.withLinks next prev bins).span a
        (some { sp with nextInSizeClassBin := next' a, prevInSizeClassBin := prev' a })
      = (v.withLinks next' prev' bins).span := by
    funext b
    by_cases hba : b = a
    · rw [hba, Function.update_self, span_withLinks ha]
    · rw [Function.update_of_ne hba]
      rcases hb : v.span b with _ | y
      · rw [span_withLinks_none hb, span_withLinks_none hb]
      · rw [span_withLinks hb, span_withLinks hb, hn b hba, hp b hba]
  rw [View.setSpan, hspan]
  rfl

end View

namespace Tracks

/-- A store to one link field. -/
theorem storeNext (h : Tracks pf strict W s₀ s (v.withLinks next prev bins))
    (ha : v.span a = some sp) :
    Spec A (onStore W.Ok) (FastAlloc.storeSpan a fun sp => { sp with nextInSizeClassBin := x }) s
      fun _ s' => Tracks pf strict W s₀ s' (v.withLinks (Function.update next a x) prev bins) := by
  refine h.storeSpan (span_withLinks ha) fun s' h' => ?_
  rw [← setSpan_withLinks next prev ha
    (fun b hb => Function.update_of_ne hb _ _) fun _ _ => rfl, Function.update_self]
  exact h'

theorem storePrev (h : Tracks pf strict W s₀ s (v.withLinks next prev bins))
    (ha : v.span a = some sp) :
    Spec A (onStore W.Ok) (FastAlloc.storeSpan a fun sp => { sp with prevInSizeClassBin := x }) s
      fun _ s' => Tracks pf strict W s₀ s' (v.withLinks next (Function.update prev a x) bins) := by
  refine h.storeSpan (span_withLinks ha) fun s' h' => ?_
  rw [← setSpan_withLinks next prev ha (fun _ _ => rfl)
    fun b hb => Function.update_of_ne hb _ _, Function.update_self]
  exact h'

theorem update_null (hnull : v.span NULL = none) :
    v.withLinks (Function.update next NULL x) prev bins = v.withLinks next prev bins ∧
      v.withLinks next (Function.update prev NULL x) bins = v.withLinks next prev bins := by
  have hne : ∀ b sp, v.span b = some sp → b ≠ NULL := by
    intro b sp hb he
    rw [he, hnull] at hb
    cases hb
  exact ⟨withLinks_congr fun b sp hb => ⟨Function.update_of_ne (hne b sp hb) _ _, rfl⟩,
    withLinks_congr fun b sp hb => ⟨rfl, Function.update_of_ne (hne b sp hb) _ _⟩⟩

/-- A guarded store: nothing is at NULL. -/
theorem storePrev_ite (h : Tracks pf strict W s₀ s (v.withLinks next prev bins))
    (hnull : v.span NULL = none) (ha : a ≠ NULL → ∃ sp, v.span a = some sp) :
    Spec A (onStore W.Ok) (if a ≠ NULL then
        FastAlloc.storeSpan a (fun sp => { sp with prevInSizeClassBin := x }) else pure ()) s
      fun _ s' => Tracks pf strict W s₀ s' (v.withLinks next (Function.update prev a x) bins) := by
  by_cases h0 : a = NULL
  · rw [if_neg (not_not_intro h0), h0, (update_null hnull).2]
    exact Spec.pure h
  · obtain ⟨sp, hsp⟩ := ha h0
    rw [if_pos h0]
    exact h.storePrev hsp

end Tracks

theorem binPush_spec (h : Tracks pf strict W s₀ s v) (hb : v.Bins bin) (hnull : v.span NULL = none)
    (ha : v.span a = some sp) (hn : bin a = none) :
    Spec A (onStore W.Ok) (binPush t c a) s fun _ s' =>
      Tracks pf strict W s₀ s' (v.binPush t c a) := by
  rw [← v.withLinks_self] at h
  refine Spec.global_bind ?_
  rw [show s.threadLocalBin = v.localBin from h.shows.localBin_eq]
  refine Spec.bind (h.storePrev ha) fun _ s₁ h₁ => Spec.bind (h₁.storeNext ha) fun _ s₂ h₂ => ?_
  have hhead : v.localBin t c ≠ NULL → bin (v.localBin t c) = some (t, c) := fun h0 =>
    hb.lists.head_mem (i := (t, c)) h0
  refine Spec.bind (h₂.storePrev_ite hnull fun h0 => hb.span _ _ (hhead h0)) fun _ s₃ h₃ => ?_
  refine h₃.setThreadLocalBin fun s' h' => ?_
  have hview : v.binPush t c a = v.withLinks (Function.update v.nextLink a (v.localBin t c))
      (Function.update (Function.update v.prevLink a NULL) (v.localBin t c) a)
      (Function.update v.localBin t (Function.update (v.localBin t) c a)) := by
    refine withLinks_congr fun b x hx => ⟨rfl, ?_⟩
    rw [Lists.pushPrev]
    by_cases hba : b = a
    · -- the pushed span is not the old head
      have hne : a ≠ v.localBin t c := by
        intro he
        have h0 : v.localBin t c ≠ NULL := by
          rintro h0
          rw [hba, he, h0, hnull] at hx
          cases hx
        rw [he, hhead h0] at hn
        cases hn
      rw [hba, if_pos rfl, Function.update_of_ne hne, Function.update_self]
    · rw [if_neg hba]
      by_cases hbh : b = v.localBin t c
      · rw [if_pos hbh, hbh, Function.update_self]
      · rw [if_neg hbh, Function.update_of_ne hbh, Function.update_of_ne hba]
  rw [hview]
  exact h'

theorem binRemove_spec {i : Tid × Int} (h : Tracks pf strict W s₀ s v) (hb : v.Bins bin)
    (hnull : v.span NULL = none) (ha : v.span a = some sp) (hn : bin a = some i) :
    Spec A (onStore W.Ok) (binRemove t c a) s fun _ s' =>
      Tracks pf strict W s₀ s' (v.binRemove t c a) := by
  have hlist := hb.lists i
  have hprev : v.prevLink a ≠ NULL → ∃ sp, v.span (v.prevLink a) = some sp := fun h0 =>
    hb.span _ _ (hlist.prev_mem hn h0).1
  have hnext : v.nextLink a ≠ NULL → ∃ sp, v.span (v.nextLink a) = some sp := fun h0 =>
    hb.span _ _ (hlist.next_mem hn h0).1
  refine h.shows.load_bind (F := Span.prevInSizeClassBin) ha ?_
  refine h.shows.load_bind (F := Span.nextInSizeClassBin) ha ?_
  rw [← prevLink_of ha, ← nextLink_of ha]
  rw [← v.withLinks_self] at h
  -- out of the list of its predecessor, or of the head
  refine Spec.bind (Q := fun _ s' => Tracks pf strict W s₀ s'
    (v.withLinks (Function.update v.nextLink (v.prevLink a) (v.nextLink a)) v.prevLink
      (if v.prevLink a = NULL then
        Function.update v.localBin t (Function.update (v.localBin t) c (v.nextLink a))
      else v.localBin))) ?_ fun _ s₁ h₁ => ?_
  · by_cases h0 : v.prevLink a = NULL
    · rw [if_neg (not_not_intro h0), if_pos h0, h0, (Tracks.update_null hnull).1]
      exact h.setThreadLocalBin fun s' h' => h'
    · obtain ⟨x, hx⟩ := hprev h0
      rw [if_pos h0, if_neg h0]
      exact h.storeNext hx
  refine Spec.bind (h₁.storePrev_ite hnull hnext) fun _ s₂ h₂ => ?_
  refine Spec.bind (h₂.storePrev ha) fun _ s₃ h₃ => (h₃.storeNext ha).mono fun _ s' h' => ?_
  have hview : v.binRemove t c a = v.withLinks
      (Function.update (Function.update v.nextLink (v.prevLink a) (v.nextLink a)) a NULL)
      (Function.update (Function.update v.prevLink (v.nextLink a) (v.prevLink a)) a NULL)
      (if v.prevLink a = NULL then
        Function.update v.localBin t (Function.update (v.localBin t) c (v.nextLink a))
      else v.localBin) := by
    refine withLinks_congr fun b x hx => ?_
    rw [Lists.removeNext, Lists.removePrev]
    by_cases hba : b = a
    · rw [hba, if_pos rfl, if_pos rfl, Function.update_self, Function.update_self]
      exact ⟨rfl, rfl⟩
    · rw [if_neg hba, if_neg hba, Function.update_of_ne hba, Function.update_of_ne hba,
        Function.update_apply, Function.update_apply]
      exact ⟨rfl, rfl⟩
  rw [hview]
  exact h'

end

end FastAlloc
