/-
FastAlloc.Threads.Reuse — what was allocated and freed serves the same
requests again.

A thread that owns no span opens new ones as `Demand` says: one for each
bundle of blocks of a size class, one for each larger request. That settles
how many spans of each page count it holds (`Heap.Serves`). Where as many are
cached, a request always finds one of its own page count, so that best fit
never has to cut a span or to map a chunk.
-/
import FastAlloc.Lib.Demand
import FastAlloc.Threads.Frees
import Mathlib.Data.Set.Card

namespace FastAlloc

open Lib Mem View

/-- What a request is served from: its size class and the pages of its span. -/
def Platform.kind (pf : Platform) (size : Nat) : Int × Nat :=
  (getSizeClassIndex size, pf.requestPages (getSizeClassIndex size) size)

/-- One more request, each span being a bundle of the blocks of its class. -/
def Platform.serve (pf : Platform) (d : Demand (Int × Nat)) (size : Nat) : Demand (Int × Nat) :=
  d.ask (fun k => requestBlockCount k.1) Prod.snd (pf.kind size)

/-- The spans of `n` pages that thread `t` has in use. -/
def Heap.Held (H : Heap) (t : Tid) (n : Nat) : Set Nat :=
  {a | ∃ u, H.use a = some u ∧ H.owner a = t ∧ u.pages = n}

/-- The spans of `n` pages that no other thread has in use. -/
def View.Avail (v : View) (H : Heap) (t : Tid) (n : Nat) : Set Nat :=
  {a | (∃ b, v.place a = some (b, n)) ∧ ∀ u, H.use a = some u → H.owner a = t}

/-- Thread `t` holds what the requests behind `d` open, and its bins have
what is left of it. -/
structure Heap.Serves (H : Heap) (t : Tid) (d : Demand (Int × Nat)) : Prop where
  held : ∀ n, (H.Held t n).encard = d.opened.count n
  one : ∀ a b c, H.bin a = some (t, c) → H.bin b = some (t, c) → a = b
  binned : ∀ a u c, H.bin a = some (t, c) → H.use a = some u → u.free.card = d.rest (c, u.pages)
  head : ∀ c n, d.rest (c, n) ≠ 0 → ∃ a u, H.bin a = some (t, c) ∧ H.use a = some u ∧ u.pages = n

section

variable {pf : Platform} {strict : Bool} {s : State} {v v' : View} {H H' : Heap} {w w' : World}
  {a i n p size : Nat} {u : Usage} {t : Tid} {c : Int} {d : Demand (Int × Nat)} {l l' : List Nat}

namespace Heap

/-- A large span is in no bin. -/
theorem bin_ne_large (h : HeapOk pf H) : H.bin a ≠ some (t, largeClassSizeIndex) := by
  intro hbin
  obtain ⟨u, hu, hpos, hlt, -, hc⟩ := bin_eq_some.mp hbin
  have hone := (h.sound a u hu).blockCount_large hc
  omega

/-- An idle thread without a live block has no span. -/
theorem owner_ne (h : HeapOk pf H) (hown : H.Owned) (hpc : H.pc t = none)
    (hnone : ∀ p n, H.live p ≠ some (t, n)) (ha : H.use a = some u) : H.owner a ≠ t := by
  intro ho
  have htr : ¬ H.Transit a := fun htr => by
    obtain ⟨pc, hpc', -⟩ := h.transit_owner htr
    rw [ho, hpc] at hpc'
    cases hpc'
  obtain ⟨i, hi, hif⟩ := (h.sound a u ha).exists_out fun hall => htr (h.full a u ha hall)
  obtain ⟨⟨t', n⟩, hlive⟩ := (h.out _ a u i ⟨ha, hi, rfl⟩).mpr ⟨hif, htr⟩
  have ht : H.owner a = t' := hown _ a u i t' n ⟨ha, hi, rfl⟩ hlive
  exact hnone _ n (ho ▸ ht ▸ hlive)

/-- So it starts from nothing. -/
theorem Serves.start (hno : ∀ a u, H.use a = some u → H.owner a ≠ t) : H.Serves t .none where
  held n := by
    have hempty : H.Held t n = ∅ := Set.eq_empty_of_forall_notMem fun a ⟨u, hu, ho, _⟩ => hno a u hu ho
    simp [hempty, Demand.none]
  one a b c ha _ := by
    obtain ⟨u, hu, -, -, ho, -⟩ := bin_eq_some.mp ha
    exact absurd ho (hno a u hu)
  binned a u c ha hu := by
    obtain ⟨-, -, -, -, ho, -⟩ := bin_eq_some.mp ha
    exact absurd ho (hno a u hu)
  head _ _ h := absurd rfl h

/-- A span of its own that changes, and is alone in its class, changes what
is left of that class. -/
theorem Serves.update {x : Usage} {m : Multiset Nat} (hs : H.Serves t d)
    (huse : H'.use = Function.update H.use a (some x)) (howner : H'.owner = Function.update H.owner a t)
    (halone : ∀ b, H.bin b = some (t, x.cls) → b = a) (hlt : x.free.card < x.blockCount)
    (hwas : ∀ u, H.use a = some u → u.cls = x.cls ∧ u.pages = x.pages)
    (hheld : ∀ n, (H'.Held t n).encard = m.count n) :
    H'.Serves t ⟨Function.update d.rest (x.cls, x.pages) x.free.card, m⟩ := by
  have hbin : ∀ b, b ≠ a → H'.bin b = H.bin b := fun b hb =>
    bin_congr (by rw [huse, Function.update_of_ne hb]) (by rw [howner, Function.update_of_ne hb])
  have ha : H'.use a = some x := by rw [huse, Function.update_self]
  have hself : H'.bin a = if 0 < x.free.card then some (t, x.cls) else none := by
    rw [bin_of ha, howner, Function.update_self]
    exact if_congr (and_iff_left hlt) rfl rfl
  have hcls : ∀ c, H'.bin a = some (t, c) → c = x.cls := by
    intro c hc
    rw [hself] at hc
    split at hc
    · simpa using hc.symm
    · cases hc
  constructor
  case held => exact hheld
  case one =>
    intro b b' c hb hb'
    by_cases hba : b = a
    · obtain rfl := hcls c (hba ▸ hb)
      by_cases hba' : b' = a
      · rw [hba, hba']
      · rw [hbin b' hba'] at hb'
        exact absurd (halone b' hb') hba'
    · rw [hbin b hba] at hb
      by_cases hba' : b' = a
      · obtain rfl := hcls c (hba' ▸ hb')
        exact absurd (halone b hb) hba
      · exact hs.one b b' c hb (hbin b' hba' ▸ hb')
  case binned =>
    intro b y c hb hy
    by_cases hba : b = a
    · subst hba
      obtain rfl := hcls c hb
      obtain rfl := Option.some.inj (ha.symm.trans hy)
      simp
    · rw [hbin b hba] at hb
      rw [huse, Function.update_of_ne hba] at hy
      have hne : (c, y.pages) ≠ (x.cls, x.pages) := by
        intro he
        exact hba (halone b ((Prod.mk.inj he).1 ▸ hb))
      simpa [hne] using hs.binned b y c hb hy
  case head =>
    intro c n hne
    by_cases he : (c, n) = (x.cls, x.pages)
    · obtain ⟨rfl, rfl⟩ := Prod.mk.inj he
      simp only [Function.update_self] at hne
      exact ⟨a, x, hself.trans (if_pos (Nat.pos_of_ne_zero hne)), ha, rfl⟩
    · simp only [Function.update_of_ne he] at hne
      obtain ⟨b, y, hb, hy, hpages⟩ := hs.head c n hne
      have hba : b ≠ a := by
        rintro rfl
        obtain ⟨z, hz, -, -, -, hzc⟩ := bin_eq_some.mp hb
        obtain rfl := Option.some.inj (hz.symm.trans hy)
        obtain ⟨hc, hp⟩ := hwas z hz
        exact he (by rw [← hzc, hc, ← hpages, hp])
      refine ⟨b, y, (hbin b hba).trans hb, ?_, hpages⟩
      rw [huse, Function.update_of_ne hba, hy]

theorem TakesBinned.kind (hb : H.TakesBinned v t size p a u i v' H') (hok : HeapOk pf H) :
    u.cls = getSizeClassIndex size ∧ pf.kind size = (u.cls, u.pages) := by
  obtain ⟨x, hx, -, -, -, hcls⟩ := bin_eq_some.mp hb.head
  obtain rfl : u = x := Option.some.inj (hb.offers.use.symm.trans hx)
  refine ⟨hcls, ?_⟩
  rw [Platform.kind, (hok.sound a u hx).pages_eq (hcls ▸ hb.small), hcls]

/-- A block from the bin uses up a unit. -/
theorem Serves.takesBinned (hs : H.Serves t d) (hok : HeapOk pf H)
    (hb : H.TakesBinned v t size p a u i v' H') : H'.Serves t (pf.serve d size) := by
  have huse := hb.offers.use
  obtain ⟨x, hx, hpos, hlt, ho, hcls⟩ := bin_eq_some.mp hb.head
  obtain rfl : u = x := Option.some.inj (huse.symm.trans hx)
  obtain ⟨-, hkind⟩ := hb.kind hok
  have hrest := hs.binned a u _ hb.head huse
  rw [← hcls] at hrest
  have hcard : (u.take i).free.card = d.rest (u.cls, u.pages) - 1 := by
    rw [← hrest]
    exact Finset.card_erase_of_mem hb.offers.free
  have hserve : pf.serve d size = ⟨Function.update d.rest (u.cls, u.pages) (u.take i).free.card,
      d.opened⟩ := by
    rw [Platform.serve, hkind, hcard]
    exact Demand.ask_of_ne (by omega)
  have huse' : H'.use = Function.update H.use a (some (u.take i)) := by rw [hb.heap]; rfl
  have howner : H'.owner = Function.update H.owner a t := by
    rw [← ho, Function.update_eq_self, hb.heap]
    rfl
  rw [hserve]
  refine hs.update (x := u.take i) huse' howner (fun b hb' => ?_) ?_ (fun y hy => ?_) fun n => ?_
  · refine hs.one b a u.cls hb' ?_
    rw [hcls]
    exact hb.head
  · change (u.take i).free.card < u.blockCount
    omega
  · obtain rfl := Option.some.inj (huse.symm.trans hy)
    exact ⟨rfl, rfl⟩
  · rw [← hs.held n]
    congr 1
    ext b
    by_cases hba : b = a
    · simp [Held, huse', howner, hba, huse, ho, Usage.take]
    · simp [Held, huse', howner, hba]

/-- The thread's bin of the class is empty then, -/
theorem TakesFresh.bin_ne (hf : H.TakesFresh pf v t size p a u i v' H') (hok : HeapOk pf H) (b : Nat) :
    H.bin b ≠ some (t, u.cls) := by
  intro hb
  rw [hf.cls] at hb
  rcases hf.bin with hl | hno
  · rw [hl] at hb
    exact bin_ne_large hok hb
  · exact hno b hb

theorem TakesFresh.kind (hf : H.TakesFresh pf v t size p a u i v' H') :
    pf.kind size = (u.cls, u.pages) := by
  rw [Platform.kind, hf.cls, hf.pages]

/-- and nothing is left of it. -/
theorem Serves.rest_eq_zero (hs : H.Serves t d) (hok : HeapOk pf H)
    (hf : H.TakesFresh pf v t size p a u i v' H') : d.rest (pf.kind size) = 0 := by
  by_contra hne
  rw [hf.kind] at hne
  obtain ⟨b, -, hb, -⟩ := hs.head _ _ hne
  exact hf.bin_ne hok b hb

/-- A span initialised for a request is opened for it. -/
theorem Serves.takesFresh (hs : H.Serves t d) (hok : HeapOk pf H)
    (hf : H.TakesFresh pf v t size p a u i v' H') : H'.Serves t (pf.serve d size) := by
  have hcount := hf.sound.blockCount
  have hpos := hf.sound.blockCount_pos
  have hcard : (u.take i).free.card = requestBlockCount u.cls - 1 := by
    rw [← hcount, ← hf.allFree]
    exact Finset.card_erase_of_mem hf.free
  have hserve : pf.serve d size = ⟨Function.update d.rest (u.cls, u.pages) (u.take i).free.card,
      u.pages ::ₘ d.opened⟩ := by
    rw [Platform.serve, Demand.ask_of_zero (hs.rest_eq_zero hok hf), hf.kind, hcard]
  have huse : H'.use = Function.update H.use a (some (u.take i)) := by
    rw [hf.heap]
    exact Function.update_idem ..
  have howner : H'.owner = Function.update H.owner a t := by
    rw [hf.heap]
    rfl
  have hnot : ∀ n, a ∉ H.Held t n := by
    intro n ⟨x, hx, _⟩
    exact nomatch hx.symm.trans hf.none
  rw [hserve]
  refine hs.update (x := u.take i) huse howner (fun b hb => absurd hb (hf.bin_ne hok b)) ?_
    (fun y hy => nomatch hy.symm.trans hf.none) fun n => ?_
  · change (u.take i).free.card < u.blockCount
    omega
  · by_cases hn : u.pages = n
    · have hins : H'.Held t n = insert a (H.Held t n) := by
        ext b
        by_cases hb : b = a
        · simp [Held, huse, howner, hb, hn, Usage.take]
        · simp [Held, huse, howner, hb]
      rw [hins, Set.encard_insert_of_notMem (hnot n), hs.held, hn, Multiset.count_cons_self]
      rfl
    · have hsame : H'.Held t n = H.Held t n := by
        ext b
        by_cases hb : b = a
        · simp [Held, huse, howner, hb, hn, Usage.take, hf.none]
        · simp [Held, huse, howner, hb]
      rw [hsame, hs.held, Multiset.count_cons_of_ne fun he => hn he.symm]

end Heap

/-! ## Exact fits -/

/-- Where the bin of the page count is not empty, its head is taken, and
nothing is cut or mapped. -/
theorem View.Initialized.exact (h : v.Initialized pf c size a v')
    (hn : pf.requestPages c size < maxBinnedPages) (h0 : v.bin (pf.requestPages c size) ≠ NULL) :
    v'.place = v.place ∧ v'.region = v.region := by
  obtain ⟨root, v₁, sp, sp', -, -, hsup, hsp, hprep, rfl⟩ := h
  cases hsup with
  | direct hbig hd => exact absurd hn (Nat.not_lt.mpr hbig)
  | «exact» _ _ ha hv =>
    rw [hv] at hsp ⊢
    exact ⟨place_setSpan hsp hprep.pages.base hprep.pages.pageCount, rfl⟩
  | split m rest hm _ _ hbest => exact absurd (hbest _ le_rfl hm) h0
  | fresh _ hbest => exact absurd (hbest _ le_rfl hn) h0

/-- A thread that holds fewer spans than there are for it finds one cached. -/
theorem HeapInv.bin_ne_null (h : HeapInv pf strict .none s v H) (hs : H.Serves t d)
    (hn : n < maxBinnedPages) (hlt : (d.opened.count n : ℕ∞) < (v.Avail H t n).encard) :
    v.bin n ≠ NULL := by
  intro h0
  have hno := (h.sound.toPool.bin_eq_null_iff hn).mp h0
  refine absurd hlt (not_lt.mpr ?_)
  rw [← hs.held n]
  refine Set.encard_le_encard fun a ⟨⟨b, hb⟩, ho⟩ => ?_
  obtain ⟨sp, hsp, -, hpages⟩ := place_eq_some.mp hb
  have hi : sp.isInitialized = true := by
    by_contra hi
    exact hno a ⟨sp, hsp, Bool.eq_false_of_not_eq_true hi, hpages, id⟩
  have hu := h.of_span hsp hi
  exact ⟨sp.use, hu, ho _ hu, hpages⟩

/-! ## Runs of allocations -/

namespace Heap

/-- Spans of its own that are not lost stay available. -/
theorem Grows.avail (hg : H.Grows t H') (hp : v'.place = v.place) :
    v.Avail H t n ⊆ v'.Avail H' t n := by
  intro a ⟨hb, ho⟩
  refine ⟨hp ▸ hb, fun u hu => ?_⟩
  rcases ha : H.use a with _ | x
  · exact hg.fresh a u hu ha
  · obtain ⟨-, -, -, ho'⟩ := hg.kept a x ha
    exact ho'.trans (ho x ha)

end Heap

end

/-- `cmalloc` of each size, in that order. -/
def cmallocAll (pf : Platform) (t : Tid) : List Nat → M (List Nat)
  | [] => pure []
  | size :: l => do
    let p ← cmalloc pf t size
    let ps ← cmallocAll pf t l
    pure (p :: ps)

/-- `cmalloc` of each size, and `cfree` of all the blocks in the order `σ`
puts them in. -/
def cmallocFree (pf : Platform) (t : Tid) (l : List Nat) (σ : List Nat → List Nat) : M Unit := do
  let ps ← cmallocAll pf t l
  cfreeAll pf ((σ ps).map fun p => (t, p))

/-- From `s` to `s'` cached spans were taken into use; none was cut, no other
was made and nothing was mapped. -/
structure State.TakesCached (s s' : State) : Prop where
  lookup : ∀ k, s'.mem.lookup s'.pageMap k = s.mem.lookup s.pageMap k
  shape : s.mem.SameShape s.pageMap s'.mem s'.pageMap
  place : ∀ k a, a ≠ NULL → s.mem.lookup s.pageMap k = a →
    (s'.mem.span a).base = (s.mem.span a).base ∧
      (s'.mem.span a).pageCount = (s.mem.span a).pageCount
  maps : ∀ r : Region, r.site ≠ .metaChunk → (r ∈ s'.maps ↔ r ∈ s.maps)
  pool : ∀ n a, Cached s' n a → Cached s n a

/-- The thread got the blocks `ps` for the requests `l`, in spans of just the
pages each asks for; and if they are small and enough spans were cached or
its own, none was cut and none mapped. -/
structure Allots (pf : Platform) (strict : Bool) (t : Tid) (w : World) (v : View)
    (d : Demand (Int × Nat)) (l ps : List Nat) (w' : World) (v' : View) : Prop where
  inv : WorldInv pf strict w' v'
  pc : w'.pc = w.pc
  nodup : ps.Nodup
  fresh : ∀ p ∈ ps, w.live p = none
  live : ∀ p, p ∉ ps → w'.live p = w.live p
  blocks : List.Forall₂ (fun p size => w'.live p = some (t, size) ∧ ∃ a u i,
    (w'.heap v').IsBlock p a u i ∧ u.pages = (pf.kind size).2) ps l
  grows : (w.heap v).Grows t (w'.heap v')
  serves : (w'.heap v').Serves t (l.foldl pf.serve d)
  «exact» : (∀ size ∈ l, (pf.kind size).2 < maxBinnedPages) →
    (∀ n < maxBinnedPages,
      ((l.foldl pf.serve d).opened.count n : ℕ∞) ≤ (v.Avail (w.heap v) t n).encard) →
    v'.place = v.place ∧ v'.region = v.region

section

variable {pf : Platform} {strict : Bool} {s : State} {v v₁ v' : View} {w w₁ w' : World}
  {a i n p size : Nat} {u : Usage} {t : Tid} {d : Demand (Int × Nat)} {l l' ps ps' : List Nat}

theorem Platform.foldl_serve : l.foldl pf.serve d =
    (l.map pf.kind).foldl (Demand.ask (fun k => requestBlockCount k.1) Prod.snd) d := by
  rw [List.foldl_map]
  rfl

/-- More requests open more. -/
theorem Platform.opened_le_serve : d.opened ≤ (l.foldl pf.serve d).opened := by
  rw [foldl_serve]
  exact Demand.opened_le_foldl

theorem Platform.opened_le_of_subperm (h : l'.Subperm l) :
    (l'.foldl pf.serve d).opened ≤ (l.foldl pf.serve d).opened := by
  rw [foldl_serve, foldl_serve]
  obtain ⟨l₁, hperm, hsub⟩ := h
  exact Demand.opened_le_of_subperm ⟨_, hperm.map _, hsub.map _⟩

theorem Allots.live_of_mem (h : Allots pf strict t w v d l ps w' v') (hp : p ∈ ps) :
    ∃ size, w'.live p = some (t, size) := by
  obtain ⟨i, hi, rfl⟩ := List.getElem_of_mem hp
  exact ⟨_, (h.blocks.get hi (h.blocks.length_eq ▸ hi)).1⟩

theorem Allots.refl (h : WorldInv pf strict w v) (hs : (w.heap v).Serves t d) :
    Allots pf strict t w v d [] [] w v where
  inv := h
  pc := rfl
  nodup := .nil
  fresh _ hp := nomatch hp
  live _ _ := rfl
  blocks := .nil
  grows := .refl
  serves := hs
  «exact» _ _ := ⟨rfl, rfl⟩

theorem Allots.trans (h : Allots pf strict t w v d l ps w₁ v₁)
    (h' : Allots pf strict t w₁ v₁ (l.foldl pf.serve d) l' ps' w' v') :
    Allots pf strict t w v d (l ++ l') (ps ++ ps') w' v' where
  inv := h'.inv
  pc := h'.pc.trans h.pc
  nodup := by
    refine List.nodup_append'.mpr ⟨h.nodup, h'.nodup, fun p hp hp' => ?_⟩
    obtain ⟨size, hlive⟩ := h.live_of_mem hp
    exact nomatch hlive.symm.trans (h'.fresh p hp')
  fresh p hp := by
    rcases List.mem_append.mp hp with hp | hp
    · exact h.fresh p hp
    · have hnot : p ∉ ps := fun hp' => by
        obtain ⟨size, hlive⟩ := h.live_of_mem hp'
        exact nomatch hlive.symm.trans (h'.fresh p hp)
      exact (h.live p hnot).symm.trans (h'.fresh p hp)
  live p hp := by
    rw [List.mem_append, not_or] at hp
    exact (h'.live p hp.2).trans (h.live p hp.1)
  blocks := by
    refine List.rel_append (h.blocks.imp fun p size ⟨hlive, a, u, i, hb, hpages⟩ => ?_) h'.blocks
    have hp : p ∉ ps' := fun hp => nomatch hlive.symm.trans (h'.fresh p hp)
    obtain ⟨u', hb', hshape⟩ := h'.grows.isBlock hb
    exact ⟨(h'.live p hp).trans hlive, a, u', i, hb', (congrArg Usage.pages hshape).trans hpages⟩
  grows := h.grows.trans h'.grows
  serves := by
    rw [List.foldl_append]
    exact h'.serves
  «exact» hsmall hrich := by
    rw [List.foldl_append] at hrich
    have hle : ∀ n, ((l.foldl pf.serve d).opened.count n : ℕ∞) ≤
        (l'.foldl pf.serve (l.foldl pf.serve d)).opened.count n := fun n =>
      Nat.cast_le.mpr (Multiset.count_le_of_le n Platform.opened_le_serve)
    obtain ⟨hp, hr⟩ := h.exact (fun size hs => hsmall size (List.mem_append_left _ hs))
      fun n hn => (hle n).trans (hrich n hn)
    obtain ⟨hp', hr'⟩ := h'.exact (fun size hs => hsmall size (List.mem_append_right _ hs))
      fun n hn => (hrich n hn).trans (Set.encard_le_encard (h.grows.avail hp))
    exact ⟨hp'.trans hp, hr'.trans hr⟩

/-- One `cmalloc`. -/
theorem WorldInv.cmalloc_allots (h : WorldInv pf strict w v) (hpc : w.pc t = none)
    (hs : (w.heap v).Serves t d) (hsize : pf.NonWrapping size) :
    Spec (Allowed strict) (onStore Watch.none.Ok) (cmalloc pf t size) w.state fun p s' => ∃ w' v',
      w'.state = s' ∧ Allots pf strict t w v d [size] [p] w' v' := by
  refine (h.heap.cmalloc hpc hsize).mono fun p s' hp => ?_
  obtain ⟨a, u, i, v', H', hinv, hown, htakes⟩ := hp
  obtain ⟨w', hstate, rfl, hw'⟩ := hinv.world (hown h.owned)
  refine ⟨w', v', hstate, ?_⟩
  have hserves : (w'.heap v').Serves t (pf.serve d size) := by
    rcases htakes with hb | hf
    · exact hs.takesBinned h.heap.heap hb
    · exact hs.takesFresh h.heap.heap hf
  have ht : (w.heap v).Takes pf t size p a u i (w'.heap v') := by
    rcases htakes with hb | hf
    · exact hb.takes h.heap.heap
    · exact hf.takes
  have hlive : w'.live = Function.update w.live p (some (t, size)) := ht.live
  constructor
  case inv => exact hw'
  case pc =>
    refine ht.pc.trans ?_
    rw [← hpc]
    exact Function.update_eq_self ..
  case nodup => exact List.nodup_singleton p
  case fresh =>
    intro q hq
    rw [List.mem_singleton.mp hq]
    exact ht.fresh h.heap.heap hw'.heap.heap
  case live =>
    intro q hq
    rw [hlive, Function.update_of_ne fun he => hq (List.mem_singleton.mpr he)]
  case blocks =>
    refine .cons ⟨?_, a, _, i, ht.block, ht.pages⟩ .nil
    rw [hlive, Function.update_self]
  case grows => exact ht.grows
  case serves => exact hserves
  case «exact» =>
    intro hsmall hrich
    rcases htakes with hb | hf
    · exact ⟨hb.place, hb.region⟩
    · have hn := hsmall size (List.mem_singleton_self size)
      have hrest := hs.rest_eq_zero h.heap.heap hf
      have hlt := hrich (pf.kind size).2 hn
      rw [List.foldl_cons, List.foldl_nil, Platform.serve, Demand.ask_of_zero hrest,
        Multiset.count_cons_self, Nat.cast_succ, ENat.add_one_le_iff (ENat.natCast_ne_top _)] at hlt
      obtain ⟨v₁, hinit, hplace, hregion⟩ := hf.initialized
      obtain ⟨hp, hr⟩ := hinit.exact hn (h.heap.bin_ne_null hs hn hlt)
      exact ⟨hplace.trans hp, hregion.trans hr⟩

theorem WorldInv.cmallocAll_spec : ∀ {l : List Nat} {w : World} {v : View} {d : Demand (Int × Nat)},
    WorldInv pf strict w v → w.pc t = none → (w.heap v).Serves t d → (∀ n ∈ l, pf.NonWrapping n) →
    Spec (Allowed strict) (onStore Watch.none.Ok) (cmallocAll pf t l) w.state fun ps s' => ∃ w' v',
      w'.state = s' ∧ Allots pf strict t w v d l ps w' v' := by
  intro l
  induction l with
  | nil =>
    intro w v d h _ hs _
    exact Spec.pure ⟨w, v, rfl, .refl h hs⟩
  | cons size l ih =>
    intro w v d h hpc hs hl
    refine Spec.bind (h.cmalloc_allots hpc hs (hl size (List.mem_cons_self ..))) fun p s₁ h₁ => ?_
    obtain ⟨w₁, v₁, rfl, hone⟩ := h₁
    refine Spec.bind (ih hone.inv (hone.pc ▸ hpc) hone.serves
      fun n hn => hl n (List.mem_cons_of_mem _ hn)) fun ps s' h' => ?_
    obtain ⟨w', v', hstate, hrest⟩ := h'
    exact Spec.pure ⟨w', v', hstate, hone.trans hrest⟩

/-! ## The second time -/

/-- Spans in the same places, those in use being so still. -/
theorem WorldInv.takesCached (h : WorldInv pf strict w v) (h' : WorldInv pf strict w' v')
    (hp : v'.place = v.place) (hr : v'.region = v.region)
    (hu : ∀ a u, v.use a = some u → ∃ u', v'.use a = some u') : w.state.TakesCached w'.state where
  lookup := h.lookup_of_place h' hp
  shape := h.shape_of_place h' hp
  place k a h0 ha := by
    rw [h.lookup_eq] at ha
    obtain ⟨sp, hsp, -⟩ := (h.heap.sound.look _ (Nat.mod_lt _ (by decide)) a h0).mp ha
    obtain ⟨sp', hsp', hb, hn⟩ := exists_of_place (congrFun hp a) hsp
    rw [h.heap.shows.record_eq hsp, h'.heap.shows.record_eq hsp']
    exact ⟨hb, hn⟩
  maps r hsite := by
    have hr' : v'.region r ↔ v.region r ∧ True := by rw [hr, and_true]
    exact (h.maps_iff h' hsite hr').trans (and_true _).to_iff
  pool n a ha := by
    obtain ⟨hn, sp', hsp', hi, hpages, -⟩ :=
      (h'.heap.shows.cached_iff h'.heap.sound.toPool n a).mp ha
    obtain ⟨sp, hsp, -, hpages'⟩ := exists_of_place (congrFun hp a).symm hsp'
    refine (h.heap.shows.cached_iff h.heap.sound.toPool n a).mpr
      ⟨hn, sp, hsp, ?_, hpages'.trans hpages, id⟩
    by_contra hi'
    obtain ⟨u, hu'⟩ := hu a _ (use_of hsp (Bool.eq_true_of_not_eq_false hi'))
    obtain ⟨x, hx, hxi, -⟩ := use_eq_some.mp hu'
    obtain rfl := Option.some.inj (hsp'.symm.trans hx)
    exact nomatch hi.symm.trans hxi

/-- A block in a span that was not in use and lay where it lies comes from
the cache. -/
theorem Allots.cached (h : WorldInv pf strict w v) (hall : Allots pf strict t w v d l ps w' v')
    (hno : ∀ a u, (w.heap v).use a = some u → (w.heap v).owner a ≠ t) (hp : v'.place = v.place)
    (hsmall : ∀ size ∈ l, (pf.kind size).2 < maxBinnedPages) :
    List.Forall₂ (fun p size => ∃ a, (cmallocGetSpan pf p).run w'.state = ⟨.ok a, w'.state, []⟩ ∧
      Cached w.state (pf.kind size).2 a) ps l := by
  refine List.forall₂_iff_get.mpr ⟨hall.blocks.length_eq, fun i hi hi' => ?_⟩
  obtain ⟨hlive, a, u, j, hb, hpages⟩ := hall.blocks.get hi hi'
  refine ⟨a, hall.inv.run_getSpan_live hb, ?_⟩
  obtain ⟨sp', hsp', -, rfl, -⟩ := hall.inv.heap.record hb.use
  obtain ⟨sp, hsp, -, hn⟩ := exists_of_place (congrFun hp a).symm hsp'
  refine (h.heap.shows.cached_iff h.heap.sound.toPool _ a).mpr
    ⟨hsmall _ (List.get_mem ..), sp, hsp, ?_, hn.trans hpages, id⟩
  by_contra hi
  have huse := h.heap.of_span hsp (Bool.eq_true_of_not_eq_false hi)
  obtain ⟨x, hx, -, ho⟩ := hall.grows.kept a _ huse
  exact hno a _ huse (ho.symm.trans (hall.inv.owned _ a _ j t _ hb hlive))

/-- What the requests opened is there for them again when all is freed. -/
theorem Sheds.avail (h : WorldInv pf strict w v) (hs : Sheds pf (w.heap v) v (w'.heap v') v')
    (hn : n < maxBinnedPages) : (w.heap v).Held t n ⊆ v'.Avail (w'.heap v') t n := by
  intro a ⟨u, hu, ho, hpages⟩
  have hp := h.heap.place_of_use hu
  refine ⟨?_, fun x hx => (hs.owner a x hx).trans ho⟩
  rcases hs.place a with he | ⟨-, b, m, hat, hbig⟩
  · exact ⟨u.base, by rw [he, hp, hpages]⟩
  · have hm := Option.some.inj (hp.symm.trans hat)
    rw [Prod.mk.injEq] at hm
    omega

/-- Blocks just got can be freed in any order, and the thread is left with
what it had. -/
theorem Allots.frees {fs : List Nat} (hall : Allots pf strict t w v d l ps w' v')
    (hpc : w.pc t = none) (hfs : fs.Perm ps) : w'.Frees (fs.map fun p => (t, p)) ∧
      ∀ p x, w'.liveWithout (fs.map fun p => (t, p)) p = some x → w.live p = some x := by
  have hsnd : (fs.map fun p => (t, p)).map Prod.snd = fs := by simp [Function.comp_def]
  refine ⟨⟨fun x hx => ?_, fun x hx => ?_, ?_⟩, fun p x hx => ?_⟩
  · obtain ⟨p, -, rfl⟩ := List.mem_map.mp hx
    rw [hall.pc, hpc]
  · obtain ⟨p, hp, rfl⟩ := List.mem_map.mp hx
    exact hall.live_of_mem (hfs.mem_iff.mp hp)
  · rw [hsnd]
    exact hfs.nodup_iff.mpr hall.nodup
  · rw [World.liveWithout, hsnd] at hx
    split at hx
    · cases hx
    · rename_i hp
      rwa [hall.live p fun hp' => hp (hfs.mem_iff.mpr hp')] at hx

/-- After the blocks of a list of requests are freed, the spans they came
from are cached, or so many of them as some of the requests open. -/
theorem WorldInv.cmallocFree_spec {σ : List Nat → List Nat} (h : WorldInv pf strict w v)
    (hpc : w.pc t = none) (hnone : ∀ p n, w.live p ≠ some (t, n)) (hl : ∀ n ∈ l, pf.NonWrapping n)
    (hσ : ∀ ps, (σ ps).Perm ps) :
    Spec (Allowed strict) (onStore Watch.none.Ok) (cmallocFree pf t l σ) w.state fun _ s' =>
      ∃ w' v', w'.state = s' ∧ WorldInv pf strict w' v' ∧ w'.pc t = none ∧
        (∀ a u, (w'.heap v').use a = some u → (w'.heap v').owner a ≠ t) ∧
        ∀ n < maxBinnedPages, ((l.foldl pf.serve .none).opened.count n : ℕ∞) ≤
          (v'.Avail (w'.heap v') t n).encard := by
  have hno := fun a u => Heap.owner_ne (a := a) (u := u) h.heap.heap h.owned hpc hnone
  refine Spec.bind (h.cmallocAll_spec hpc (.start hno) hl) fun ps s₁ h₁ => ?_
  obtain ⟨w₁, v₁, rfl, hall⟩ := h₁
  obtain ⟨hfrees, hlive⟩ := hall.frees hpc (hσ ps)
  refine (hall.inv.cfreeAll_spec hfrees).mono fun _ s' hs => ?_
  obtain ⟨w', v', hstate, hw', hsheds, hlive'⟩ := hs
  have hpc' : w'.pc t = none := by
    have heq : w'.pc = w₁.pc := hsheds.pc
    rw [heq, hall.pc, hpc]
  refine ⟨w', v', hstate, hw', hpc', fun a u => Heap.owner_ne hw'.heap.heap hw'.owned hpc' ?_,
    fun n hn => ?_⟩
  · intro p n hp
    have hp' : w'.live p = some (t, n) := hp
    rw [hlive'] at hp'
    exact hnone p n (hlive p _ hp')
  · rw [← hall.serves.held n]
    exact Set.encard_le_encard (hsheds.avail hall.inv hn)

/-- A thread without a live block allocates, frees it all in any order, and
asks for some of the same sizes again, in any order: now every request is
served from a span that was cached with just its page count, none is cut, and
no data is mapped. -/
theorem cmallocAll_reuses {σ : List Nat → List Nat} (h : Reachable pf w) (hpc : w.pc t = none)
    (hnone : ∀ p n, w.live p ≠ some (t, n)) (hl : ∀ n ∈ l, pf.NonWrapping n)
    (hσ : ∀ ps, (σ ps).Perm ps) (hl' : l'.Subperm l)
    (hsmall : ∀ n ∈ l', (pf.kind n).2 < maxBinnedPages)
    (hm : ∀ e ∈ ((cmallocFree pf t l σ).run w.state).trace, e.Mapped)
    (hm' : ∀ e ∈ ((cmallocAll pf t l').run ((cmallocFree pf t l σ).run w.state).state).trace,
      e.Mapped) :
    ∃ s s' ps tr tr', (cmallocFree pf t l σ).run w.state = ⟨.ok (), s, tr⟩ ∧
      (cmallocAll pf t l').run s = ⟨.ok ps, s', tr'⟩ ∧ s.TakesCached s' ∧
      List.Forall₂ (fun p n => ∃ a, (cmallocGetSpan pf p).run s' = ⟨.ok a, s', []⟩ ∧
        Cached s (pf.kind n).2 a) ps l' := by
  obtain ⟨v, hv⟩ := h.inv
  obtain ⟨⟨_, hres, w₂, v₂, hs₂, hinv₂, hpc₂, hno, hrich⟩, -⟩ :=
    hv.cmallocFree_spec hpc hnone hl hσ fun e he => allowed_of_mapped (hm e he)
  have hrun := Program.run_of_result hres
  rw [← hs₂] at hm' hrun
  obtain ⟨⟨ps, hres', w₃, v₃, hs₃, hall⟩, -⟩ := hinv₂.cmallocAll_spec hpc₂ (.start hno)
    (fun n hn => hl n (hl'.subset hn)) fun e he => allowed_of_mapped (hm' e he)
  have hle : ∀ n, ((l'.foldl pf.serve .none).opened.count n : ℕ∞) ≤
      (l.foldl pf.serve .none).opened.count n := fun n =>
    Nat.cast_le.mpr (Multiset.count_le_of_le n (Platform.opened_le_of_subperm hl'))
  have hrun' := Program.run_of_result hres'
  rw [← hs₃] at hrun'
  obtain ⟨hp, hr⟩ := hall.exact hsmall fun n hn => (hle n).trans (hrich n hn)
  have hcached := hall.cached hinv₂ hno hp hsmall
  have htakes := hinv₂.takesCached hall.inv hp hr fun a u hu => by
    obtain ⟨u', hu', -⟩ := hall.grows.kept a u hu
    exact ⟨u', hu'⟩
  exact ⟨_, _, ps, _, _, hrun, hrun', htakes, hcached⟩

/-- Two sizes, freed last first and asked for the other way round. -/
theorem cmallocAll_reuses_two : ∃ s s' ps tr tr',
    (cmallocFree .hugePages 0 [16, 1000] List.reverse).run (.initial fun n => 2 ^ 30 * (n + 1)) =
      ⟨.ok (), s, tr⟩ ∧
    (cmallocAll .hugePages 0 [1000, 16]).run s = ⟨.ok ps, s', tr'⟩ ∧ s.TakesCached s' ∧
    List.Forall₂ (fun p n => ∃ a, (cmallocGetSpan .hugePages p).run s' = ⟨.ok a, s', []⟩ ∧
      Cached s (Platform.hugePages.kind n).2 a) ps [1000, 16] := by
  obtain ⟨w, hw, hpc, hs, hlive⟩ : ∃ w, Reachable .hugePages w ∧ (∀ t, w.pc t = none) ∧
      w.state = .initial (fun n => 2 ^ 30 * (n + 1)) ∧ ∀ p, w.live p = none :=
    ⟨.initial _, ⟨_, .refl⟩, fun _ => rfl, rfl, fun _ => rfl⟩
  have hm : ((cmallocFree .hugePages 0 [16, 1000] List.reverse).run
      (.initial fun n => 2 ^ 30 * (n + 1))).trace.all (fun e => decide e.Mapped) = true := by
    decide +kernel
  have hm' : ((cmallocAll .hugePages 0 [1000, 16]).run
      ((cmallocFree .hugePages 0 [16, 1000] List.reverse).run
        (.initial fun n => 2 ^ 30 * (n + 1))).state).trace.all (fun e => decide e.Mapped) = true := by
    decide +kernel
  rw [← hs] at hm hm' ⊢
  exact cmallocAll_reuses hw (hpc 0) (fun p n hp => nomatch (hlive p).symm.trans hp) (by decide)
    List.reverse_perm (List.Perm.swap ..).subperm (by decide +kernel) (mapped_of_all hm) (mapped_of_all hm')

end

end FastAlloc
