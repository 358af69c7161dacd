/-
FastAlloc.Threads.Linear — the allocator as an instance of the abstract one.

`CallStep` is `Step` with what is seen of the calls: which were made and
what they returned. `linearizable` says that every history of calls, with
the threads interleaved in any way, is one of the abstract machine, where
each call takes effect at one point between its invocation and its answer,
and that the live blocks are the machine's, byte for byte.
-/
import FastAlloc.Lib.Allocation
import FastAlloc.Threads.Contents

namespace FastAlloc

open Lib Mem View

/-! ## Calls seen from outside -/

def Call.op : Call → Op
  | .malloc size => .malloc size
  | .calloc num size => .calloc num size
  | .free ptr => .free ptr
  | .realloc ptr size => .realloc ptr size

/-- The answer a part of a call gives, if it gives one. -/
def Reply.answers (t : Tid) : Reply → List (Action Tid)
  | .done q => [.answer t q]
  | .more _ => []

/-- A step in which no `mmap` fails and no wrapping request is made, with
what is seen of it. -/
inductive CallStep (pf : Platform) : World → List (Action Tid) → World → Prop
  | enter {w : World} {t : Tid} {call : Call} {p : Progress} {s : State} {tr : List Event} :
      w.pc t = none → call.Permitted w t → (enter pf t call).run w.state = ⟨.ok p, s, tr⟩ →
      pf.GoodLabel ⟨call.request, tr⟩ →
      CallStep pf w (.invoke t call.op :: p.reply.answers t) (w.after t s p)
  | resume {w : World} {t : Tid} {pc : Pc} {p : Progress} {s : State} {tr : List Event} :
      w.pc t = some pc → (resume pf t pc).run w.state = ⟨.ok p, s, tr⟩ → pf.GoodLabel ⟨none, tr⟩ →
      CallStep pf w (p.reply.answers t) (w.after t s p)
  | write {w : World} (bytes : Nat → UInt8) :
      CallStep pf w [] { w with state := { w.state with bytes := bytes } }

/-- The `n` bytes from `p` on. -/
def State.bytesAt (s : State) (p n : Nat) : List UInt8 := (List.range n).map fun i => s.bytes (p + i)

/-- The block at `p`, if it is live. -/
def World.block (w : World) (p : Nat) : Option (Block Tid UInt8) :=
  (w.live p).map fun x => ⟨x.1, w.state.bytesAt p x.2⟩

/-- What the client of a `cmalloc` was called for. -/
def Client.Serves (size : Nat) (client : Client) : Op → Prop
  | .malloc n => client = .malloc ∧ size = n
  | .calloc num n => client = .calloc ∧ size = num * n ∧ num * n < 2 ^ 64
  | .free _ => False
  | .realloc p n => size = n ∧ (p = 0 ∧ client = .malloc ∨ 0 < n ∧ ∃ a, client = .realloc p a)

/-- Where the abstract machine stands when a thread stands at `o`. -/
def Stands : Option Status → Option Pc → Prop
  | none, none => True
  | some (.asked op), some (.initSpan client size) => client.Serves size op
  | some (.asked op), some (.allocate client size _) => client.Serves size op
  | some (.settled q), some (.cache _ q') => q = q'
  | _, _ => False

/-- The machine has the live blocks of the world, and its threads stand where
the world's do. -/
structure World.Matches (w : World) (m : Machine Tid UInt8) : Prop where
  block : m.blocks.block = w.block
  status : ∀ t, Stands (m.status t) (w.pc t)

section

variable {pf : Platform} {strict : Bool} {w w' : World} {v v' : View} {H' : Heap} {t : Tid}
  {call : Call} {client : Client} {pr : Progress} {s' : State} {a i n p q size : Nat} {u : Usage}
  {r : Reply} {op : Op} {l : List (Action Tid)}

@[simp] theorem bytesAt_length {s : State} : (s.bytesAt p n).length = n := by
  rw [State.bytesAt, List.length_map, List.length_range]

theorem bytesAt_get {s : State} (hi : i < n) : (s.bytesAt p n)[i]? = some (s.bytes (p + i)) := by
  rw [State.bytesAt, List.getElem?_map, List.getElem?_range hi]
  rfl

theorem bytesAt_congr {s : State} (h : ∀ i < n, s'.bytes (p + i) = s.bytes (q + i)) :
    s'.bytesAt p n = s.bytesAt q n :=
  List.map_congr_left fun i hi => h i (List.mem_range.mp hi)

/-! ## The live blocks as the abstract machine has them -/

theorem WorldInv.apart (h : WorldInv pf strict w v) {b c : Block Tid UInt8} (hp : w.block p = some b)
    (hq : w.block q = some c) (hne : p ≠ q) :
    p + b.bytes.length ≤ q ∨ q + c.bytes.length ≤ p := by
  obtain ⟨⟨t, n⟩, hn, rfl⟩ := Option.map_eq_some_iff.mp hp
  obtain ⟨⟨t', n'⟩, hn', rfl⟩ := Option.map_eq_some_iff.mp hq
  obtain ⟨a, u, i, hb, -, -, hle⟩ := h.heap.heap.live_block hn
  obtain ⟨a', u', i', hb', -, -, hle'⟩ := h.heap.heap.live_block hn'
  simp only [bytesAt_length]
  cases h.heap.heap.blocks_apart hb hb' hne with
  | inl hd => exact .inl (by omega)
  | inr hd => exact .inr (by omega)

/-- The live blocks of a world. -/
def WorldInv.blocks (h : WorldInv pf strict w v) : Blocks Tid UInt8 where
  block := w.block
  null := by
    rcases hn : w.live 0 with _ | x
    · rw [World.block, hn]
      rfl
    · exact absurd rfl (h.heap.heap.live_ne_null hn)
  apart _ _ _ _ hp hq hne := h.apart hp hq hne

/-- A live block keeps its bytes through a part of a call. -/
theorem WorldInv.bytes_kept (h : WorldInv pf strict w v)
    (hadv : Advances pf strict .none (w.heap v) t w.state pr s' v' H') {x : Tid × Nat}
    (hq : w.live q = some x) : s'.bytesAt q x.2 = w.state.bytesAt q x.2 := by
  obtain ⟨a, u, i, hb, -, -, hle⟩ := h.heap.heap.live_block (t := x.1) (n := x.2) hq
  obtain ⟨-, hbytes⟩ := hadv.keeps q a u i x hb hq
  exact bytesAt_congr fun i hi => hbytes i (hi.trans_le hle)

/-- The live blocks after a part of a call. -/
theorem WorldInv.block_after (h : WorldInv pf strict w v)
    (hadv : Advances pf strict .none (w.heap v) t w.state pr s' v' H') :
    (w.after t s' pr).block = fun q => match pr.gained with
      | some (p, n) => if q = p then some ⟨t, s'.bytesAt q n⟩ else if pr.lost = some q then none
        else w.block q
      | none => if pr.lost = some q then none else w.block q := by
  have hkept : ∀ q, (w.live q).map (fun x => (⟨x.1, s'.bytesAt q x.2⟩ : Block Tid UInt8)) = w.block q := by
    intro q
    rcases hq : w.live q with _ | x
    · rw [World.block, hq]
      rfl
    · rw [World.block, hq, Option.map_some, Option.map_some, h.bytes_kept hadv hq]
  funext q
  change (liveAfter w.live t pr q).map _ = _
  unfold liveAfter
  rcases pr.gained with _ | ⟨p, n⟩
  · dsimp only
    by_cases hl : pr.lost = some q
    · rw [if_pos hl, if_pos hl]
      rfl
    · rw [if_neg hl, if_neg hl]
      exact hkept q
  · dsimp only
    by_cases hq : q = p
    · rw [if_pos hq, if_pos hq]
      rfl
    · rw [if_neg hq, if_neg hq]
      by_cases hl : pr.lost = some q
      · rw [if_pos hl, if_pos hl]
        rfl
      · rw [if_neg hl, if_neg hl]
        exact hkept q

/-! ## One part of a call, as an effect -/

/-- A block was handed out and its client has done its work. -/
theorem WorldInv.hands_effect (h : WorldInv pf strict w v)
    (hadv : Advances pf strict .none (w.heap v) t w.state pr s' v' H')
    (hc : (w.heap v).ClientOk t size client)
    (hh : (w.heap v).Hands client size w.state s' p pr) (hop : client.Serves size op) :
    Effect 0 (2 ^ 64) t op h.blocks p hadv.world.blocks := by
  have hafter := h.block_after hadv
  rw [hh.gained, hh.lost] at hafter
  have hfresh : w.block p = none := by
    have hnone : w.live p = none := hh.fresh
    rw [World.block, hnone]
    rfl
  have hallocates : client.pointer = none →
      h.blocks.Allocates t p (s'.bytesAt p size) hadv.world.blocks := by
    intro hnone
    refine ⟨hfresh, ?_⟩
    change (w.after t s' pr).block = Function.update w.block p _
    rw [hafter]
    funext q
    rw [Function.update_apply, hnone]
    by_cases hq : q = p
    · simp [hq]
    · simp [hq]
  cases client with
  | malloc =>
    cases op with
    | malloc n => exact .malloc (hallocates rfl) (bytesAt_length.trans hop.2)
    | calloc num n => exact nomatch hop.1
    | free p => exact hop.elim
    | realloc ptr n =>
      obtain ⟨hn, ⟨rfl, -⟩ | ⟨-, a, ha⟩⟩ := hop
      · exact .reallocNull (hallocates rfl) (bytesAt_length.trans hn)
      · exact nomatch ha
  | calloc =>
    cases op with
    | malloc n => exact nomatch hop.1
    | calloc num n =>
      obtain ⟨-, rfl, hlt⟩ := hop
      have hzero : s'.bytesAt p (num * n) = List.replicate (num * n) 0 :=
        List.eq_replicate_iff.mpr ⟨bytesAt_length, fun b hb => by
          obtain ⟨i, hi, rfl⟩ := List.mem_map.mp hb
          exact hh.fills i (List.mem_range.mp hi)⟩
      exact .calloc hlt (hzero ▸ hallocates rfl)
    | free p => exact hop.elim
    | realloc ptr n =>
      obtain ⟨-, ⟨-, ha⟩ | ⟨-, a, ha⟩⟩ := hop
      · exact nomatch ha
      · exact nomatch ha
  | realloc ptr a =>
    cases op with
    | malloc n => exact nomatch hop.1
    | calloc num n => exact nomatch hop.1
    | free p => exact hop.elim
    | realloc ptr' n =>
      obtain ⟨rfl, ⟨-, ha⟩ | ⟨h0, a', ha⟩⟩ := hop
      · exact nomatch ha
      cases ha
      obtain ⟨⟨m, hm⟩, -, u, i, hb, hlt⟩ := hc
      have hblock : w.block ptr = some ⟨t, w.state.bytesAt ptr m⟩ := by
        have hlive : w.live ptr = some (t, m) := hm
        rw [World.block, hlive]
        rfl
      have hfits : m ≤ u.blockSize := h.heap.heap.fits ptr a u i t m hb hm
      have hcopy : ∀ b < u.blockSize, s'.bytes (p + b) = w.state.bytes (ptr + b) :=
        hh.fills u hb.use
      have hagree : Agree (w.state.bytesAt ptr m) (s'.bytesAt p size) := by
        intro i hi hi'
        rw [bytesAt_length] at hi hi'
        rw [bytesAt_get hi, bytesAt_get hi', hcopy i (hi.trans_le hfits)]
      refine .move h0 hblock hfresh bytesAt_length hagree ?_
      change (w.after t s' pr).block = _
      rw [hafter]
      have hne : ptr ≠ p := by
        rintro rfl
        exact nomatch hblock.symm.trans hfresh
      funext q
      change (if q = p then _ else if some ptr = some q then none else w.block q) = _
      rw [Function.update_apply, Function.update_apply]
      by_cases hq : q = p
      · rw [if_pos hq, if_neg (hq ▸ hne.symm), if_pos hq, hq]
      · rw [if_neg hq, if_neg hq]
        exact if_congr (by rw [Option.some_inj, eq_comm]) rfl rfl

/-- A block was taken back. -/
theorem WorldInv.frees (h : WorldInv pf strict w v)
    (hadv : Advances pf strict .none (w.heap v) t w.state pr s' v' H') (hp : w.live p = some (t, n))
    (hg : pr.gained = none) (hl : pr.lost = some p) : h.blocks.Frees t p hadv.world.blocks := by
  have hafter := h.block_after hadv
  rw [hg, hl] at hafter
  refine ⟨⟨w.state.bytesAt p n, ?_⟩, ?_⟩
  · change w.block p = _
    rw [World.block, hp]
    rfl
  · change (w.after t s' pr).block = Function.update w.block p none
    rw [hafter]
    funext q
    rw [Function.update_apply]
    exact if_congr (by rw [Option.some_inj, eq_comm]) rfl rfl

/-- No block was handed out or taken back. -/
theorem WorldInv.blocks_same (h : WorldInv pf strict w v)
    (hadv : Advances pf strict .none (w.heap v) t w.state pr s' v' H') (hg : pr.gained = none)
    (hl : pr.lost = none) : hadv.world.blocks = h.blocks := by
  have hafter := h.block_after hadv
  rw [hg, hl] at hafter
  exact Blocks.ext hafter

/-- A call that has taken effect is answered, now or when it has given up a
span. -/
theorem settles {A A' : Blocks Tid UInt8} {f : Tid → Option Status} (hf : f t = some (.asked op))
    (he : Effect 0 (2 ^ 64) t op A q A') (hr : r.returns = some q) :
    ∃ o, Trace (Machine.Step 0 (2 ^ 64)) ⟨A, f⟩ (r.answers t) ⟨A', Function.update f t o⟩ ∧
      Stands o r.pc := by
  cases r with
  | done x =>
    cases hr
    exact ⟨none, Machine.Step.settle hf he, trivial⟩
  | more pc =>
    cases pc with
    | initSpan client size => cases hr
    | allocate client size a => cases hr
    | cache a x =>
      cases hr
      exact ⟨some (.settled q), .single (.effect hf he), rfl⟩

/-! ## The first part of a call -/

/-- What the first part of a call does. -/
def Call.Goes (H : Heap) (t : Tid) (s s' : State) (pr : Progress) : Call → Prop
  | .malloc size => Client.malloc.Opens H size s s' pr
  | .calloc num size => 2 ^ 64 ≤ num * size ∧ pr = ⟨.done NULL, none, none⟩ ∨
      num * size < 2 ^ 64 ∧ Client.calloc.Opens H (num * size) s s' pr
  | .free ptr => ptr = NULL ∧ pr = ⟨.done NULL, none, none⟩ ∨ (∃ n, H.live ptr = some (t, n)) ∧
      pr.gained = none ∧ pr.lost = some ptr ∧ pr.reply.returns = some NULL
  | .realloc ptr size => ptr = NULL ∧ Client.malloc.Opens H size s s' pr ∨
      ∃ n, ptr ≠ NULL ∧ H.live ptr = some (t, n) ∧
      (size = 0 ∧ pr.gained = none ∧ pr.lost = some ptr ∧ pr.reply.returns = some NULL ∨
        0 < size ∧ pr = ⟨.done ptr, some (ptr, size), none⟩ ∨
        0 < size ∧ ∃ a, H.ClientOk t size (.realloc ptr a) ∧
          (Client.realloc ptr a).Opens H size s s' pr)

theorem enter_goes (h : WorldInv pf strict w v) (hpc : w.pc t = none)
    (hreq : ∀ n ∈ call.request, pf.NonWrapping n) (hperm : call.Permitted w t) {A : Event → Prop} :
    Spec A (onStore Watch.none.Ok) (enter pf t call) w.state fun pr s' =>
      call.Goes (w.heap v) t w.state s' pr := by
  have hmalloc : ∀ client {size}, pf.NonWrapping size → (w.heap v).ClientOk t size client →
      Spec A (onStore Watch.none.Ok) (mallocPart pf t client size) w.state fun pr s' =>
        client.Opens (w.heap v) size w.state s' pr := fun _ _ hn hc =>
    (mallocPart_spec h.heap h.owned hpc hn hc).mono fun _ _ hp => hp.2
  cases call with
  | malloc size => exact hmalloc .malloc (hreq size rfl) trivial
  | calloc num size =>
    refine Spec.ite (fun hover => Spec.pure (.inl ⟨calloc_overflow_iff.mp hover, rfl⟩)) fun hover => ?_
    have hn : pf.NonWrapping (num * size) := hreq _ (if_neg hover)
    have hlt : num * size < 2 ^ 64 := Nat.lt_of_not_le fun hle => hover (calloc_overflow_iff.mpr hle)
    rw [Nat.mod_eq_of_lt hlt]
    exact (hmalloc .calloc hn trivial).mono fun _ _ hp => .inr ⟨hlt, hp⟩
  | free ptr =>
    refine Spec.ite (fun h0 => Spec.pure (.inl ⟨h0, rfl⟩)) fun h0 => ?_
    obtain ⟨n, hn⟩ := hperm.resolve_left h0
    exact (freePart_advances h.heap h.owned hpc hn).mono fun _ _ hp => .inr ⟨⟨n, hn⟩, hp.2⟩
  | realloc ptr size =>
    have hsize : pf.NonWrapping size := hreq size rfl
    refine Spec.ite (fun h0 => (hmalloc .malloc hsize trivial).mono fun _ _ hp => .inl ⟨h0, hp⟩) fun h0 => ?_
    obtain ⟨n, hn⟩ := hperm.resolve_left h0
    refine Spec.ite (fun hz => ?_) fun hz => ?_
    · exact (freePart_advances h.heap h.owned hpc hn).mono fun _ _ hp =>
        .inr ⟨n, h0, hn, .inl ⟨hz, hp.2⟩⟩
    have hpos : 0 < size := Nat.pos_of_ne_zero hz
    obtain ⟨a, u, i, hb, -⟩ := h.heap.heap.live_block hn
    refine h.heap.getSpan_bind hb le_rfl
      (Nat.lt_add_of_pos_right (h.heap.heap.sound a u hb.use).blockSize_pos) ?_
    obtain ⟨sp, hsp, -, rfl, -⟩ := h.heap.record hb.use
    refine h.heap.shows.load_bind (F := Span.blockSize) hsp (Spec.ite (fun hle => ?_) fun hlt => ?_)
    · exact Spec.pure (.inr ⟨n, h0, hn, .inr (.inl ⟨hpos, rfl⟩)⟩)
    · have hc : (w.heap v).ClientOk t size (.realloc ptr a) :=
        ⟨⟨n, hn⟩, h.owned ptr a _ i t n hb hn, sp.use, i, hb, Nat.lt_of_not_le hlt⟩
      exact (hmalloc _ hsize hc).mono fun _ _ hp => .inr ⟨n, h0, hn, .inr (.inr ⟨hpos, a, hc, hp⟩)⟩

/-- A block grows or shrinks where it lies. -/
theorem WorldInv.resizes (h : WorldInv pf strict w v)
    (hadv : Advances pf strict .none (w.heap v) t w.state ⟨.done p, some (p, size), none⟩ s' v' H')
    (h0 : 0 < size) (hp : w.live p = some (t, n)) :
    Effect 0 (2 ^ 64) t (.realloc p size) h.blocks p hadv.world.blocks := by
  have hafter := h.block_after hadv
  have hblock : w.block p = some ⟨t, w.state.bytesAt p n⟩ := by
    rw [World.block, hp]
    rfl
  obtain ⟨a, u, i, hb, -, -, hle⟩ := h.heap.heap.live_block hp
  obtain ⟨-, hbytes⟩ := hadv.keeps p a u i _ hb hp
  have hagree : Agree (w.state.bytesAt p n) (s'.bytesAt p size) := by
    intro i hi hi'
    rw [bytesAt_length] at hi hi'
    rw [bytesAt_get hi, bytesAt_get hi', hbytes i (hi.trans_le hle)]
  refine .resize h0 hblock bytesAt_length hagree ?_
  change (w.after t s' _).block = Function.update w.block p _
  rw [hafter]
  funext q
  rw [Function.update_apply]
  by_cases hq : q = p
  · simp [hq]
  · simp [hq]

/-- What the invocation of a call and its first part come to. -/
theorem enter_effect (h : WorldInv pf strict w v)
    (hadv : Advances pf strict .none (w.heap v) t w.state pr s' v' H')
    (hgoes : call.Goes (w.heap v) t w.state s' pr) :
    (∃ q, Effect 0 (2 ^ 64) t call.op h.blocks q hadv.world.blocks ∧ pr.reply.returns = some q) ∨
      ∃ client size, client.Serves size call.op ∧ pr = ⟨.more (.initSpan client size), none, none⟩ := by
  have hopens : ∀ client {size}, (w.heap v).ClientOk t size client → client.Serves size call.op →
      client.Opens (w.heap v) size w.state s' pr →
      (∃ q, Effect 0 (2 ^ 64) t call.op h.blocks q hadv.world.blocks ∧ pr.reply.returns = some q) ∨
      ∃ client size, client.Serves size call.op ∧
        pr = ⟨.more (.initSpan client size), none, none⟩ := by
    intro client size hc hop ho
    rcases ho with ⟨hpr, -⟩ | ⟨p, hh⟩
    · exact .inr ⟨client, size, hop, hpr⟩
    · exact .inl ⟨p, h.hands_effect hadv hc hh hop, hh.returns⟩
  cases call with
  | malloc size => exact hopens .malloc trivial ⟨rfl, rfl⟩ hgoes
  | calloc num size =>
    rcases hgoes with ⟨hover, rfl⟩ | ⟨hlt, ho⟩
    · refine .inl ⟨NULL, ?_, rfl⟩
      rw [h.blocks_same hadv rfl rfl]
      exact .callocOverflow hover
    · exact hopens .calloc trivial ⟨rfl, rfl, hlt⟩ ho
  | free ptr =>
    rcases hgoes with ⟨rfl, rfl⟩ | ⟨⟨n, hn⟩, hg, hl, hr⟩
    · refine .inl ⟨NULL, ?_, rfl⟩
      rw [h.blocks_same hadv rfl rfl]
      exact .freeNull
    · exact .inl ⟨NULL, .free (h.frees hadv hn hg hl), hr⟩
  | realloc ptr size =>
    rcases hgoes with ⟨rfl, ho⟩ | ⟨n, h0, hn, ⟨rfl, hg, hl, hr⟩ | ⟨hpos, rfl⟩ | ⟨hpos, a, hc, ho⟩⟩
    · exact hopens .malloc trivial ⟨rfl, .inl ⟨rfl, rfl⟩⟩ ho
    · exact .inl ⟨NULL, .reallocZero h0 (h.frees hadv hn hg hl), hr⟩
    · exact .inl ⟨ptr, h.resizes hadv hpos hn, rfl⟩
    · exact hopens _ hc ⟨rfl, .inr ⟨hpos, a, rfl⟩⟩ ho

/-! ## Histories -/

theorem Stands.idle {o : Option Status} (h : Stands o none) : o = none := by
  rcases o with _ | ⟨op⟩ | ⟨q⟩
  · rfl
  · exact h.elim
  · exact h.elim

theorem Stands.initSpan {o : Option Status} (h : Stands o (some (.initSpan client size))) :
    ∃ op, o = some (.asked op) ∧ client.Serves size op := by
  rcases o with _ | ⟨op⟩ | ⟨q⟩
  · exact h.elim
  · exact ⟨op, rfl, h⟩
  · exact h.elim

theorem Stands.allocate {o : Option Status} (h : Stands o (some (.allocate client size a))) :
    ∃ op, o = some (.asked op) ∧ client.Serves size op := by
  rcases o with _ | ⟨op⟩ | ⟨q⟩
  · exact h.elim
  · exact ⟨op, rfl, h⟩
  · exact h.elim

theorem Stands.cache {o : Option Status} (h : Stands o (some (.cache a q))) :
    o = some (.settled q) := by
  rcases o with _ | ⟨op⟩ | ⟨q'⟩
  · exact h.elim
  · exact h.elim
  · exact congrArg (fun x => some (Status.settled x)) h

theorem Stands.update {f : Tid → Option Status} {o : Option Status} (h : ∀ t, Stands (f t) (w.pc t))
    (ho : Stands o pr.reply.pc) (t' : Tid) :
    Stands (Function.update f t o t') ((w.after t s' pr).pc t') := by
  change Stands _ (Function.update w.pc t pr.reply.pc t')
  by_cases ht : t' = t
  · rw [ht, Function.update_self, Function.update_self]
    exact ho
  · rw [Function.update_of_ne ht, Function.update_of_ne ht]
    exact h t'

/-- The world and the machine agree, and the world keeps the invariant. -/
def Simulates (pf : Platform) (w : World) (m : Machine Tid UInt8) : Prop :=
  ∃ v, ∃ h : WorldInv pf false w v, m.blocks = h.blocks ∧ ∀ t, Stands (m.status t) (w.pc t)

theorem Simulates.step {m : Machine Tid UInt8} (hm : Simulates pf w m) (hst : CallStep pf w l w') :
    ∃ m', Trace (Machine.Step 0 (2 ^ 64)) m l m' ∧ Simulates pf w' m' := by
  obtain ⟨v, h, hblocks, hstatus⟩ := hm
  obtain ⟨A, f⟩ := m
  obtain rfl : A = h.blocks := hblocks
  change ∀ t, Stands (f t) (w.pc t) at hstatus
  cases hst with
  | @enter t call pr s tr hpc hperm hrun hgood =>
    have hall : ∀ e ∈ tr, Allowed false e := fun e he => allowed_of_mapped (hgood.2 e he)
    obtain ⟨⟨⟨v', H', hadv⟩, -⟩, -⟩ := (h.part (.enter hpc hperm hgood.1)).elim hrun hall
    obtain ⟨hgoes, -⟩ := (enter_goes h hpc hgood.1 hperm).elim hrun hall
    have hidle : f t = none := Stands.idle (hpc ▸ hstatus t)
    have hinvoke : Machine.Step 0 (2 ^ 64) ⟨h.blocks, f⟩ [.invoke t call.op] _ := .invoke hidle
    have hself : Function.update f t (some (.asked call.op)) t = some (.asked call.op) :=
      Function.update_self ..
    rcases enter_effect h hadv hgoes with ⟨q, he, hr⟩ | ⟨client, size, hop, rfl⟩
    · obtain ⟨o, htrace, ho⟩ := settles hself he hr
      rw [Function.update_idem] at htrace
      exact ⟨_, (Trace.single hinvoke).trans htrace, v', hadv.world, rfl, Stands.update hstatus ho⟩
    · exact ⟨_, .single hinvoke, v', hadv.world, (h.blocks_same hadv rfl rfl).symm,
        Stands.update hstatus hop⟩
  | @resume t pc pr s tr hpc hrun hgood =>
    have hall : ∀ e ∈ tr, Allowed false e := fun e he => allowed_of_mapped (hgood.2 e he)
    obtain ⟨⟨⟨v', H', hadv⟩, hgoes⟩, -⟩ :=
      (resume_spec h.heap h.owned hpc fun _ hk => hk.elim).elim hrun hall
    cases pc with
    | initSpan client size =>
      obtain ⟨a, rfl⟩ := hgoes
      obtain ⟨op, hf, hop⟩ := Stands.initSpan (hpc ▸ hstatus t)
      refine ⟨⟨h.blocks, f⟩, .refl, v', hadv.world, (h.blocks_same hadv rfl rfl).symm, ?_⟩
      rw [← Function.update_eq_self t f, hf]
      exact Stands.update hstatus hop
    | allocate client size a =>
      obtain ⟨p, hh⟩ := hgoes
      obtain ⟨op, hf, hop⟩ := Stands.allocate (hpc ▸ hstatus t)
      have hc := (h.heap.heap.pcs t _ hpc).2.1
      obtain ⟨o, htrace, ho⟩ := settles hf (h.hands_effect hadv hc hh hop) hh.returns
      exact ⟨_, htrace, v', hadv.world, rfl, Stands.update hstatus ho⟩
    | cache a q =>
      obtain rfl : pr = ⟨.done q, none, none⟩ := hgoes
      have hf : f t = some (.settled q) := Stands.cache (hpc ▸ hstatus t)
      exact ⟨_, .single (.answer hf), v', hadv.world, (h.blocks_same hadv rfl rfl).symm,
        Stands.update hstatus trivial⟩
  | write bytes =>
    have h' : WorldInv pf false { w with state := { w.state with bytes := bytes } } _ :=
      ⟨h.heap.setBytes bytes, h.owned⟩
    refine ⟨⟨h'.blocks, f⟩, .single (.write fun p => ?_), _, h', rfl, hstatus⟩
    change (Option.map _ (w.live p)).map _ = (Option.map _ (w.live p)).map _
    rw [Option.map_map, Option.map_map]
    exact congrArg (Option.map · _) (funext fun x => by simp)

/-- A step seen from outside is a step. -/
theorem CallStep.step (h : CallStep pf w l w') : ∃ lab, Step pf w lab w' ∧ pf.GoodLabel lab := by
  cases h with
  | enter hpc hperm hrun hgood => exact ⟨_, .enter hpc hperm hrun, hgood⟩
  | resume hpc hrun hgood => exact ⟨_, .resume hpc hrun, hgood⟩
  | write bytes => exact ⟨_, .write bytes, ⟨fun _ hn => (nomatch hn), fun _ he => nomatch he⟩⟩

/-- Every run has a history. -/
theorem Reachable.history (h : Reachable pf w) :
    ∃ proposals l, Trace (CallStep pf) (.initial proposals) l w := by
  obtain ⟨proposals, hrun⟩ := h
  refine ⟨proposals, ?_⟩
  induction hrun with
  | refl => exact ⟨[], .refl⟩
  | tail _ hst hgood ih =>
    obtain ⟨l, htrace⟩ := ih
    cases hst with
    | enter hpc hperm hrun => exact ⟨_, htrace.tail (.enter hpc hperm hrun hgood)⟩
    | resume hpc hrun => exact ⟨_, htrace.tail (.resume hpc hrun hgood)⟩
    | write bytes => exact ⟨_, htrace.tail (.write bytes)⟩

end

end FastAlloc
