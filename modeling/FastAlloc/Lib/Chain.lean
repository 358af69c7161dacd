/-
FastAlloc.Lib.Chain — null-terminated linked lists in memory.

`Chain null next p l` says that following `next` from `p` meets the nodes
`l` and then `null`. `next` is a function, so a chain cannot visit a node
twice and its list is determined by where it starts.

`Linked null next prev before p l` is the doubly linked version: every node
also points back, the first one to `before`.
-/
import Mathlib.Data.List.Nodup
import Mathlib.Logic.Function.Basic

namespace FastAlloc.Lib

variable {α : Type} {null : α} {next next' prev prev' : α → α} {before p q a b : α} {l l' : List α}

/-! ## Singly linked -/

def Chain (null : α) (next : α → α) : α → List α → Prop
  | p, [] => p = null
  | p, a :: l => p = a ∧ a ≠ null ∧ Chain null next (next a) l

namespace Chain

theorem ne_null (h : Chain null next p l) : ∀ a ∈ l, a ≠ null := by
  induction l generalizing p with
  | nil => simp
  | cons b l ih =>
    obtain ⟨-, hb, hl⟩ := h
    intro a ha
    rcases List.mem_cons.mp ha with rfl | ha
    · exact hb
    · exact ih hl a ha

theorem eq_nil_iff (h : Chain null next p l) : l = [] ↔ p = null := by
  cases l with
  | nil => exact ⟨fun _ => h, fun _ => rfl⟩
  | cons a l => exact ⟨fun h' => by simp at h', fun h' => absurd (h.1 ▸ h') h.2.1⟩

theorem of_null (h : Chain null next null l) : l = [] := h.eq_nil_iff.mpr rfl

/-- A chain that starts somewhere starts with that node. -/
theorem exists_tail (h : Chain null next p l) (hp : p ≠ null) :
    ∃ l', l = p :: l' ∧ Chain null next (next p) l' := by
  cases l with
  | nil => exact absurd h hp
  | cons a l =>
    obtain ⟨rfl, -, hl⟩ := h
    exact ⟨l, rfl, hl⟩

/-- Where a chain starts determines its nodes. -/
theorem unique (h : Chain null next p l) (h' : Chain null next p l') : l = l' := by
  induction l generalizing p l' with
  | nil => exact (Chain.of_null (h ▸ h')).symm
  | cons a l ih =>
    obtain ⟨rfl, ha, hl⟩ := h
    obtain ⟨l'', rfl, hl''⟩ := h'.exists_tail ha
    rw [ih hl hl'']

/-- Each node starts the rest of the chain. -/
theorem of_mem (h : Chain null next p l) (ha : a ∈ l) :
    ∃ l₁ l₂, l = l₁ ++ a :: l₂ ∧ Chain null next a (a :: l₂) := by
  induction l generalizing p with
  | nil => simp at ha
  | cons b l ih =>
    rcases List.mem_cons.mp ha with rfl | ha
    · exact ⟨[], l, rfl, rfl, h.2.1, h.2.2⟩
    · obtain ⟨l₁, l₂, rfl, h'⟩ := ih h.2.2 ha
      exact ⟨b :: l₁, l₂, rfl, h'⟩

/-- No node is met twice. -/
theorem nodup (h : Chain null next p l) : l.Nodup := by
  induction l generalizing p with
  | nil => exact List.nodup_nil
  | cons a l ih =>
    refine List.nodup_cons.mpr ⟨fun ha => ?_, ih h.2.2⟩
    obtain ⟨l₁, l₂, hl, h'⟩ := of_mem h.2.2 ha
    have he : a :: l = a :: l₂ := unique (p := a) ⟨rfl, h.2.1, h.2.2⟩ h'
    have hlen := congrArg List.length hl
    rw [(List.cons.inj he).2] at hlen
    simp at hlen
    omega

theorem congr (h : Chain null next p l) (hn : ∀ a ∈ l, next' a = next a) :
    Chain null next' p l := by
  induction l generalizing p with
  | nil => exact h
  | cons a l ih =>
    refine ⟨h.1, h.2.1, ?_⟩
    rw [hn a (List.mem_cons_self ..)]
    exact ih h.2.2 fun b hb => hn b (List.mem_cons_of_mem _ hb)

/-- Linking `a` in front. -/
theorem push (h : Chain null next p l) (ha : a ≠ null) (hp : next' a = p)
    (hn : ∀ b ∈ l, next' b = next b) : Chain null next' a (a :: l) :=
  ⟨rfl, ha, hp ▸ h.congr hn⟩

end Chain

/-- Following `next` from `p` meets exactly the nodes in `S`, and ends. -/
def ChainOf (null : α) (next : α → α) (p : α) (S : α → Prop) : Prop :=
  ∃ l, Chain null next p l ∧ ∀ a, a ∈ l ↔ S a

namespace ChainOf

variable {S S' : α → Prop}

theorem nil (hS : ∀ a, ¬ S a) : ChainOf null next null S :=
  ⟨[], rfl, fun a => by simp [hS a]⟩

theorem ne_null (h : ChainOf null next p S) (ha : S a) : a ≠ null := by
  obtain ⟨l, hl, hS⟩ := h
  exact hl.ne_null a ((hS a).mpr ha)

theorem head_mem (h : ChainOf null next p S) (hp : p ≠ null) : S p := by
  obtain ⟨l, hl, hS⟩ := h
  obtain ⟨l', rfl, -⟩ := hl.exists_tail hp
  exact (hS p).mp (List.mem_cons_self ..)

theorem eq_null_iff (h : ChainOf null next p S) : p = null ↔ ∀ a, ¬ S a := by
  constructor
  · rintro rfl a ha
    obtain ⟨l, hl, hS⟩ := h
    obtain rfl := hl.of_null
    exact absurd ((hS a).mpr ha) (List.not_mem_nil)
  · intro hS
    by_contra hp
    exact hS p (h.head_mem hp)

theorem congr (h : ChainOf null next p S) (hn : ∀ a, S a → next' a = next a)
    (hS : ∀ a, S' a ↔ S a) : ChainOf null next' p S' := by
  obtain ⟨l, hl, hm⟩ := h
  exact ⟨l, hl.congr fun a ha => hn a ((hm a).mp ha), fun a => (hm a).trans (hS a).symm⟩

/-- Taking the first node off. -/
theorem pop (h : ChainOf null next p S) (hp : p ≠ null) :
    ChainOf null next (next p) fun a => S a ∧ a ≠ p := by
  obtain ⟨l, hl, hm⟩ := h
  have hnd := hl.nodup
  obtain ⟨l', rfl, hl'⟩ := hl.exists_tail hp
  refine ⟨l', hl', fun a => ?_⟩
  have hpl : p ∉ l' := (List.nodup_cons.mp hnd).1
  constructor
  · intro ha
    exact ⟨(hm a).mp (List.mem_cons_of_mem _ ha), fun he => hpl (he ▸ ha)⟩
  · rintro ⟨ha, hne⟩
    exact (List.mem_cons.mp ((hm a).mpr ha)).resolve_left hne

/-- Linking `a` in front. -/
theorem push (h : ChainOf null next p S) (ha : a ≠ null) (hp : next' a = p)
    (hn : ∀ b, S b → next' b = next b) : ChainOf null next' a fun b => b = a ∨ S b := by
  obtain ⟨l, hl, hm⟩ := h
  refine ⟨a :: l, hl.push ha hp fun b hb => hn b ((hm b).mp hb), fun b => ?_⟩
  rw [List.mem_cons, hm b]

end ChainOf

/-! ## Doubly linked -/

def Linked (null : α) (next prev : α → α) : α → α → List α → Prop
  | _, p, [] => p = null
  | before, p, a :: l => p = a ∧ a ≠ null ∧ prev a = before ∧ Linked null next prev a (next a) l

namespace Linked

theorem chain (h : Linked null next prev before p l) : Chain null next p l := by
  induction l generalizing before p with
  | nil => exact h
  | cons a l ih => exact ⟨h.1, h.2.1, ih h.2.2.2⟩

theorem congr (h : Linked null next prev before p l) (hn : ∀ a ∈ l, next' a = next a)
    (hp : ∀ a ∈ l, prev' a = prev a) : Linked null next' prev' before p l := by
  induction l generalizing before p with
  | nil => exact h
  | cons a l ih =>
    refine ⟨h.1, h.2.1, (hp a (List.mem_cons_self ..)).trans h.2.2.1, ?_⟩
    rw [hn a (List.mem_cons_self ..)]
    exact ih h.2.2.2 (fun b hb => hn b (List.mem_cons_of_mem _ hb))
      fun b hb => hp b (List.mem_cons_of_mem _ hb)

/-- The first node can be given another predecessor. -/
theorem rehead (h : Linked null next prev before p l) (hn : ∀ b ∈ l, next' b = next b)
    (hp : p ≠ null → prev' p = q) (hpo : ∀ b ∈ l, b ≠ p → prev' b = prev b) :
    Linked null next' prev' q p l := by
  cases l with
  | nil => exact h
  | cons a l =>
    have hnd := h.chain.nodup
    obtain ⟨rfl, ha, hpa, hl⟩ := h
    refine ⟨rfl, ha, hp ha, ?_⟩
    rw [hn p (List.mem_cons_self ..)]
    refine hl.congr (fun b hb => hn b (List.mem_cons_of_mem _ hb)) fun b hb => ?_
    exact hpo b (List.mem_cons_of_mem _ hb) fun he => (List.nodup_cons.mp hnd).1 (he ▸ hb)

/-- The nodes from `a` on are linked too. -/
theorem tail (h : Linked null next prev before p (l ++ a :: l')) :
    ∃ q, Linked null next prev q a (a :: l') := by
  induction l generalizing before p with
  | nil =>
    obtain ⟨rfl, ha, hp, hl⟩ := h
    exact ⟨before, rfl, ha, hp, hl⟩
  | cons x l ih => exact ih h.2.2.2

/-- The node after `a` is `null` or one of the nodes that follow. -/
theorem next_mem (h : Linked null next prev before p (l ++ a :: l')) (hn : next a ≠ null) :
    next a ∈ l' := by
  obtain ⟨q, -, -, -, hl⟩ := h.tail
  obtain ⟨l'', rfl, -⟩ := hl.chain.exists_tail hn
  exact List.mem_cons_self ..

theorem ne_next (h : Linked null next prev before p (l ++ a :: l')) (hb : b ∈ l ∨ b = a) :
    b ≠ next a := by
  intro he
  have hmem : b ∈ l ++ a :: l' := by
    rcases hb with hb | rfl
    · exact List.mem_append_left _ hb
    · exact List.mem_append_right _ (List.mem_cons_self ..)
  have hb' : b ∈ l' := he ▸ h.next_mem (he ▸ h.chain.ne_null b hmem)
  have hnd := List.nodup_append.mp h.chain.nodup
  rcases hb with hb | rfl
  · exact hnd.2.2 b hb b (List.mem_cons_of_mem _ hb') rfl
  · exact (List.nodup_cons.mp hnd.2.1).1 hb'

/-- Linking `a` in front. -/
theorem push (h : Linked null next prev before p l) (ha : a ≠ null)
    (hna : next' a = p) (hpa : prev' a = before) (hpp : p ≠ null → prev' p = a)
    (hn : ∀ b ∈ l, next' b = next b) (hp : ∀ b ∈ l, b ≠ p → prev' b = prev b) :
    Linked null next' prev' before a (a :: l) :=
  ⟨rfl, ha, hpa, hna ▸ h.rehead hn hpp hp⟩

/-- Linking `b` after `a`. -/
theorem insertAfter (h : Linked null next prev before p (l ++ a :: l')) (hb : b ≠ null)
    (hna : next' a = b) (hnb : next' b = next a) (hpb : prev' b = a)
    (hpn : next a ≠ null → prev' (next a) = b)
    (hn : ∀ x, x ∈ l ∨ x ∈ l' → next' x = next x)
    (hp : ∀ x, x ∈ l ∨ x = a ∨ x ∈ l' → x ≠ next a → prev' x = prev x) :
    Linked null next' prev' before p (l ++ a :: b :: l') := by
  induction l generalizing before p with
  | nil =>
    have hself : a ≠ next a := h.ne_next (.inr rfl)
    obtain ⟨rfl, ha, hpa, hl⟩ := h
    refine ⟨rfl, ha, (hp p (.inr (.inl rfl)) hself).trans hpa, ?_⟩
    rw [hna]
    refine ⟨rfl, hb, hpb, ?_⟩
    rw [hnb]
    exact hl.rehead (fun x hx => hn x (.inr hx)) hpn fun x hx hne => hp x (.inr (.inr hx)) hne
  | cons x l ih =>
    have hxa : x ≠ next a := h.ne_next (.inl (List.mem_cons_self ..))
    obtain ⟨rfl, hx0, hpx, hl⟩ := h
    refine ⟨rfl, hx0, (hp p (.inl (List.mem_cons_self ..)) hxa).trans hpx, ?_⟩
    rw [hn p (.inl (List.mem_cons_self ..))]
    refine ih hl (fun y hy => hn y (hy.imp_left (List.mem_cons_of_mem _))) fun y hy =>
      hp y (hy.imp_left (List.mem_cons_of_mem _))

/-- Only the first node points back to `before`. -/
theorem prev_mem (h : Linked null next prev before p (l ++ a :: l')) :
    l = [] ∧ prev a = before ∨ prev a ∈ l := by
  induction l generalizing before p with
  | nil => exact .inl ⟨rfl, h.2.2.1⟩
  | cons x l ih =>
    obtain ⟨rfl, -, -, hl⟩ := h
    rcases ih hl with ⟨-, he⟩ | hm
    · exact .inr (he ▸ List.mem_cons_self ..)
    · exact .inr (List.mem_cons_of_mem _ hm)

/-- Taking `a` out. -/
theorem remove [DecidableEq α] (h : Linked null next prev before p (l ++ a :: l'))
    (hb : before ∉ l ++ a :: l')
    (hn : ∀ x, x ∈ l ∨ x ∈ l' → next' x = if x = prev a then next a else next x)
    (hp : ∀ x, x ∈ l ∨ x ∈ l' → prev' x = if x = next a then prev a else prev x) :
    Linked null next' prev' before (if l = [] then next a else p) (l ++ l') := by
  induction l generalizing before p with
  | nil =>
    have hnext := h.next_mem
    obtain ⟨rfl, ha, hpa, hl⟩ := h
    refine hl.rehead (fun x hx => ?_) (fun h0 => ?_) fun x hx hne => ?_
    · rw [hn x (.inr hx), hpa, if_neg]
      rintro rfl
      exact hb (List.mem_cons_of_mem _ hx)
    · rw [hp _ (.inr (hnext h0)), if_pos rfl, hpa]
    · rw [hp x (.inr hx), if_neg hne]
  | cons x l ih =>
    have hxa : x ≠ next a := h.ne_next (.inl (List.mem_cons_self ..))
    have hnd := List.nodup_cons.mp h.chain.nodup
    obtain ⟨rfl, hx0, hpx, hl⟩ := h
    refine ⟨rfl, hx0, ?_, ?_⟩
    · rw [hp p (.inl (List.mem_cons_self ..)), if_neg hxa, hpx]
    have hrest := ih hl hnd.1 (fun y hy => hn y (hy.imp_left (List.mem_cons_of_mem _)))
      fun y hy => hp y (hy.imp_left (List.mem_cons_of_mem _))
    have hnext : next' p = if l = [] then next a else next p := by
      rw [hn p (.inl (List.mem_cons_self ..))]
      rcases hl.prev_mem with ⟨rfl, he⟩ | hm
      · rw [if_pos he.symm, if_pos rfl]
      · have hne : p ≠ prev a := fun he => hnd.1 (he ▸ List.mem_append_left _ hm)
        rw [if_neg hne, if_neg (List.ne_nil_of_mem hm)]
    rwa [hnext]

end Linked

/-- The nodes in `S` form a doubly linked list that starts at `p`. -/
def LinkedOf (null : α) (next prev : α → α) (p : α) (S : α → Prop) : Prop :=
  ∃ l, Linked null next prev null p l ∧ ∀ a, a ∈ l ↔ S a

namespace LinkedOf

variable {S S' : α → Prop}

theorem chainOf (h : LinkedOf null next prev p S) : ChainOf null next p S := by
  obtain ⟨l, hl, hS⟩ := h
  exact ⟨l, hl.chain, hS⟩

theorem nil (hS : ∀ a, ¬ S a) : LinkedOf null next prev null S :=
  ⟨[], rfl, fun a => by simp [hS a]⟩

theorem congr (h : LinkedOf null next prev p S) (hn : ∀ a, S a → next' a = next a)
    (hp : ∀ a, S a → prev' a = prev a) (hS : ∀ a, S' a ↔ S a) :
    LinkedOf null next' prev' p S' := by
  obtain ⟨l, hl, hm⟩ := h
  exact ⟨l, hl.congr (fun a ha => hn a ((hm a).mp ha)) fun a ha => hp a ((hm a).mp ha),
    fun a => (hm a).trans (hS a).symm⟩

/-- Linking `a` in front. -/
theorem push (h : LinkedOf null next prev p S) (ha : a ≠ null) (hna : next' a = p)
    (hpa : prev' a = null) (hpp : p ≠ null → prev' p = a) (hn : ∀ b, S b → next' b = next b)
    (hp : ∀ b, S b → b ≠ p → prev' b = prev b) :
    LinkedOf null next' prev' a fun b => b = a ∨ S b := by
  obtain ⟨l, hl, hm⟩ := h
  refine ⟨a :: l, hl.push ha hna hpa hpp (fun b hb => hn b ((hm b).mp hb))
    fun b hb => hp b ((hm b).mp hb), fun b => ?_⟩
  rw [List.mem_cons, hm b]

/-- The node before a member, and the node after it, are members. -/
theorem prev_mem (h : LinkedOf null next prev p S) (ha : S a) (h0 : prev a ≠ null) :
    S (prev a) ∧ prev a ≠ a := by
  obtain ⟨l, hl, hm⟩ := h
  obtain ⟨l₁, l₂, rfl⟩ := List.append_of_mem ((hm a).mpr ha)
  have hmem := hl.prev_mem.resolve_left fun he => h0 he.2
  refine ⟨(hm _).mp (List.mem_append_left _ hmem), fun he => ?_⟩
  exact (List.nodup_append.mp hl.chain.nodup).2.2 _ hmem _ (List.mem_cons_self ..) he

theorem next_mem (h : LinkedOf null next prev p S) (ha : S a) (h0 : next a ≠ null) :
    S (next a) ∧ next a ≠ a := by
  obtain ⟨l, hl, hm⟩ := h
  obtain ⟨l₁, l₂, rfl⟩ := List.append_of_mem ((hm a).mpr ha)
  exact ⟨(hm _).mp (List.mem_append_right _ (List.mem_cons_of_mem _ (hl.next_mem h0))),
    (hl.ne_next (.inr rfl)).symm⟩

/-- The node after a member points back to it. -/
theorem prev_next (h : LinkedOf null next prev p S) (ha : S a) (h0 : next a ≠ null) :
    prev (next a) = a := by
  obtain ⟨l, hl, hm⟩ := h
  obtain ⟨l₁, l₂, rfl⟩ := List.append_of_mem ((hm a).mpr ha)
  obtain ⟨q, -, -, -, hrest⟩ := hl.tail
  cases l₂ with
  | nil => exact absurd hrest h0
  | cons b l₂ => exact hrest.1 ▸ hrest.2.2.1

/-- Only the first node has nothing before it. -/
theorem prev_eq_null_iff (h : LinkedOf null next prev p S) (ha : S a) :
    prev a = null ↔ a = p := by
  obtain ⟨l, hl, hm⟩ := h
  obtain ⟨l₁, l₂, rfl⟩ := List.append_of_mem ((hm a).mpr ha)
  constructor
  · intro h0
    rcases hl.prev_mem with ⟨rfl, -⟩ | hmem
    · exact hl.1.symm
    · exact absurd h0 (hl.chain.ne_null _ (List.mem_append_left _ hmem))
  · rintro rfl
    cases l₁ with
    | nil => exact hl.2.2.1
    | cons x l₁ =>
      have hnd := (List.nodup_cons.mp hl.chain.nodup).1
      obtain ⟨rfl, -⟩ := hl
      exact absurd (List.mem_append_right _ (List.mem_cons_self ..)) hnd

/-- Taking `a` out. -/
theorem remove [DecidableEq α] (h : LinkedOf null next prev p S) (ha : S a)
    (hn : ∀ x, S x → x ≠ a → next' x = if x = prev a then next a else next x)
    (hp : ∀ x, S x → x ≠ a → prev' x = if x = next a then prev a else prev x) :
    LinkedOf null next' prev' (if prev a = null then next a else p) fun x => S x ∧ x ≠ a := by
  obtain ⟨l, hl, hm⟩ := h
  obtain ⟨l₁, l₂, rfl⟩ := List.append_of_mem ((hm a).mpr ha)
  have hnd := List.nodup_append.mp hl.chain.nodup
  have hS : ∀ x, x ∈ l₁ ∨ x ∈ l₂ → S x ∧ x ≠ a := by
    rintro x (hx | hx)
    · exact ⟨(hm x).mp (List.mem_append_left _ hx), hnd.2.2 x hx a (List.mem_cons_self ..)⟩
    · refine ⟨(hm x).mp (List.mem_append_right _ (List.mem_cons_of_mem _ hx)), ?_⟩
      rintro rfl
      exact (List.nodup_cons.mp hnd.2.1).1 hx
  have hnull : null ∉ l₁ ++ a :: l₂ := fun h0 => hl.chain.ne_null _ h0 rfl
  have hrem := hl.remove hnull (fun x hx => hn x (hS x hx).1 (hS x hx).2)
    fun x hx => hp x (hS x hx).1 (hS x hx).2
  have hhead : (if prev a = null then next a else p) = if l₁ = [] then next a else p := by
    rcases hl.prev_mem with ⟨rfl, he⟩ | hmem
    · rw [if_pos he, if_pos rfl]
    · rw [if_neg (hl.chain.ne_null _ (List.mem_append_left _ hmem)),
        if_neg (List.ne_nil_of_mem hmem)]
  rw [hhead]
  refine ⟨_, hrem, fun x => ⟨fun hx => hS x (List.mem_append.mp hx), fun ⟨hx, hne⟩ => ?_⟩⟩
  rcases List.mem_append.mp ((hm x).mpr hx) with hx | hx
  · exact List.mem_append_left _ hx
  · exact List.mem_append_right _ ((List.mem_cons.mp hx).resolve_left hne)

end LinkedOf

end FastAlloc.Lib
