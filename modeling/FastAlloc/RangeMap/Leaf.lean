/-
FastAlloc.RangeMap.Leaf — a run of keys inside one leaf, in closed form.

`cmalloc_map_range` and `cmalloc_unmap_range` go key by key. Between two
changes of leaf all they do is fill, or empty, consecutive slots of one L3
node. Taken leaf by leaf the two loops are the same programs, and a run over
thousands of pages can be evaluated.
-/
import FastAlloc.RangeMap.Write

namespace FastAlloc

open Lib Mem

/-- The leaf once `n` empty slots from `j` on hold `value`. -/
def L3Node.fill (l : L3Node) (j n value : Nat) : L3Node :=
  ⟨fun i => if j ≤ i ∧ i < j + n then value else l.l3 i, (l.count + n) % 2 ^ 64⟩

/-- The leaf once `n` full slots from `j` on are empty. -/
def L3Node.drain (l : L3Node) (j n : Nat) : L3Node :=
  ⟨fun i => if j ≤ i ∧ i < j + n then NULL else l.l3 i, l.count - n⟩

section

variable {l : L3Node} {m : Mem} {s : State} {b i j n r value : Nat}

theorem L3Node.fill_zero (hc : l.count < 2 ^ 64) : l.fill j 0 value = l := by
  unfold fill
  have hslots : (fun i => if j ≤ i ∧ i < j + 0 then value else l.l3 i) = l.l3 := by
    funext i
    exact if_neg fun h => by omega
  rw [hslots, Nat.add_zero, Nat.mod_eq_of_lt hc]

theorem L3Node.drain_zero : l.drain j 0 = l := by
  unfold drain
  have hslots : (fun i => if j ≤ i ∧ i < j + 0 then NULL else l.l3 i) = l.l3 := by
    funext i
    exact if_neg fun h => by omega
  rw [hslots, Nat.sub_zero]

/-- One more slot is filled. -/
theorem L3Node.fill_succ : (⟨Function.update (l.fill j n value).l3 (j + n) value,
    sizeInc (l.fill j n value).count⟩ : L3Node) = l.fill j (n + 1) value := by
  unfold fill
  have hslots : Function.update (fun i => if j ≤ i ∧ i < j + n then value else l.l3 i) (j + n) value
      = fun i => if j ≤ i ∧ i < j + (n + 1) then value else l.l3 i := by
    funext i
    rw [Function.update_apply]
    split
    · exact (if_pos (by omega)).symm
    · refine if_congr ?_ rfl rfl
      omega
  rw [hslots, sizeInc_eq_mod (Nat.mod_lt _ (by decide)), Nat.mod_add_mod, Nat.add_assoc]

/-- One more slot is emptied. -/
theorem L3Node.drain_succ (hn : n < l.count) : (⟨Function.update (l.drain j n).l3 (j + n) NULL,
    sizeDec (l.drain j n).count⟩ : L3Node) = l.drain j (n + 1) := by
  unfold drain
  have hslots : Function.update (fun i => if j ≤ i ∧ i < j + n then NULL else l.l3 i) (j + n) NULL
      = fun i => if j ≤ i ∧ i < j + (n + 1) then NULL else l.l3 i := by
    funext i
    rw [Function.update_apply]
    split
    · exact (if_pos (by omega)).symm
    · refine if_congr ?_ rfl rfl
      omega
  have hcount : l.count - n = l.count - (n + 1) + 1 := by omega
  rw [hslots, hcount, sizeDec_succ]

/-- The next slot is as it was. -/
theorem L3Node.fill_l3_next : (l.fill j n value).l3 (j + n) = l.l3 (j + n) :=
  if_neg fun h => by omega

theorem L3Node.drain_l3_next : (l.drain j n).l3 (j + n) = l.l3 (j + n) :=
  if_neg fun h => by omega

/-! ## The keys of one leaf -/

/-- Keys of one leaf differ in their last index only. -/
theorem sameLeaf_add (h : l3IndexOf i + n ≤ l3Size) (hj : j < n) :
    l1IndexOf (i + j) = l1IndexOf i ∧ l2IndexOf (i + j) = l2IndexOf i ∧
      l3IndexOf (i + j) = l3IndexOf i + j := by
  change l3IndexOf i + n ≤ 2048 at h
  simp only [l1IndexOf_eq, l2IndexOf_eq, l3IndexOf_eq] at *
  omega

/-- The leaf of `i` can be written, and `n` keys from `i` on are in it. -/
structure LeafAt (s : State) (r i n : Nat) : Prop where
  root : Valid r
  l2 : Valid (s.mem.l2Of r i)
  l3 : Valid (s.mem.l3Of r i)
  fits : l3IndexOf i + n ≤ l3Size

/-- The state with another leaf there. -/
def State.putLeaf (s : State) (r i : Nat) (l : L3Node) : State :=
  s.setMem (s.mem.putL3 (s.mem.l3Of r i) l)

def State.leaf (s : State) (r i : Nat) : L3Node := s.mem.l3 (s.mem.l3Of r i)

theorem putLeaf_self : s.putLeaf r i (s.leaf r i) = s := by
  unfold State.putLeaf State.leaf Mem.putL3
  rw [Function.update_eq_self]
  rfl

theorem mem_putLeaf : (s.putLeaf r i l).mem = s.mem.putL3 (s.mem.l3Of r i) l := rfl

theorem putLeaf_l3 : (s.putLeaf r i l).mem.l3 (s.mem.l3Of r i) = l := Function.update_self ..

theorem setL3Count_putLeaf {c : Nat} :
    (s.putLeaf r i l).mem.setL3Count (s.mem.l3Of r i) c = (s.putLeaf r i ⟨l.l3, c⟩).mem := by
  simp [State.putLeaf, Mem.setL3Count, Mem.putL3]

theorem setL3_putLeaf {k : Nat} : (s.putLeaf r i l).mem.setL3 (s.mem.l3Of r i) k value =
    (s.putLeaf r i ⟨Function.update l.l3 k value, l.count⟩).mem := by
  simp [State.putLeaf, Mem.setL3, Mem.putL3]

theorem setMem_putLeaf {l' : L3Node} :
    (s.putLeaf r i l).setMem (s.putLeaf r i l').mem = s.putLeaf r i l' := rfl

/-- Reading along the path of one of the keys of the leaf. -/
theorem LeafAt.load_l2 (h : LeafAt s r i n) (hj : j < n) {α : Type} (f : Nat → M α) :
    (load r (fun m => (m.l1 r).l1 (l1IndexOf (i + j))) >>= f).run (s.putLeaf r i l) =
      (f (s.mem.l2Of r i)).run (s.putLeaf r i l) := by
  obtain ⟨h₁, -⟩ := sameLeaf_add h.fits hj
  refine (Program.run_bind_read (run_load h.root) rfl).trans ?_
  rw [h₁]
  rfl

theorem LeafAt.load_l3 (h : LeafAt s r i n) (hj : j < n) {α : Type} (f : Nat → M α) :
    (load (s.mem.l2Of r i) (fun m => (m.l2 (s.mem.l2Of r i)).l2 (l2IndexOf (i + j))) >>= f).run
      (s.putLeaf r i l) = (f (s.mem.l3Of r i)).run (s.putLeaf r i l) := by
  obtain ⟨-, h₂, -⟩ := sameLeaf_add h.fits hj
  refine (Program.run_bind_read (run_load h.l2) rfl).trans ?_
  rw [h₂, l3Of_of_l2Of h.l2.1]
  rfl

/-- Reading the leaf itself. -/
theorem LeafAt.load_leaf (h : LeafAt s r i n) {α β : Type} (f : L3Node → β) (g : β → M α) :
    (load (s.mem.l3Of r i) (fun m => f (m.l3 (s.mem.l3Of r i))) >>= g).run (s.putLeaf r i l) =
      (g (f l)).run (s.putLeaf r i l) := by
  refine (Program.run_bind_read (run_load h.l3) rfl).trans ?_
  rw [putLeaf_l3]

/-- Storing in it. -/
theorem LeafAt.store_count (h : LeafAt s r i n) {α : Type} (c : Nat) (g : Unit → M α) :
    (store (s.mem.l3Of r i) (·.setL3Count (s.mem.l3Of r i) c) >>= g).run (s.putLeaf r i l) =
      ⟨((g ()).run (s.putLeaf r i ⟨l.l3, c⟩)).result, ((g ()).run (s.putLeaf r i ⟨l.l3, c⟩)).state,
        .store (s.putLeaf r i ⟨l.l3, c⟩).mem :: ((g ()).run (s.putLeaf r i ⟨l.l3, c⟩)).trace⟩ := by
  rw [Program.run_bind_ok (run_store h.l3), setL3Count_putLeaf, setMem_putLeaf]
  rfl

theorem LeafAt.store_slot (h : LeafAt s r i n) {α : Type} (k : Nat) (g : Unit → M α) :
    (store (s.mem.l3Of r i) (·.setL3 (s.mem.l3Of r i) k value) >>= g).run (s.putLeaf r i l) =
      ⟨((g ()).run (s.putLeaf r i ⟨Function.update l.l3 k value, l.count⟩)).result,
        ((g ()).run (s.putLeaf r i ⟨Function.update l.l3 k value, l.count⟩)).state,
        .store (s.putLeaf r i ⟨Function.update l.l3 k value, l.count⟩).mem ::
          ((g ()).run (s.putLeaf r i ⟨Function.update l.l3 k value, l.count⟩)).trace⟩ := by
  rw [Program.run_bind_ok (run_store h.l3), setL3_putLeaf, setMem_putLeaf]
  rfl

/-- The stores of one `cmalloc_map` of a new key of the leaf. -/
def fillStores (s : State) (r value i j : Nat) : List Event :=
  let l := s.leaf r i
  let k := l3IndexOf i
  [.store (s.putLeaf r i ⟨(l.fill k j value).l3, (l.fill k (j + 1) value).count⟩).mem,
    .store (s.putLeaf r i (l.fill k (j + 1) value)).mem]

theorem LeafAt.run_map (h : LeafAt s r i n) (hj : j < n) (alloc : Nat → M Nat) (value : Nat)
    (h0 : (s.leaf r i).l3 (l3IndexOf i + j) = NULL) :
    (cmallocMapWith alloc r value (i + j)).run
      (s.putLeaf r i ((s.leaf r i).fill (l3IndexOf i) j value)) =
    ⟨.ok (), s.putLeaf r i ((s.leaf r i).fill (l3IndexOf i) (j + 1) value),
      fillStores s r value i j⟩ := by
  obtain ⟨h₁, h₂, h₃⟩ := sameLeaf_add h.fits hj
  generalize hS : s.putLeaf r i ((s.leaf r i).fill (l3IndexOf i) j value) = S
  have hl2 : S.mem.l2Of r (i + j) = s.mem.l2Of r i := by
    rw [l2Of_congr h₁, ← hS]
    rfl
  have hl3 : S.mem.l3Of r (i + j) = s.mem.l3Of r i := by
    rw [l3Of_congr h₁ h₂, ← hS]
    rfl
  have hp : S.mem.ValidPath r (i + j) := ⟨h.root, fun _ => hl2 ▸ h.l2, fun _ => hl3 ▸ h.l3⟩
  have hpresent : S.mem.l3Of r (i + j) ≠ NULL := hl3 ▸ h.l3.1
  unfold cmallocMapWith
  refine (Program.run_bind_read (run_ensureL2Node_present hp.root (hl2 ▸ h.l2.1)) rfl).trans ?_
  refine (Program.run_bind_read (run_ensureL3Node_present hp hpresent) rfl).trans ?_
  unfold storeSlot
  rw [← hS, h.load_l2 hj, h.load_l3 hj, h.load_leaf fun l => l.l3 (l3IndexOf (i + j)), h₃,
    L3Node.fill_l3_next, if_pos h0, h.load_leaf L3Node.count, h.store_count, run_store h.l3,
    setL3_putLeaf, setMem_putLeaf, L3Node.fill_succ]
  have hcount : sizeInc ((s.leaf r i).fill (l3IndexOf i) j value).count =
      ((s.leaf r i).fill (l3IndexOf i) (j + 1) value).count := by
    rw [← L3Node.fill_succ]
  rw [hcount]
  rfl

/-- The stores of one `cmalloc_unmap` of a key of the leaf, not its last. -/
def drainStores (s : State) (r i j : Nat) : List Event :=
  let l := s.leaf r i
  let k := l3IndexOf i
  [.store (s.putLeaf r i ⟨(l.drain k (j + 1)).l3, (l.drain k j).count⟩).mem,
    .store (s.putLeaf r i (l.drain k (j + 1))).mem]

theorem LeafAt.run_unmap (h : LeafAt s r i n) (hj : j < n) (free : Nat → Nat → M Unit)
    (h0 : (s.leaf r i).l3 (l3IndexOf i + j) ≠ NULL) (hc : n < (s.leaf r i).count)
    (h2 : (s.mem.l2 (s.mem.l2Of r i)).count ≠ 0) :
    (cmallocUnmapWith free r (i + j)).run
      (s.putLeaf r i ((s.leaf r i).drain (l3IndexOf i) j)) =
    ⟨.ok (), s.putLeaf r i ((s.leaf r i).drain (l3IndexOf i) (j + 1)), drainStores s r i j⟩ := by
  obtain ⟨h₁, h₂, h₃⟩ := sameLeaf_add h.fits hj
  have hdrain := (s.leaf r i).drain_succ (j := l3IndexOf i) (hj.trans hc)
  have hcount : sizeDec ((s.leaf r i).drain (l3IndexOf i) j).count =
      ((s.leaf r i).drain (l3IndexOf i) (j + 1)).count := by
    rw [← hdrain]
  have hslots : Function.update ((s.leaf r i).drain (l3IndexOf i) j).l3 (l3IndexOf i + j) NULL =
      ((s.leaf r i).drain (l3IndexOf i) (j + 1)).l3 := by
    rw [← hdrain]
  have hne : ((s.leaf r i).drain (l3IndexOf i) (j + 1)).count ≠ 0 := by
    change (s.leaf r i).count - (j + 1) ≠ 0
    omega
  unfold cmallocUnmapWith
  rw [h.load_l2 hj, assertThat, if_pos h.l2.1, pure_bind, h.load_l3 hj, assertThat, if_pos h.l3.1,
    pure_bind, h.load_leaf fun l => l.l3 (l3IndexOf (i + j)), h₃, L3Node.drain_l3_next, assertThat,
    if_pos h0, pure_bind, h.store_slot, hslots, h.load_leaf L3Node.count, h.store_count, hcount,
    h.load_leaf L3Node.count, if_neg hne]
  have hdrop : (dropEmptyL2 free r (i + j) (s.mem.l2Of r i)).run
      (s.putLeaf r i ((s.leaf r i).drain (l3IndexOf i) (j + 1))) =
      ⟨.ok (), s.putLeaf r i ((s.leaf r i).drain (l3IndexOf i) (j + 1)), []⟩ := by
    refine Program.run_bind_read (run_load h.l2) ?_
    rw [if_neg (show ((s.putLeaf r i _).mem.l2 (s.mem.l2Of r i)).count ≠ 0 from h2)]
    rfl
  rw [hdrop]
  rfl

/-! ## Leaf by leaf -/

section

variable (alloc : Nat → M Nat) (free : Nat → Nat → M Unit) (r value : Nat)

/-- The leaf `l` of `i` can be reached, and the `n` slots from that of `i` on
are empty. -/
def Fillable (s : State) (i n : Nat) (l : L3Node) : Prop :=
  Valid r ∧ Valid (s.mem.l2Of r i) ∧ Valid (s.mem.l3Of r i) ∧ l3IndexOf i + n ≤ l3Size ∧
    l.count < 2 ^ 64 ∧ (List.range n).all (fun j => decide (l.l3 (l3IndexOf i + j) = NULL))

instance (s : State) (i n : Nat) (l : L3Node) : Decidable (Fillable r s i n l) :=
  inferInstanceAs (Decidable (_ ∧ _ ∧ _ ∧ _ ∧ _ ∧ _))

/-- They are full, and not all the leaf has. -/
def Drainable (s : State) (i n : Nat) (l : L3Node) : Prop :=
  Valid r ∧ Valid (s.mem.l2Of r i) ∧ Valid (s.mem.l3Of r i) ∧ l3IndexOf i + n ≤ l3Size ∧
    n < l.count ∧ (s.mem.l2 (s.mem.l2Of r i)).count ≠ 0 ∧
    (List.range n).all (fun j => decide (l.l3 (l3IndexOf i + j) ≠ NULL))

instance (s : State) (i n : Nat) (l : L3Node) : Decidable (Drainable r s i n l) :=
  inferInstanceAs (Decidable (_ ∧ _ ∧ _ ∧ _ ∧ _ ∧ _ ∧ _))

/-- Map `n` new keys from `i` on, in one step where that can be done. The
leaf is matched on so that evaluation reads it once. -/
def mapInLeaf (i n : Nat) : M Unit where
  run s :=
    match s.leaf r i with
    | ⟨slots, count⟩ =>
      if Fillable r s i n ⟨slots, count⟩ then
        ⟨.ok (), s.putLeaf r i (L3Node.fill ⟨slots, count⟩ (l3IndexOf i) n value),
          (List.range n).flatMap (fillStores s r value i)⟩
      else (Program.loop (fun i => cmallocMapWith alloc r value i) i n).run s

/-- Unmap `n` keys from `i` on, likewise. -/
def unmapInLeaf (i n : Nat) : M Unit where
  run s :=
    match s.leaf r i with
    | ⟨slots, count⟩ =>
      if Drainable r s i n ⟨slots, count⟩ then
        ⟨.ok (), s.putLeaf r i (L3Node.drain ⟨slots, count⟩ (l3IndexOf i) n),
          (List.range n).flatMap (drainStores s r i)⟩
      else (Program.loop (fun i => cmallocUnmapWith free r i) i n).run s

theorem mapInLeaf_eq : mapInLeaf alloc r value i n =
    Program.loop (fun i => cmallocMapWith alloc r value i) i n := by
  refine Program.ext_run fun s => ?_
  by_cases hfill : Fillable r s i n (s.leaf r i)
  · refine (if_pos hfill).trans ?_
    obtain ⟨h₁, h₂, h₃, h₄, hc, h0⟩ := hfill
    have hat : LeafAt s r i n := ⟨h₁, h₂, h₃, h₄⟩
    have hrun := Program.run_loop n fun j hj => hat.run_map hj alloc value
      (of_decide_eq_true (List.all_eq_true.mp h0 j (List.mem_range.mpr hj)))
    rw [L3Node.fill_zero hc, putLeaf_self] at hrun
    exact hrun.symm
  · exact if_neg hfill

theorem unmapInLeaf_eq : unmapInLeaf free r i n =
    Program.loop (fun i => cmallocUnmapWith free r i) i n := by
  refine Program.ext_run fun s => ?_
  by_cases hdrain : Drainable r s i n (s.leaf r i)
  · refine (if_pos hdrain).trans ?_
    obtain ⟨h₁, h₂, h₃, h₄, hc, hl2, h0⟩ := hdrain
    have hat : LeafAt s r i n := ⟨h₁, h₂, h₃, h₄⟩
    have hrun := Program.run_loop n fun j hj => hat.run_unmap hj free
      (of_decide_eq_true (List.all_eq_true.mp h0 j (List.mem_range.mpr hj))) hc hl2
    rw [L3Node.drain_zero, putLeaf_self] at hrun
    exact hrun.symm
  · exact if_neg hdrain

/-- `cmalloc_map_range` of `n` keys from `i` on, over `leaves` leaves at most
in one step each. -/
def mapByLeaf : Nat → Nat → Nat → M Unit
  | 0, i, n => Program.loop (fun i => cmallocMapWith alloc r value i) i n
  | leaves + 1, i, n =>
    if n = 0 then pure ()
    else do
      cmallocMapWith alloc r value i
      let rest := min (n - 1) (l3Size - 1 - l3IndexOf i)
      mapInLeaf alloc r value (i + 1) rest
      mapByLeaf leaves (i + 1 + rest) (n - 1 - rest)

/-- `cmalloc_unmap_range`, likewise. -/
def unmapByLeaf : Nat → Nat → Nat → M Unit
  | 0, i, n => Program.loop (fun i => cmallocUnmapWith free r i) i n
  | leaves + 1, i, n =>
    if n = 0 then pure ()
    else do
      let rest := min (n - 1) (l3Size - 1 - l3IndexOf i)
      unmapInLeaf free r i rest
      cmallocUnmapWith free r (i + rest)
      unmapByLeaf leaves (i + rest + 1) (n - 1 - rest)

theorem mapByLeaf_eq (leaves : Nat) : ∀ i n, mapByLeaf alloc r value leaves i n =
    Program.loop (fun i => cmallocMapWith alloc r value i) i n := by
  induction leaves with
  | zero => exact fun i n => rfl
  | succ leaves ih =>
    intro i n
    unfold mapByLeaf
    cases n with
    | zero => rfl
    | succ n =>
      have hsplit : n = min n (l3Size - 1 - l3IndexOf i) + (n - min n (l3Size - 1 - l3IndexOf i)) := by
        omega
      rw [if_neg (Nat.succ_ne_zero n), Nat.add_sub_cancel]
      refine bind_congr fun _ => ?_
      dsimp only
      rw [mapInLeaf_eq]
      conv_rhs => rw [hsplit, Program.loop_add]
      exact bind_congr fun _ => ih _ _

theorem unmapByLeaf_eq (leaves : Nat) : ∀ i n, unmapByLeaf free r leaves i n =
    Program.loop (fun i => cmallocUnmapWith free r i) i n := by
  induction leaves with
  | zero => exact fun i n => rfl
  | succ leaves ih =>
    intro i n
    unfold unmapByLeaf
    cases n with
    | zero => rfl
    | succ n =>
      have hsplit : n + 1 = min n (l3Size - 1 - l3IndexOf i) + 1 +
          (n - min n (l3Size - 1 - l3IndexOf i)) := by
        omega
      rw [if_neg (Nat.succ_ne_zero n), Nat.add_sub_cancel]
      dsimp only
      rw [unmapInLeaf_eq]
      conv_rhs => rw [hsplit, Program.loop_add, Program.loop_succ, bind_assoc]
      exact bind_congr fun _ => bind_congr fun _ => ih _ _

end

end

end FastAlloc
