/-
FastAlloc.Arena.Bump — the part of `cmalloc_alloc_metadata` that takes an
object from the end of the current chunk, or of a new one.
-/
import FastAlloc.Arena.Layout

namespace FastAlloc

open Lib Mem

/-- Metadata calls leave the other global variables alone; they add only
mappings of their own, and change no byte of an old mapping. -/
structure Undisturbed (s s' : State) : Prop where
  pageMap : s'.pageMap = s.pageMap
  dataArena : s'.dataArena = s.dataArena
  uninitilizedSpanBin : s'.uninitilizedSpanBin = s.uninitilizedSpanBin
  nonEmptyBitmap : s'.nonEmptyBitmap = s.nonEmptyBitmap
  threadLocalBin : s'.threadLocalBin = s.threadLocalBin
  maps_kept : ∀ r ∈ s.maps, r ∈ s'.maps
  maps_new : ∀ r ∈ s'.maps, r ∈ s.maps ∨ r.site = .metaChunk
  bytes : ∀ r ∈ s.maps, ∀ p, r.base ≤ p → p < r.base + r.len → s'.bytes p = s.bytes p

theorem Undisturbed.refl (s : State) : Undisturbed s s :=
  ⟨rfl, rfl, rfl, rfl, rfl, fun _ h => h, fun _ h => .inl h, fun _ _ _ _ _ => rfl⟩

theorem Undisturbed.trans {s₁ s₂ s₃ : State} (h : Undisturbed s₁ s₂) (h' : Undisturbed s₂ s₃) :
    Undisturbed s₁ s₃ where
  pageMap := h'.pageMap.trans h.pageMap
  dataArena := h'.dataArena.trans h.dataArena
  uninitilizedSpanBin := h'.uninitilizedSpanBin.trans h.uninitilizedSpanBin
  nonEmptyBitmap := h'.nonEmptyBitmap.trans h.nonEmptyBitmap
  threadLocalBin := h'.threadLocalBin.trans h.threadLocalBin
  maps_kept r hr := h'.maps_kept r (h.maps_kept r hr)
  maps_new r hr := (h'.maps_new r hr).elim (h.maps_new r) .inr
  bytes r hr p h₁ h₂ := (h'.bytes r (h.maps_kept r hr) p h₁ h₂).trans (h.bytes r hr p h₁ h₂)

theorem Undisturbed.setMem (s : State) (m : Mem) : Undisturbed s (s.setMem m) :=
  ⟨rfl, rfl, rfl, rfl, rfl, fun _ h => h, fun _ h => .inl h, fun _ _ _ _ _ => rfl⟩

/-- Every object of the arena, whatever it is used for. -/
def sizes (st : Nat → Slot) (a : Nat) : Option Nat := (st a).size

section

variable {A : Event → Prop} {I : Mem → Prop} {pf : Platform} {s : State} {st : Nat → Slot}
  {c size : Nat}

theorem Platform.sixteen_dvd (pf : Platform) : 16 ∣ pf.pageSize :=
  (pow_dvd_pow 2 (show 4 ≤ pf.pageShift from le_trans (by decide) pf.twelve_le))

theorem MapsOk.base_mod {maps : List Region} (h : MapsOk pf maps) {r : Region} (hr : r ∈ maps) :
    r.base % 16 = 0 :=
  Nat.mod_eq_zero_of_dvd (pf.sixteen_dvd.trans (Nat.dvd_of_mod_eq_zero (h.aligned r hr)))

theorem Layout.valid_chunk (h : Layout pf s st) (hc : metaRegion c ∈ s.maps) : Valid c := by
  have hbase := h.maps_ok.base _ hc
  have hbelow : c + metaChunkSize ≤ 2 ^ 47 := h.maps_ok.below _ hc
  have : metaChunkSize = 4194304 := rfl
  exact valid_of_lt hbase (by omega)

/-- The memory once `size` bytes are taken from the chunk `c`. -/
def Mem.takeFrom (m : Mem) (c size : Nat) : Mem :=
  m.setMetaChunk c fun k => { k with cur := alignUpPtr ((m.metaChunk c).cur + size) }

theorem Mem.metaChunk_takeFrom_self {m : Mem} : (m.takeFrom c size).metaChunk c
    = { m.metaChunk c with cur := alignUpPtr ((m.metaChunk c).cur + size) } := by
  simp [takeFrom, Mem.setMetaChunk]

theorem Mem.metaChunk_takeFrom_of_ne {m : Mem} {b : Nat} (h : b ≠ c) :
    (m.takeFrom c size).metaChunk b = m.metaChunk b := by
  simp [takeFrom, Mem.setMetaChunk, h]

/-- No object lies at or after the `cur` of a chunk that has room. -/
theorem Layout.size_cur (h : Layout pf s st) (hc : metaRegion c ∈ s.maps)
    (hroom : (s.mem.metaChunk c).cur < c + metaChunkSize) :
    (st (s.mem.metaChunk c).cur).size = none := by
  by_contra hne
  obtain ⟨sz, hsz⟩ := Option.ne_none_iff_exists'.mp hne
  obtain ⟨c', hc', h₁, h₂⟩ := h.placed _ sz hsz
  have hpos := (h.isSize _ sz hsz).bounds.1
  have hk := h.chunk c hc
  have hk' := h.chunk c' hc'
  have he : metaRegion c' = metaRegion c := h.maps_ok.eq_of_mem hc' hc
    (a := (s.mem.metaChunk c).cur) (show c' ≤ _ by omega) (show _ < c' + metaChunkSize by omega)
    (show c ≤ _ by omega) hroom
  obtain rfl : c' = c := congrArg Region.base he
  omega

theorem Layout.takeFrom (h : Layout pf s st) (hc : metaRegion c ∈ s.maps) (hsz : IsSize size)
    (hroom : (s.mem.metaChunk c).cur + size ≤ c + metaChunkSize) :
    Layout pf (s.setMem (s.mem.takeFrom c size))
      (Function.update st (s.mem.metaChunk c).cur (.out size)) := by
  have hb := hsz.bounds
  have hk := h.chunk c hc
  have hbelow : c + metaChunkSize ≤ 2 ^ 47 := h.maps_ok.below _ hc
  have hc16 : c % 16 = 0 := h.maps_ok.base_mod hc
  have hlen : metaChunkSize = 4194304 := rfl
  obtain ⟨hu₁, hu₂, hu₃⟩ := alignUpPtr_bounds (p := (s.mem.metaChunk c).cur + size) (by omega)
  have hnone := h.size_cur hc (by omega)
  -- objects keep their place: `cur` only grows
  have hcur : ∀ c', (s.mem.metaChunk c').cur ≤ ((s.mem.takeFrom c size).metaChunk c').cur := by
    intro c'
    by_cases he : c' = c
    · subst he
      rw [metaChunk_takeFrom_self]
      dsimp only
      omega
    · rw [metaChunk_takeFrom_of_ne he]
  have hsize : ∀ a sz, (Function.update st (s.mem.metaChunk c).cur (.out size) a).size = some sz →
      a = (s.mem.metaChunk c).cur ∧ sz = size ∨
        a ≠ (s.mem.metaChunk c).cur ∧ (st a).size = some sz := by
    intro a sz ha
    by_cases he : a = (s.mem.metaChunk c).cur
    · rw [he, Function.update_self] at ha
      exact .inl ⟨he, (Option.some.inj ha).symm⟩
    · rw [Function.update_of_ne he] at ha
      exact .inr ⟨he, ha⟩
  -- an old object ends before the new one or lies in another chunk
  have hold : ∀ a sz, (st a).size = some sz → a + sz ≤ (s.mem.metaChunk c).cur ∨
      (s.mem.metaChunk c).cur + size ≤ a := by
    intro a sz ha
    obtain ⟨c', hc', h₁, h₂⟩ := h.placed a sz ha
    by_cases he : c' = c
    · subst he
      exact .inl h₂
    · have hk' := h.chunk c' hc'
      have hd : c' + metaChunkSize ≤ c ∨ c + metaChunkSize ≤ c' := by
        have : Std.Symm Region.Disjoint := ⟨fun _ _ => Or.symm⟩
        exact h.maps_ok.disjoint.forall hc' hc fun hr => he (congrArg Region.base hr)
      omega
  constructor
  case maps_ok => exact h.maps_ok
  case meta_len => exact h.meta_len
  case chunks =>
    refine h.chunks.congr (fun c' _ => ?_) fun _ => Iff.rfl
    by_cases he : c' = c
    · subst he
      rw [State.setMem_mem, metaChunk_takeFrom_self]
    · rw [State.setMem_mem, metaChunk_takeFrom_of_ne he]
  case chunk =>
    intro c' hc'
    have hk' := h.chunk c' hc'
    by_cases he : c' = c
    · subst he
      rw [State.setMem_mem, metaChunk_takeFrom_self]
      exact ⟨by dsimp only; omega, by dsimp only; omega, hu₃, hk.2.2.2⟩
    · rw [State.setMem_mem, metaChunk_takeFrom_of_ne he]
      exact hk'
  case isSize =>
    intro a sz ha
    rcases hsize a sz ha with ⟨rfl, rfl⟩ | ⟨-, ha⟩
    · exact hsz
    · exact h.isSize a sz ha
  case aligned =>
    intro a sz ha
    rcases hsize a sz ha with ⟨rfl, rfl⟩ | ⟨-, ha⟩
    · exact hk.2.2.1
    · exact h.aligned a sz ha
  case placed =>
    intro a sz ha
    rcases hsize a sz ha with ⟨rfl, rfl⟩ | ⟨-, ha⟩
    · refine ⟨c, hc, hk.1, ?_⟩
      rw [State.setMem_mem, metaChunk_takeFrom_self]
      exact hu₁
    · obtain ⟨c', hc', h₁, h₂⟩ := h.placed a sz ha
      exact ⟨c', hc', h₁, h₂.trans (hcur c')⟩
  case apart =>
    intro a b sa sb hne ha hb'
    rcases hsize a sa ha with ⟨rfl, rfl⟩ | ⟨-, ha'⟩ <;>
      rcases hsize b sb hb' with ⟨rfl, rfl⟩ | ⟨-, hb''⟩
    · exact absurd rfl hne
    · exact (hold b sb hb'').symm
    · exact hold a sa ha'
    · exact h.apart a b sa sb hne ha' hb''
  case fresh =>
    intro a ha
    refine h.fresh a ?_
    by_cases he : a = (s.mem.metaChunk c).cur
    · rw [he]; exact hnone
    · rwa [Function.update_of_ne he] at ha

/-- What taking an object of `size` bytes from the end of a chunk does. -/
structure Bumped (pf : Platform) (size : Nat) (st : Nat → Slot) (s : State) (a : Nat)
    (s' : State) : Prop where
  unused : (st a).size = none
  layout : Layout pf s' (Function.update st a (.out size))
  agree : Agree (sizes st) s.mem s'.mem
  zero : s'.mem.l1 a = .zero
  freeListMap : s'.freeListMap = s.freeListMap
  undisturbed : Undisturbed s s'

theorem takeFromArena_spec (h : Layout pf s st) (hsz : IsSize size) (hc : s.metaArena ≠ NULL)
    (hroom : (s.mem.metaChunk s.metaArena).cur + size ≤ s.metaArena + metaChunkSize)
    (hI : ∀ m', Agree (sizes st) s.mem m' → I m') :
    Spec A (onStore I) (takeFromArena size) s fun a s' => Bumped pf size st s a s' := by
  have hmem : metaRegion s.metaArena ∈ s.maps := h.chunks.head_mem hc
  have hv := h.valid_chunk hmem
  have hpos := hsz.bounds.1
  have hag : Agree (sizes st) s.mem (s.mem.takeFrom s.metaArena size) :=
    fun _ _ => ⟨rfl, rfl, rfl, rfl, rfl⟩
  refine Spec.global_bind (Spec.load_bind hv (Spec.store_bind hv (hI _ hag) (Spec.pure ?_)))
  have hnone := h.size_cur hmem (by omega)
  exact ⟨hnone, h.takeFrom hmem hsz hroom, hag, h.fresh _ hnone, rfl, .setMem _ _⟩

/-! ## A new chunk -/

/-- The memory once the header of the chunk `c` is written. -/
def Mem.newChunk (m : Mem) (c prev : Nat) : Mem :=
  m.setMetaChunk c fun _ => ⟨prev, alignUpPtr (c + sizeofMetaChunk), c + metaChunkSize⟩

/-- The state once the region at `c` is mapped as the arena's new head. -/
def State.withChunk (s : State) (c : Nat) : State :=
  { s with
    mem := (s.mem.clear c metaChunkSize).newChunk c s.metaArena
    bytes := fun p => if c ≤ p ∧ p < c + metaChunkSize then 0 else s.bytes p
    maps := metaRegion c :: s.maps
    calls := s.calls + 1
    metaArena := c }

theorem Layout.agree_clear (h : Layout pf s st) {len : Nat} {site : Site}
    (hr : pf.FreshRegion s.maps ⟨c, len, site⟩) : Agree (sizes st) s.mem (s.mem.clear c len) :=
  fun _ ha => agreeAt_clear (h.not_mem_fresh hr ha)

/-- A fresh mapping lies apart from every chunk. -/
theorem chunk_not_mem_fresh {r : Region} (hr : pf.FreshRegion s.maps r) {c' : Nat} (hc' : metaRegion c' ∈ s.maps) :
    ¬ (r.base ≤ c' ∧ c' < r.base + r.len) := by
  have hd : r.base + r.len ≤ c' ∨ c' + metaChunkSize ≤ r.base := hr.2.2.2.2 _ hc'
  have : metaChunkSize = 4194304 := rfl
  omega

theorem metaChunk_withChunk (hr : pf.FreshRegion s.maps (metaRegion c)) :
    (s.withChunk c).mem.metaChunk c = ⟨s.metaArena, c + 32, c + metaChunkSize⟩ := by
  have hc16 : c % 16 = 0 :=
    Nat.mod_eq_zero_of_dvd (pf.sixteen_dvd.trans (Nat.dvd_of_mod_eq_zero hr.2.2.1))
  have hbelow : c + metaChunkSize ≤ 2 ^ 47 := hr.2.2.2.1
  have hcur : alignUpPtr (c + sizeofMetaChunk) = c + 32 := by
    have : sizeofMetaChunk = 24 := rfl
    rw [alignUpPtr_eq (by omega)]
    omega
  simp [State.withChunk, newChunk, Mem.setMetaChunk, hcur]

theorem Layout.withChunk (h : Layout pf s st) (hr : pf.FreshRegion s.maps (metaRegion c)) :
    Layout pf (s.withChunk c) st := by
  have hmaps := h.maps_ok.cons hr
  have hc16 : c % 16 = 0 := hmaps.base_mod (List.mem_cons_self ..)
  have hbelow : c + metaChunkSize ≤ 2 ^ 47 := hr.2.2.2.1
  have hlen : metaChunkSize = 4194304 := rfl
  have hself := metaChunk_withChunk hr
  have hold : ∀ c', metaRegion c' ∈ s.maps →
      c' ≠ c ∧ (s.withChunk c).mem.metaChunk c' = s.mem.metaChunk c' := by
    intro c' hc'
    have hnot := chunk_not_mem_fresh hr hc'
    dsimp only at hnot
    have hne : c' ≠ c := by omega
    exact ⟨hne, by simp [State.withChunk, newChunk, Mem.setMetaChunk, hne, Mem.clear]; omega⟩
  have hmem : ∀ c', metaRegion c' ∈ (s.withChunk c).maps ↔ c' = c ∨ metaRegion c' ∈ s.maps := by
    intro c'
    simp [State.withChunk]
  constructor
  case maps_ok => exact hmaps
  case meta_len =>
    intro r hr' hsite
    rcases List.mem_cons.mp hr' with rfl | hr'
    · rfl
    · exact h.meta_len r hr' hsite
  case chunks =>
    have hpush : ChainOf NULL (fun c' => ((s.withChunk c).mem.metaChunk c').prev) c
        fun c' => c' = c ∨ metaRegion c' ∈ s.maps :=
      h.chunks.push hr.2.1 (by rw [hself]) fun b hb => by rw [(hold b hb).2]
    exact hpush.congr (fun _ _ => rfl) hmem
  case chunk =>
    intro c' hc'
    rcases (hmem c').mp hc' with rfl | hc'
    · rw [hself]
      dsimp only
      exact ⟨le_rfl, by omega, by omega, rfl⟩
    · rw [(hold c' hc').2]
      exact h.chunk c' hc'
  case isSize => exact h.isSize
  case aligned => exact h.aligned
  case placed =>
    intro a sz ha
    obtain ⟨c', hc', h₁, h₂⟩ := h.placed a sz ha
    exact ⟨c', (hmem c').mpr (.inr hc'), h₁, by rwa [(hold c' hc').2]⟩
  case apart => exact h.apart
  case fresh =>
    intro a ha
    change (if c ≤ a ∧ a < c + metaChunkSize then L1Node.zero else s.mem.l1 a) = _
    split
    · rfl
    · exact h.fresh a ha

theorem Undisturbed.withChunk (hr : pf.FreshRegion s.maps (metaRegion c)) :
    Undisturbed s (s.withChunk c) where
  pageMap := rfl
  dataArena := rfl
  uninitilizedSpanBin := rfl
  nonEmptyBitmap := rfl
  threadLocalBin := rfl
  maps_kept _ h := List.mem_cons_of_mem _ h
  maps_new r hr' := by
    rcases List.mem_cons.mp hr' with rfl | hr'
    · exact .inr rfl
    · exact .inl hr'
  bytes r hr' p h₁ h₂ := by
    refine if_neg ?_
    have hd : c + metaChunkSize ≤ r.base ∨ r.base + r.len ≤ c := hr.2.2.2.2 r hr'
    omega

theorem Bumped.of_agree {s₁ s' : State} {a : Nat} (hb : Bumped pf size st s₁ a s')
    (hag : Agree (sizes st) s.mem s₁.mem) (hf : s₁.freeListMap = s.freeListMap)
    (hu : Undisturbed s s₁) : Bumped pf size st s a s' :=
  ⟨hb.unused, hb.layout, hag.trans hb.agree, hb.zero, hb.freeListMap.trans hf,
    hu.trans hb.undisturbed⟩

theorem bumpMetadata_spec (h : Layout pf s st) (hsz : IsSize size)
    (hA : ¬ A (.mmapFailed .metaChunk)) (hI : ∀ m', Agree (sizes st) s.mem m' → I m') :
    Spec A (onStore I) (bumpMetadata pf size) s fun a s' => Bumped pf size st s a s' := by
  refine Spec.global_bind ?_
  refine Spec.bind (Q := fun full s' => s' = s ∧ (full = false → s.metaArena ≠ NULL ∧
    (s.mem.metaChunk s.metaArena).cur + size ≤ s.metaArena + metaChunkSize)) ?_ ?_
  · by_cases h0 : s.metaArena = NULL
    · rw [if_pos h0]
      exact Spec.pure ⟨rfl, by simp⟩
    · rw [if_neg h0]
      have hmem := h.chunks.head_mem h0
      have hk := h.chunk _ hmem
      refine Spec.load (h.valid_chunk hmem) ⟨rfl, fun hfull => ⟨h0, ?_⟩⟩
      rw [decide_eq_false_iff_not, hk.2.2.2] at hfull
      omega
  rintro full s' ⟨hs, hfull⟩
  subst s'
  cases full with
  | false =>
    obtain ⟨h0, hroom⟩ := hfull rfl
    exact takeFromArena_spec h hsz h0 hroom hI
  | true =>
    rw [if_pos rfl]
    refine Spec.mmap_bind hA fun c hr => Spec.setGlobal_bind ?_
    have hag := h.agree_clear hr
    have hlay := h.withChunk hr
    have hv : Valid c := hlay.valid_chunk (List.mem_cons_self ..)
    rw [if_neg hv.2]
    refine Spec.store_bind hv (hI _ hag) (Spec.store_bind hv (hI _ hag)
      (Spec.store_bind hv (hI _ hag) ?_))
    have hstate : ∀ (s₄ : State), s₄ = s.withChunk c →
        Spec A (onStore I) (takeFromArena size) s₄ fun a s' => Bumped pf size st s a s' := by
      rintro _ rfl
      refine (takeFromArena_spec hlay hsz hv.1 ?_ fun m' hm => hI m' (hag.trans hm)).mono
        fun a s' hb => hb.of_agree hag rfl (.withChunk hr)
      have hpos := hsz.bounds
      have hlen : metaChunkSize = 4194304 := rfl
      rw [show (s.withChunk c).metaArena = c from rfl, metaChunk_withChunk hr]
      dsimp only
      omega
    refine hstate _ ?_
    simp [State.withChunk, State.mapped, State.setMem, newChunk, Mem.setMetaChunk]

end

end FastAlloc
