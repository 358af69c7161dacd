/-
FastAlloc.Lib.Allocation — what a memory allocator is for, as an abstract
machine over any threads and any bytes.

`Blocks` are the blocks that are out, which share no byte. `Effect` says
what a call may do to them and return. A thread invokes a call, the call
takes effect at one point, and is answered: `Machine.Step`. Where the blocks
lie is left open, and so are the bytes of a new block that was not asked for
cleared.
-/
import FastAlloc.Lib.Run
import Mathlib.Logic.Function.Basic

namespace FastAlloc.Lib

/-- A block that is out: whose it is, and the bytes asked for. -/
structure Block (τ β : Type) where
  owner : τ
  bytes : List β

/-- The blocks that are out. -/
@[ext] structure Blocks (τ β : Type) where
  block : Nat → Option (Block τ β)
  null : block 0 = none
  apart : ∀ p q b c, block p = some b → block q = some c → p ≠ q →
    p + b.bytes.length ≤ q ∨ q + c.bytes.length ≤ p

inductive Op
  | malloc (n : Nat)
  | calloc (num size : Nat)
  | free (p : Nat)
  | realloc (p n : Nat)

/-- The two agree as far as both go. -/
def Agree {β : Type} (l l' : List β) : Prop := ∀ i, i < l.length → i < l'.length → l[i]? = l'[i]?

namespace Blocks

variable {τ β : Type}

def empty : Blocks τ β := ⟨fun _ => none, rfl, fun _ _ _ _ h => nomatch h⟩

/-- `q` was not out, and now is, for thread `t` and with the bytes `l`. -/
structure Allocates (A : Blocks τ β) (t : τ) (q : Nat) (l : List β) (A' : Blocks τ β) : Prop where
  fresh : A.block q = none
  blocks : A'.block = Function.update A.block q (some ⟨t, l⟩)

/-- `p` was out for thread `t`, and no longer is. -/
structure Frees (A : Blocks τ β) (t : τ) (p : Nat) (A' : Blocks τ β) : Prop where
  held : ∃ l, A.block p = some ⟨t, l⟩
  blocks : A'.block = Function.update A.block p none

end Blocks

section

variable {τ β : Type} (zero : β) (limit : Nat)

/-- What a call of thread `t` may do to the blocks, and what it then returns.
Products from `limit` on overflow. -/
inductive Effect (t : τ) : Op → Blocks τ β → Nat → Blocks τ β → Prop
  | malloc {n q : Nat} {l : List β} {A A' : Blocks τ β} :
      A.Allocates t q l A' → l.length = n → Effect t (.malloc n) A q A'
  | calloc {num size q : Nat} {A A' : Blocks τ β} :
      num * size < limit → A.Allocates t q (List.replicate (num * size) zero) A' →
      Effect t (.calloc num size) A q A'
  | callocOverflow {num size : Nat} {A : Blocks τ β} :
      limit ≤ num * size → Effect t (.calloc num size) A 0 A
  | free {p : Nat} {A A' : Blocks τ β} : A.Frees t p A' → Effect t (.free p) A 0 A'
  | freeNull {A : Blocks τ β} : Effect t (.free 0) A 0 A
  | reallocNull {n q : Nat} {l : List β} {A A' : Blocks τ β} :
      A.Allocates t q l A' → l.length = n → Effect t (.realloc 0 n) A q A'
  | reallocZero {p : Nat} {A A' : Blocks τ β} :
      p ≠ 0 → A.Frees t p A' → Effect t (.realloc p 0) A 0 A'
  /-- in place -/
  | resize {p n : Nat} {l l' : List β} {A A' : Blocks τ β} :
      0 < n → A.block p = some ⟨t, l⟩ → l'.length = n → Agree l l' →
      A'.block = Function.update A.block p (some ⟨t, l'⟩) → Effect t (.realloc p n) A p A'
  | move {p q n : Nat} {l l' : List β} {A A' : Blocks τ β} :
      0 < n → A.block p = some ⟨t, l⟩ → A.block q = none → l'.length = n → Agree l l' →
      A'.block = Function.update (Function.update A.block q (some ⟨t, l'⟩)) p none →
      Effect t (.realloc p n) A q A'

end

/-- Where a call stands: it has been made, or it has taken effect. -/
inductive Status
  | asked (op : Op)
  | settled (q : Nat)

/-- What is seen of a call. -/
inductive Action (τ : Type)
  | invoke (t : τ) (op : Op)
  | answer (t : τ) (q : Nat)

structure Machine (τ β : Type) where
  blocks : Blocks τ β
  status : τ → Option Status

namespace Machine

variable {τ β : Type} [DecidableEq τ] (zero : β) (limit : Nat)

def initial : Machine τ β := ⟨.empty, fun _ => none⟩

inductive Step : Machine τ β → List (Action τ) → Machine τ β → Prop
  | invoke {A : Blocks τ β} {f : τ → Option Status} {t : τ} {op : Op} : f t = none →
      Step ⟨A, f⟩ [.invoke t op] ⟨A, Function.update f t (some (.asked op))⟩
  | effect {A A' : Blocks τ β} {f : τ → Option Status} {t : τ} {op : Op} {q : Nat} :
      f t = some (.asked op) → Effect zero limit t op A q A' →
      Step ⟨A, f⟩ [] ⟨A', Function.update f t (some (.settled q))⟩
  | answer {A : Blocks τ β} {f : τ → Option Status} {t : τ} {q : Nat} : f t = some (.settled q) →
      Step ⟨A, f⟩ [.answer t q] ⟨A, Function.update f t none⟩
  /-- the threads write to their blocks -/
  | write {A A' : Blocks τ β} {f : τ → Option Status} :
      (∀ p, (A'.block p).map (fun b => (b.owner, b.bytes.length)) =
        (A.block p).map fun b => (b.owner, b.bytes.length)) → Step ⟨A, f⟩ [] ⟨A', f⟩

variable {zero limit} {A A' : Blocks τ β} {f : τ → Option Status} {t : τ} {op : Op} {q : Nat}

/-- A call that takes effect and is answered. -/
theorem Step.settle (hf : f t = some (.asked op)) (he : Effect zero limit t op A q A') :
    Trace (Step zero limit) ⟨A, f⟩ [.answer t q] ⟨A', Function.update f t none⟩ := by
  have h₁ : Step zero limit ⟨A, f⟩ [] _ := .effect hf he
  have h₂ : Step zero limit ⟨A', Function.update f t (some (.settled q))⟩ [.answer t q] _ :=
    .answer (Function.update_self t _ f)
  rw [Function.update_idem] at h₂
  exact (Trace.single h₁).tail h₂

end Machine

end FastAlloc.Lib
