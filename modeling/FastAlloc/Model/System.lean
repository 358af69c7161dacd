/-
FastAlloc.Model.System — any number of threads running calls against one
library state.

A step is one uninterrupted part of one thread's call: an unlocked part or
a critical section. The threads are clients: a thread frees or reallocates
only blocks it allocated and has not given back. `live` and `owner` are
bookkeeping for statements, `owner` being the thread that last initialised
a span. The bytes of user memory may change between steps in any way.
-/
import FastAlloc.Lib.Run
import FastAlloc.Model.Alloc

namespace FastAlloc

open Lib

/-- The library state, where every thread stands, and which blocks are out. -/
structure World where
  state : State
  pc : Tid → Option Pc
  live : Nat → Option (Tid × Nat)
  owner : Nat → Tid

def World.initial (proposals : Nat → Nat) : World where
  state := .initial proposals
  pc := fun _ => none
  live := fun _ => none
  owner := fun _ => 0

/-- The size a call asks `cmalloc` for, if it reaches it. -/
def Call.request : Call → Option Nat
  | .malloc size => some size
  | .calloc num size => if num ≠ 0 ∧ size > (2 ^ 64 - 1) / num then none else some (num * size)
  | .free _ => none
  | .realloc _ size => some size

/-- What a call needs of its client: the block is live and the caller's. -/
def Call.Permitted (w : World) (t : Tid) : Call → Prop
  | .malloc _ => True
  | .calloc _ _ => True
  | .free ptr => ptr = NULL ∨ ∃ n, w.live ptr = some (t, n)
  | .realloc ptr _ => ptr = NULL ∨ ∃ n, w.live ptr = some (t, n)

def Reply.pc : Reply → Option Pc
  | .done _ => none
  | .more pc => some pc

/-- The span a step has just initialised, if it has. -/
def Reply.initialized : Reply → Option Nat
  | .more (.allocate _ _ span) => some span
  | _ => none

/-- The live blocks after a step of thread `t`. -/
def liveAfter (live : Nat → Option (Tid × Nat)) (t : Tid) (p : Progress) :
    Nat → Option (Tid × Nat) := fun a =>
  match p.gained with
  | some (q, n) => if a = q then some (t, n) else if p.lost = some a then none else live a
  | none => if p.lost = some a then none else live a

/-- The world after thread `t` made progress `p` to the library state `s`. -/
def World.after (w : World) (t : Tid) (s : State) (p : Progress) : World where
  state := s
  pc := Function.update w.pc t p.reply.pc
  live := liveAfter w.live t p
  owner := fun a => if p.reply.initialized = some a then t else w.owner a

/-- The request a step begins, and the events it reported. -/
structure Label where
  request : Option Nat
  trace : List Event

inductive Step (pf : Platform) : World → Label → World → Prop
  | enter {w : World} {t : Tid} {call : Call} {p : Progress} {s : State} {tr : List Event} :
      w.pc t = none → call.Permitted w t → (enter pf t call).run w.state = ⟨.ok p, s, tr⟩ →
      Step pf w ⟨call.request, tr⟩ (w.after t s p)
  | resume {w : World} {t : Tid} {pc : Pc} {p : Progress} {s : State} {tr : List Event} :
      w.pc t = some pc → (resume pf t pc).run w.state = ⟨.ok p, s, tr⟩ →
      Step pf w ⟨none, tr⟩ (w.after t s p)
  | write {w : World} (bytes : Nat → UInt8) :
      Step pf w ⟨none, []⟩ { w with state := { w.state with bytes := bytes } }

/-- A size outside the wrap-around window of `round_up_page`. -/
def Platform.NonWrapping (pf : Platform) (size : Nat) : Prop := size ≤ 2 ^ 64 - pf.pageSize

instance (pf : Platform) (size : Nat) : Decidable (pf.NonWrapping size) :=
  inferInstanceAs (Decidable (_ ≤ _))

/-- The step began no wrapping request, and every `mmap` in it succeeded. -/
def Platform.GoodLabel (pf : Platform) (l : Label) : Prop :=
  (∀ n ∈ l.request, pf.NonWrapping n) ∧ ∀ e ∈ l.trace, e.Mapped

/-- The states reached from the start by steps that ask for no wrapping
size and see no `mmap` fail. -/
def Reachable (pf : Platform) (w : World) : Prop :=
  ∃ proposals, Run (Step pf) pf.GoodLabel (.initial proposals) w

end FastAlloc
