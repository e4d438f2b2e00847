/-!
# Interaction programs

A program computes and calls out: each call waits for an answer of the call's own type. The
same program can be evaluated against a handler that answers every call, or be taken step by
step by a larger system that answers when it pleases.
-/

namespace Sentinel.Base

/-- A program over calls `E` with answers `A`, returning an `α`. -/
inductive Program (E : Type) (A : E → Type) (α : Type) where
  | pure (a : α)
  | call (e : E) (k : A e → Program E A α)

namespace Program

variable {E : Type} {A : E → Type} {α β : Type}

/-- Sequencing. -/
def bind : Program E A α → (α → Program E A β) → Program E A β
  | .pure a, f => f a
  | .call e k, f => .call e (fun r ↦ (k r).bind f)

/-- Programs are sequenced with `do`. -/
instance : Monad (Program E A) where
  pure := .pure
  bind := .bind

/-- The result under a handler that answers every call. -/
def eval (h : (e : E) → A e) : Program E A α → α
  | .pure a => a
  | .call e k => (k (h e)).eval h

/-- The result and the state behind it, under a handler that answers from a state. -/
def evalState {σ : Type} (h : (e : E) → σ → A e × σ) : Program E A α → σ → α × σ
  | .pure a, s => (a, s)
  | .call e k, s => (k (h e s).1).evalState h (h e s).2

/-- Every result has a property, whatever the answers. -/
def Always (P : α → Prop) : Program E A α → Prop
  | .pure a => P a
  | .call _ k => ∀ r, (k r).Always P

/-- Every call has a property, whatever the answers. -/
def EveryCall (P : E → Prop) : Program E A α → Prop
  | .pure _ => True
  | .call e k => P e ∧ ∀ r, (k r).EveryCall P

/-- Every call of every run has a property of what stands in front of it, the calls with their
answers. -/
def EveryCallBehind (P : List (Sigma A) → E → Prop) : Program E A α → List (Sigma A) → Prop
  | .pure _, _ => True
  | .call e k, tr => P tr e ∧ ∀ r, (k r).EveryCallBehind P (tr ++ [⟨e, r⟩])

/-- A returned value is the result. -/
@[simp] theorem eval_pure (h : (e : E) → A e) (a : α) :
    (Pure.pure a : Program E A α).eval h = a := rfl

/-- A call evaluates to the continuation at its answer. -/
@[simp] theorem eval_call (h : (e : E) → A e) (e : E) (k : A e → Program E A α) :
    (Program.call e k).eval h = (k (h e)).eval h := rfl

/-- A returned value leaves the state alone. -/
@[simp] theorem evalState_pure {σ : Type} (h : (e : E) → σ → A e × σ) (a : α) (s : σ) :
    (Pure.pure a : Program E A α).evalState h s = (a, s) := rfl

/-- A call goes on at its answer, from the state behind it. -/
@[simp] theorem evalState_call {σ : Type} (h : (e : E) → σ → A e × σ) (e : E)
    (k : A e → Program E A α) (s : σ) :
    (Program.call e k).evalState h s = (k (h e s).1).evalState h (h e s).2 := rfl

end Program

end Sentinel.Base
