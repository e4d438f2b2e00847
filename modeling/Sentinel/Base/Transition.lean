import Mathlib.Data.List.Induction
import Mathlib.Data.Option.Basic
import Mathlib.Logic.Function.Basic

/-!
# Executable transition systems

A step function takes a state and a label and may refuse. Labels carry every choice of
the environment, so a run is determined by its labels and can be evaluated. Invariants
are proved once for all runs from what a single step preserves, or for the runs whose steps
all meet a condition. Parties that come and go stand in numbered slots.
-/

namespace Sentinel.Base

/-- A start state and a partial step function. -/
structure Transition (σ ℓ : Type) where
  init : σ
  next : σ → ℓ → Option σ

/-- A slot behind an update is the new one or an old one. -/
theorem slot_update_cases {α : Type} {f : Nat → Option α} {i j : Nat} {c d : α}
    (h : Function.update f i (some c) j = some d) : (j = i ∧ d = c) ∨ (j ≠ i ∧ f j = some d) := by
  by_cases hj : j = i
  · rw [hj, Function.update_self, Option.some.injEq] at h
    exact Or.inl ⟨hj, h.symm⟩
  · rw [Function.update_of_ne hj] at h
    exact Or.inr ⟨hj, h⟩

namespace Transition

variable {σ ℓ : Type} (M : Transition σ ℓ)

/-- The state behind a list of labels, when every step is allowed. -/
def exec (s : σ) : List ℓ → Option σ
  | [] => some s
  | l :: ls =>
    match M.next s l with
    | some s' => exec s' ls
    | none => none

/-- A run goes on behind its first step. -/
theorem exec_cons {s t u : σ} {l : ℓ} {ls : List ℓ} (hn : M.next s l = some t)
    (hu : M.exec t ls = some u) : M.exec s (l :: ls) = some u := by
  rw [exec, hn]
  exact hu

/-- Runs compose. -/
theorem exec_append (s : σ) (ls ms : List ℓ) :
    M.exec s (ls ++ ms) = (M.exec s ls).bind (fun t ↦ M.exec t ms) := by
  induction ls generalizing s with
  | nil => rfl
  | cons l ls ih =>
    rw [List.cons_append, exec, exec]
    cases M.next s l with
    | none => rfl
    | some s' => exact ih s'

/-- A run that ends in one more step splits in front of it. -/
theorem exec_concat_eq_some {s s' : σ} {ls : List ℓ} {l : ℓ} :
    M.exec s (ls ++ [l]) = some s' ↔ ∃ t, M.exec s ls = some t ∧ M.next t l = some s' := by
  rw [exec_append, Option.bind_eq_some_iff]
  constructor
  · rintro ⟨t, ht, hn⟩
    refine ⟨t, ht, ?_⟩
    rw [exec] at hn
    cases hx : M.next t l with
    | none => rw [hx] at hn; cases hn
    | some u => rw [hx] at hn; exact hn
  · rintro ⟨t, ht, hn⟩
    exact ⟨t, ht, by rw [exec, hn]; rfl⟩

/-- The run from the start state. -/
def Run (ls : List ℓ) (s : σ) : Prop := M.exec M.init ls = some s

/-- An invariant that a step keeps is kept by every run that starts where it holds. -/
theorem exec_invariant (I : σ → Prop) (hs : ∀ s l s', I s → M.next s l = some s' → I s')
    {ls : List ℓ} {s s' : σ} (hi : I s) (h : M.exec s ls = some s') : I s' := by
  induction ls generalizing s with
  | nil => cases h; exact hi
  | cons l ls ih =>
    rw [exec] at h
    cases hn : M.next s l with
    | none => rw [hn] at h; cases h
    | some t => rw [hn] at h; exact ih (hs s l t hi hn) h

/-- An invariant holds in every reachable state. -/
theorem invariant (I : σ → Prop) (h0 : I M.init)
    (hs : ∀ s l s', I s → M.next s l = some s' → I s')
    {ls : List ℓ} {s : σ} (h : M.Run ls s) : I s :=
  M.exec_invariant I hs h0 h

/-- Every step meets a condition on the state in front of it. -/
def Meets (C : σ → ℓ → Prop) (s : σ) : List ℓ → Prop
  | [] => True
  | l :: ls =>
    C s l ∧
      match M.next s l with
      | some s' => Meets C s' ls
      | none => True

/-- A run that meets a condition goes on behind its first step. -/
theorem meets_cons {C : σ → ℓ → Prop} {s t : σ} {l : ℓ} {ls : List ℓ} (hc : C s l)
    (hn : M.next s l = some t) (h : M.Meets C t ls) : M.Meets C s (l :: ls) := by
  rw [Meets, hn]
  exact ⟨hc, h⟩

/-- Invariants of the runs whose steps all meet a condition. -/
theorem meets_invariant (C : σ → ℓ → Prop) (I : σ → Prop)
    (hs : ∀ s l s', I s → C s l → M.next s l = some s' → I s') {ls : List ℓ} {s s' : σ}
    (hi : I s) (hc : M.Meets C s ls) (h : M.exec s ls = some s') : I s' := by
  induction ls generalizing s with
  | nil => cases h; exact hi
  | cons l ls ih =>
    rw [exec] at h
    rw [Meets] at hc
    cases hn : M.next s l with
    | none => rw [hn] at h; cases h
    | some t =>
      rw [hn] at h hc
      exact ih (hs s l t hi hc.1 hn) hc.2 h

/-- A run does no more work than its potential is paid for: when every step of a run takes its work
from a potential that only some labels raise, and by no more than a fixed pay, the work of the whole
run is within the pay of those labels. -/
theorem run_paid (potential : σ → Nat) (work raises : ℓ → Bool) (pay : Nat)
    (hs : ∀ ls s l s', M.Run ls s → M.next s l = some s' →
      potential s' + (work l).toNat ≤ potential s + pay * (raises l).toNat)
    {ls : List ℓ} {s : σ} (h : M.Run ls s) :
    potential s + ls.countP work ≤ potential M.init + pay * ls.countP raises := by
  induction ls using List.reverseRecOn generalizing s with
  | nil =>
    cases h
    exact Nat.le_refl _
  | append_singleton ls l ih =>
    obtain ⟨t, ht, hn⟩ := M.exec_concat_eq_some.mp h
    have hstep := hs ls t l s ht hn
    have hone (p : ℓ → Bool) : (ls ++ [l]).countP p = ls.countP p + (p l).toNat := by
      rw [List.countP_append, List.countP_singleton]
      cases p l <;> rfl
    rw [hone, hone, Nat.mul_add]
    have hrest := ih ht
    omega

end Transition

end Sentinel.Base
