import Sentinel.Agent.Inputs
import Sentinel.Broker.Store

/-!
# The two remember stores

The broker's `RememberStore` and the agent's `RememberCache` keep one stamp per key string, drop
stamps on writes and cut the window on reads. Over whole histories of operations both answer as
the window specification over their structured keys does.
-/

namespace Sentinel.System

open Sentinel.Base Sentinel.Base.Window

section Spec

variable {K M : Type} [DecidableEq K] (new : M) (record insert : M → K → Nat → M)
  (fresh : M → K → UInt32 → Nat → Bool) (entry : M → Str → Option Nat)

/-- The store behind a history of operations. -/
def after (hist : List (Event K)) : M := hist.foldl (Window.apply record) new

/-- A store implements the window specification: queries answer by the most recent record of
exactly their key, a store that only inserts where this one records gives the same answers, and
right behind a record every stamp is younger than the cap. -/
structure ImplementsWindow : Prop where
  answer : ∀ hist k ttl t, Ordered (hist ++ [⟨t, .isFresh k (fromSecs ttl.toNat)⟩]) →
    (fresh (after new record hist) k ttl t = true ↔ 0 < ttl ∧ ∃ t₀, lastRecord k hist = some t₀ ∧
      t - t₀ < min (fromSecs ttl.toNat) (fromSecs 900))
  pruning : ∀ hist k ttl t, Ordered (hist ++ [⟨t, .isFresh k (fromSecs ttl.toNat)⟩]) →
    fresh (after new record hist) k ttl t = fresh (after new insert hist) k ttl t
  young : ∀ hist k t, Ordered (hist ++ [⟨t, .record k⟩]) → ∀ s t₀,
    entry (after new record (hist ++ [⟨t, .record k⟩])) s = some t₀ → t - t₀ < fromSecs 900

end Spec

/-- An ordered history is over at the time of the operation behind it. -/
private theorem ordered_concat {K : Type} {hist : List (Event K)} {e : Event K}
    (h : Ordered (hist ++ [e])) : Ordered hist ∧ ∀ d ∈ hist, d.time ≤ e.time := by
  obtain ⟨hh, -, hle⟩ := List.pairwise_append.mp h
  exact ⟨hh, fun d hd ↦ hle d hd e (List.mem_singleton.mpr rfl)⟩

/-- Every table over an injective key string implements the specification. -/
private theorem implementsWindow_table {K : Type} [DecidableEq K] {f : K → Str}
    (hf : Function.Injective f) :
    ImplementsWindow (M := Table Str) Table.empty
      (fun m k t ↦ Table.record (fromSecs 900) m (f k) t) (fun m k t ↦ Table.insert (f k) t m)
      (fun m k ttl t ↦ Table.isFresh (fromSecs 900) m (f k) (fromSecs ttl.toNat) t)
      (fun m ↦ m) := by
  constructor
  case answer =>
    intro hist k ttl t ho
    obtain ⟨hh, hle⟩ := ordered_concat ho
    have hiff := isFresh_after_iff (fromSecs 900) f hf hh k (fromSecs ttl.toNat) hle
    have hpos : 0 < fromSecs ttl.toNat ↔ 0 < ttl := by
      rw [UInt32.lt_iff_toNat_lt, Nat.pos_iff_ne_zero, ne_eq, fromSecs_eq_zero_iff]
      exact Nat.pos_iff_ne_zero.symm
    rw [Fresh, hpos] at hiff
    exact hiff
  case pruning =>
    intro hist k ttl t ho
    obtain ⟨hh, hle⟩ := ordered_concat ho
    exact isFresh_after_eq_unpruned _ f hf hh k _ hle
  case young =>
    intro hist k t _ s t₀ hs
    rw [after, List.foldl_append, List.foldl_cons, List.foldl_nil] at hs
    exact Table.record_young (by decide) _ _ _ hs

/-- Both stores implement the window specification, over every ordered history of operations on
their keys. -/
theorem stores_implement_window :
    ImplementsWindow (K := Broker.PamKey) Broker.RememberStore.new
        (fun m k t ↦ m.record k.bound t) (fun m k t ↦ Table.insert k.str t m)
        (fun m k ttl t ↦ m.isFresh k.bound ttl t) (fun m ↦ m) ∧
      ImplementsWindow (K := Agent.ActionKey) Agent.RememberCache.new
        (fun m k t ↦ m.remember k.actionId k.command t) (fun m k t ↦ Table.insert k.str t m)
        (fun m k ttl t ↦ m.isFresh k.actionId k.command ttl t) (fun m ↦ m) :=
  ⟨implementsWindow_table Broker.PamKey.str_injective,
    implementsWindow_table Agent.ActionKey.str_injective⟩

end Sentinel.System
