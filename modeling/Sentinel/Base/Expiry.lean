import Mathlib.Data.List.Basic
import Mathlib.Order.Defs.PartialOrder

/-!
# Queues of entries with a deadline

An entry is live before its deadline. In a queue whose deadlines do not decrease the entries that
have expired stand in front, so dropping from the front up to the first live entry loses nothing
that is live.
-/

namespace Sentinel.Base.Expiry

universe u v

variable {α : Type u} {τ : Type v} [Preorder τ] [DecidableLT τ] (deadline : α → τ)

/-- An entry is live before its deadline. -/
def live (now : τ) (a : α) : Bool := now < deadline a

/-- The deadlines of a queue do not decrease. -/
def Ordered (q : List α) : Prop := q.Pairwise fun a b ↦ deadline a ≤ deadline b

variable {deadline} {now later : τ} {q : List α}

/-- What is live later was live before. -/
theorem live_of_le {a : α} (hle : now ≤ later) (h : live deadline later a = true) :
    live deadline now a = true := by
  rw [live, decide_eq_true_eq] at h ⊢
  exact lt_of_le_of_lt hle h

/-- The live entries of a later time are among those of now. -/
theorem filter_live_of_le (hle : now ≤ later) (q : List α) :
    (q.filter (live deadline now)).filter (live deadline later) =
      q.filter (live deadline later) := by
  rw [List.filter_filter]
  apply List.filter_congr
  intro a _
  cases h : live deadline later a with
  | false => rfl
  | true => rw [live_of_le hle h, Bool.and_self]

/-- Behind a live entry of an ordered queue everything is live. -/
theorem Ordered.filter_cons {a : α} (h : Ordered deadline (a :: q))
    (ha : live deadline now a = true) : (a :: q).filter (live deadline now) = a :: q := by
  apply List.filter_eq_self.mpr
  intro b hb
  rcases List.mem_cons.mp hb with rfl | hb
  · exact ha
  · rw [live, decide_eq_true_eq] at ha ⊢
    exact lt_of_lt_of_le ha ((List.pairwise_cons.mp h).1 b hb)

omit [DecidableLT τ] in
/-- An entry whose deadline is the last one keeps a queue ordered. -/
theorem Ordered.concat (h : Ordered deadline q) {a : α} (ha : ∀ b ∈ q, deadline b ≤ deadline a) :
    Ordered deadline (q ++ [a]) := by
  apply List.pairwise_append.mpr
  refine ⟨h, List.pairwise_singleton _ _, ?_⟩
  intro b hb c hc
  rw [List.mem_singleton.mp hc]
  exact ha b hb

end Sentinel.Base.Expiry
