import Sentinel.Packaging.Wiring

/-!
# The wired stack against its base

Script `packaging-kde/install.sh:191-216`. The loop copies the stack and puts the Sentinel line in
front of the first anchor; a stack without an anchor is rebuilt behind a header. Either way one
line is new and no other line but a header is lost.
-/

namespace Sentinel.Packaging

open Sentinel.Base Sentinel.Base.Shell

/-! ### The loop -/

/-- Once the line is in, the rest is copied. -/
theorem foldl_wireLine_inserted (acc ls : List Str) :
    ls.foldl wireLine (acc, true) = (acc ++ ls, true) := by
  induction ls generalizing acc with
  | nil => rw [List.foldl_nil, List.append_nil]
  | cons l ls ih =>
    have hl : wireLine (acc, true) l = (acc ++ [l], true) := rfl
    rw [List.foldl_cons, hl, ih, List.append_assoc, List.singleton_append]

/-- Lines that are no anchor are copied. -/
theorem foldl_wireLine_copied {ls : List Str} (h : ∀ l ∈ ls, isAnchor l = false)
    (acc : List Str) : ls.foldl wireLine (acc, false) = (acc ++ ls, false) := by
  induction ls generalizing acc with
  | nil => rw [List.foldl_nil, List.append_nil]
  | cons l ls ih =>
    have hl : wireLine (acc, false) l = (acc ++ [l], false) := by
      simp [wireLine, h l List.mem_cons_self]
    rw [List.foldl_cons, hl, ih fun m hm ↦ h m (List.mem_cons_of_mem l hm), List.append_assoc,
      List.singleton_append]

/-- The line goes in front of the first anchor. -/
theorem foldl_wireLine_anchor {before : List Str} (h : ∀ l ∈ before, isAnchor l = false)
    {anchor : Str} (ha : isAnchor anchor = true) (after : List Str) :
    (before ++ anchor :: after).foldl wireLine ([], false) =
      (before ++ sentinelPamLine :: anchor :: after, true) := by
  have hs : wireLine (before, false) anchor = (before ++ [sentinelPamLine, anchor], true) := by
    simp [wireLine, ha]
  rw [List.foldl_append, foldl_wireLine_copied h, List.nil_append, List.foldl_cons, hs,
    foldl_wireLine_inserted, List.append_assoc]
  rfl

/-- A stack without an anchor, or its lines around the first one. -/
theorem anchor_cases (ls : List Str) :
    (∀ l ∈ ls, isAnchor l = false) ∨
      ∃ before anchor after, ls = before ++ anchor :: after ∧
        (∀ l ∈ before, isAnchor l = false) ∧ isAnchor anchor = true := by
  induction ls with
  | nil => exact .inl (by simp)
  | cons l ls ih =>
    cases hl : isAnchor l with
    | true => exact .inr ⟨[], l, ls, rfl, by simp, hl⟩
    | false =>
      rcases ih with h | ⟨before, anchor, after, rfl, hb, ha⟩
      · exact .inl (by simpa [hl] using h)
      · exact .inr ⟨l :: before, anchor, after, rfl, by simpa [hl] using hb, ha⟩

/-! ### Base and result -/

/-- The lines of a stack without its headers. -/
def entries (ls : List Str) : List Str := ls.filter fun l ↦ !isHeader l

end Sentinel.Packaging
