import Sentinel.Base.Str

/-!
# Texts as the shell reads them

The lines of a file, the fields that `read` takes from a line when its separator is the tab, and
the space class of the POSIX locale. Texts are free of NUL, which the shell cannot hold.
-/

namespace Sentinel.Base.Shell

/-- The class `[[:space:]]` of the POSIX locale. -/
def isSpace (c : Char) : Bool := c == ' ' || ('\t' ≤ c && c ≤ '\r')

/-- The lines of a text; the last one need not be terminated. -/
def lines (s : Str) : List Str :=
  let pieces := s.splitOn '\n'
  if pieces.getLast? = some [] then pieces.dropLast else pieces

/-- Every line terminated, as `printf '%s\n'` prints it. -/
def unlines (ls : List Str) : Str := ls.flatMap fun l ↦ l ++ ['\n']

/-- `IFS=$'\t' read -r` into `n + 1` variables: runs of tabs separate, tabs at both ends are
dropped, and the last variable takes the rest of the line. -/
def readFields : Nat → Str → List Str
  | 0, s => [(s.dropWhile (· = '\t')).rdropWhile (· = '\t')]
  | n + 1, s =>
    let s := s.dropWhile (· = '\t')
    s.takeWhile (· ≠ '\t') :: readFields n (s.dropWhile (· ≠ '\t'))

/-- A terminated line in front is the first line. -/
theorem lines_cons {l : Str} (h : '\n' ∉ l) (s : Str) : lines (l ++ '\n' :: s) = l :: lines s := by
  have hsplit : (l ++ '\n' :: s).splitOn '\n' = l :: s.splitOn '\n' :=
    List.splitOn_append_cons_self_of_not_mem h s
  have hne : s.splitOn '\n' ≠ [] := List.splitOn_ne_nil '\n' s
  rw [lines, lines, hsplit]
  simp only [List.getLast?_cons_of_ne_nil hne]
  split
  · rw [List.dropLast_cons_of_ne_nil hne]
  · rfl

/-- A text without a newline is its only line, if there is anything in it. -/
theorem lines_of_not_mem {s : Str} (h : '\n' ∉ s) : lines s = if s = [] then [] else [s] := by
  rw [lines, List.splitOn_eq_singleton h]
  by_cases hs : s = []
  · simp [hs]
  · simp [hs]

/-- A line is a part of the text without a newline. -/
theorem of_mem_lines {l s : Str} (h : l ∈ lines s) : '\n' ∉ l ∧ l <:+: s := by
  -- On the length: the first newline separates the first line from the rest.
  induction hn : s.length using Nat.strongRecOn generalizing s with
  | ind n ih =>
    by_cases hs : '\n' ∈ s
    · obtain ⟨a, b, rfl, ha⟩ := List.eq_append_cons_of_mem hs
      rw [lines_cons ha] at h
      rcases List.mem_cons.mp h with rfl | h
      · exact ⟨ha, List.infix_append' [] l ('\n' :: b)⟩
      · have hlt : b.length < n := by
          rw [List.length_append, List.length_cons] at hn
          omega
        obtain ⟨hnl, hb⟩ := ih b.length hlt h rfl
        refine ⟨hnl, hb.trans ?_⟩
        exact ((List.suffix_cons '\n' b).trans (List.suffix_append a _)).isInfix
    · rw [lines_of_not_mem hs] at h
      split at h
      · cases h
      · rw [List.mem_singleton.mp h]
        exact ⟨hs, List.infix_refl s⟩

/-- Terminated lines are read back. -/
theorem lines_unlines {ls : List Str} (h : ∀ l ∈ ls, '\n' ∉ l) : lines (unlines ls) = ls := by
  induction ls with
  | nil => rfl
  | cons l ls ih =>
    rw [unlines, List.flatMap_cons, List.append_assoc, List.singleton_append,
      lines_cons (h l List.mem_cons_self), ← unlines]
    rw [ih fun l' h' ↦ h l' (List.mem_cons_of_mem _ h')]

/-- A field without a tab in front of a tab is read as it is. -/
theorem readFields_succ {a : Str} (ha : a ≠ []) (htab : '\t' ∉ a) (n : Nat) (s : Str) :
    readFields (n + 1) (a ++ '\t' :: s) = a :: readFields n ('\t' :: s) := by
  have hkeep : ∀ c ∈ a, decide (c ≠ '\t') = true := by
    intro c hc
    simp only [ne_eq, decide_not, Bool.not_eq_eq_eq_not, Bool.not_true, decide_eq_false_iff_not]
    intro he
    exact htab (he ▸ hc)
  have hfront : (a ++ '\t' :: s).dropWhile (· = '\t') = a ++ '\t' :: s := by
    cases a with
    | nil => exact absurd rfl ha
    | cons c cs =>
      rw [List.cons_append, List.dropWhile_cons_of_neg]
      simpa using hkeep c List.mem_cons_self
  rw [readFields, hfront, List.takeWhile_append_of_pos hkeep, List.dropWhile_append_of_pos hkeep]
  simp

/-- A separator in front of the fields is skipped. -/
theorem readFields_tab (n : Nat) (s : Str) : readFields n ('\t' :: s) = readFields n s := by
  cases n <;> simp [readFields]

/-- The last field without a tab is read as it is. -/
theorem readFields_zero {a : Str} (htab : '\t' ∉ a) : readFields 0 a = [a] := by
  have hnone : ∀ c ∈ a, ¬ (c = '\t') := fun c hc he ↦ htab (he ▸ hc)
  have hfront : a.dropWhile (· = '\t') = a := by
    cases a with
    | nil => rfl
    | cons c cs => simp [hnone c List.mem_cons_self]
  have hback : a.rdropWhile (· = '\t') = a := by
    rw [List.rdropWhile_eq_self_iff]
    intro hne
    simpa using hnone _ (List.getLast_mem hne)
  rw [readFields, hfront, hback]

/-- Three fields without tabs, the last one possibly empty, are read back. -/
theorem readFields_three {a b c : Str} (ha : a ≠ []) (hatab : '\t' ∉ a) (hb : b ≠ [])
    (hbtab : '\t' ∉ b) (hctab : '\t' ∉ c) :
    readFields 2 (a ++ '\t' :: b ++ '\t' :: c) = [a, b, c] := by
  rw [List.append_assoc, List.cons_append, readFields_succ ha hatab, readFields_tab,
    readFields_succ hb hbtab, readFields_tab, readFields_zero hctab]

end Sentinel.Base.Shell
