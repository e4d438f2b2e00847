import Sentinel.Base.Logfmt

/-!
# Quoted values of audit records

Module `log_kv`, `crates/sentinel-shared/src/lib.rs:1066-1093`. A value is printed bare, or between
double quotes with double quotes and backslashes escaped. A reader of logfmt gets every record
back; the characters of a line break are not among the escaped ones.
-/

namespace Sentinel.Shared.LogKv

open Sentinel.Base Sentinel.Base.Logfmt

/-- `needs_quoting`, `lib.rs:1075-1077`. -/
def needsQuoting (value : Str) : Bool :=
  value.any (fun c ↦ isWhitespace c || c == '"' || c == '=')

/-- One character between quotes, `lib.rs:1084-1088`. -/
def escapeChar (c : Char) : Str :=
  match c with
  | '"' => ['\\', '"']
  | '\\' => ['\\', '\\']
  | c => [c]

/-- A value between quotes, `lib.rs:1083-1089`. -/
def escape (value : Str) : Str := value.flatMap escapeChar

/-- `log_kv::quote`, `lib.rs:1071-1092`. -/
def quote (value : Str) : Str :=
  if value = [] then ['"', '"']
  else if needsQuoting value then '"' :: escape value ++ ['"']
  else value

/-- A backslash alone leaves a value bare; between quotes it is escaped. -/
example : quote "a\tb".toList = "\"a\tb\"".toList ∧ quote "a\\b".toList = "a\\b".toList ∧
    quote "a b\\c".toList = "\"a b\\\\c\"".toList := by decide

/-! ### Records read back -/

/-- A record as the audit lines print it: `key=` and the quoted value, one space between
neighbours. -/
def logfmt (fields : List (Key × Str)) : Str := recordText quote fields

private theorem escapeChar_other {c : Char} (hq : c ≠ '"') (hb : c ≠ '\\') :
    escapeChar c = [c] := by
  rw [escapeChar]
  · exact hq
  · exact hb

/-- Escaped text is read as the text. -/
theorem run_escape (fs : List (Key × Str)) (k : Key) (a v : Str) :
    Reader.run ⟨fs, .quoted k a⟩ (escape v) = some ⟨fs, .quoted k (a ++ v)⟩ := by
  induction v generalizing a with
  | nil => rw [escape, List.flatMap_nil, Reader.run_nil, List.append_nil]
  | cons c cs ih =>
    have hc : Reader.run ⟨fs, .quoted k a⟩ (escapeChar c) = some ⟨fs, .quoted k (a ++ [c])⟩ := by
      by_cases hq : c = '"'
      · rw [hq]
        rfl
      · by_cases hb : c = '\\'
        · rw [hb]
          rfl
        · rw [escapeChar_other hq hb, Reader.run_cons, Reader.step_quoted hq hb]
          rfl
    rw [escape, List.flatMap_cons, ← escape, Reader.run_append, hc, Option.bind_some, ih,
      List.append_assoc, List.singleton_append]

/-- What needs no quoting has no whitespace and no double quote. -/
theorem of_needsQuoting_eq_false {v : Str} (h : needsQuoting v = false) :
    ∀ c ∈ v, isWhitespace c = false ∧ c ≠ '"' := by
  intro c hc
  have hn := List.any_eq_false.mp h c hc
  simp only [Bool.not_eq_true, Bool.or_eq_false_iff, beq_eq_false_iff_ne] at hn
  exact hn.1

/-- Text that needs no quoting is read as it is. -/
theorem run_unquoted {v : Str} (hv : v ≠ []) (h : needsQuoting v = false) (fs : List (Key × Str))
    (k : Key) : Reader.run ⟨fs, .value k⟩ v = some ⟨fs, .bare k v⟩ := by
  cases v with
  | nil => exact absurd rfl hv
  | cons c cs =>
    have hn := of_needsQuoting_eq_false h
    obtain ⟨hws, hq⟩ := hn c List.mem_cons_self
    rw [Reader.run_cons, Reader.step_value hq hws, Option.bind_some,
      Reader.run_bare (fun d hd ↦ (hn d (List.mem_cons_of_mem c hd)).1), List.singleton_append]

/-- The reader completes a quoted value to the value. -/
theorem encodes_quote : Encodes quote := by
  intro fs k v
  unfold quote
  split
  · next hv =>
    rw [hv]
    exact ⟨_, rfl, Reader.complete_closed _⟩
  · next hv =>
    split
    · refine ⟨⟨fs ++ [(k, v)], .closed⟩, ?_, Reader.complete_closed _⟩
      have ho : Reader.step ⟨fs, .value k⟩ '"' = some ⟨fs, .quoted k []⟩ := rfl
      rw [List.cons_append, Reader.run_cons, ho, Option.bind_some, Reader.run_append, run_escape,
        Option.bind_some, List.nil_append]
      rfl
    · next hn =>
      exact ⟨_, run_unquoted hv (eq_false_of_ne_true hn) fs k, Reader.complete_bare _ _ _⟩

/-- Every record is read back to the fields it was printed from. -/
theorem readRecord_logfmt (fields : List (Key × Str)) :
    readRecord (logfmt fields) = some fields :=
  readRecord_recordText encodes_quote fields

/-! ### Line breaks -/

/-- A text without line feed and carriage return. -/
def OneLine (s : Str) : Prop := '\n' ∉ s ∧ '\r' ∉ s

instance (s : Str) : Decidable (OneLine s) := inferInstanceAs (Decidable (_ ∧ _))

/-- Texts in a row are on one line when each is. -/
theorem oneLine_append (s t : Str) : OneLine (s ++ t) ↔ OneLine s ∧ OneLine t := by
  simp only [OneLine, List.mem_append]
  tauto

/-- A join is on one line when every word is. -/
theorem oneLine_joinSpace (ws : List Str) : OneLine (joinSpace ws) ↔ ∀ w ∈ ws, OneLine w := by
  induction ws with
  | nil => simp [joinSpace, OneLine]
  | cons w ws ih =>
    cases ws with
    | nil => simp [joinSpace]
    | cons v vs =>
      have hs : OneLine [' '] := by decide
      rw [joinSpace, ← List.singleton_append, oneLine_append, oneLine_append, ih]
      simp only [hs, true_and, List.forall_mem_cons]

/-- What needs no quoting is on one line. -/
theorem oneLine_of_needsQuoting_eq_false {v : Str} (h : needsQuoting v = false) : OneLine v := by
  have hn := of_needsQuoting_eq_false h
  constructor
  · intro hc
    exact absurd (hn _ hc).1 (by decide)
  · intro hc
    exact absurd (hn _ hc).1 (by decide)

/-- Escaping neither adds nor removes a character other than the backslash. -/
private theorem mem_escape_iff {c : Char} (hb : c ≠ '\\') (v : Str) : c ∈ escape v ↔ c ∈ v := by
  have hc : ∀ d, c ∈ escapeChar d ↔ c = d := by
    intro d
    by_cases hq : d = '"'
    · rw [hq]
      simp [escapeChar, hb]
    · by_cases hd : d = '\\'
      · rw [hd]
        simp [escapeChar]
      · rw [escapeChar_other hq hd, List.mem_singleton]
  simp only [escape, List.mem_flatMap, hc, exists_eq_right']

/-- Quoting neither adds nor removes a character other than the double quote and the
backslash. -/
theorem mem_quote_iff {c : Char} (hq : c ≠ '"') (hb : c ≠ '\\') (v : Str) :
    c ∈ quote v ↔ c ∈ v := by
  unfold quote
  split
  · next hv => simp [hv, hq]
  · split
    · simp [hq, mem_escape_iff hb]
    · rfl

/-- A quoted value is on one line exactly when the value is. -/
theorem oneLine_quote (v : Str) : OneLine (quote v) ↔ OneLine v := by
  rw [OneLine, OneLine, mem_quote_iff (by decide) (by decide),
    mem_quote_iff (by decide) (by decide)]

end Sentinel.Shared.LogKv
