import Mathlib.Data.List.Basic
import Mathlib.Data.List.DropRight
import Mathlib.Data.List.Induction
import Mathlib.Tactic.Common
import Sentinel.Base.KeyValue

/-!
# Command lines: elevation wrappers, eligibility and remember keys

Crate `sentinel-shared`, `crates/sentinel-shared/src/lib.rs:619-794`. A command line is one
text with space-separated words, as `procfs::read_cmdline` produces it. The wrapper's own
words are dropped by one scan that knows which flags take the next word; what is left is
the elevated command shown, matched against the policy and used as the grant's key.
-/

namespace Sentinel.Shared

open Sentinel.Base

/-- Elevation tools by basename; `lib.rs:638`. -/
def elevationTools : List Str :=
  ["pkexec", "sudo", "sudo-rs", "su", "doas"].map String.toList

/-- Flags that take the next word as their value; `lib.rs:643-670`. -/
def elevationFlagsWithValue : List Str :=
  ["--user", "-u", "--group", "-g", "--host", "-h", "--chdir", "-D", "--prompt", "-p",
    "--command-timeout", "-T", "--close-from", "-C", "--type", "-t", "--role", "-r",
    "--other-user", "-U", "--chroot", "-R"].map String.toList

/-- Programs that are never remembered, by basename; `lib.rs:740-751`. -/
def rememberIneligible : List Str :=
  ["sh", "bash", "dash", "zsh", "fish", "ksh", "tcsh", "csh", "ash", "busybox",
    "python", "python2", "python3", "perl", "ruby", "node", "nodejs", "lua", "php", "gdb",
    "tclsh", "expect",
    "su", "sudo", "sudo-rs", "doas", "pkexec", "run0", "env",
    "vi", "vim", "nvim", "view", "emacs", "nano", "less", "more", "man", "ed", "awk",
    "find"].map String.toList

/-- `process_basename`, `lib.rs:722-726`: the last path component when it is a name.
Empty and `.` components are skipped as `Path::components` skips them; a path that ends
in `..` or has no component has no file name. -/
def processBasename (exe : Str) : Option Str :=
  match ((exe.splitOn '/').filter (fun p ↦ p ≠ [] ∧ p ≠ ['.'])).getLast? with
  | none => none
  | some p => if p = ['.', '.'] then none else some p

/-- The basename a word is matched by, or the word itself when it has none;
`process_basename(first).unwrap_or(first)`. -/
def basenameOrSelf (w : Str) : Str := (processBasename w).getD w

/-- Whether a word names an elevation tool. -/
def isElevationTool (w : Str) : Bool := elevationTools.contains (basenameOrSelf w)

/-- Whether a word is a flag that takes the next word. -/
def takesValue (w : Str) : Bool := elevationFlagsWithValue.contains w

/-- `p.starts_with('-')`. -/
def startsWithDash (w : Str) : Bool := w.head? == some '-'

/-- The scan of `strip_elevation_prefix`, `lib.rs:697-709`: what is left of the words
behind `argv[0]` when option flags, and the values of those that take one, are skipped.
The loop index of the source is the number of dropped words. -/
def skipOptions : List Str → List Str
  | [] => []
  | [p] => if takesValue p then [] else if startsWithDash p then [] else [p]
  | p :: v :: rest =>
    if takesValue p then skipOptions rest
    else if startsWithDash p then skipOptions (v :: rest)
    else p :: v :: rest

/-- `strip_elevation_prefix`, `lib.rs:687-715`: drop an elevation tool and its options;
any other command line passes through unchanged. -/
def stripElevationPrefix (cmdline : Str) : Str :=
  match splitWhitespace cmdline with
  | [] => []
  | first :: rest =>
    if isElevationTool first then joinSpace (skipOptions rest) else cmdline

/-- `remember_eligible_command`, `lib.rs:758-764`. -/
def rememberEligibleCommand (cmd : Str) : Bool :=
  match splitWhitespace cmd with
  | [] => false
  | first :: _ => !rememberIneligible.contains (basenameOrSelf first)

/-- `RememberScope`, `lib.rs:776-782`. -/
inductive RememberScope where
  | command
  | program
  deriving DecidableEq, Repr

/-- The configured default; `lib.rs:779`. -/
instance : Inhabited RememberScope := ⟨.command⟩

/-- `remember_key_command`, `lib.rs:789-794`. -/
def rememberKeyCommand (command : Str) : RememberScope → Str
  | .command => trim command
  | .program => (splitWhitespace command).headD []

/-- A basename is one path component. -/
theorem slash_not_mem_processBasename {exe b : Str} (h : processBasename exe = some b) :
    '/' ∉ b := by
  unfold processBasename at h
  split at h
  next => cases h
  next p hp =>
    split at h
    next => cases h
    next =>
      cases h
      exact KeyValue.not_mem_piece (List.mem_of_mem_filter (List.mem_of_getLast? hp))

/-! ### The option scan -/

/-- Every flag with a value starts with a dash. -/
theorem startsWithDash_of_takesValue {w : Str} (h : takesValue w = true) :
    startsWithDash w = true := by
  have hall : ∀ f ∈ elevationFlagsWithValue, startsWithDash f = true := by decide
  exact hall w (by simpa [takesValue] using h)

/-- One step of the scan at a flag with a value. -/
theorem skipOptions_value {p : Str} (hp : takesValue p = true) (v : Str) (rest : List Str) :
    skipOptions (p :: v :: rest) = skipOptions rest := by
  rw [skipOptions, if_pos hp]

/-- One step of the scan at any other option. -/
theorem skipOptions_flag {p : Str} (hp : takesValue p = false) (hd : startsWithDash p = true)
    (rest : List Str) : skipOptions (p :: rest) = skipOptions rest := by
  cases rest <;> simp [skipOptions, hp, hd]

/-- The scan stops at the first word that is no option. -/
theorem skipOptions_word {p : Str} (hd : startsWithDash p = false) (rest : List Str) :
    skipOptions (p :: rest) = p :: rest := by
  have hp : takesValue p = false := by
    cases h : takesValue p with
    | false => rfl
    | true => rw [startsWithDash_of_takesValue h] at hd; cases hd
  cases rest <;> simp [skipOptions, hp, hd]

/-- A flag whose value is missing ends the words. -/
theorem skipOptions_value_last {p : Str} (hp : takesValue p = true) : skipOptions [p] = [] := by
  rw [skipOptions, if_pos hp]

/-- The scan returns a suffix of the words. -/
theorem skipOptions_suffix (ws : List Str) : skipOptions ws <:+ ws := by
  induction ws using skipOptions.induct with
  | case1 => exact List.suffix_refl _
  | case2 p hp => rw [skipOptions_value_last hp]; exact List.nil_suffix
  | case3 p hp hd => rw [skipOptions, if_neg hp, if_pos hd]; exact List.nil_suffix
  | case4 p hp hd => simp [skipOptions, hp, hd]
  | case5 p v rest hp ih =>
    rw [skipOptions_value hp]
    exact ih.trans ((List.suffix_cons _ _).trans (List.suffix_cons _ _))
  | case6 p v rest hp hd ih =>
    rw [skipOptions_flag (by simpa using hp) hd]
    exact ih.trans (List.suffix_cons _ _)
  | case7 p v rest hp hd => simp [skipOptions_word (by simpa using hd)]

/-- Where a scan stands behind some words: still among options, behind a flag whose value
is the next word, or behind a word that is no option, from which on it keeps everything. -/
inductive ScanState where
  | options
  | value
  | kept (words : List Str)
  deriving DecidableEq, Repr

/-- The state of the scan behind some words. -/
def scanState : List Str → ScanState
  | [] => .options
  | [p] =>
    if takesValue p then .value else if startsWithDash p then .options else .kept [p]
  | p :: v :: rest =>
    if takesValue p then scanState rest
    else if startsWithDash p then scanState (v :: rest)
    else .kept (p :: v :: rest)

/-- What a scan in some state leaves of the words that follow. -/
def ScanState.resume : ScanState → List Str → List Str
  | .options, ws => skipOptions ws
  | .value, ws => skipOptions (ws.drop 1)
  | .kept pre, ws => pre ++ ws

/-- The scan of a concatenation resumes in the state behind its first part. -/
theorem skipOptions_append (ws vs : List Str) :
    skipOptions (ws ++ vs) = (scanState ws).resume vs := by
  induction ws using scanState.induct with
  | case1 => rfl
  | case2 p hp =>
    rw [scanState, if_pos hp, List.singleton_append, ScanState.resume]
    cases vs with
    | nil => exact skipOptions_value_last hp
    | cons v vs => rw [skipOptions_value hp, List.drop_one, List.tail_cons]
  | case3 p hp hd =>
    rw [scanState, if_neg hp, if_pos hd, List.singleton_append,
      skipOptions_flag (by simpa using hp) hd, ScanState.resume]
  | case4 p hp hd =>
    rw [scanState, if_neg hp, if_neg hd, List.singleton_append,
      skipOptions_word (by simpa using hd), ScanState.resume, List.singleton_append]
  | case5 p v rest hp ih =>
    rw [scanState, if_pos hp, List.cons_append, List.cons_append, skipOptions_value hp, ih]
  | case6 p v rest hp hd ih =>
    rw [scanState, if_neg hp, if_pos hd, List.cons_append,
      skipOptions_flag (by simpa using hp) hd, ih]
  | case7 p v rest hp hd =>
    rw [scanState, if_neg hp, if_neg hd, List.cons_append,
      skipOptions_word (by simpa using hd), ScanState.resume, List.cons_append, List.cons_append,
      List.cons_append]

/-- What a scan keeps starts with a word that is no option. -/
theorem scanState_kept {ws pre : List Str} (h : scanState ws = .kept pre) :
    ∃ p rest, pre = p :: rest ∧ startsWithDash p = false ∧ pre <:+ ws := by
  induction ws using scanState.induct with
  | case1 => cases h
  | case2 p hp => rw [scanState, if_pos hp] at h; cases h
  | case3 p hp hd => rw [scanState, if_neg hp, if_pos hd] at h; cases h
  | case4 p hp hd =>
    rw [scanState, if_neg hp, if_neg hd] at h
    cases h
    exact ⟨p, [], rfl, by simpa using hd, List.suffix_refl _⟩
  | case5 p v rest hp ih =>
    rw [scanState, if_pos hp] at h
    obtain ⟨q, qs, he, hq, hs⟩ := ih h
    exact ⟨q, qs, he, hq, hs.trans ((List.suffix_cons _ _).trans (List.suffix_cons _ _))⟩
  | case6 p v rest hp hd ih =>
    rw [scanState, if_neg hp, if_pos hd] at h
    obtain ⟨q, qs, he, hq, hs⟩ := ih h
    exact ⟨q, qs, he, hq, hs.trans (List.suffix_cons _ _)⟩
  | case7 p v rest hp hd =>
    rw [scanState, if_neg hp, if_neg hd] at h
    cases h
    exact ⟨p, v :: rest, rfl, by simpa using hd, List.suffix_refl _⟩

/-- The state behind one more word. -/
def ScanState.step : ScanState → Str → ScanState
  | .options, w =>
    if takesValue w then .value else if startsWithDash w then .options else .kept [w]
  | .value, _ => .options
  | .kept pre, w => .kept (pre ++ [w])

/-- The scan goes word by word. -/
theorem scanState_concat (ws : List Str) (t : Str) :
    scanState (ws ++ [t]) = (scanState ws).step t := by
  induction ws using scanState.induct with
  | case1 => rfl
  | case2 p hp =>
    rw [List.singleton_append, scanState, if_pos hp, scanState, if_pos hp]
    rfl
  | case3 p hp hd =>
    rw [List.singleton_append, scanState, if_neg hp, if_pos hd, scanState, if_neg hp, if_pos hd]
    rfl
  | case4 p hp hd =>
    rw [List.singleton_append, scanState, if_neg hp, if_neg hd, scanState, if_neg hp, if_neg hd]
    rfl
  | case5 p v rest hp ih =>
    rw [List.cons_append, List.cons_append, scanState, if_pos hp, scanState, if_pos hp, ih]
  | case6 p v rest hp hd ih =>
    rw [List.cons_append, List.cons_append, scanState, if_neg hp, if_pos hd, ← List.cons_append,
      ih, scanState, if_neg hp, if_pos hd]
  | case7 p v rest hp hd =>
    rw [List.cons_append, List.cons_append, scanState, if_neg hp, if_neg hd, scanState,
      if_neg hp, if_neg hd]
    rfl

/-- Every word without a dash follows an odd run of flags that take a value: in such a run
every second flag is itself the value of the one before. -/
def OptionsOnly (ws : List Str) : Prop :=
  ∀ pre t post, ws = pre ++ t :: post → startsWithDash t = false →
    (pre.rtakeWhile takesValue).length % 2 = 1

private theorem optionsOnly_concat (ws : List Str) (t : Str) :
    OptionsOnly (ws ++ [t]) ↔
      OptionsOnly ws ∧
        (startsWithDash t = false → (ws.rtakeWhile takesValue).length % 2 = 1) := by
  constructor
  · intro h
    refine ⟨fun pre u post he hu ↦ h pre u (post ++ [t]) (by rw [he]; simp) hu, ?_⟩
    exact h ws t [] rfl
  · rintro ⟨h, ht⟩ pre u post he hu
    rcases List.eq_nil_or_concat post with rfl | ⟨post', x, rfl⟩
    · obtain ⟨rfl, hx⟩ := List.append_inj' he rfl
      cases hx
      exact ht hu
    · rw [List.concat_eq_append, ← List.cons_append, ← List.append_assoc] at he
      exact h pre u post' (List.append_inj' he rfl).1 hu

/-- The scan is still among options exactly when every word is one or the value of one, and
then an odd run of flags at the end waits for a value. -/
private theorem scanState_optionsOnly (ws : List Str) :
    (OptionsOnly ws →
      scanState ws =
        if (ws.rtakeWhile takesValue).length % 2 = 1 then .value else .options) ∧
      (¬ OptionsOnly ws → ∃ pre, scanState ws = .kept pre) := by
  induction ws using List.reverseRecOn with
  | nil =>
    refine ⟨fun _ ↦ rfl, fun h ↦ (h ?_).elim⟩
    intro pre t post he
    simp at he
  | append_singleton ws t ih =>
    obtain ⟨ho, hk⟩ := ih
    rw [scanState_concat, optionsOnly_concat, List.rtakeWhile_concat]
    by_cases hw : OptionsOnly ws
    · rw [ho hw]
      by_cases hr : (ws.rtakeWhile takesValue).length % 2 = 1
      · rw [if_pos hr]
        refine ⟨fun _ ↦ ?_, fun h ↦ (h ⟨hw, fun _ ↦ hr⟩).elim⟩
        by_cases ht : takesValue t = true
        · have he : ¬ ((ws.rtakeWhile takesValue ++ [t]).length % 2 = 1) := by
            rw [List.length_append, List.length_singleton]
            omega
          rw [if_pos ht, if_neg he, ScanState.step]
        · rw [if_neg ht]
          rfl
      · rw [if_neg hr]
        by_cases ht : takesValue t = true
        · have he : (ws.rtakeWhile takesValue ++ [t]).length % 2 = 1 := by
            rw [List.length_append, List.length_singleton]
            omega
          have hd := startsWithDash_of_takesValue ht
          refine ⟨fun _ ↦ ?_, fun h ↦ (h ⟨hw, fun hn ↦ ?_⟩).elim⟩
          · rw [if_pos ht, if_pos he, ScanState.step, if_pos ht]
          · rw [hd] at hn
            cases hn
        · rw [if_neg ht, ScanState.step, if_neg ht]
          cases hd : startsWithDash t with
          | true => exact ⟨fun _ ↦ rfl, fun h ↦ (h ⟨hw, fun hn ↦ by cases hn⟩).elim⟩
          | false => exact ⟨fun h ↦ (hr (h.2 rfl)).elim, fun _ ↦ ⟨[t], rfl⟩⟩
    · obtain ⟨pre, hp⟩ := hk hw
      rw [hp]
      exact ⟨fun h ↦ (hw h.1).elim, fun _ ↦ ⟨pre ++ [t], rfl⟩⟩

/-- The scan at the end of the words. -/
theorem skipOptions_eq_resume (ws : List Str) :
    skipOptions ws = (scanState ws).resume [] := by
  rw [← skipOptions_append, List.append_nil]

/-- Nothing is left exactly when all words are options and their values. -/
theorem skipOptions_eq_nil_iff (ws : List Str) : skipOptions ws = [] ↔ OptionsOnly ws := by
  obtain ⟨ho, hk⟩ := scanState_optionsOnly ws
  rw [skipOptions_eq_resume]
  constructor
  · intro h
    by_contra hn
    obtain ⟨pre, hp⟩ := hk hn
    obtain ⟨p, rest, rfl, -, -⟩ := scanState_kept hp
    rw [hp] at h
    cases h
  · intro h
    rw [ho h]
    split <;> rfl

/-- What is left starts with a word that is no option. -/
theorem startsWithDash_head_skipOptions {ws : List Str} {p : Str}
    (h : (skipOptions ws).head? = some p) : startsWithDash p = false := by
  rw [skipOptions_eq_resume] at h
  cases hs : scanState ws with
  | options => rw [hs] at h; cases h
  | value => rw [hs] at h; cases h
  | kept pre =>
    obtain ⟨q, rest, rfl, hq, -⟩ := scanState_kept hs
    rw [hs] at h
    cases h
    exact hq

/-- Every word is an option, or stands behind a flag that takes a value. -/
def OptionWords (ws : List Str) : Prop :=
  ∀ pre w post, ws = pre ++ w :: post →
    startsWithDash w = true ∨ ∃ f, pre.getLast? = some f ∧ takesValue f = true

/-- An odd run of flags ends with the one that takes the word behind it. -/
theorem optionWords_of_optionsOnly {ws : List Str} (h : OptionsOnly ws) : OptionWords ws := by
  intro pre w post he
  cases hd : startsWithDash w with
  | true => exact .inl rfl
  | false =>
    right
    have hodd := h pre w post he hd
    rcases List.eq_nil_or_concat' pre with rfl | ⟨front, f, rfl⟩
    · cases hodd
    · refine ⟨f, List.getLast?_concat, ?_⟩
      by_contra hf
      rw [List.rtakeWhile_concat, if_neg hf] at hodd
      cases hodd

/-- The scan drops options and their values, and keeps the words behind them. -/
theorem skipOptions_dropped (ws : List Str) :
    ∃ dropped, ws = dropped ++ skipOptions ws ∧ OptionWords dropped := by
  obtain ⟨dropped, hws⟩ := skipOptions_suffix ws
  refine ⟨dropped, hws.symm, ?_⟩
  apply optionWords_of_optionsOnly
  rw [← skipOptions_eq_nil_iff, skipOptions_eq_resume]
  have hr : (scanState dropped).resume (skipOptions ws) = skipOptions ws := by
    rw [← skipOptions_append, hws]
  cases hs : scanState dropped with
  | options => rfl
  | value => rfl
  | kept pre =>
    -- A kept word in the dropped part would be kept twice.
    obtain ⟨q, rest, rfl, -, -⟩ := scanState_kept hs
    rw [hs] at hr
    have hl := congrArg List.length hr
    rw [ScanState.resume, List.length_append, List.length_cons] at hl
    omega

/-! ### Stripping -/

/-- The words left of a wrapper's command line. -/
theorem stripElevationPrefix_tool {c first : Str} {rest : List Str}
    (hc : splitWhitespace c = first :: rest) (ht : isElevationTool first = true) :
    stripElevationPrefix c = joinSpace (skipOptions rest) := by
  rw [stripElevationPrefix, hc]
  simp only [ht, if_true]

/-- Any other command line passes through. -/
theorem stripElevationPrefix_other {c first : Str} {rest : List Str}
    (hc : splitWhitespace c = first :: rest) (ht : isElevationTool first = false) :
    stripElevationPrefix c = c := by
  rw [stripElevationPrefix, hc]
  simp only [ht, Bool.false_eq_true, if_false]

/-- Blank text strips to nothing. -/
theorem stripElevationPrefix_blank {c : Str} (hc : splitWhitespace c = []) :
    stripElevationPrefix c = [] := by
  rw [stripElevationPrefix, hc]

/-- What the scan leaves of tokens are tokens. -/
theorem isToken_skipOptions {c first : Str} {rest : List Str}
    (hc : splitWhitespace c = first :: rest) : ∀ t ∈ skipOptions rest, IsToken t := by
  intro t ht
  apply isToken_of_mem_splitWhitespace (s := c)
  rw [hc]
  exact List.mem_cons_of_mem _ ((skipOptions_suffix rest).mem ht)

/-- The tokens of a stripped wrapper are what the scan left. -/
theorem splitWhitespace_stripElevationPrefix {c first : Str} {rest : List Str}
    (hc : splitWhitespace c = first :: rest) (ht : isElevationTool first = true) :
    splitWhitespace (stripElevationPrefix c) = skipOptions rest := by
  rw [stripElevationPrefix_tool hc ht,
    splitWhitespace_joinSpace_tokens (isToken_skipOptions hc)]

/-- Stripping a wrapper always changes the command line: a token is gone. -/
theorem stripElevationPrefix_ne_self {c first : Str} {rest : List Str}
    (hc : splitWhitespace c = first :: rest) (ht : isElevationTool first = true) :
    stripElevationPrefix c ≠ c := by
  intro he
  have hs := splitWhitespace_stripElevationPrefix hc ht
  rw [he, hc] at hs
  have hl := (skipOptions_suffix rest).length_le
  rw [← hs, List.length_cons] at hl
  omega

/-- A stripped wrapper is empty exactly when the scan left no word. -/
theorem stripElevationPrefix_eq_nil_iff {c first : Str} {rest : List Str}
    (hc : splitWhitespace c = first :: rest) (ht : isElevationTool first = true) :
    stripElevationPrefix c = [] ↔ skipOptions rest = [] := by
  rw [stripElevationPrefix_tool hc ht]
  exact joinSpace_eq_nil_iff (fun t h ↦ (isToken_skipOptions hc t h).1)

/-- A stripped wrapper is already trimmed. -/
theorem trim_stripElevationPrefix {c first : Str} {rest : List Str}
    (hc : splitWhitespace c = first :: rest) (ht : isElevationTool first = true) :
    trim (stripElevationPrefix c) = stripElevationPrefix c := by
  rw [stripElevationPrefix_tool hc ht, trim_joinSpace (isToken_skipOptions hc)]

/-- Whether a command line starts with an elevation tool. -/
def Elevates (c : Str) : Prop :=
  ∃ first rest, splitWhitespace c = first :: rest ∧ isElevationTool first = true

/-- Stripping changes a command line exactly when its first word is an elevation tool, or when it
is whitespace only. -/
theorem stripElevationPrefix_ne_self_iff (c : Str) :
    stripElevationPrefix c ≠ c ↔ Elevates c ∨ (c ≠ [] ∧ Blank c) := by
  cases hc : splitWhitespace c with
  | nil =>
    have hb : Blank c := (splitWhitespace_eq_nil_iff c).mp hc
    have hn : ¬ Elevates c := by
      rintro ⟨first, rest, he, -⟩
      rw [hc] at he
      cases he
    rw [stripElevationPrefix_blank hc, ne_comm]
    simp only [hn, hb, false_or, and_true]
  | cons first rest =>
    have hb : ¬ Blank c := by
      rw [← splitWhitespace_eq_nil_iff, hc]
      exact List.cons_ne_nil first rest
    cases ht : isElevationTool first with
    | true => simp [Elevates, hc, ht, stripElevationPrefix_ne_self hc ht]
    | false => simp [Elevates, hc, ht, hb, stripElevationPrefix_other hc ht]

/-- The test whether stripping changed anything tells exactly the lines of elevation tools and the
blank ones; of a tool's line the words behind its options are left, and what is dropped behind the
tool are options and their values. -/
theorem stripElevationPrefix_classifies (c : Str) :
    (stripElevationPrefix c ≠ c ↔ Elevates c ∨ (c ≠ [] ∧ Blank c)) ∧
      (Elevates c → ∃ first dropped kept,
        splitWhitespace c = first :: (dropped ++ kept) ∧
          stripElevationPrefix c = joinSpace kept ∧
          (∀ p, kept.head? = some p → startsWithDash p = false) ∧ OptionWords dropped) := by
  constructor
  · exact stripElevationPrefix_ne_self_iff c
  · rintro ⟨first, rest, hc, ht⟩
    obtain ⟨dropped, hrest, hdropped⟩ := skipOptions_dropped rest
    refine ⟨first, dropped, skipOptions rest, ?_, ?_, ?_, hdropped⟩
    · rw [hc, ← hrest]
    · exact stripElevationPrefix_tool hc ht
    · intro p hp
      exact startsWithDash_head_skipOptions hp

/-! ### Commands that may be remembered -/

/-- A command a grant may be keyed on: not empty, no whitespace at either end, and a program that
is no gateway. -/
structure Rememberable (c : Str) : Prop where
  nonempty : c ≠ []
  head : ∀ ch, c.head? = some ch → isWhitespace ch = false
  last : ∀ ch, c.getLast? = some ch → isWhitespace ch = false
  program : ∃ first rest, splitWhitespace c = first :: rest ∧
    basenameOrSelf first ∉ rememberIneligible
  eligible : rememberEligibleCommand c = true

/-- The program word of an eligible command is no gateway. -/
theorem rememberEligibleCommand_iff (c : Str) :
    rememberEligibleCommand c = true ↔
      ∃ first rest, splitWhitespace c = first :: rest ∧
        basenameOrSelf first ∉ rememberIneligible := by
  unfold rememberEligibleCommand
  cases splitWhitespace c with
  | nil => simp
  | cons first rest => simp

/-- Narrowing an eligible command to its key keeps it rememberable, in either scope. -/
theorem rememberable_keyCommand {c : Str} (h : rememberEligibleCommand c = true)
    (scope : RememberScope) : Rememberable (rememberKeyCommand c scope) := by
  obtain ⟨first, rest, hs, hp⟩ := (rememberEligibleCommand_iff c).mp h
  cases scope with
  | command =>
    have ht : splitWhitespace (trim c) = first :: rest := by rw [splitWhitespace_trim, hs]
    constructor
    case nonempty =>
      intro hnil
      rw [rememberKeyCommand] at hnil
      rw [hnil, splitWhitespace_nil] at ht
      cases ht
    case head => exact fun _ hc ↦ isWhitespace_head_trim hc
    case last => exact fun _ hc ↦ isWhitespace_getLast_trim hc
    case program => exact ⟨first, rest, ht, hp⟩
    case eligible => exact (rememberEligibleCommand_iff _).mpr ⟨first, rest, ht, hp⟩
  | program =>
    have hfirst : rememberKeyCommand c .program = first := by
      rw [rememberKeyCommand, hs]
      rfl
    have htok : IsToken first := isToken_of_mem_splitWhitespace (s := c) (by simp [hs])
    have ht : splitWhitespace first = first :: [] := splitWhitespace_token htok
    rw [hfirst]
    constructor
    case nonempty => exact htok.1
    case head => exact fun ch hc ↦ htok.2 ch (List.mem_of_mem_head? hc)
    case last => exact fun ch hc ↦ htok.2 ch (List.mem_of_getLast? hc)
    case program => exact ⟨first, [], ht, hp⟩
    case eligible => exact (rememberEligibleCommand_iff _).mpr ⟨first, [], ht, hp⟩

end Sentinel.Shared
