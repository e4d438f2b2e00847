import Sentinel.Shared.Options
import Sentinel.Shared.Procfs

/-!
# Argument vectors behind command lines

`execve` passes NUL-free byte words; `/proc/<pid>/cmdline` shows them NUL-terminated, and
`procfs::read_cmdline` turns them into one text. The laws here follow an argument vector
through that text and the option scan to the key of a command-scope grant: a key is exactly
the whitespace tokens behind the wrapper's options.
-/

namespace Sentinel.Shared

open Sentinel.Base

/-- The words `read_cmdline` joins: the non-empty ones. -/
def argvWords (argv : List CStr) : List Str :=
  (argv.filter (fun a ↦ a.bytes ≠ [])).map CStr.text

/-- The whitespace tokens of all words in order. -/
def argvTokens (argv : List CStr) : List Str := argv.flatMap (fun a ↦ splitWhitespace a.text)

/-- A live process and the `/proc` tree it is seen in. -/
structure Host where
  fs : Procfs
  pid : Int
  pid_pos : 0 < pid

/-- A process that shows nothing. -/
def Host.bare : Host := ⟨fun _ ↦ {}, 1, by decide⟩

/-- The same process started with another argument vector. -/
def Host.started (h : Host) (argv : List CStr) : Host :=
  { h with
    fs := fun p ↦
      if p = h.pid then { h.fs p with cmdline := some (cmdlineBytes (argv.map CStr.bytes)) }
      else h.fs p }

/-- The command line of a started process. -/
def cmdlineText (argv : List CStr) : Str := joinSpace (argvWords argv)

/-- Tokens of concatenated vectors. -/
@[simp] theorem argvTokens_append (a b : List CStr) :
    argvTokens (a ++ b) = argvTokens a ++ argvTokens b := by
  simp [argvTokens]

/-- Tokens of a vector with a first word. -/
@[simp] theorem argvTokens_cons (w : CStr) (ws : List CStr) :
    argvTokens (w :: ws) = splitWhitespace w.text ++ argvTokens ws := by
  simp [argvTokens]

/-- No word, no token. -/
@[simp] theorem argvTokens_nil : argvTokens [] = [] := rfl

/-- Every token of a vector is one. -/
theorem isToken_of_mem_argvTokens {argv : List CStr} {t : Str} (h : t ∈ argvTokens argv) :
    IsToken t := by
  obtain ⟨a, -, ht⟩ := List.mem_flatMap.mp h
  exact isToken_of_mem_splitWhitespace ht

private theorem cmdlineWords_started (argv : List CStr) :
    cmdlineWords (cmdlineBytes (argv.map CStr.bytes)) = argvWords argv := by
  rw [cmdlineWords_cmdlineBytes]
  · rw [List.filter_map, List.map_map]
    rfl
  · intro w hw
    obtain ⟨a, -, rfl⟩ := List.mem_map.mp hw
    exact a.nulFree

/-- `read_cmdline` of a started process. -/
theorem readCmdline_started (h : Host) (argv : List CStr) :
    readCmdline (h.started argv).fs (h.started argv).pid =
      if argvWords argv = [] then none else some (cmdlineText argv) := by
  have hp : ¬ h.pid ≤ 0 := by have := h.pid_pos; omega
  simp only [readCmdline, Host.started, hp, if_true, if_false, cmdlineWords_started, cmdlineText]
  cases argvWords argv <;> rfl

/-- An unreadable command line and an empty one read alike. -/
theorem readCmdline_started_getD (h : Host) (argv : List CStr) :
    (readCmdline (h.started argv).fs (h.started argv).pid).getD [] = cmdlineText argv := by
  rw [readCmdline_started]
  split
  next hw => rw [cmdlineText, hw]; rfl
  next => rfl

/-- The tokens of a command line are those of the words: joining keeps them apart and
empty words have none. -/
theorem splitWhitespace_cmdlineText (argv : List CStr) :
    splitWhitespace (cmdlineText argv) = argvTokens argv := by
  rw [cmdlineText, splitWhitespace_joinSpace]
  induction argv with
  | nil => rfl
  | cons a argv ih =>
    rw [argvTokens_cons, ← ih, argvWords, argvWords]
    by_cases ha : a.bytes = []
    · have hs : splitWhitespace a.text = [] := by
        rw [CStr.text, (fromUtf8Lossy_eq_nil_iff a.bytes).mpr ha, splitWhitespace_nil]
      rw [List.filter_cons_of_neg (by simpa using ha), hs, List.nil_append]
    · rw [List.filter_cons_of_pos (by simpa using ha), List.map_cons, List.flatMap_cons]

/-! ### Command-scope keys -/

/-- The key text of a request by its process: `read_cmdline`, `strip_elevation_prefix`,
`remember_key_command`. -/
def grantKey (h : Host) (scope : RememberScope) : Option Str :=
  (readCmdline h.fs h.pid).map (fun c ↦ rememberKeyCommand (stripElevationPrefix c) scope)

/-- A first word that the strip takes for an elevation tool. -/
structure Wrapper where
  word : CStr
  tool : Str
  more : List Str
  tokens : splitWhitespace word.text = tool :: more
  isTool : isElevationTool tool = true

/-- The word `sudo`. -/
def Wrapper.sudo : Wrapper :=
  ⟨CStr.ofText "sudo", "sudo".toList, [], by decide, by decide⟩

/-- An elevated argument vector: a program word without a leading dash and its arguments. -/
structure Elevated where
  program : CStr
  args : List CStr
  plain : program.bytes.head? ≠ some 45
  deriving DecidableEq

/-- The words of an elevated vector. -/
def Elevated.words (e : Elevated) : List CStr := e.program :: e.args

/-- The tokens that stand behind the options of a wrapper. -/
def elevatedTokens (w : Wrapper) (opts argv : List CStr) : List Str :=
  (scanState (w.more ++ argvTokens opts)).resume (argvTokens argv)

/-- What the strip leaves of a wrapped command line. -/
theorem stripElevationPrefix_wrapped (w : Wrapper) (opts argv : List CStr) :
    stripElevationPrefix (cmdlineText (w.word :: opts ++ argv)) =
      joinSpace (elevatedTokens w opts argv) := by
  have ht : splitWhitespace (cmdlineText (w.word :: opts ++ argv)) =
      w.tool :: ((w.more ++ argvTokens opts) ++ argvTokens argv) := by
    rw [splitWhitespace_cmdlineText, argvTokens_append, argvTokens_cons, w.tokens]
    simp
  rw [stripElevationPrefix_tool ht w.isTool, skipOptions_append, elevatedTokens]

/-- What stands behind the options are tokens. -/
theorem isToken_elevatedTokens (w : Wrapper) (opts argv : List CStr) :
    ∀ t ∈ elevatedTokens w opts argv, IsToken t := by
  intro t ht
  rw [elevatedTokens, ← skipOptions_append] at ht
  have hm := (skipOptions_suffix _).mem ht
  rw [List.append_assoc, List.mem_append, ← argvTokens_append] at hm
  cases hm with
  | inl hm =>
    apply isToken_of_mem_splitWhitespace (s := w.word.text)
    rw [w.tokens]
    exact List.mem_cons_of_mem _ hm
  | inr hm => exact isToken_of_mem_argvTokens hm

/-- The command-scope key of a wrapped request is its elevated tokens. -/
theorem grantKey_wrapped (h : Host) (w : Wrapper) (opts argv : List CStr) :
    grantKey (h.started (w.word :: opts ++ argv)) .command =
      some (joinSpace (elevatedTokens w opts argv)) := by
  have hw : argvWords (w.word :: opts ++ argv) ≠ [] := by
    have hb : w.word.bytes ≠ [] := by
      intro hb
      have ht := w.tokens
      rw [CStr.text, (fromUtf8Lossy_eq_nil_iff _).mpr hb, splitWhitespace_nil] at ht
      cases ht
    simp [argvWords, hb]
  rw [grantKey, readCmdline_started, if_neg hw, Option.map_some, rememberKeyCommand,
    stripElevationPrefix_wrapped, trim_joinSpace (isToken_elevatedTokens w opts argv)]

/-- Two wrapped requests have one command-scope key exactly when their elevated tokens agree. -/
theorem grantKey_wrapped_eq_iff (h : Host) (v w : Wrapper) (opts opts' a b : List CStr) :
    grantKey (h.started (v.word :: opts ++ a)) .command =
        grantKey (h.started (w.word :: opts' ++ b)) .command ↔
      elevatedTokens v opts a = elevatedTokens w opts' b := by
  rw [grantKey_wrapped, grantKey_wrapped, Option.some.injEq,
    joinSpace_inj (isToken_elevatedTokens v opts a) (isToken_elevatedTokens w opts' b)]

/-- The words in front of an elevated vector, as whitespace tokens. -/
def leadingTokens (w : Wrapper) (opts : List CStr) : List Str := w.more ++ argvTokens opts

/-- Two wrapped requests have the same elevated tokens exactly when the option words leave no
difference between their words. -/
theorem elevatedTokens_eq_iff (w : Wrapper) (opts a b : List CStr) :
    elevatedTokens w opts a = elevatedTokens w opts b ↔
      Confused (leadingTokens w opts) (argvTokens a) (argvTokens b) :=
  resume_eq_iff_confused _ _ _

/-- A vector of words that decode to one whitespace token each. -/
def Elevated.Spelled (e : Elevated) : Prop :=
  ∀ w ∈ e.words, IsToken w.text ∧ w.bytes = toUtf8 w.text

private theorem argvTokens_spelled {ws : List CStr} (h : ∀ w ∈ ws, IsToken w.text) :
    argvTokens ws = ws.map CStr.text := by
  induction ws with
  | nil => rfl
  | cons w ws ih =>
    rw [argvTokens_cons, splitWhitespace_token (h w List.mem_cons_self),
      ih fun v hv ↦ h v (List.mem_cons_of_mem _ hv)]
    rfl

private theorem words_inj {ws vs : List CStr} (hw : ∀ w ∈ ws, w.bytes = toUtf8 w.text)
    (hv : ∀ v ∈ vs, v.bytes = toUtf8 v.text) (h : ws.map CStr.text = vs.map CStr.text) :
    ws = vs := by
  induction ws generalizing vs with
  | nil =>
    cases vs with
    | nil => rfl
    | cons v vs => cases h
  | cons w ws ih =>
    cases vs with
    | nil => cases h
    | cons v vs =>
      obtain ⟨hhead, htail⟩ := List.cons.inj h
      have hbytes : w.bytes = v.bytes := by
        rw [hw w List.mem_cons_self, hv v List.mem_cons_self, hhead]
      obtain ⟨bytes, hnul⟩ := w
      obtain ⟨bytes', hnul'⟩ := v
      cases hbytes
      rw [ih (fun w' h' ↦ hw w' (List.mem_cons_of_mem _ h'))
        (fun v' h' ↦ hv v' (List.mem_cons_of_mem _ h')) htail]

/-- Vectors of such words are told apart by their tokens. -/
theorem Elevated.Spelled.ext {a b : Elevated} (ha : a.Spelled) (hb : b.Spelled)
    (h : argvTokens a.words = argvTokens b.words) : a = b := by
  rw [argvTokens_spelled fun w hw ↦ (ha w hw).1, argvTokens_spelled fun w hw ↦ (hb w hw).1] at h
  have hwords := words_inj (fun w hw ↦ (ha w hw).2) (fun w hw ↦ (hb w hw).2) h
  obtain ⟨program, args, plain⟩ := a
  obtain ⟨program', args', plain'⟩ := b
  cases hwords
  rfl

/-- The first token of such a vector is its program, which does not look like an option. -/
theorem Elevated.Spelled.tokens {e : Elevated} (h : e.Spelled) :
    ∃ t ts, argvTokens e.words = t :: ts ∧ startsWithDash t = false := by
  obtain ⟨htoken, hbytes⟩ := h e.program List.mem_cons_self
  refine ⟨e.program.text, argvTokens e.args, ?_, ?_⟩
  · rw [Elevated.words, argvTokens_cons, splitWhitespace_token htoken]
    rfl
  · cases ht : e.program.text with
    | nil => exact absurd ht htoken.1
    | cons c cs =>
      have hplain := e.plain
      rw [hbytes, ht] at hplain
      by_contra hd
      have hc : c = '-' := by simpa [startsWithDash] using hd
      subst hc
      exact hplain rfl

/-- A command-scope key tells two invocations apart exactly when the option words leave a difference
between their whitespace tokens. Behind complete options, in front of commands that do not look like
options, that is any difference, and for vectors of plain words no two invocations have one key. -/
theorem commandKey_identifies_iff (h : Host) (w : Wrapper) (opts : List CStr) (a b : Elevated) :
    ((grantKey (h.started (w.word :: opts ++ a.words)) .command =
        grantKey (h.started (w.word :: opts ++ b.words)) .command → a = b) ↔
      (a = b ∨
        ¬ Confused (leadingTokens w opts) (argvTokens a.words) (argvTokens b.words))) ∧
    (Options (leadingTokens w opts) →
      (∃ t ts, argvTokens a.words = t :: ts ∧ startsWithDash t = false) →
      (∃ t ts, argvTokens b.words = t :: ts ∧ startsWithDash t = false) →
      (Confused (leadingTokens w opts) (argvTokens a.words) (argvTokens b.words) ↔
        argvTokens a.words = argvTokens b.words)) ∧
    (Options (leadingTokens w opts) → a.Spelled → b.Spelled →
      grantKey (h.started (w.word :: opts ++ a.words)) .command =
        grantKey (h.started (w.word :: opts ++ b.words)) .command → a = b) := by
  have hiff (ho : Options (leadingTokens w opts))
      (ha : ∃ t ts, argvTokens a.words = t :: ts ∧ startsWithDash t = false)
      (hb : ∃ t ts, argvTokens b.words = t :: ts ∧ startsWithDash t = false) :
      Confused (leadingTokens w opts) (argvTokens a.words) (argvTokens b.words) ↔
        argvTokens a.words = argvTokens b.words := by
    obtain ⟨t, ts, hta, hd⟩ := ha
    obtain ⟨u, us, hub, hd'⟩ := hb
    rw [hta, hub, ← resume_eq_iff_confused, scanState_eq_options.mpr ho]
    exact (skipOptions_eq_iff _ _).trans (sameCommand_iff hd hd')
  rw [grantKey_wrapped_eq_iff, elevatedTokens_eq_iff]
  refine ⟨?_, hiff, fun ho ha hb hk ↦ ?_⟩
  · constructor
    · intro hk
      by_cases hc : Confused (leadingTokens w opts) (argvTokens a.words) (argvTokens b.words)
      · exact .inl (hk hc)
      · exact .inr hc
    · rintro (he | hne) hc
      · exact he
      · exact absurd hc hne
  · exact ha.ext hb ((hiff ho ha.tokens hb.tokens).mp hk)

/-- `sudo cat "a b"` and `sudo cat a b` are different invocations with one key. -/
theorem commandKey_merges_words :
    let a : Elevated := ⟨CStr.ofText "cat", [CStr.ofText "a b"], by decide⟩
    let b : Elevated := ⟨CStr.ofText "cat", [CStr.ofText "a", CStr.ofText "b"], by decide⟩
    grantKey (Host.bare.started (Wrapper.sudo.word :: [] ++ a.words)) .command =
        grantKey (Host.bare.started (Wrapper.sudo.word :: [] ++ b.words)) .command ∧ a ≠ b := by
  decide

end Sentinel.Shared
