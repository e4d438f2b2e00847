import Sentinel.Shared.Command

/-!
# Option spellings

The wrappers read their options with `getopt_long`, which accepts an option in several spellings.
`strip_elevation_prefix` (`crates/sentinel-shared/src/lib.rs:687-715`) reads the same words with a
table of flags that take the next word. The two agree on every spelling but one: in a cluster of
short letters the last letter may take the next word, and the table does not know clusters.
-/

namespace Sentinel.Shared

open Sentinel.Base

/-- An option in one of the spellings of `getopt_long`. -/
inductive GetoptOption where
  | long (name : Str)
  | longValue (name value : Str)
  | separate (flag value : Str)
  | attached (letter : Char) (value : Str)
  | short (letter : Char)
  | cluster (letters : List Char)
  | clusterValue (letters : List Char) (letter : Char) (value : Str)
  deriving DecidableEq, Repr

namespace GetoptOption

/-- A short letter that takes no value. -/
def NoValue (letter : Char) : Prop :=
  isWhitespace letter = false ∧ letter ≠ '-' ∧ takesValue ['-', letter] = false

/-- The spellings: a long flag without a value or with one behind `=`, a listed flag with its value
in the next word, a listed short flag with its value attached, a short flag without a value, and a
cluster of these, with a listed short flag and its value word at the end or without. -/
def WellFormed : GetoptOption → Prop
  | .long name => IsToken name ∧ '=' ∉ name ∧ takesValue ('-' :: '-' :: name) = false
  | .longValue name value => IsToken name ∧ '=' ∉ name ∧ ∀ c ∈ value, isWhitespace c = false
  | .separate flag value => takesValue flag = true ∧ IsToken value
  | .attached letter value => takesValue ['-', letter] = true ∧ IsToken value
  | .short letter => NoValue letter
  | .cluster letters => 2 ≤ letters.length ∧ ∀ c ∈ letters, NoValue c
  | .clusterValue letters letter value =>
    letters ≠ [] ∧ (∀ c ∈ letters, NoValue c) ∧ takesValue ['-', letter] = true ∧ IsToken value

/-- The words of an option. -/
def words : GetoptOption → List Str
  | .long name => ['-' :: '-' :: name]
  | .longValue name value => ['-' :: '-' :: (name ++ '=' :: value)]
  | .separate flag value => [flag, value]
  | .attached letter value => ['-' :: letter :: value]
  | .short letter => [['-', letter]]
  | .cluster letters => ['-' :: letters]
  | .clusterValue letters letter value => ['-' :: (letters ++ [letter]), value]

/-- The value word of an option whose flag the table does not know. -/
def hiddenValue : GetoptOption → Option Str
  | .clusterValue _ _ value => some value
  | _ => none

/-- The value word of an option, known or not. -/
def valueWord : GetoptOption → Option Str
  | .separate _ value => some value
  | .clusterValue _ _ value => some value
  | _ => none

/-- What a value word is taken for that is read as an option: it is passed by when it starts with a
dash, and takes the next word when it is listed. -/
def misread (value : Str) : Option Bool :=
  if startsWithDash value then some (takesValue value) else none

/-- Whether the word behind an option is taken as a value, given whether the first word of the
option is; nothing when the option's own value is taken as the command. -/
def follow (o : GetoptOption) (waiting : Bool) : Option Bool :=
  match if waiting then o.valueWord else o.hiddenValue with
  | some value => misread value
  | none => some false

end GetoptOption

/-- The words of some options. -/
def getoptWords (os : List GetoptOption) : List Str := os.flatMap GetoptOption.words

/-- The options one after another. -/
def followAll : List GetoptOption → Bool → Option Bool
  | [], waiting => some waiting
  | o :: os, waiting => (o.follow waiting).bind (followAll os)

/-- The scan is in step with the options when none of their values is taken as the command, and
the command, when there is one, is not taken as a value. -/
def InStep (os : List GetoptOption) (command : List Str) : Prop :=
  ∃ waiting, followAll os false = some waiting ∧ (command ≠ [] → waiting = false)

/-! ### Words that the table does not know -/

/-- Every listed flag is a short or a long one, without `=`. -/
theorem takesValue_cases {w : Str} (h : takesValue w = true) :
    (w.length = 2 ∨ w[1]? = some '-') ∧ '=' ∉ w := by
  have hall : ∀ f ∈ elevationFlagsWithValue, (f.length = 2 ∨ f[1]? = some '-') ∧ '=' ∉ f := by
    decide
  exact hall w (by simpa [takesValue] using h)

/-- A short flag with more behind it is not listed. -/
theorem takesValue_long_short {c d : Char} {w : Str} (hc : c ≠ '-') :
    takesValue ('-' :: c :: d :: w) = false := by
  cases h : takesValue ('-' :: c :: d :: w) with
  | false => rfl
  | true =>
    rcases (takesValue_cases h).1 with hlen | hdash
    · simp at hlen
    · simp only [List.getElem?_cons_succ, List.getElem?_cons_zero, Option.some.injEq] at hdash
      exact absurd hdash hc

namespace GetoptOption

/-- An option is one word that the table skips, a listed flag with its value, or a word that the
table skips with a value behind it. -/
theorem words_cases {o : GetoptOption} (h : o.WellFormed) :
    (∃ w, o.words = [w] ∧ startsWithDash w = true ∧ takesValue w = false ∧
      o.hiddenValue = none ∧ o.valueWord = none) ∨
    (∃ f v, o.words = [f, v] ∧ takesValue f = true ∧ o.hiddenValue = none ∧
      o.valueWord = some v) ∨
    (∃ w v, o.words = [w, v] ∧ startsWithDash w = true ∧ takesValue w = false ∧
      o.hiddenValue = some v ∧ o.valueWord = some v) := by
  cases o with
  | long name => exact Or.inl ⟨_, rfl, rfl, h.2.2, rfl, rfl⟩
  | longValue name value =>
    refine Or.inl ⟨_, rfl, rfl, ?_, rfl, rfl⟩
    cases ht : takesValue ('-' :: '-' :: (name ++ '=' :: value)) with
    | false => rfl
    | true => exact absurd (by simp) (takesValue_cases ht).2
  | separate f value => exact Or.inr (Or.inl ⟨f, value, rfl, h.1, rfl, rfl⟩)
  | attached letter value =>
    refine Or.inl ⟨_, rfl, rfl, ?_, rfl, rfl⟩
    have hletter : letter ≠ '-' := by
      rintro rfl
      exact absurd h.1 (by decide)
    cases value with
    | nil => exact absurd rfl h.2.1
    | cons c cs => exact takesValue_long_short hletter
  | short letter => exact Or.inl ⟨_, rfl, rfl, h.2.2, rfl, rfl⟩
  | cluster letters =>
    refine Or.inl ⟨_, rfl, rfl, ?_, rfl, rfl⟩
    match letters, h with
    | [], ⟨hlen, _⟩ => exact absurd hlen (by decide)
    | [_], ⟨hlen, _⟩ => exact absurd hlen (by simp)
    | c :: d :: cs, ⟨_, hall⟩ => exact takesValue_long_short (hall c (by simp)).2.1
  | clusterValue letters letter value =>
    refine Or.inr (Or.inr ⟨_, value, rfl, rfl, ?_, rfl, rfl⟩)
    match letters, h with
    | [], ⟨hne, _⟩ => exact absurd rfl hne
    | [c], ⟨_, hall, _⟩ => exact takesValue_long_short (hall c (by simp)).2.1
    | c :: d :: cs, ⟨_, hall, _⟩ => exact takesValue_long_short (hall c (by simp)).2.1

end GetoptOption

/-! ### The scan over options -/

/-- The scan over some words, the first of which is taken as a value or not. -/
def scanFrom (waiting : Bool) (ws : List Str) : List Str :=
  skipOptions (if waiting then ws.drop 1 else ws)

/-- A value that is read as an option. -/
theorem skipOptions_misread (v : Str) (ws : List Str) :
    skipOptions (v :: ws) =
      match GetoptOption.misread v with
      | some waiting => scanFrom waiting ws
      | none => v :: ws := by
  unfold GetoptOption.misread
  cases hd : startsWithDash v with
  | false => exact skipOptions_word hd ws
  | true =>
    cases ht : takesValue v with
    | false => exact skipOptions_flag ht hd ws
    | true =>
      cases ws with
      | nil => exact skipOptions_value_last ht
      | cons w ws => exact skipOptions_value ht w ws

/-- The scan over one option. -/
theorem scanFrom_words {o : GetoptOption} (h : o.WellFormed) (waiting : Bool) (ws : List Str) :
    (∃ next, o.follow waiting = some next ∧
      scanFrom waiting (o.words ++ ws) = scanFrom next ws) ∨
    (∃ v, o.follow waiting = none ∧ scanFrom waiting (o.words ++ ws) = v :: ws) := by
  -- A value that is read as an option decides how the scan goes on.
  have hread (v : Str) :
      (∃ next, GetoptOption.misread v = some next ∧ skipOptions (v :: ws) = scanFrom next ws) ∨
      (∃ v', GetoptOption.misread v = none ∧ skipOptions (v :: ws) = v' :: ws) := by
    rw [skipOptions_misread]
    cases GetoptOption.misread v with
    | none => exact Or.inr ⟨v, rfl, rfl⟩
    | some next => exact Or.inl ⟨next, rfl, rfl⟩
  rcases GetoptOption.words_cases h with
    ⟨w, hw, hd, ht, hh, hv⟩ | ⟨f, v, hw, ht, hh, hv⟩ | ⟨w, v, hw, hd, ht, hh, hv⟩
  · rw [hw, GetoptOption.follow, hh, hv]
    refine Or.inl ⟨false, by cases waiting <;> rfl, ?_⟩
    cases waiting with
    | false => exact skipOptions_flag ht hd ws
    | true => rfl
  · rw [hw, GetoptOption.follow, hh, hv]
    cases waiting with
    | false => exact Or.inl ⟨false, rfl, skipOptions_value ht v ws⟩
    | true => exact hread v
  · have hskip (b : Bool) : scanFrom b ([w, v] ++ ws) = skipOptions (v :: ws) := by
      cases b with
      | false => exact skipOptions_flag ht hd (v :: ws)
      | true => rfl
    rw [hw, GetoptOption.follow, hh, hv, hskip]
    cases waiting with
    | false => exact hread v
    | true => exact hread v

/-- Where the words start with the command, the scan stops, unless the command is taken as a
value. -/
theorem scanFrom_command {command : List Str}
    (hc : ∀ c, command.head? = some c → startsWithDash c = false) (waiting : Bool) :
    scanFrom waiting command = command ↔ (command ≠ [] → waiting = false) := by
  cases command with
  | nil => cases waiting <;> simp [scanFrom, skipOptions]
  | cons c args =>
    cases waiting with
    | false =>
      have hstop : scanFrom false (c :: args) = c :: args := skipOptions_word (hc c rfl) args
      simp [hstop]
    | true =>
      have hlen : (scanFrom true (c :: args)).length ≤ args.length :=
        (skipOptions_suffix args).length_le
      simp only [ne_eq, reduceCtorEq, not_false_eq_true, Bool.true_eq_false, imp_false,
        not_true_eq_false, iff_false]
      intro h
      rw [h, List.length_cons] at hlen
      omega

/-- The scan over some options leaves the command exactly when it follows them. -/
theorem scanFrom_getoptWords {os : List GetoptOption} (hos : ∀ o ∈ os, o.WellFormed)
    {command : List Str} (hc : ∀ c, command.head? = some c → startsWithDash c = false)
    (waiting : Bool) :
    scanFrom waiting (getoptWords os ++ command) = command ↔
      ∃ next, followAll os waiting = some next ∧ (command ≠ [] → next = false) := by
  induction os generalizing waiting with
  | nil =>
    simp only [getoptWords, List.flatMap_nil, List.nil_append, followAll, Option.some.injEq,
      exists_eq_left']
    exact scanFrom_command hc waiting
  | cons o os ih =>
    have hwords : getoptWords (o :: os) ++ command = o.words ++ (getoptWords os ++ command) := by
      rw [getoptWords, List.flatMap_cons, List.append_assoc]
      rfl
    rw [hwords, followAll]
    rcases scanFrom_words (hos o (by simp)) waiting (getoptWords os ++ command) with
      ⟨next, hf, hscan⟩ | ⟨v, hf, hscan⟩
    · rw [hscan, hf]
      exact ih (fun o' ho' ↦ hos o' (by simp [ho'])) next
    · rw [hscan, hf]
      simp only [Option.bind_none, reduceCtorEq, false_and, exists_false, iff_false]
      -- The value and everything behind it are left, which is longer than the command.
      intro h
      have hlen := congrArg List.length h
      rw [List.length_cons, List.length_append] at hlen
      omega

/-- `strip_elevation_prefix` leaves the elevated command of a sudo command line, or nothing when
there is none, exactly when the scan is in step with the options. -/
theorem strip_finds_command_iff {tool cmdline : Str} {os : List GetoptOption}
    {command : List Str}
    (htool : basenameOrSelf tool = "sudo".toList ∨ basenameOrSelf tool = "sudo-rs".toList)
    (hos : ∀ o ∈ os, o.WellFormed)
    (hc : ∀ c, command.head? = some c → startsWithDash c = false)
    (hline : splitWhitespace cmdline = tool :: (getoptWords os ++ command)) :
    stripElevationPrefix cmdline = joinSpace command ↔ InStep os command := by
  have htools : isElevationTool tool = true := by
    unfold isElevationTool
    rcases htool with h | h
    · rw [h]
      decide
    · rw [h]
      decide
  have htoken : ∀ t ∈ getoptWords os ++ command, IsToken t := by
    intro t ht
    apply isToken_of_mem_splitWhitespace (s := cmdline)
    rw [hline]
    exact List.mem_cons_of_mem _ ht
  have hstrip : stripElevationPrefix cmdline =
      joinSpace (skipOptions (getoptWords os ++ command)) := by
    rw [stripElevationPrefix, hline]
    exact if_pos htools
  rw [hstrip, joinSpace_inj]
  · exact scanFrom_getoptWords hos hc false
  · intro t ht
    exact htoken t ((skipOptions_suffix _).mem ht)
  · intro t ht
    exact htoken t (List.mem_append_right _ ht)

/-- Without a cluster that takes a value word the scan is in step. -/
theorem inStep_of_known {os : List GetoptOption} (h : ∀ o ∈ os, o.hiddenValue = none)
    (command : List Str) : InStep os command := by
  have hfollow : followAll os false = some false := by
    induction os with
    | nil => rfl
    | cons o os ih =>
      have hf : o.follow false = some false := by
        rw [GetoptOption.follow]
        simp only [Bool.false_eq_true, if_false, h o (by simp)]
      rw [followAll, hf, Option.bind_some]
      exact ih fun o' ho' ↦ h o' (by simp [ho'])
  exact ⟨false, hfollow, fun _ ↦ rfl⟩

/-- With one whose value word does not start with a dash, and no such cluster in front of it, the
scan stops at that word. -/
theorem not_inStep_of_cluster {os os' : List GetoptOption} {o : GetoptOption} {v : Str}
    (h : ∀ o ∈ os, o.hiddenValue = none) (ho : o.hiddenValue = some v)
    (hv : startsWithDash v = false) (command : List Str) : ¬ InStep (os ++ o :: os') command := by
  have hfollow : followAll (os ++ o :: os') false = none := by
    induction os with
    | nil =>
      have hf : o.follow false = none := by
        rw [GetoptOption.follow]
        simp only [Bool.false_eq_true, if_false, ho, GetoptOption.misread, hv]
      rw [List.nil_append, followAll, hf, Option.bind_none]
    | cons x os ih =>
      have hf : x.follow false = some false := by
        rw [GetoptOption.follow]
        simp only [Bool.false_eq_true, if_false, h x (by simp)]
      rw [List.cons_append, followAll, hf, Option.bind_some]
      exact ih fun o' ho' ↦ h o' (by simp [ho'])
  rintro ⟨next, hnext, -⟩
  rw [hfollow] at hnext
  cases hnext

/-- `-E -u root --login -uroot`, options the table knows. -/
def knownOptions : List GetoptOption :=
  [.short 'E', .separate "-u".toList "root".toList, .long "login".toList,
    .attached 'u' "root".toList]

/-- They are spelled as `getopt_long` accepts them. -/
theorem knownOptions_wellFormed : ∀ o ∈ knownOptions, o.WellFormed := by
  have htoken {w : Str} (h : splitWhitespace w = [w]) : IsToken w :=
    isToken_of_mem_splitWhitespace (s := w) (by rw [h]; exact List.mem_singleton_self w)
  intro o ho
  simp only [knownOptions, List.mem_cons, List.not_mem_nil, or_false] at ho
  rcases ho with rfl | rfl | rfl | rfl
  · exact ⟨by decide, by decide, by decide⟩
  · exact ⟨by decide, htoken (by decide)⟩
  · exact ⟨htoken (by decide), by decide, by decide⟩
  · exact ⟨by decide, htoken (by decide)⟩

/-- The command behind them is found. -/
theorem knownOptions_stripped :
    stripElevationPrefix "sudo -E -u root --login -uroot id -u".toList = "id -u".toList := by
  have hc : ∀ c, ["id".toList, "-u".toList].head? = some c → startsWithDash c = false := by
    intro c hc
    cases hc
    decide
  have htool : basenameOrSelf "sudo".toList = "sudo".toList := by decide
  exact (strip_finds_command_iff (Or.inl htool) knownOptions_wellFormed hc (by decide)).mpr
    (inStep_of_known (by decide) _)

/-- `-nu root`, the letter `u` at the end of a cluster. -/
def clusteredUser : GetoptOption := .clusterValue ['n'] 'u' "root".toList

/-- The value is taken as the command. -/
theorem clusteredUser_stripped :
    clusteredUser.WellFormed ∧
      splitWhitespace "sudo -nu root id".toList =
        "sudo".toList :: (getoptWords [clusteredUser] ++ ["id".toList]) ∧
      stripElevationPrefix "sudo -nu root id".toList = "root id".toList ∧
      stripElevationPrefix "sudo -nu root id".toList ≠ joinSpace ["id".toList] := by
  have hroot : splitWhitespace "root".toList = ["root".toList] := by decide
  refine ⟨⟨by decide, ?_, by decide, ?_⟩, by decide, by decide, by decide⟩
  · intro c hc
    cases List.mem_singleton.mp hc
    exact ⟨by decide, by decide, by decide⟩
  · apply isToken_of_mem_splitWhitespace (s := "root".toList)
    rw [hroot]
    exact List.mem_singleton_self _

end Sentinel.Shared
