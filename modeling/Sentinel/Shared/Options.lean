import Sentinel.Shared.Command

/-!
# Option words

The words behind a wrapper as `strip_elevation_prefix` (`crates/sentinel-shared/src/lib.rs:672-715`)
means to read them: flags, listed flags with the word behind them, and the command from the first
word on that is neither. The option scan finds exactly this reading, so what it does behind some
words is a condition on these words.
-/

namespace Sentinel.Shared

open Sentinel.Base

/-- Flags, and listed flags with their values. -/
inductive Options : List Str → Prop where
  | nil : Options []
  | flag {w : Str} {ws : List Str} (hd : startsWithDash w = true) (hv : takesValue w = false)
      (h : Options ws) : Options (w :: ws)
  | valued {f : Str} {ws : List Str} (hf : takesValue f = true) (v : Str) (h : Options ws) :
      Options (f :: v :: ws)

/-- Options with a listed flag at the end that has no value yet. -/
def Waits (ws : List Str) : Prop :=
  ∃ os f, ws = os ++ [f] ∧ Options os ∧ takesValue f = true

/-- Options with a command behind them: from a word on that is neither an option nor a value. -/
def Reaches (ws command : List Str) : Prop :=
  ∃ os c cs, ws = os ++ command ∧ Options os ∧ command = c :: cs ∧ startsWithDash c = false

/-- A command that does not look like an option is reached at once. -/
theorem reaches_self {c : Str} (hd : startsWithDash c = false) (cs : List Str) :
    Reaches (c :: cs) (c :: cs) := ⟨[], c, cs, rfl, .nil, rfl, hd⟩

/-- Options one after another. -/
theorem Options.append {os ws : List Str} (ho : Options os) (hw : Options ws) :
    Options (os ++ ws) := by
  induction ho with
  | nil => exact hw
  | flag hd hv _ ih => exact .flag hd hv ih
  | valued hf v _ ih => exact .valued hf v ih

/-! ### The scan -/

/-- The reading that a state of the scan stands for. -/
def ScanState.Means (ws : List Str) : ScanState → Prop
  | .options => Options ws
  | .value => Waits ws
  | .kept command => Reaches ws command

/-- One flag further. -/
private theorem scanState_flag {w : Str} (hv : takesValue w = false) (hd : startsWithDash w = true)
    (ws : List Str) : scanState (w :: ws) = scanState ws := by
  cases ws <;> simp [scanState, hv, hd]

/-- At a command the scan stops. -/
private theorem scanState_word {c : Str} (hd : startsWithDash c = false) (cs : List Str) :
    scanState (c :: cs) = .kept (c :: cs) := by
  have hv : takesValue c = false := by
    cases h : takesValue c with
    | false => rfl
    | true => rw [startsWithDash_of_takesValue h] at hd; cases hd
  cases cs <;> simp [scanState, hv, hd]

/-- The scan passes options by. -/
theorem Options.scanState_append {os : List Str} (h : Options os) (ws : List Str) :
    scanState (os ++ ws) = scanState ws := by
  induction h with
  | nil => rfl
  | flag hd hv _ ih => rw [List.cons_append, scanState_flag hv hd, ih]
  | valued hf v _ ih => rw [List.cons_append, List.cons_append, scanState, if_pos hf, ih]

/-- Words in front of which an option stands. -/
private theorem means_cons {os ws : List Str} (ho : Options os)
    (h : (scanState ws).Means ws) : (scanState ws).Means (os ++ ws) := by
  cases hs : scanState ws with
  | options =>
    rw [hs] at h
    exact ho.append h
  | value =>
    rw [hs] at h
    obtain ⟨os', f, rfl, ho', hf⟩ := h
    exact ⟨os ++ os', f, (List.append_assoc _ _ _).symm, ho.append ho', hf⟩
  | kept command =>
    rw [hs] at h
    obtain ⟨os', c, cs, rfl, ho', hc, hd⟩ := h
    exact ⟨os ++ os', c, cs, (List.append_assoc _ _ _).symm, ho.append ho', hc, hd⟩

/-- The scan reads the words as they are meant. -/
theorem scanState_means (ws : List Str) : (scanState ws).Means ws := by
  induction ws using scanState.induct with
  | case1 => exact .nil
  | case2 p hp =>
    rw [scanState, if_pos hp]
    exact ⟨[], p, rfl, .nil, hp⟩
  | case3 p hp hd =>
    rw [scanState, if_neg hp, if_pos hd]
    exact .flag hd (by simpa using hp) .nil
  | case4 p hp hd =>
    rw [scanState, if_neg hp, if_neg hd]
    exact reaches_self (by simpa using hd) []
  | case5 p v rest hp ih =>
    rw [scanState, if_pos hp]
    exact means_cons (.valued hp v .nil) ih
  | case6 p v rest hp hd ih =>
    rw [scanState, if_neg hp, if_pos hd]
    exact means_cons (.flag hd (by simpa using hp) .nil) ih
  | case7 p v rest hp hd =>
    rw [scanState, if_neg hp, if_neg hd]
    exact reaches_self (by simpa using hd) _

/-- There is one reading. -/
theorem scanState_eq_iff (ws : List Str) (state : ScanState) :
    scanState ws = state ↔ state.Means ws := by
  constructor
  · rintro rfl
    exact scanState_means ws
  · intro h
    cases state with
    | options =>
      have happ := Options.scanState_append h []
      rwa [List.append_nil] at happ
    | value =>
      obtain ⟨os, f, rfl, ho, hf⟩ := h
      rw [ho.scanState_append, scanState, if_pos hf]
    | kept command =>
      obtain ⟨os, c, cs, rfl, ho, rfl, hd⟩ := h
      rw [ho.scanState_append, scanState_word hd]

/-- Behind options the scan is between them. -/
theorem scanState_eq_options {ws : List Str} : scanState ws = .options ↔ Options ws :=
  scanState_eq_iff ws .options

/-- Behind a listed flag without a value the scan waits for it. -/
theorem scanState_eq_value {ws : List Str} : scanState ws = .value ↔ Waits ws :=
  scanState_eq_iff ws .value

/-- Behind a command the scan has kept it. -/
theorem scanState_eq_kept {ws command : List Str} :
    scanState ws = .kept command ↔ Reaches ws command := scanState_eq_iff ws (.kept command)

/-- Behind a listed flag options are its value and the options behind that. -/
theorem options_listed_iff {f : Str} (hf : takesValue f = true) (ws : List Str) :
    Options (f :: ws) ↔ ∃ v rest, ws = v :: rest ∧ Options rest := by
  cases ws with
  | nil => simp [← scanState_eq_options, scanState, hf]
  | cons v rest => simp [← scanState_eq_options, scanState, hf]

/-- The scan leaves the command that the words reach. -/
theorem skipOptions_eq_cons_iff {ws : List Str} {c : Str} {cs : List Str} :
    skipOptions ws = c :: cs ↔ Reaches ws (c :: cs) := by
  rw [← scanState_eq_kept, skipOptions_eq_resume]
  cases scanState ws with
  | options => simp [ScanState.resume, skipOptions]
  | value => simp [ScanState.resume, skipOptions]
  | kept command => simp [ScanState.resume]

/-- A command that is reached is left. -/
theorem Reaches.skipOptions {ws command : List Str} (h : Reaches ws command) :
    Shared.skipOptions ws = command := by
  obtain ⟨os, c, cs, he, ho, rfl, hd⟩ := h
  exact skipOptions_eq_cons_iff.mpr ⟨os, c, cs, he, ho, rfl, hd⟩

/-- A command is not empty. -/
theorem Reaches.ne_nil {ws command : List Str} (h : Reaches ws command) : command ≠ [] := by
  obtain ⟨os, c, cs, -, -, rfl, -⟩ := h
  simp

/-- A command is no longer than the words. -/
theorem Reaches.length_le {ws command : List Str} (h : Reaches ws command) :
    command.length ≤ ws.length := by
  obtain ⟨os, c, cs, rfl, -⟩ := h
  simp

/-! ### Words behind options -/

/-- Two rows of words agree behind their own leading options: they reach the same command, or none
at all. -/
def SameCommand (ts us : List Str) : Prop :=
  (∃ command, Reaches ts command ∧ Reaches us command) ∨
    ((Options ts ∨ Waits ts) ∧ (Options us ∨ Waits us))

/-- The scan leaves nothing of options. -/
theorem skipOptions_eq_nil_iff_options (ws : List Str) :
    skipOptions ws = [] ↔ Options ws ∨ Waits ws := by
  rw [← scanState_eq_options, ← scanState_eq_value, skipOptions_eq_resume]
  cases hs : scanState ws with
  | options => simp [ScanState.resume, skipOptions]
  | value => simp [ScanState.resume, skipOptions]
  | kept command =>
    simpa [ScanState.resume] using (scanState_eq_kept.mp hs).ne_nil

/-- The scan leaves the same of such rows. -/
theorem skipOptions_eq_iff (ts us : List Str) :
    skipOptions ts = skipOptions us ↔ SameCommand ts us := by
  constructor
  · intro h
    cases hu : skipOptions us with
    | nil =>
      rw [hu] at h
      exact .inr ⟨(skipOptions_eq_nil_iff_options ts).mp h,
        (skipOptions_eq_nil_iff_options us).mp hu⟩
    | cons c cs =>
      rw [hu] at h
      exact .inl ⟨c :: cs, skipOptions_eq_cons_iff.mp h, skipOptions_eq_cons_iff.mp hu⟩
  · rintro (⟨command, ht, hu⟩ | ⟨ht, hu⟩)
    · rw [ht.skipOptions, hu.skipOptions]
    · rw [(skipOptions_eq_nil_iff_options ts).mpr ht, (skipOptions_eq_nil_iff_options us).mpr hu]

/-- Rows that do not start like an option agree only when they are the same. -/
theorem sameCommand_iff {c d : Str} {cs ds : List Str} (hc : startsWithDash c = false)
    (hd : startsWithDash d = false) : SameCommand (c :: cs) (d :: ds) ↔ c :: cs = d :: ds := by
  rw [← skipOptions_eq_iff, skipOptions_word hc, skipOptions_word hd]

/-- Two rows of words are the same to the scan behind some option words. -/
inductive Confused (opts ts us : List Str) : Prop where
  | complete (h : Options opts) (hs : SameCommand ts us)
  | waiting (h : Waits opts) (hs : SameCommand (ts.drop 1) (us.drop 1))
  | reached {command : List Str} (h : Reaches opts command) (hs : ts = us)

/-- The scan resumed behind some option words leaves the same of such rows. -/
theorem resume_eq_iff_confused (opts ts us : List Str) :
    (scanState opts).resume ts = (scanState opts).resume us ↔ Confused opts ts us := by
  constructor
  · intro h
    cases hs : scanState opts with
    | options =>
      rw [hs] at h
      exact .complete (scanState_eq_options.mp hs) ((skipOptions_eq_iff ts us).mp h)
    | value =>
      rw [hs] at h
      exact .waiting (scanState_eq_value.mp hs) ((skipOptions_eq_iff _ _).mp h)
    | kept command =>
      rw [hs] at h
      exact .reached (scanState_eq_kept.mp hs) (List.append_cancel_left h)
  · intro h
    cases h with
    | complete h hs =>
      rw [scanState_eq_options.mpr h]
      exact (skipOptions_eq_iff ts us).mpr hs
    | waiting h hs =>
      rw [scanState_eq_value.mpr h]
      exact (skipOptions_eq_iff _ _).mpr hs
    | reached h hs => rw [hs]

/-- Two rows of option words read alike: both are complete, both wait for a value, or both have
reached the same command. -/
inductive SameReading (ps qs : List Str) : Prop where
  | complete (hp : Options ps) (hq : Options qs)
  | waiting (hp : Waits ps) (hq : Waits qs)
  | reached {command : List Str} (hp : Reaches ps command) (hq : Reaches qs command)

/-- They leave the scan in one state. -/
theorem scanState_inj_iff (ps qs : List Str) :
    scanState ps = scanState qs ↔ SameReading ps qs := by
  constructor
  · intro h
    cases hq : scanState qs with
    | options =>
      rw [hq] at h
      exact .complete (scanState_eq_options.mp h) (scanState_eq_options.mp hq)
    | value =>
      rw [hq] at h
      exact .waiting (scanState_eq_value.mp h) (scanState_eq_value.mp hq)
    | kept command =>
      rw [hq] at h
      exact .reached (scanState_eq_kept.mp h) (scanState_eq_kept.mp hq)
  · intro h
    cases h with
    | complete hp hq => rw [scanState_eq_options.mpr hp, scanState_eq_options.mpr hq]
    | waiting hp hq => rw [scanState_eq_value.mpr hp, scanState_eq_value.mpr hq]
    | reached hp hq => rw [scanState_eq_kept.mpr hp, scanState_eq_kept.mpr hq]

/-- Complete options read like complete options only. -/
theorem sameReading_options {ps qs : List Str} (hq : Options qs) :
    SameReading ps qs ↔ Options ps := by
  rw [← scanState_inj_iff, scanState_eq_options.mpr hq, scanState_eq_options]

/-- Options in front change nothing. -/
theorem sameReading_append {os : List Str} (ho : Options os) (ps qs : List Str) :
    SameReading (os ++ ps) (os ++ qs) ↔ SameReading ps qs := by
  rw [← scanState_inj_iff, ← scanState_inj_iff, ho.scanState_append, ho.scanState_append]

/-- Two rows of option words are the same to the scan in front of some words: they read alike, or
one is complete and one waits for a value, and the words agree with and without their first one. -/
inductive Merged (ps qs ts : List Str) : Prop where
  | alike (h : SameReading ps qs)
  | mixed (h : Options ps ∧ Waits qs ∨ Waits ps ∧ Options qs) (hs : SameCommand ts (ts.drop 1))

/-- A command in hand is more than what is left behind options. -/
private theorem kept_ne_skipOptions {ws command ts us : List Str} (h : Reaches ws command)
    (hu : us.length ≤ ts.length) : skipOptions us ≠ command ++ ts := by
  intro he
  have hlen := congrArg List.length he
  have hle := (skipOptions_suffix us).length_le
  have hpos := List.length_pos_iff.mpr h.ne_nil
  rw [List.length_append] at hlen
  omega

/-- The scan leaves the same behind such option words. -/
theorem resume_eq_iff_merged (ps qs ts : List Str) :
    (scanState ps).resume ts = (scanState qs).resume ts ↔ Merged ps qs ts := by
  have hdrop : (ts.drop 1).length ≤ ts.length := by simp
  constructor
  · intro h
    cases hp : scanState ps with
    | options =>
      have hp' := scanState_eq_options.mp hp
      cases hq : scanState qs with
      | options => exact .alike (.complete hp' (scanState_eq_options.mp hq))
      | value =>
        rw [hp, hq] at h
        exact .mixed (.inl ⟨hp', scanState_eq_value.mp hq⟩) ((skipOptions_eq_iff _ _).mp h)
      | kept command =>
        rw [hp, hq] at h
        exact absurd h (kept_ne_skipOptions (scanState_eq_kept.mp hq) (Nat.le_refl _))
    | value =>
      have hp' := scanState_eq_value.mp hp
      cases hq : scanState qs with
      | options =>
        rw [hp, hq] at h
        exact .mixed (.inr ⟨hp', scanState_eq_options.mp hq⟩) ((skipOptions_eq_iff _ _).mp h.symm)
      | value => exact .alike (.waiting hp' (scanState_eq_value.mp hq))
      | kept command =>
        rw [hp, hq] at h
        exact absurd h (kept_ne_skipOptions (scanState_eq_kept.mp hq) hdrop)
    | kept command =>
      have hp' := scanState_eq_kept.mp hp
      cases hq : scanState qs with
      | options =>
        rw [hp, hq] at h
        exact absurd h.symm (kept_ne_skipOptions hp' (Nat.le_refl _))
      | value =>
        rw [hp, hq] at h
        exact absurd h.symm (kept_ne_skipOptions hp' hdrop)
      | kept command' =>
        rw [hp, hq] at h
        have hsame : command = command' :=
          List.append_cancel_right (show command ++ ts = command' ++ ts from h)
        exact .alike (.reached hp' (hsame ▸ scanState_eq_kept.mp hq))
  · intro h
    cases h with
    | alike h => rw [(scanState_inj_iff ps qs).mpr h]
    | mixed h hs =>
      have hsame := (skipOptions_eq_iff _ _).mpr hs
      rcases h with ⟨hp, hq⟩ | ⟨hp, hq⟩
      · rw [scanState_eq_options.mpr hp, scanState_eq_value.mpr hq]
        exact hsame
      · rw [scanState_eq_value.mpr hp, scanState_eq_options.mpr hq]
        exact hsame.symm

/-- A command that does not look like an option does not agree with its own rest. -/
private theorem not_sameCommand_drop {c : Str} (hd : startsWithDash c = false) (cs : List Str) :
    ¬ SameCommand (c :: cs) ((c :: cs).drop 1) := by
  rw [← skipOptions_eq_iff, skipOptions_word hd]
  intro he
  have hle := (skipOptions_suffix ((c :: cs).drop 1)).length_le
  rw [← he, List.drop_one, List.tail_cons, List.length_cons] at hle
  omega

/-- In front of such a command only the option words decide. -/
theorem merged_cons_iff {c : Str} (hd : startsWithDash c = false) (ps qs cs : List Str) :
    Merged ps qs (c :: cs) ↔ SameReading ps qs := by
  refine ⟨fun h ↦ ?_, .alike⟩
  cases h with
  | alike h => exact h
  | mixed _ hs => exact absurd hs (not_sameCommand_drop hd cs)

/-- The word that stands where the program is looked for: the first one behind the options, behind
the value that a flag waits for, or in the option words themselves. -/
inductive FirstWord (opts ts : List Str) (c : Str) : Prop where
  | complete {cs : List Str} (h : Options opts) (hc : Reaches ts (c :: cs))
  | waiting {cs : List Str} (h : Waits opts) (hc : Reaches (ts.drop 1) (c :: cs))
  | reached {cs : List Str} (h : Reaches opts (c :: cs))

private theorem head?_skipOptions {ws : List Str} {c : Str} :
    (skipOptions ws).head? = some c ↔ ∃ cs, Reaches ws (c :: cs) := by
  rw [List.head?_eq_some_iff]
  exact exists_congr fun cs ↦ skipOptions_eq_cons_iff

/-- It is the first word that the scan leaves. -/
theorem head?_resume_iff (opts ts : List Str) (c : Str) :
    ((scanState opts).resume ts).head? = some c ↔ FirstWord opts ts c := by
  constructor
  · intro h
    cases hs : scanState opts with
    | options =>
      rw [hs] at h
      obtain ⟨cs, hc⟩ := head?_skipOptions.mp h
      exact .complete (scanState_eq_options.mp hs) hc
    | value =>
      rw [hs] at h
      obtain ⟨cs, hc⟩ := head?_skipOptions.mp h
      exact .waiting (scanState_eq_value.mp hs) hc
    | kept command =>
      have hreach := scanState_eq_kept.mp hs
      rw [hs] at h
      cases command with
      | nil => exact absurd rfl hreach.ne_nil
      | cons d cs =>
        cases h
        exact .reached hreach
  · intro h
    cases h with
    | complete h hc =>
      rw [scanState_eq_options.mpr h]
      exact head?_skipOptions.mpr ⟨_, hc⟩
    | waiting h hc =>
      rw [scanState_eq_value.mpr h]
      exact head?_skipOptions.mpr ⟨_, hc⟩
    | reached h =>
      rw [scanState_eq_kept.mpr h]
      rfl

end Sentinel.Shared
