import Sentinel.System.Elevation

/-!
# Gateways behind environment assignments

`sudo` accepts `VAR=value` words between its options and the command. The module takes the first
word that the option scan leaves for the program: it decides whether a grant may be offered
(`crates/sentinel-shared/src/lib.rs:758-764`) and is matched against the policy
(`crates/pam-sentinel/src/lib.rs:286-315`). The scan does not know assignments, so with one in
front of the command it is the assignment that is judged.
-/

namespace Sentinel.System

open Sentinel.Base Sentinel.Shared

/-- A `VAR=value` word. -/
def Assigns (a : CStr) : Prop :=
  ∃ var value, a.text = var ++ '=' :: value ∧ IsToken var ∧ startsWithDash var = false

/-- A command line of `sudo`: the wrapper, its options, assignments, the program and its
arguments. -/
structure SudoLine where
  wrapper : Wrapper
  options : List Pam.OptionItem
  assignments : List CStr
  program : CStr
  args : List CStr
  isSudo : basenameOrSelf wrapper.tool = "sudo".toList
  assigned : ∀ a ∈ assignments, Assigns a
  noOption : startsWithDash program.text = false

namespace SudoLine

/-- The words behind the options. -/
def rest (c : SudoLine) : List CStr := c.assignments ++ c.program :: c.args

/-- What the module sees of the process that runs the command line. -/
def seen (c : SudoLine) (h : Host) : Pam.ProcessInfo :=
  Pam.ProcessInfo.forPid (elevate h c.wrapper c.options c.rest).fs
    (elevate h c.wrapper c.options c.rest).pid

/-- A word is read as the program: it is the first one behind the option words. -/
def Reads (c : SudoLine) (t : Str) : Prop :=
  FirstWord (prefixTokens c.wrapper c.options) (argvTokens c.rest) t

/-- The word in front of what follows the options: the program, or the first word of the first
assignment. -/
def lead (c : SudoLine) : Str :=
  match c.assignments with
  | [] => c.program.text
  | a :: _ => (splitWhitespace a.text).headD []

/-- The program is not remembered when its basename is listed as ineligible, and denied when its
basename is a deny entry. -/
def Guarded (c : SudoLine) (h : Host) (cfg : ServiceConfig) : Prop :=
  ∀ b, processBasename c.program.text = some b →
    (b ∈ rememberIneligible → (c.seen h).rememberCommand = none) ∧
      (b ∈ cfg.policy.deny → Pam.checkPolicy cfg (c.seen h) = some .authErr)

/-- The word that is read as the program is as ineligible and as denied as the program. -/
def Covered (c : SudoLine) (cfg : ServiceConfig) : Prop :=
  ∀ b, processBasename c.program.text = some b →
    (b ∈ rememberIneligible → ∀ t, c.Reads t → basenameOrSelf t ∈ rememberIneligible) ∧
      (b ∈ cfg.policy.deny →
        ∃ t, c.Reads t ∧ ∃ entry ∈ cfg.policy.deny, Policy.NamesExe entry (some t))

/-- The option words are flags and listed flags with their values, and the program is one word. -/
structure Plain (c : SudoLine) : Prop where
  options : Options (prefixTokens c.wrapper c.options)
  program : IsToken c.program.text

variable (c : SudoLine)

/-- The words that the policy and the grant are taken from. -/
private theorem seen_targets (h : Host) :
    (c.seen h).policyExe =
        (Pam.elevatedTargets (elevatedTokens c.wrapper (optionWords c.options) c.rest)).1 ∧
      (c.seen h).rememberCommand =
        (Pam.elevatedTargets (elevatedTokens c.wrapper (optionWords c.options) c.rest)).2 := by
  have ht := forPid_elevate h c.wrapper c.options c.rest
  exact ⟨congrArg Prod.fst ht, congrArg Prod.snd ht⟩

/-- The program that the policy sees is the word read as the program. -/
theorem policyExe_eq_some_iff (h : Host) (t : Str) : (c.seen h).policyExe = some t ↔ c.Reads t := by
  rw [Reads, ← head?_elevatedTokens, (c.seen_targets h).1]
  cases elevatedTokens c.wrapper (optionWords c.options) c.rest <;> rfl

/-- No grant is offered exactly when the word read as the program is ineligible. -/
theorem rememberCommand_eq_none_iff (h : Host) :
    (c.seen h).rememberCommand = none ↔
      ∀ t, c.Reads t → basenameOrSelf t ∈ rememberIneligible := by
  simp only [Reads, ← head?_elevatedTokens]
  rw [(c.seen_targets h).2]
  cases elevatedTokens c.wrapper (optionWords c.options) c.rest with
  | nil => simp [Pam.elevatedTargets]
  | cons t ts => simp [Pam.elevatedTargets, Pam.eligibleWord]

/-- A request is denied exactly when a deny entry names the word read as the program. -/
theorem checkPolicy_eq_authErr_iff (h : Host) (cfg : ServiceConfig) :
    Pam.checkPolicy cfg (c.seen h) = some .authErr ↔
      ∃ t, c.Reads t ∧ ∃ entry ∈ cfg.policy.deny, Policy.NamesExe entry (some t) := by
  have hcode : Pam.checkPolicy cfg (c.seen h) = some .authErr ↔
      cfg.policy.decide (c.seen h).policyExe none = .deny := by
    unfold Pam.checkPolicy
    cases cfg.policy.decide (c.seen h).policyExe none <;> simp
  rw [hcode, Policy.decide_eq_deny_iff]
  simp only [← c.policyExe_eq_some_iff h]
  cases (c.seen h).policyExe with
  | none => simp [Policy.NamesExe]
  | some t => simp

/-- The first word of an assignment is no option. -/
theorem assigns_tokens {a : CStr} (ha : Assigns a) :
    ∃ t ts, splitWhitespace a.text = t :: ts ∧ startsWithDash t = false := by
  obtain ⟨var, value, he, ⟨hne, hws⟩, hd⟩ := ha
  cases var with
  | nil => exact absurd rfl hne
  | cons v vs =>
    rw [he, List.cons_append]
    obtain ⟨w, ts, hts⟩ := splitWhitespace_cons_word (hws v (by simp)) (vs ++ '=' :: value)
    exact ⟨v :: w, ts, hts, hd⟩

/-- Behind complete options the word in front is read. -/
theorem reads_iff_of_plain {c : SudoLine} (h : c.Plain) (t : Str) : c.Reads t ↔ t = c.lead := by
  have hfirst : (skipOptions (argvTokens c.rest)).head? = some c.lead := by
    rw [rest, lead]
    cases hasg : c.assignments with
    | nil =>
      rw [List.nil_append, argvTokens_cons, splitWhitespace_token h.program,
        List.singleton_append, skipOptions_word c.noOption]
      rfl
    | cons a as =>
      obtain ⟨v, vs, hvs, hd⟩ := assigns_tokens (c.assigned a (by simp [hasg]))
      rw [List.cons_append, argvTokens_cons, hvs, List.cons_append, skipOptions_word hd]
      dsimp only
      rw [hvs]
      rfl
  rw [Reads, ← head?_resume_iff, scanState_eq_options.mpr h.options, ScanState.resume, hfirst,
    Option.some.injEq, eq_comm]

/-- Without assignments such a line is covered. -/
theorem covered_of_plain {c : SudoLine} (h : c.Plain) (ha : c.assignments = [])
    (cfg : ServiceConfig) : c.Covered cfg := by
  have hlead : c.lead = c.program.text := by rw [lead, ha]
  intro b hb
  constructor
  · intro hmem t ht
    rw [(reads_iff_of_plain h t).mp ht, hlead, basenameOrSelf, hb]
    exact hmem
  · intro hmem
    refine ⟨c.program.text, (reads_iff_of_plain h _).mpr hlead.symm, b, hmem, c.program.text, rfl,
      ?_⟩
    rw [if_neg (by simpa using slash_not_mem_processBasename hb)]
    exact hb

/-- A gateway stays unrememberable and a denied program denied exactly when the word that the
options leave in the program's place is as ineligible and as denied. That word stands in the option
words when they reach one, behind the value that a listed flag at their end swallows, and in front
of what follows complete options: the program when there is no assignment, and the first word of the
first assignment when there is one. -/
theorem gateways_guarded_iff (h : Host) (cfg : ServiceConfig) :
    (c.Guarded h cfg ↔ c.Covered cfg) ∧
      (∀ t ts, Reaches (prefixTokens c.wrapper c.options) (t :: ts) → ∀ t', c.Reads t' ↔ t' = t) ∧
      (c.Plain → ∀ t, c.Reads t ↔ t = c.lead) ∧
      (c.Plain → c.assignments = [] → c.Guarded h cfg) := by
  have hiff : c.Guarded h cfg ↔ c.Covered cfg := by
    simp only [Guarded, Covered, rememberCommand_eq_none_iff, checkPolicy_eq_authErr_iff]
  refine ⟨hiff, fun t ts hr t' ↦ ?_, reads_iff_of_plain,
    fun hp ha ↦ hiff.mpr (covered_of_plain hp ha cfg)⟩
  rw [Reads, ← head?_resume_iff, scanState_eq_kept.mpr hr, ScanState.resume, List.cons_append,
    List.head?_cons, Option.some.injEq, eq_comm]

/-- `sudo -u nobody /bin/bash -l`. -/
def plainBash : SudoLine where
  wrapper := Wrapper.sudo
  options := asNobody
  assignments := []
  program := CStr.ofText "/bin/bash"
  args := [CStr.ofText "-l"]
  isSudo := by decide
  assigned := by simp
  noOption := by decide

/-- A configuration that denies `bash`. -/
def denyBash : ServiceConfig :=
  { Document.forService {} "sudo".toList with policy := { allow := [], deny := ["bash".toList] } }

/-- Neither remembered nor let through. -/
theorem plainBash_guarded :
    (plainBash.seen Host.bare).rememberCommand = none ∧
      Pam.checkPolicy denyBash (plainBash.seen Host.bare) = some .authErr := by
  have hplain : plainBash.Plain := by
    constructor
    · refine options_prefixTokens rfl fun o ho ↦ ?_
      cases List.mem_singleton.mp ho
      exact ⟨"-u".toList, "nobody".toList, by decide, by decide, by decide⟩
    · apply isToken_of_mem_splitWhitespace (s := plainBash.program.text)
      have htoken : splitWhitespace plainBash.program.text = [plainBash.program.text] := by decide
      rw [htoken]
      exact List.mem_singleton_self _
  have hguard := (gateways_guarded_iff plainBash Host.bare denyBash).2.2.2 hplain rfl
    "bash".toList (by decide)
  exact ⟨hguard.1 (by decide), hguard.2 (by decide)⟩

/-- `sudo FOO=1 bash`. -/
def assignedBash : SudoLine where
  wrapper := Wrapper.sudo
  options := []
  assignments := [CStr.ofText "FOO=1"]
  program := CStr.ofText "bash"
  args := []
  isSudo := plainBash.isSudo
  assigned := by
    intro a ha
    cases List.mem_singleton.mp ha
    refine ⟨"FOO".toList, "1".toList, by decide, ?_, by decide⟩
    apply isToken_of_mem_splitWhitespace (s := "FOO".toList)
    have htoken : splitWhitespace "FOO".toList = ["FOO".toList] := by decide
    rw [htoken]
    exact List.mem_singleton_self _
  noOption := by decide

/-- It may be remembered, and the deny entry does not match. -/
theorem assignedBash_unguarded :
    (assignedBash.seen Host.bare).rememberCommand = some "FOO=1 bash".toList ∧
      Pam.checkPolicy denyBash (assignedBash.seen Host.bare) = none ∧
      ¬ assignedBash.Guarded Host.bare denyBash := by
  have hremember : (assignedBash.seen Host.bare).rememberCommand = some "FOO=1 bash".toList := by
    decide
  refine ⟨hremember, by decide, ?_⟩
  intro hguard
  have hnone := (hguard "bash".toList (by decide)).1 (by decide)
  rw [hremember] at hnone
  cases hnone

end SudoLine

end Sentinel.System
