import Sentinel.Agent.Agent
import Sentinel.Pam.Authenticate

/-!
# Grants and the options of the wrapper

Both paths derive the command of a grant from the wrapper's command line: the PAM module from its
own process, the agent from the caller of the polkit request. On both the options in front of
the command reach the key only through the state in which they leave the option scan.
-/

namespace Sentinel.System

open Sentinel.Base Sentinel.Shared

/-- The words of a list of options. -/
def optionWords (p : List Pam.OptionItem) : List CStr := p.flatMap Pam.OptionItem.words

/-- The names of the options that select a target: user, group, chroot, host and directory. -/
def targetOptions : List (List String) :=
  [["-u", "--user"], ["-g", "--group"], ["-R", "--chroot"], ["-h", "--host"], ["-D", "--chdir"]]

/-- The values some options give to an option, by its names. -/
def selected (names : List String) (p : List Pam.OptionItem) : List CStr :=
  p.filterMap (fun o ↦
    match o with
    | .valued w v _ => if names.any (fun n ↦ n.toList == w.text) then some v else none
    | .flag _ _ => none)

/-- Two option prefixes select different targets. -/
def TargetsDiffer (p q : List Pam.OptionItem) : Prop :=
  ∃ names ∈ targetOptions, selected names p ≠ selected names q

/-- An option word that selects a target. -/
def IsTarget (f : CStr) : Prop := ∃ names ∈ targetOptions, ∃ n ∈ names, f.text = n.toList

/-- A process started by a wrapper with options in front of a command. -/
def elevate (h : Host) (w : Wrapper) (p : List Pam.OptionItem) (e : List CStr) : Host :=
  h.started (w.word :: optionWords p ++ e)

/-- The remember key of a request of the PAM module, by its host process. -/
def pamKey (cfg : ServiceConfig) (service : Str) (loginuid sessionid : UInt32) (h : Host) :
    Option Broker.RememberKey :=
  Pam.rememberKey cfg service (Pam.ProcessInfo.forPid h.fs h.pid) loginuid sessionid

/-- The remember key of a polkit request, when its session asks the cache at all. -/
def agentKey (ownUid : UInt32) (env : Agent.Surroundings) (req : Agent.BeginRequest) :
    Option Agent.ActionKey :=
  match Agent.beginInputs ownUid env req with
  | .ok i => if 0 < i.rememberSecs then some ⟨i.actionId, i.rememberCommand, i.nulFree⟩ else none
  | .error _ => none

/-- The agent recovers the command of the request from a calling process. -/
structure CalledBy (req : Agent.BeginRequest) (pid : Int) : Prop where
  noCommandLine : Agent.detailText req "command_line" = none
  caller : Agent.detailPid req "polkit.caller-pid" = some pid

/-- The words in front of a command, as whitespace tokens. -/
def prefixTokens (w : Wrapper) (p : List Pam.OptionItem) : List Str :=
  leadingTokens w (optionWords p)

/-- Two option prefixes are told apart in front of a command: at command scope their words are not
the same to the scan there, and at program scope they do not lead to the same first word. -/
def Told (scope : RememberScope) (w : Wrapper) (p q : List Pam.OptionItem) (e : List CStr) :
    Prop :=
  match scope with
  | .command => ¬ Merged (prefixTokens w p) (prefixTokens w q) (argvTokens e)
  | .program =>
    ¬ ∀ t, FirstWord (prefixTokens w p) (argvTokens e) t ↔
      FirstWord (prefixTokens w q) (argvTokens e) t

/-! ### Keys by tokens -/

private theorem headD_eq_iff {ts us : List Str} (ht : ts ≠ []) (hu : us ≠ []) :
    ts.headD [] = us.headD [] ↔ ts.head? = us.head? := by
  cases ts with
  | nil => exact absurd rfl ht
  | cons t ts =>
    cases us with
    | nil => exact absurd rfl hu
    | cons u us => simp

/-- The scan leaves the same behind two prefixes exactly when they are merged. -/
private theorem elevatedTokens_eq_iff_merged (w : Wrapper) (p q : List Pam.OptionItem)
    (e : List CStr) :
    elevatedTokens w (optionWords p) e = elevatedTokens w (optionWords q) e ↔
      Merged (prefixTokens w p) (prefixTokens w q) (argvTokens e) :=
  resume_eq_iff_merged _ _ _

/-- The first word behind a prefix. -/
theorem head?_elevatedTokens (w : Wrapper) (p : List Pam.OptionItem) (e : List CStr) (t : Str) :
    (elevatedTokens w (optionWords p) e).head? = some t ↔
      FirstWord (prefixTokens w p) (argvTokens e) t :=
  head?_resume_iff _ _ _

/-- Key commands behind two prefixes are apart exactly when the prefixes are told apart. -/
private theorem rememberKeyCommand_ne_iff {w : Wrapper} {p q : List Pam.OptionItem}
    {e : List CStr} (scope : RememberScope) (hp : elevatedTokens w (optionWords p) e ≠ [])
    (hq : elevatedTokens w (optionWords q) e ≠ []) :
    rememberKeyCommand (joinSpace (elevatedTokens w (optionWords p) e)) scope ≠
        rememberKeyCommand (joinSpace (elevatedTokens w (optionWords q) e)) scope ↔
      Told scope w p q e := by
  have htp := isToken_elevatedTokens w (optionWords p) e
  have htq := isToken_elevatedTokens w (optionWords q) e
  cases scope with
  | command =>
    rw [rememberKeyCommand, rememberKeyCommand, trim_joinSpace htp, trim_joinSpace htq, ne_eq,
      joinSpace_inj htp htq, elevatedTokens_eq_iff_merged]
    exact Iff.rfl
  | program =>
    rw [rememberKeyCommand, rememberKeyCommand, splitWhitespace_joinSpace_tokens htp,
      splitWhitespace_joinSpace_tokens htq, ne_eq, headD_eq_iff hp hq, Option.ext_iff]
    exact not_congr (forall_congr' fun t ↦
      iff_congr (head?_elevatedTokens w p e t) (head?_elevatedTokens w q e t))

private theorem cmdlineText_tokens (w : Wrapper) (opts e : List CStr) :
    splitWhitespace (cmdlineText (w.word :: opts ++ e)) =
      w.tool :: ((w.more ++ argvTokens opts) ++ argvTokens e) := by
  rw [splitWhitespace_cmdlineText, argvTokens_append, argvTokens_cons, w.tokens]
  simp

/-- What the PAM module sees of a wrapped command by the tokens the scan leaves. -/
theorem forPid_elevate (h : Host) (w : Wrapper) (p : List Pam.OptionItem) (e : List CStr) :
    ((Pam.ProcessInfo.forPid (elevate h w p e).fs (elevate h w p e).pid).policyExe,
        (Pam.ProcessInfo.forPid (elevate h w p e).fs (elevate h w p e).pid).rememberCommand) =
      Pam.elevatedTargets (elevatedTokens w (optionWords p) e) := by
  have ht := Pam.forPid_targets (elevate h w p e).fs (elevate h w p e).pid
  have htok := cmdlineText_tokens w (optionWords p) e
  have hne : cmdlineText (w.word :: optionWords p ++ e) ≠ [] := by
    intro hn
    rw [hn, splitWhitespace_nil] at htok
    cases htok
  rw [elevate, readCmdline_started_getD, Pam.targets, if_neg hne, htok] at ht
  simp only [w.isTool, if_true, skipOptions_append] at ht
  exact ht

/-- The command the PAM module binds a grant to. -/
private theorem pam_command {h : Host} {w : Wrapper} {p : List Pam.OptionItem} {e : List CStr}
    {command : Str}
    (hc : (Pam.ProcessInfo.forPid (elevate h w p e).fs (elevate h w p e).pid).rememberCommand =
      some command) :
    command = joinSpace (elevatedTokens w (optionWords p) e) ∧
      elevatedTokens w (optionWords p) e ≠ [] := by
  have hr := congrArg Prod.snd (forPid_elevate h w p e)
  dsimp only at hr
  rw [hc] at hr
  cases hts : elevatedTokens w (optionWords p) e with
  | nil => rw [hts] at hr; cases hr
  | cons t ts =>
    rw [hts, Pam.elevatedTargets] at hr
    split at hr
    · exact ⟨Option.some.inj hr, by simp⟩
    · cases hr

private theorem tokens_ne_nil {ts : List Str} (h : joinSpace ts ≠ []) : ts ≠ [] := by
  rintro rfl
  exact h rfl

/-- The agent recovers what the strip leaves, when it leaves something. -/
private theorem processCmdline_calledBy {h : Host} {w : Wrapper} {p : List Pam.OptionItem}
    {e : List CStr} {req : Agent.BeginRequest} {c : Str} (hreq : CalledBy req h.pid)
    (hc : Agent.processCmdline (elevate h w p e).fs req = some c) :
    c = joinSpace (elevatedTokens w (optionWords p) e) := by
  have hread := readCmdline_started h (w.word :: optionWords p ++ e)
  simp only [Agent.processCmdline, Agent.recoveredFromCaller, hreq.noCommandLine, hreq.caller,
    Option.none_or, Option.bind_some] at hc
  obtain ⟨raw, hraw, hstrip⟩ := Option.bind_eq_some_iff.mp hc
  rw [elevate] at hraw
  rw [show (h.started (w.word :: optionWords p ++ e)).pid = h.pid from rfl, hraw] at hread
  split at hread
  · cases hread
  · cases hread
    simp only [stripElevationPrefix_wrapped] at hstrip
    split at hstrip
    · exact (Option.some.inj hstrip).symm
    · cases hstrip

/-- The command the agent binds a grant to. -/
private theorem agentKey_eq_some {ownUid : UInt32} {env : Agent.Surroundings}
    {req : Agent.BeginRequest} {k : Agent.ActionKey} (hk : agentKey ownUid env req = some k) :
    ∃ c, Agent.processCmdline env.fs req = some c ∧ c ≠ [] ∧ k.actionId = req.actionId ∧
      k.command =
        rememberKeyCommand c (env.document.forService polkitPamService).rememberScope := by
  unfold agentKey at hk
  split at hk
  next i hi =>
    obtain ⟨hact, -, hcmd, hcfg⟩ := Agent.beginInputs_ok hi
    split at hk
    next hs =>
      cases hk
      have heligible : rememberEligibleCommand (i.processCmdline.getD []) = true := by
        by_contra hne
        rw [Agent.AuthInputs.rememberSecs, if_neg hne] at hs
        exact absurd hs (by decide)
      cases hc : i.processCmdline with
      | none => rw [hc] at heligible; cases heligible
      | some c =>
        refine ⟨c, by rw [← hcmd, hc], ?_, hact, ?_⟩
        · rintro rfl
          rw [hc] at heligible
          cases heligible
        · simp only [Agent.AuthInputs.rememberCommand, hc, Option.getD_some, hcfg]
    next => cases hk
  next => cases hk

private theorem actionKey_ext {a a' : Agent.ActionKey} (hact : a.actionId = a'.actionId)
    (hcmd : a.command = a'.command) : a = a' := by
  cases a
  cases a'
  cases hact
  cases hcmd
  rfl

/-- A request that carries its command line has one key whatever its caller runs. -/
private theorem agentKey_commandLine {ownUid : UInt32} {passwd : UInt32 → Option Str}
    {document : Document} {fs fs' : Procfs} {req : Agent.BeginRequest} {a a' : Agent.ActionKey}
    (hreq : Agent.detailText req "command_line" ≠ none)
    (ha : agentKey ownUid ⟨passwd, fs, document⟩ req = some a)
    (ha' : agentKey ownUid ⟨passwd, fs', document⟩ req = some a') : a = a' := by
  obtain ⟨c, hc, -, hact, hcmd⟩ := agentKey_eq_some ha
  obtain ⟨c', hc', -, hact', hcmd'⟩ := agentKey_eq_some ha'
  obtain ⟨line, hline⟩ := Option.ne_none_iff_exists'.mp hreq
  rw [Agent.processCmdline, hline, Option.some_or] at hc hc'
  cases hc
  cases hc'
  exact actionKey_ext (hact.trans hact'.symm) (hcmd.trans hcmd'.symm)

/-! ### Prefixes by their words -/

/-- An option as it is usually written: one token, with one more for the value of an option that
the scan knows to take one. -/
def Ordinary : Pam.OptionItem → Prop
  | .flag w _ =>
    ∃ t, splitWhitespace w.text = [t] ∧ startsWithDash t = true ∧ takesValue t = false
  | .valued w v _ =>
    ∃ t u, splitWhitespace w.text = [t] ∧ takesValue t = true ∧ splitWhitespace v.text = [u]

/-- The tokens of one more option. -/
private theorem argvTokens_cons_option (o : Pam.OptionItem) (p : List Pam.OptionItem) :
    argvTokens (optionWords (o :: p)) = argvTokens o.words ++ argvTokens (optionWords p) := by
  simp [optionWords]

/-- The words of ordinary options are complete options. -/
theorem options_ordinary {p : List Pam.OptionItem} (h : ∀ o ∈ p, Ordinary o) :
    Options (argvTokens (optionWords p)) := by
  induction p with
  | nil => exact .nil
  | cons o p ih =>
    have hrest := ih (fun o' ho' ↦ h o' (List.mem_cons_of_mem _ ho'))
    have ho := h o List.mem_cons_self
    rw [argvTokens_cons_option]
    cases o with
    | flag w hdash =>
      obtain ⟨t, ht, hd, hv⟩ := ho
      rw [Pam.OptionItem.words, argvTokens_cons, ht, argvTokens_nil, List.append_nil]
      exact .flag hd hv hrest
    | valued w v hdash =>
      obtain ⟨t, u, ht, hv, hu⟩ := ho
      rw [Pam.OptionItem.words, argvTokens_cons, argvTokens_cons, ht, hu, argvTokens_nil]
      exact .valued hv u hrest

/-- So are those of a wrapper of one word with ordinary options. -/
theorem options_prefixTokens {w : Wrapper} {p : List Pam.OptionItem} (hw : w.more = [])
    (h : ∀ o ∈ p, Ordinary o) : Options (prefixTokens w p) := by
  rw [prefixTokens, leadingTokens, hw, List.nil_append]
  exact options_ordinary h

/-- A word that selects a target is one listed flag. -/
private theorem IsTarget.listed {f : CStr} (h : IsTarget f) :
    splitWhitespace f.text = [f.text] ∧ takesValue f.text = true := by
  have hall : ∀ names ∈ targetOptions, ∀ n ∈ names,
      splitWhitespace n.toList = [n.toList] ∧ takesValue n.toList = true := by decide
  obtain ⟨names, hnames, n, hn, he⟩ := h
  rw [he]
  exact hall names hnames n hn

/-- A last option that selects a target gives its value to the names it goes by. -/
private theorem IsTarget.selected_concat {f : CStr} (h : IsTarget f) :
    ∃ names ∈ targetOptions, ∀ (v : CStr) (hdash : f.bytes.head? = some 45)
      (p : List Pam.OptionItem),
      selected names (p ++ [.valued f v hdash]) = selected names p ++ [v] := by
  obtain ⟨names, hnames, n, hn, he⟩ := h
  have hany : names.any (fun n ↦ n.toList == f.text) = true :=
    List.any_eq_true.mpr ⟨n, hn, by simp [he]⟩
  refine ⟨names, hnames, fun v hdash p ↦ ?_⟩
  have hlast : selected names [.valued f v hdash] = [v] := by
    simp only [selected, List.filterMap_cons, List.filterMap_nil, hany, if_true]
  rw [selected, List.filterMap_append]
  exact congrArg (selected names p ++ ·) hlast

/-- One more option that selects a target selects a different one. -/
private theorem IsTarget.targetsDiffer {f : CStr} (h : IsTarget f) (v : CStr)
    (hdash : f.bytes.head? = some 45) (p : List Pam.OptionItem) :
    TargetsDiffer (p ++ [.valued f v hdash]) p := by
  obtain ⟨names, hnames, hselected⟩ := h.selected_concat
  refine ⟨names, hnames, fun hs ↦ ?_⟩
  rw [hselected] at hs
  exact List.cons_ne_nil v [] (List.append_right_eq_self.mp hs)

/-- With another value it selects a different one as well. -/
private theorem IsTarget.targetsDiffer_iff {f : CStr} (h : IsTarget f) (v v' : CStr)
    (hdash : f.bytes.head? = some 45) (p : List Pam.OptionItem) :
    TargetsDiffer (p ++ [.valued f v hdash]) (p ++ [.valued f v' hdash]) ↔ v ≠ v' := by
  constructor
  · rintro ⟨names, -, hs⟩ rfl
    exact hs rfl
  · intro hne
    obtain ⟨names, hnames, hselected⟩ := h.selected_concat
    refine ⟨names, hnames, fun hs ↦ hne ?_⟩
    rw [hselected, hselected] at hs
    exact List.singleton_inj.mp (List.append_cancel_left hs)

/-- It puts its own word and those of its value behind the others. -/
private theorem IsTarget.prefixTokens_concat {f : CStr} (h : IsTarget f) (w : Wrapper) (v : CStr)
    (hdash : f.bytes.head? = some 45) (p : List Pam.OptionItem) :
    prefixTokens w (p ++ [.valued f v hdash]) =
      prefixTokens w p ++ f.text :: splitWhitespace v.text := by
  simp [prefixTokens, leadingTokens, optionWords, Pam.OptionItem.words, h.listed.1]

/-- The words are complete when its value has a first word with options behind it. -/
private theorem IsTarget.options_concat_iff {w : Wrapper} {f v : CStr} (h : IsTarget f)
    (hdash : f.bytes.head? = some 45) {p : List Pam.OptionItem} (hp : Options (prefixTokens w p)) :
    Options (prefixTokens w (p ++ [.valued f v hdash])) ↔
      ∃ u us, splitWhitespace v.text = u :: us ∧ Options us := by
  rw [h.prefixTokens_concat, ← scanState_eq_options, hp.scanState_append, scanState_eq_options,
    options_listed_iff h.listed.2]

/-- Two option prefixes of one wrapper lead to different keys, on the PAM path and on the agent's,
exactly when they are told apart, and on the agent's path never when the request carries its
command line. In front of a command that does not look like an option, command scope tells them
apart exactly when their words do not read alike: an option that selects a target, behind options
that are complete, is told from its absence exactly when its value is blank or has more behind its
first word than options, and two values of it exactly when they are read differently behind it.
Ordinary options are never told apart, whatever targets they select. -/
theorem elevation_options_told_iff (h : Host) (w : Wrapper) (p q : List Pam.OptionItem)
    (e : List CStr) :
    (∀ (cfg : ServiceConfig) (service : Str) (loginuid sessionid : UInt32)
      (k k' : Broker.RememberKey),
      pamKey cfg service loginuid sessionid (elevate h w p e) = some k →
      pamKey cfg service loginuid sessionid (elevate h w q e) = some k' →
      (k ≠ k' ↔ Told cfg.rememberScope w p q e)) ∧
    (∀ (ownUid : UInt32) (passwd : UInt32 → Option Str) (document : Document)
      (req : Agent.BeginRequest) (a a' : Agent.ActionKey),
      agentKey ownUid ⟨passwd, (elevate h w p e).fs, document⟩ req = some a →
      agentKey ownUid ⟨passwd, (elevate h w q e).fs, document⟩ req = some a' →
      (CalledBy req h.pid →
        (a ≠ a' ↔ Told (document.forService polkitPamService).rememberScope w p q e)) ∧
      (Agent.detailText req "command_line" ≠ none → a = a')) ∧
    (∀ t ts, argvTokens e = t :: ts → startsWithDash t = false →
      (Told .command w p q e ↔ ¬ SameReading (prefixTokens w p) (prefixTokens w q)) ∧
      (∀ (f v : CStr) (hdash : f.bytes.head? = some 45), IsTarget f → Options (prefixTokens w q) →
        p = q ++ [.valued f v hdash] →
        TargetsDiffer p q ∧
          (Told .command w p q e ↔
            ¬ ∃ u us, splitWhitespace v.text = u :: us ∧ Options us)) ∧
      ∀ (f v v' : CStr) (hdash : f.bytes.head? = some 45) (r : List Pam.OptionItem), IsTarget f →
        Options (prefixTokens w r) → p = r ++ [.valued f v hdash] →
        q = r ++ [.valued f v' hdash] →
        (TargetsDiffer p q ↔ v ≠ v') ∧
          (Told .command w p q e ↔ ¬ SameReading (f.text :: splitWhitespace v.text)
            (f.text :: splitWhitespace v'.text))) ∧
    (w.more = [] → (∀ o ∈ p, Ordinary o) → (∀ o ∈ q, Ordinary o) →
      ∀ scope, ¬ Told scope w p q e) := by
  refine ⟨?_, ?_, ?_, ?_⟩
  · intro cfg service loginuid sessionid k k' hk hk'
    obtain ⟨-, -, c, hc, rfl⟩ := Pam.rememberKey_eq_some hk
    obtain ⟨-, -, c', hc', rfl⟩ := Pam.rememberKey_eq_some hk'
    obtain ⟨rfl, hp⟩ := pam_command hc
    obtain ⟨rfl, hq⟩ := pam_command hc'
    rw [← rememberKeyCommand_ne_iff cfg.rememberScope hp hq]
    simp
  · intro ownUid passwd document req a a' ha ha'
    refine ⟨fun hreq ↦ ?_, fun hline ↦ agentKey_commandLine hline ha ha'⟩
    obtain ⟨c, hc, hne, hact, hcmd⟩ := agentKey_eq_some ha
    obtain ⟨c', hc', hne', hact', hcmd'⟩ := agentKey_eq_some ha'
    cases processCmdline_calledBy hreq hc
    cases processCmdline_calledBy hreq hc'
    rw [← rememberKeyCommand_ne_iff _ (tokens_ne_nil hne) (tokens_ne_nil hne'), ← hcmd, ← hcmd']
    refine not_congr ⟨fun haa ↦ by rw [haa], fun haa ↦ ?_⟩
    exact actionKey_ext (hact.trans hact'.symm) haa
  · intro t ts he hd
    have hread : Told .command w p q e ↔
        ¬ SameReading (prefixTokens w p) (prefixTokens w q) := by
      rw [Told, he, merged_cons_iff hd]
    refine ⟨hread, ?_, ?_⟩
    · rintro f v hdash hf hq rfl
      rw [hread, sameReading_options hq, hf.options_concat_iff hdash hq]
      exact ⟨hf.targetsDiffer v hdash q, Iff.rfl⟩
    · rintro f v v' hdash r hf hr rfl rfl
      rw [hread, hf.prefixTokens_concat, hf.prefixTokens_concat, sameReading_append hr]
      exact ⟨hf.targetsDiffer_iff v v' hdash r, Iff.rfl⟩
  · intro hw hp hq scope
    have hsame : SameReading (prefixTokens w p) (prefixTokens w q) :=
      .complete (options_prefixTokens hw hp) (options_prefixTokens hw hq)
    have htokens := (elevatedTokens_eq_iff_merged w p q e).mpr (.alike hsame)
    cases scope with
    | command => exact not_not_intro (.alike hsame)
    | program =>
      refine not_not_intro fun t ↦ ?_
      rw [← head?_elevatedTokens, ← head?_elevatedTokens, htokens]

/-- A polkit request called by process 1. -/
def callerRequest : Agent.BeginRequest :=
  { Agent.plainRequest "cookie" with
    details := fun k ↦ if k = "polkit.caller-pid".toList then some "1".toList else none }

/-- A host with the default configuration, where process 1 runs `id` under `sudo` with some
options. -/
def idUnder (p : List Pam.OptionItem) : Agent.Surroundings :=
  { Agent.plainSurroundings with
    fs := (elevate Host.bare Wrapper.sudo p [CStr.ofText "id"]).fs }

/-- The remember key of the PAM module in that process. -/
def idKey (p : List Pam.OptionItem) : Option Broker.RememberKey :=
  pamKey (Document.forService {} "sudo".toList) "sudo".toList 1000 3
    (elevate Host.bare Wrapper.sudo p [CStr.ofText "id"])

/-- `-u nobody`. -/
def asNobody : List Pam.OptionItem :=
  [.valued (CStr.ofText "-u") (CStr.ofText "nobody") (by decide)]

/-- `-D "/my dir"`. -/
def inMyDir : List Pam.OptionItem :=
  [.valued (CStr.ofText "-D") (CStr.ofText "/my dir") (by decide)]

/-- `sudo -D "/my dir" id` and `sudo id` have different keys: the scan takes `dir` for the
command. -/
theorem inMyDir_told :
    idKey inMyDir = some ⟨1000, 3, "sudo".toList, "dir id".toList⟩ ∧
      idKey [] = some ⟨1000, 3, "sudo".toList, "id".toList⟩ ∧
      Told .command Wrapper.sudo inMyDir [] [CStr.ofText "id"] := by
  have hk : idKey inMyDir = some ⟨1000, 3, "sudo".toList, "dir id".toList⟩ := rfl
  have hk' : idKey [] = some ⟨1000, 3, "sudo".toList, "id".toList⟩ := rfl
  have htold := elevation_options_told_iff Host.bare Wrapper.sudo inMyDir [] [CStr.ofText "id"]
  exact ⟨hk, hk', (htold.1 _ _ _ _ _ _ hk hk').mp (by decide)⟩

/-- `sudo -u nobody id` and `sudo id` select different users and have one key, on both paths. -/
theorem asNobody_not_told :
    ∃ k a, idKey asNobody = some k ∧ idKey [] = some k ∧
      agentKey 1000 (idUnder asNobody) callerRequest = some a ∧
      agentKey 1000 (idUnder []) callerRequest = some a ∧
      selected ["-u", "--user"] asNobody = [CStr.ofText "nobody"] ∧
      selected ["-u", "--user"] [] = [] ∧ ["-u", "--user"] ∈ targetOptions :=
  ⟨_, _, rfl, rfl, rfl, rfl, by decide, rfl, by decide⟩

end Sentinel.System
