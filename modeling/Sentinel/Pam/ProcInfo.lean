import Sentinel.Shared.Argv

/-!
# What the PAM module sees of its host process

Crate `pam-sentinel`, `crates/pam-sentinel/src/proc_info.rs`. The command line of the
privileged binary decides between three paths: an elevation wrapper with a target, a bare
wrapper, and any other program. The laws say which path a command line takes by its tokens
alone, and from that how far `argv[0]` and the operands of a bare wrapper reach the program
the policy matches and the command a grant binds to.
-/

namespace Sentinel.Pam

open Sentinel.Base Sentinel.Shared

/-- `remember_command_for`, `proc_info.rs:15-18`. -/
def rememberCommandFor (cmd : Str) : Option Str :=
  let cmd := trim cmd
  if cmd ≠ [] ∧ rememberEligibleCommand cmd = true then some cmd else none

/-- `ProcessInfo`, `proc_info.rs:20-44`. -/
structure ProcessInfo where
  name : Str
  exe : Str
  cmdline : Str
  cwd : Str
  rememberCommand : Option Str
  policyExe : Option Str
  deriving DecidableEq, Repr

/-- The four values the path decides: `exe`, `cmdline`, `remember_command`, `policy_exe`;
`proc_info.rs:67-107`. -/
def resolvePaths (fs : Procfs) (pid : Int) : Str × Str × Option Str × Option Str :=
  let rawExe := (readExe fs pid).getD "unknown".toList
  let rawCmdline := (readCmdline fs pid).getD []
  let stripped := stripElevationPrefix rawCmdline
  let wasElevation := rawCmdline ≠ [] ∧ stripped ≠ rawCmdline
  if wasElevation ∧ stripped ≠ [] then
    let targetExe := (splitWhitespace stripped).head?.getD "unknown".toList
    (targetExe, stripped, rememberCommandFor stripped, some targetExe)
  else if wasElevation then
    -- A bare wrapper shows its parent and is neither remembered nor matched.
    let parent := (readPpid fs pid).bind (fun ppid ↦
      (readExe fs ppid).map (fun pexe ↦ (pexe, (readCmdline fs ppid).getD [])))
    match parent with
    | some (pexe, pcmdline) => (pexe, pcmdline, none, none)
    | none => (rawExe, rawCmdline, none, none)
  else
    (rawExe, rawCmdline, rememberCommandFor rawCmdline, some rawExe)

/-- `ProcessInfo::for_pid`, `proc_info.rs:47-121`. -/
def ProcessInfo.forPid (fs : Procfs) (pid : Int) : ProcessInfo :=
  let (exe, cmdline, rememberCommand, policyExe) := resolvePaths fs pid
  { name := ((processBasename exe).or (readComm fs pid)).getD "unknown".toList
    exe
    cmdline
    cwd := (readCwd fs pid).getD []
    rememberCommand
    policyExe }

/-- Only eligible commands are remembered. -/
theorem eligible_of_rememberCommandFor {cmd c : Str} (h : rememberCommandFor cmd = some c) :
    rememberEligibleCommand c = true := by
  simp only [rememberCommandFor] at h
  split at h
  next hc =>
    cases h
    exact hc.2
  next => cases h

/-- A process is remembered by an eligible command, whichever path it takes. -/
theorem eligible_of_rememberCommand {fs : Procfs} {pid : Int} {c : Str}
    (h : (ProcessInfo.forPid fs pid).rememberCommand = some c) :
    rememberEligibleCommand c = true := by
  simp only [ProcessInfo.forPid, resolvePaths] at h
  split at h
  · exact eligible_of_rememberCommandFor h
  · split at h
    · split at h <;> cases h
    · exact eligible_of_rememberCommandFor h

/-! ### The paths by tokens -/

/-- Whether a program word may be remembered. -/
def eligibleWord (w : Str) : Bool := !rememberIneligible.contains (basenameOrSelf w)

/-- `policy_exe` and `remember_command` of an elevated command given by its tokens. -/
def elevatedTargets : List Str → Option Str × Option Str
  | [] => (none, none)
  | p :: ps => (some p, if eligibleWord p then some (joinSpace (p :: ps)) else none)

/-- `policy_exe` and `remember_command` of a command line. -/
def targets (rawExe cmdline : Str) : Option Str × Option Str :=
  if cmdline = [] then (some rawExe, none)
  else match splitWhitespace cmdline with
    | [] => (none, none)
    | first :: rest =>
      if isElevationTool first then elevatedTargets (skipOptions rest)
      else (some rawExe, if eligibleWord first then some (trim cmdline) else none)

/-- The executable has no part in the grant's command. -/
theorem targets_remember (exe exe' c : Str) : (targets exe c).2 = (targets exe' c).2 := by
  unfold targets
  split
  · rfl
  · split
    · rfl
    · split <;> rfl

private theorem rememberCommandFor_tokens {c first : Str} {rest : List Str}
    (hc : splitWhitespace c = first :: rest) :
    rememberCommandFor c = if eligibleWord first then some (trim c) else none := by
  have ht : splitWhitespace (trim c) = first :: rest := by rw [splitWhitespace_trim, hc]
  have hn : trim c ≠ [] := by
    intro h
    rw [h, splitWhitespace_nil] at ht
    cases ht
  have he : rememberEligibleCommand (trim c) = eligibleWord first := by
    rw [rememberEligibleCommand, ht]
    rfl
  rw [rememberCommandFor]
  simp only [hn, he, ne_eq, not_false_eq_true, true_and]

section Paths

variable {fs : Procfs} {pid : Int} {c : Str}

private theorem forPid_target (hr : (readCmdline fs pid).getD [] = c) (hc : c ≠ [])
    (hs : stripElevationPrefix c ≠ c) (hn : stripElevationPrefix c ≠ []) :
    ((ProcessInfo.forPid fs pid).policyExe, (ProcessInfo.forPid fs pid).rememberCommand) =
      (some ((splitWhitespace (stripElevationPrefix c)).head?.getD "unknown".toList),
        rememberCommandFor (stripElevationPrefix c)) := by
  simp [ProcessInfo.forPid, resolvePaths, hr, hc, hs, hn]

private theorem forPid_bare (hr : (readCmdline fs pid).getD [] = c) (hc : c ≠ [])
    (hs : stripElevationPrefix c = []) :
    ((ProcessInfo.forPid fs pid).policyExe, (ProcessInfo.forPid fs pid).rememberCommand) =
      (none, none) := by
  simp only [ProcessInfo.forPid, resolvePaths, hr, hs, ne_eq, hc, Ne.symm hc, not_false_eq_true,
    not_true_eq_false, and_self, and_false, if_true, if_false]
  split <;> rfl

private theorem forPid_other (hr : (readCmdline fs pid).getD [] = c)
    (hs : stripElevationPrefix c = c) :
    ((ProcessInfo.forPid fs pid).policyExe, (ProcessInfo.forPid fs pid).rememberCommand) =
      (some ((readExe fs pid).getD "unknown".toList), rememberCommandFor c) := by
  simp [ProcessInfo.forPid, resolvePaths, hr, hs]

/-- The policy's program and the grant's command depend on the executable and the tokens of
the command line as `targets` says. -/
theorem forPid_targets (fs : Procfs) (pid : Int) :
    ((ProcessInfo.forPid fs pid).policyExe, (ProcessInfo.forPid fs pid).rememberCommand) =
      targets ((readExe fs pid).getD "unknown".toList) ((readCmdline fs pid).getD []) := by
  generalize hr : (readCmdline fs pid).getD [] = c
  by_cases hc : c = []
  · subst hc
    rw [forPid_other hr rfl]
    rfl
  rw [targets, if_neg hc]
  cases hs : splitWhitespace c with
  | nil => rw [forPid_bare hr hc (stripElevationPrefix_blank hs)]
  | cons first rest =>
    cases ht : isElevationTool first with
    | false =>
      rw [forPid_other hr (stripElevationPrefix_other hs ht), rememberCommandFor_tokens hs]
      simp only [ht, Bool.false_eq_true, if_false]
    | true =>
      have hsw := splitWhitespace_stripElevationPrefix hs ht
      have hnil := stripElevationPrefix_eq_nil_iff hs ht
      simp only [ht, if_true]
      cases hk : skipOptions rest with
      | nil => rw [forPid_bare hr hc (hnil.mpr hk), elevatedTargets]
      | cons p ps =>
        rw [hk] at hsw hnil
        rw [forPid_target hr hc (stripElevationPrefix_ne_self hs ht)
          (fun h ↦ by cases hnil.mp h), hsw, rememberCommandFor_tokens hsw,
          trim_stripElevationPrefix hs ht, stripElevationPrefix_tool hs ht, hk]
        rfl

end Paths

/-! ### How far `argv[0]` reaches -/

/-- What a first word does to the words behind it: an empty one is dropped, a blank one only
keeps the command line from being empty, one that is no elevation tool leaves the executable
in charge and heads the remembered text, and one that starts with a tool leaves the option
scan among options, at a missing value, or behind a command of its own. -/
inductive Role where
  | absent
  | blank
  | plain (key : Option Str)
  | options
  | value
  | command (program : Str) (key : Option Str)
  deriving DecidableEq, Repr

/-- The role of a first word. -/
def role (a : CStr) : Role :=
  if a.bytes = [] then .absent
  else match splitWhitespace a.text with
    | [] => .blank
    | first :: rest =>
      if isElevationTool first then
        match scanState rest with
        | .options => .options
        | .value => .value
        | .kept pre =>
          .command (pre.headD [])
            (if eligibleWord (pre.headD []) then some (joinSpace pre) else none)
      else .plain (if eligibleWord first then some (trimStart a.text) else none)

/-- `policy_exe` and `remember_command` as the role of the first word decides them. -/
def Role.targets (exe : Str) (args : List CStr) : Role → Option Str × Option Str
  | .absent => Pam.targets exe (cmdlineText args)
  | .blank => if argvTokens args = [] then (none, none) else Pam.targets exe (cmdlineText args)
  | .plain key => (some exe, key.map (fun k ↦ trimEnd (joinSpace (k :: argvWords args))))
  | .options => elevatedTargets (skipOptions (argvTokens args))
  | .value => elevatedTargets (skipOptions ((argvTokens args).drop 1))
  | .command p key => (some p, key.map (fun k ↦ joinSpace (k :: argvTokens args)))

private theorem trim_joinSpace_word {s : Str} (h : ¬ Blank s) (ws : List Str) :
    trim (joinSpace (s :: ws)) = trimEnd (joinSpace (trimStart s :: ws)) := by
  by_cases hw : ws = []
  · rw [hw]
    rfl
  · rw [joinSpace_cons s hw, joinSpace_cons _ hw, trim, trimStart_append h]

private theorem trim_joinSpace_blank {s : Str} (h : Blank s) {ws : List Str} (hw : ws ≠ []) :
    trim (joinSpace (s :: ws)) = trim (joinSpace ws) := by
  rw [joinSpace_cons s hw, trim, trimStart_append_blank h, trim]
  rfl

private theorem argvWords_ne_nil {argv : List CStr} (h : argvTokens argv ≠ []) :
    argvWords argv ≠ [] := by
  intro hw
  apply h
  rw [← splitWhitespace_cmdlineText, cmdlineText, hw, joinSpace, splitWhitespace_nil]

private theorem cmdlineText_ne_nil {argv : List CStr} (h : argvTokens argv ≠ []) :
    cmdlineText argv ≠ [] := by
  intro hc
  apply h
  rw [← splitWhitespace_cmdlineText, hc, splitWhitespace_nil]

private theorem cmdlineText_cons {a : CStr} (ha : a.bytes ≠ []) (args : List CStr) :
    cmdlineText (a :: args) = joinSpace (a.text :: argvWords args) := by
  simp [cmdlineText, argvWords, ha]

private theorem cmdlineText_cons_ne_nil {a : CStr} (ha : a.bytes ≠ []) (args : List CStr) :
    cmdlineText (a :: args) ≠ [] := by
  have ht : a.text ≠ [] := fun h ↦ ha ((fromUtf8Lossy_eq_nil_iff _).mp h)
  rw [cmdlineText_cons ha]
  cases argvWords args with
  | nil => exact ht
  | cons w ws => simp [joinSpace]

private theorem elevatedTargets_kept {rest pre : List Str} (h : scanState rest = .kept pre)
    (ts : List Str) :
    elevatedTargets (pre ++ ts) =
      (some (pre.headD []),
        (if eligibleWord (pre.headD []) then some (joinSpace pre) else none).map
          (fun k ↦ joinSpace (k :: ts))) := by
  obtain ⟨p, ps, rfl, -, -⟩ := scanState_kept h
  rw [List.cons_append, elevatedTargets, ← List.cons_append, joinSpace_append (by simp),
    List.headD_cons]
  cases eligibleWord p <;> rfl

/-- A first word acts through its role only. -/
theorem targets_role (exe : Str) (a : CStr) (args : List CStr) :
    targets exe (cmdlineText (a :: args)) = (role a).targets exe args := by
  by_cases ha : a.bytes = []
  · simp [role, ha, Role.targets, cmdlineText, argvWords]
  have hc := cmdlineText_cons_ne_nil ha args
  have hs := splitWhitespace_cmdlineText (a :: args)
  rw [argvTokens_cons] at hs
  rw [role, if_neg ha, targets, if_neg hc, hs]
  cases hw : splitWhitespace a.text with
  | nil =>
    have hb : Blank a.text := (splitWhitespace_eq_nil_iff _).mp hw
    rw [List.nil_append, Role.targets]
    cases ht : argvTokens args with
    | nil => rfl
    | cons first rest =>
      have hne : argvTokens args ≠ [] := by rw [ht]; simp
      have htr : trim (cmdlineText (a :: args)) = trim (cmdlineText args) := by
        rw [cmdlineText_cons ha, trim_joinSpace_blank hb (argvWords_ne_nil hne), cmdlineText]
      simp only [targets, if_neg (cmdlineText_ne_nil hne), splitWhitespace_cmdlineText, ht, htr,
        List.cons_ne_nil, if_false]
  | cons first rest =>
    rw [List.cons_append]
    cases htool : isElevationTool first with
    | true =>
      simp only [htool, if_true, skipOptions_append]
      cases hst : scanState rest with
      | options => rfl
      | value => rfl
      | kept pre => exact elevatedTargets_kept hst _
    | false =>
      have hb : ¬ Blank a.text := by
        rw [← splitWhitespace_eq_nil_iff, hw]
        simp
      simp only [htool, Bool.false_eq_true, if_false, Role.targets, cmdlineText_cons ha,
        trim_joinSpace_word hb]
      cases eligibleWord first <;> rfl

private theorem trimEnd_joinSpace_x (k : Str) :
    trimEnd (joinSpace [k, ['x']]) = k ++ [' ', 'x'] := by
  have hj : joinSpace [k, ['x']] = (k ++ [' ']) ++ ['x'] := by simp [joinSpace]
  rw [hj, trimEnd, List.rdropWhile_concat_neg _ _ _ (by decide), List.append_assoc]
  rfl

private theorem targets_nil (exe : Str) (r : Role) :
    r.targets exe [] =
      match r with
      | .absent => (some exe, none)
      | .blank | .options | .value => (none, none)
      | .plain key => (some exe, key.map trimEnd)
      | .command p key => (some p, key) := by
  cases r with
  | command p key => cases key <;> rfl
  | _ => rfl

private theorem targets_x (exe : Str) (r : Role) :
    r.targets exe [CStr.ofText "x"] =
      match r with
      | .absent | .blank => (some exe, some ['x'])
      | .options => (some ['x'], some ['x'])
      | .value => (none, none)
      | .plain key => (some exe, key.map (fun k ↦ k ++ [' ', 'x']))
      | .command p key => (some p, key.map (fun k ↦ joinSpace [k, ['x']])) := by
  cases r with
  | plain key =>
    simp only [← trimEnd_joinSpace_x]
    rfl
  | _ => rfl

/-- Different roles show at no argument or at the one argument `x`, under one of two
executables. -/
private theorem role_of_targets {r s : Role}
    (h : ∀ exe ∈ [['/', 'a'], ['/', 'b']], ∀ args ∈ [[], [CStr.ofText "x"]],
      r.targets exe args = s.targets exe args) : r = s := by
  have ha0 := h ['/', 'a'] (by simp) [] (by simp)
  have hb0 := h ['/', 'b'] (by simp) [] (by simp)
  have ha1 := h ['/', 'a'] (by simp) [CStr.ofText "x"] (by simp)
  rw [targets_nil, targets_nil] at ha0 hb0
  rw [targets_x, targets_x] at ha1
  clear h
  have hinj : Function.Injective (fun k : Str ↦ k ++ [' ', 'x']) :=
    fun k l hkl ↦ List.append_cancel_right hkl
  have hab : ∀ {p : Str}, some ['/', 'a'] = some p → some ['/', 'b'] = some p → False :=
    fun ha hb ↦ absurd (ha.trans hb.symm) (by decide)
  cases r with
  | absent =>
    cases s with
    | absent => rfl
    | plain l => cases l <;> simp at ha0 ha1
    | command q l => exact (hab (congrArg Prod.fst ha0) (congrArg Prod.fst hb0)).elim
    | _ => simp at ha0
  | blank =>
    cases s with
    | blank => rfl
    | options => simp at ha1
    | value => simp at ha1
    | _ => simp at ha0
  | plain k =>
    cases s with
    | plain l => rw [Option.map_injective hinj (congrArg Prod.snd ha1)]
    | absent => cases k <;> simp at ha0 ha1
    | command q l => exact (hab (congrArg Prod.fst ha0) (congrArg Prod.fst hb0)).elim
    | _ => simp at ha0
  | options =>
    cases s with
    | options => rfl
    | blank => simp at ha1
    | value => simp at ha1
    | _ => simp at ha0
  | value =>
    cases s with
    | value => rfl
    | blank => simp at ha1
    | options => simp at ha1
    | _ => simp at ha0
  | command p k =>
    cases s with
    | command q l =>
      rw [Option.some.inj (congrArg Prod.fst ha0), show k = l from congrArg Prod.snd ha0]
    | absent => exact (hab (congrArg Prod.fst ha0).symm (congrArg Prod.fst hb0).symm).elim
    | plain l => exact (hab (congrArg Prod.fst ha0).symm (congrArg Prod.fst hb0).symm).elim
    | _ => simp at ha0

/-- A process with an executable link and nothing else. -/
private def hostOf (exe : Str) : Host :=
  { Host.bare with fs := fun _ ↦ { exe := some (toUtf8 exe) } }

private theorem readExe_hostOf (exe : Str) :
    readExe (hostOf exe).fs (hostOf exe).pid = some exe := by
  have hpos : 0 < Host.bare.pid := Host.bare.pid_pos
  simp [readExe, readText, hostOf, hpos, fromUtf8_toUtf8]

private theorem readExe_started (h : Host) (argv : List CStr) :
    readExe (h.started argv).fs (h.started argv).pid = readExe h.fs h.pid := by
  simp [readExe, readText, Host.started]

/-- The policy's program and the grant's command of a process started with a first word. -/
theorem forPid_started (h : Host) (a : CStr) (args : List CStr) :
    ((ProcessInfo.forPid (h.started (a :: args)).fs h.pid).policyExe,
      (ProcessInfo.forPid (h.started (a :: args)).fs h.pid).rememberCommand) =
      (role a).targets ((readExe h.fs h.pid).getD "unknown".toList) args := by
  have ht := forPid_targets (h.started (a :: args)).fs (h.started (a :: args)).pid
  rwa [readCmdline_started_getD, readExe_started, targets_role] at ht

/-- Two first words are interchangeable, under every resolved executable and in front of all
arguments, exactly when they play the same role. -/
theorem forPid_argv0_iff (a b : CStr) :
    (∀ (h : Host) (args : List CStr), readExe h.fs h.pid ≠ none →
      (ProcessInfo.forPid (h.started (a :: args)).fs h.pid).policyExe =
          (ProcessInfo.forPid (h.started (b :: args)).fs h.pid).policyExe ∧
        (ProcessInfo.forPid (h.started (a :: args)).fs h.pid).rememberCommand =
          (ProcessInfo.forPid (h.started (b :: args)).fs h.pid).rememberCommand) ↔
      role a = role b := by
  constructor
  · intro hall
    apply role_of_targets
    intro exe _ args _
    obtain ⟨hp, hr⟩ := hall (hostOf exe) args (by rw [readExe_hostOf]; simp)
    have ha := forPid_started (hostOf exe) a args
    have hb := forPid_started (hostOf exe) b args
    rw [readExe_hostOf, Option.getD_some] at ha hb
    rw [← ha, ← hb, hp, hr]
  · intro hrole h args _
    have ha := forPid_started h a args
    have hb := forPid_started h b args
    rw [← hrole, ← ha] at hb
    exact ⟨(congrArg Prod.fst hb).symm, (congrArg Prod.snd hb).symm⟩

/-- `/usr/bin/sudo id` run as `cat` is matched by its executable and remembered as `cat id`;
run as `sudo` it is matched and remembered as `id`. -/
theorem forPid_argv0_reaches_grant :
    let h : Host := ⟨fun _ ↦ { exe := some (toUtf8 "/usr/bin/sudo".toList) }, 1, by decide⟩
    let args := [CStr.ofText "id"]
    readExe h.fs h.pid = some "/usr/bin/sudo".toList ∧
      (ProcessInfo.forPid (h.started (CStr.ofText "cat" :: args)).fs h.pid).policyExe ≠
        (ProcessInfo.forPid (h.started (CStr.ofText "sudo" :: args)).fs h.pid).policyExe ∧
      (ProcessInfo.forPid (h.started (CStr.ofText "cat" :: args)).fs h.pid).rememberCommand ≠
        (ProcessInfo.forPid (h.started (CStr.ofText "sudo" :: args)).fs h.pid).rememberCommand := by
  decide

/-! ### Wrappers without a command -/

/-- An option of a wrapper, by its own word or with a value in the next one. -/
inductive OptionItem where
  | flag (word : CStr) (dash : word.bytes.head? = some 45)
  | valued (word value : CStr) (dash : word.bytes.head? = some 45)

namespace OptionItem

/-- The option's own word. -/
def word : OptionItem → CStr
  | .flag w _ => w
  | .valued w _ _ => w

/-- The words of an option. -/
def words : OptionItem → List CStr
  | .flag w _ => [w]
  | .valued w v _ => [w, v]

/-- `-c` and `--command` give `su` a command. -/
def isCommand (o : OptionItem) : Bool :=
  o.word.text == "-c".toList || o.word.text == "--command".toList

end OptionItem

/-- The operands of `su [options] [-] [user]`. -/
def suOperands (login : Bool) (user : Option CStr) : List CStr :=
  (if login then [CStr.ofText "-"] else []) ++ user.toList

/-- A wrapper invocation that names no command: options only, and for `su` also a dash and
a user. -/
structure BareInvocation where
  wrapper : Wrapper
  single : wrapper.more = []
  options : List OptionItem
  operands : List CStr
  grammar :
    if basenameOrSelf wrapper.tool = "su".toList then
      (∀ o ∈ options, o.isCommand = false) ∧
        ∃ login user, operands = suOperands login user ∧
          ∀ u ∈ user, u.bytes.head? ≠ some 45
    else operands = []

namespace BareInvocation

/-- The words behind the wrapper. -/
def args (i : BareInvocation) : List CStr := i.options.flatMap OptionItem.words ++ i.operands

/-- The whole argument vector. -/
def argv (i : BareInvocation) : List CStr := i.wrapper.word :: i.args

/-- `su root`. -/
def suRoot : BareInvocation where
  wrapper := ⟨CStr.ofText "su", "su".toList, [], by decide, by decide⟩
  single := rfl
  options := []
  operands := [CStr.ofText "root"]
  grammar := ⟨by simp, false, some (CStr.ofText "root"), rfl, by decide⟩

end BareInvocation

private theorem role_wrapper (w : Wrapper) (h : w.more = []) : role w.word = .options := by
  have ht := w.tokens
  rw [h] at ht
  have hb : w.word.bytes ≠ [] := by
    intro hb
    rw [CStr.text, (fromUtf8Lossy_eq_nil_iff _).mpr hb, splitWhitespace_nil] at ht
    cases ht
  rw [role, if_neg hb, ht]
  simp only [w.isTool, if_true, scanState]

private theorem elevatedTargets_eq_none_iff (ts : List Str) :
    elevatedTargets ts = (none, none) ↔ ts = [] := by
  cases ts <;> simp [elevatedTargets]

/-- A wrapper without a command is invisible to policy and remember exactly when every token
of its options and operands that is no option is taken for the value of one. -/
theorem forPid_bareInvocation_iff (h : Host) (i : BareInvocation) :
    ((ProcessInfo.forPid (h.started i.argv).fs h.pid).policyExe = none ∧
        (ProcessInfo.forPid (h.started i.argv).fs h.pid).rememberCommand = none) ↔
      OptionsOnly (argvTokens i.args) := by
  have ht := forPid_started h i.wrapper.word i.args
  rw [role_wrapper i.wrapper i.single, Role.targets] at ht
  rw [← skipOptions_eq_nil_iff, ← elevatedTargets_eq_none_iff, ← ht, Prod.mk.injEq]
  rfl

end Sentinel.Pam
