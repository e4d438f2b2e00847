import Sentinel.Agent.Session
import Sentinel.Pam.Environment
import Sentinel.Pam.Helper

/-!
# Spawners and helper

Two programs start the helper, the PAM module and the agent, each with its own code for the
arguments. Both build the same command line from the same data, and the helper's parser reads it
back as long as no value looks like an option.
-/

namespace Sentinel.System.Spawn

open Sentinel.Base Sentinel.Shared Sentinel.Agent Sentinel.Pam

/-! ### What is passed and what is read back -/

/-- A text that is left out when it is empty. -/
def nonEmpty (s : Str) : Option Str := if s = [] then none else some s

/-- What the PAM module passes of a request, as the agent would ask for it: the process only
when it is to be shown. -/
def passed (req : HelperRequest) : DialogRequest where
  title := req.formattedTitle
  message := req.formattedMessage
  secondary := req.formattedSecondary
  timeout := req.cfg.timeout.toNat
  minTime := req.cfg.minDisplayTimeMs.toNat
  randomize := req.cfg.randomizeButtons
  soundName := req.soundName
  rememberSecs := req.rememberSecs
  processExe := if req.cfg.showProcessInfo then some req.process.exe else none
  processCmdline := if req.cfg.showProcessInfo then nonEmpty req.process.cmdline else none
  processPid := if req.cfg.showProcessInfo then some req.requestingPid else none
  processCwd := if req.cfg.showProcessInfo then nonEmpty req.process.cwd else none
  requestingUser := if req.cfg.showProcessInfo then some req.user else none
  action := if req.cfg.showProcessInfo then some req.service else none

/-- The fields the helper has to find. -/
def readBack (req : DialogRequest) : Args where
  title := req.title
  message := req.message
  secondary := req.secondary
  processExe := req.processExe
  processCmdline := req.processCmdline
  processPid := req.processPid
  processCwd := req.processCwd
  requestingUser := req.requestingUser
  action := req.action
  timeout := req.timeout
  minTime := req.minTime
  randomize := req.randomize
  windowed := false
  layerShell := false
  soundName := req.soundName
  rememberSecs := req.rememberSecs

/-- The texts of a request that become values. -/
def texts (req : DialogRequest) : List Str :=
  [req.title, req.message, req.secondary, req.soundName] ++ req.processExe.toList ++
    req.processCmdline.toList ++ req.processCwd.toList ++ req.requestingUser.toList ++
    req.action.toList

/-- No value looks like an option: no text begins with a hyphen, unless it is only that, and no
pid is negative. -/
def Plain (req : DialogRequest) : Prop :=
  (∀ text ∈ texts req, text.head? = some '-' → text.length ≤ 1) ∧
    ∀ pid, req.processPid = some pid → 0 ≤ pid

/-- The numbers of a request are of their types: `u64` and `i32`. -/
structure InRange (req : DialogRequest) : Prop where
  timeout : req.timeout < 2 ^ 64
  minTime : req.minTime < 2 ^ 64
  pid : ∀ pid, req.processPid = some pid → -2147483648 ≤ pid ∧ pid ≤ 2147483647

/-! ### The command line -/

/-- The options of the command line. -/
def line (req : DialogRequest) : Clap.Line Opt :=
  [(.title, some (some req.title)), (.message, some (some req.message)),
    (.secondary, some (some req.secondary)),
    (.timeout, some (some (Nat.toDigits 10 req.timeout))),
    (.minTime, some (some (Nat.toDigits 10 req.minTime))),
    (.rememberSecs, some (some (Nat.toDigits 10 req.rememberSecs.toNat))),
    (.soundName, (nonEmpty req.soundName).map some),
    (.randomize, if req.randomize then some none else none),
    (.processExe, req.processExe.map some), (.processCmdline, req.processCmdline.map some),
    (.processPid, (req.processPid.map intToString).map some),
    (.processCwd, req.processCwd.map some), (.requestingUser, req.requestingUser.map some),
    (.action, req.action.map some)]

/-- No option stands twice on it. -/
theorem nodup_line (req : DialogRequest) : ((line req).map Prod.fst).Nodup := by
  have h : (line req).map Prod.fst =
      [.title, .message, .secondary, .timeout, .minTime, .rememberSecs, .soundName, .randomize,
        .processExe, .processCmdline, .processPid, .processCwd, .requestingUser, .action] := rfl
  rw [h]
  decide

/-- An option stands on it with a value when it takes one. -/
theorem valued_line (req : DialogRequest) :
    ∀ e ∈ line req, ∀ v, e.2 = some v → v.isSome = helperGrammar.takesValue e.1 := by
  have hoption (x : Option Str) (v : Option Str) (h : x.map some = some v) : v.isSome = true := by
    obtain ⟨text, -, rfl⟩ := Option.map_eq_some_iff.mp h
    rfl
  have htext (text : Str) (v : Option Str) (h : some (some text) = some v) : v.isSome = true := by
    cases h
    rfl
  have hflag (v : Option Str) (h : (if req.randomize then some none else none) = some v) :
      v.isSome = false := by
    split at h
    · cases h
      rfl
    · cases h
  simp only [line, List.forall_mem_cons]
  exact ⟨htext _, htext _, htext _, htext _, htext _, htext _, hoption _, hflag, hoption _,
    hoption _, hoption _, hoption _, hoption _, hoption _, List.forall_mem_nil _⟩

private theorem entryWords_option (o : Opt) (x : Option Str) :
    Clap.entryWords helperGrammar (o, x.map some) =
      match x with
      | some value => [o.name, value]
      | none => [] := by
  cases x <;> rfl

/-- The agent passes the line behind the program. -/
theorem argv_eq (helperPath : Str) (req : DialogRequest) :
    req.argv helperPath =
      helperPath :: (line req).passed.flatMap (Clap.render helperGrammar) := by
  have hsound : Clap.entryWords helperGrammar (.soundName, (nonEmpty req.soundName).map some) =
      if req.soundName ≠ [] then ["--sound-name".toList, req.soundName] else [] := by
    rw [entryWords_option, nonEmpty]
    by_cases hs : req.soundName = []
    · rw [if_pos hs, if_neg (not_not.mpr hs)]
    · rw [if_neg hs, if_pos hs]
      rfl
  have hrandom : Clap.entryWords helperGrammar
      (.randomize, if req.randomize then some none else none) =
      if req.randomize then ["--randomize".toList] else [] := by
    by_cases hr : req.randomize = true
    · rw [if_pos hr, if_pos hr]
      rfl
    · rw [if_neg hr, if_neg hr]
      rfl
  have hoption (name : String) (o : Opt) (ho : o.name = name.toList) (x : Option Str) :
      Clap.entryWords helperGrammar (o, x.map some) = Agent.optionWords name x := by
    rw [entryWords_option, ho]
    cases x <;> rfl
  rw [Clap.Line.flatMap_passed]
  simp only [line, List.flatMap_cons, List.flatMap_nil, List.append_nil, hsound, hrandom]
  rw [hoption "--process-exe" .processExe rfl, hoption "--process-cmdline" .processCmdline rfl,
    hoption "--process-pid" .processPid rfl, hoption "--process-cwd" .processCwd rfl,
    hoption "--requesting-user" .requestingUser rfl, hoption "--action" .action rfl]
  simp only [DialogRequest.argv, List.append_assoc]
  rfl

/-- The values of a request without NUL have none. -/
theorem nulFree_line {req : DialogRequest} (h : ∀ text ∈ texts req, '\x00' ∉ text) :
    ∀ e ∈ line req, ∀ v, e.2 = some (some v) → '\x00' ∉ v := by
  have htext (text : Str) (ht : text ∈ texts req) (v : Str)
      (hv : some (some text) = some (some v)) : '\x00' ∉ v := by
    rw [← Option.some.inj (Option.some.inj hv)]
    exact h text ht
  have hoption (x : Option Str) (hx : ∀ text, x = some text → text ∈ texts req) (v : Str)
      (hv : x.map some = some (some v)) : '\x00' ∉ v := by
    obtain ⟨text, ht, hsome⟩ := Option.map_eq_some_iff.mp hv
    rw [← Option.some.inj hsome]
    exact h text (hx text ht)
  have hnumber (n : Nat) (v : Str) (hv : some (some (Nat.toDigits 10 n)) = some (some v)) :
      '\x00' ∉ v := by
    cases hv
    exact nul_not_mem_toDigits n
  have hpid (v : Str) (hv : (req.processPid.map intToString).map some = some (some v)) :
      '\x00' ∉ v := by
    obtain ⟨text, ht, hsome⟩ := Option.map_eq_some_iff.mp hv
    cases hsome
    obtain ⟨pid, -, rfl⟩ := Option.map_eq_some_iff.mp ht
    exact nul_not_mem_intToString pid
  have hflag (v : Str) (hv : (if req.randomize then some none else none) = some (some v)) :
      '\x00' ∉ v := by
    split at hv <;> cases hv
  have hsound (text : Str) (ht : nonEmpty req.soundName = some text) : text ∈ texts req := by
    unfold nonEmpty at ht
    split at ht
    · cases ht
    · cases ht
      simp [texts]
  simp only [line, List.forall_mem_cons]
  refine ⟨htext _ (by simp [texts]), htext _ (by simp [texts]), htext _ (by simp [texts]),
    hnumber _, hnumber _, hnumber _, hoption _ hsound, hflag, hoption _ ?_, hoption _ ?_, hpid,
    hoption _ ?_, hoption _ ?_, hoption _ ?_, List.forall_mem_nil _⟩
  all_goals
    intro text ht
    simp [texts, ht]

/-- A request without NUL becomes words without NUL. -/
theorem nulFree_argv {helperPath : Str} {req : DialogRequest} (hp : '\x00' ∉ helperPath)
    (h : ∀ text ∈ texts req, '\x00' ∉ text) : ∀ word ∈ req.argv helperPath, '\x00' ∉ word := by
  rw [argv_eq, Clap.Line.flatMap_passed, List.forall_mem_cons]
  refine ⟨hp, ?_⟩
  intro word hw
  obtain ⟨⟨o, x⟩, he, hword⟩ := List.mem_flatMap.mp hw
  cases x with
  | none => cases hword
  | some v =>
    rcases List.mem_cons.mp hword with rfl | hword
    · exact nul_not_mem_name o
    · rw [Option.mem_toList] at hword
      exact nulFree_line h _ he word (congrArg some hword)

/-- Both spawners have the same words. -/
theorem childWords_eq (helperPath : Str) (req : HelperRequest) :
    Helper.childWords helperPath req = (passed req).argv helperPath := by
  have hempty (name : String) (s : Str) :
      (if s ≠ [] then [name.toList, s] else []) = Agent.optionWords name (nonEmpty s) := by
    unfold nonEmpty
    by_cases hs : s = []
    · rw [if_neg (not_not.mpr hs), if_pos hs]
      rfl
    · rw [if_pos hs, if_neg hs]
      rfl
  unfold Helper.childWords DialogRequest.argv
  rw [hempty "--process-cmdline", hempty "--process-cwd"]
  cases hshow : req.cfg.showProcessInfo with
  | false =>
    simp only [passed, hshow, Agent.optionWords, Bool.false_eq_true, if_false, Option.map_none,
      List.append_nil]
  | true =>
    simp only [passed, hshow, Agent.optionWords, if_true, Option.map_some, List.append_assoc,
      List.cons_append, List.nil_append]

/-- Without NUL in its texts the PAM module passes what the agent would. -/
theorem childArgv_eq {helperPath : Str} {req : HelperRequest} (hp : '\x00' ∉ helperPath)
    (h : ∀ text ∈ texts (passed req), '\x00' ∉ text) :
    Helper.childArgv helperPath req = (passed req).argv helperPath := by
  rw [Helper.childArgv, childWords_eq]
  apply List.filter_eq_self.mpr
  intro word hw
  simpa using nulFree_argv hp h word hw

/-! ### Reading it back -/

private theorem lookup_line {req : DialogRequest} {o : Opt} {x : Option (Option Str)}
    (h : (o, x) ∈ line req) : Clap.lookup (line req).passed o = x.join :=
  Clap.Line.lookup_passed (nodup_line req) h

private theorem lookup_text {req : DialogRequest} {o : Opt} {text : Str}
    (h : (o, some (some text)) ∈ line req) : Clap.lookup (line req).passed o = some text :=
  lookup_line h

private theorem lookup_option {req : DialogRequest} {o : Opt} {x : Option Str}
    (h : (o, x.map some) ∈ line req) : Clap.lookup (line req).passed o = x := by
  rw [lookup_line h]
  cases x <;> rfl

/-- The fields of the command line. -/
theorem fromMatches_line {req : DialogRequest} (hr : InRange req) :
    Args.fromMatches (line req).passed = some (readBack req) := by
  have htimeout : Clap.lookup (line req).passed .timeout = some (Nat.toDigits 10 req.timeout) :=
    lookup_text (by simp [line])
  have hmin : Clap.lookup (line req).passed .minTime = some (Nat.toDigits 10 req.minTime) :=
    lookup_text (by simp [line])
  have hsecs : Clap.lookup (line req).passed .rememberSecs =
      some (Nat.toDigits 10 req.rememberSecs.toNat) := lookup_text (by simp [line])
  have htitle : Clap.lookup (line req).passed .title = some req.title :=
    lookup_text (by simp [line])
  have hmessage : Clap.lookup (line req).passed .message = some req.message :=
    lookup_text (by simp [line])
  have hsecondary : Clap.lookup (line req).passed .secondary = some req.secondary :=
    lookup_text (by simp [line])
  have hexe : Clap.lookup (line req).passed .processExe = req.processExe :=
    lookup_option (by simp [line])
  have hcmdline : Clap.lookup (line req).passed .processCmdline = req.processCmdline :=
    lookup_option (by simp [line])
  have hpid : Clap.lookup (line req).passed .processPid = req.processPid.map intToString :=
    lookup_option (by simp [line])
  have hcwd : Clap.lookup (line req).passed .processCwd = req.processCwd :=
    lookup_option (by simp [line])
  have huser : Clap.lookup (line req).passed .requestingUser = req.requestingUser :=
    lookup_option (by simp [line])
  have haction : Clap.lookup (line req).passed .action = req.action :=
    lookup_option (by simp [line])
  have hsound : Clap.lookup (line req).passed .soundName = nonEmpty req.soundName :=
    lookup_option (by simp [line])
  have hsoundD : (nonEmpty req.soundName).getD [] = req.soundName := by
    unfold nonEmpty
    split
    next hs => exact hs.symm
    next => rfl
  have hrandom : Clap.present (line req).passed .randomize = req.randomize := by
    rw [Clap.Line.present_passed (nodup_line req)
      (x := if req.randomize then some none else none) (by simp [line])]
    cases req.randomize <;> rfl
  have hwindowed : Clap.present (line req).passed .windowed = false :=
    Clap.Line.present_absent (by simp [line])
  have hlayer : Clap.present (line req).passed .layerShell = false :=
    Clap.Line.present_absent (by simp [line])
  have hpidTyped : typed parseI32 (req.processPid.map intToString) = some req.processPid := by
    cases hp : req.processPid with
    | none => rfl
    | some pid =>
      obtain ⟨hl, hu⟩ := hr.pid pid hp
      exact typed_some (parseI32_intToString hl hu)
  simp only [Args.fromMatches, htimeout, hmin, hsecs, htitle, hmessage, hsecondary, hexe, hcmdline,
    hpid, hcwd, huser, haction, hsound, hsoundD, hrandom, hwindowed, hlayer, hpidTyped,
    typed_some (parseU64_toDigits hr.timeout), typed_some (parseU64_toDigits hr.minTime),
    typed_some (parseU32_toDigits req.rememberSecs)]
  rfl

/-- A value is accepted unless it begins with a hyphen and goes on. -/
theorem acceptable_iff (text : Str) :
    Clap.acceptable text = true ↔ (text.head? = some '-' → text.length ≤ 1) := by
  unfold Clap.acceptable
  by_cases hd : text.head? = some '-'
  · simp [hd]
  · simp [hd]

/-- The values of the command line are accepted exactly when the request is plain. -/
theorem accepted_line (req : DialogRequest) :
    Clap.accepted (line req).passed = true ↔ Plain req := by
  have hoption (x : Option Str) :
      (x.map some).all (fun v ↦ v.all Clap.acceptable) = x.toList.all Clap.acceptable := by
    cases x <;> simp
  have hsound : ((nonEmpty req.soundName).map some).all (fun v ↦ v.all Clap.acceptable) =
      Clap.acceptable req.soundName := by
    unfold nonEmpty
    by_cases hs : req.soundName = []
    · rw [if_pos hs, hs]
      rfl
    · rw [if_neg hs]
      rfl
  have hflag : (if req.randomize then some none else none : Option (Option Str)).all
      (fun v ↦ v.all Clap.acceptable) = true := by
    split <;> rfl
  have hpid : ((req.processPid.map intToString).map some).all (fun v ↦ v.all Clap.acceptable) =
      true ↔ ∀ pid, req.processPid = some pid → 0 ≤ pid := by
    cases req.processPid with
    | none => simp
    | some pid => simp [acceptable_intToString]
  have htexts : (∀ text ∈ texts req, text.head? = some '-' → text.length ≤ 1) ↔
      (texts req).all Clap.acceptable = true := by
    simp only [List.all_eq_true, acceptable_iff]
  rw [Clap.Line.accepted_passed, Plain, htexts, ← hpid]
  simp only [line, texts, List.all_append, List.all_cons, List.all_nil, Option.all_some,
    acceptable_toDigits, hsound, hflag, Bool.and_eq_true, and_true, true_and]
  simp only [hoption]
  tauto

/-- The helper reads a command line with accepted values back and refuses every other. -/
theorem parse_argv (clap : Clap.Parser helperGrammar) (helperPath : Str) {req : DialogRequest}
    (hr : InRange req) :
    Args.parse clap (req.argv helperPath) =
      if Clap.accepted (line req).passed then some (readBack req) else none := by
  rw [Args.parse, argv_eq, List.tail_cons,
    Clap.Line.parse_passed clap (valued_line req) (nodup_line req)]
  cases Clap.accepted (line req).passed with
  | true => exact fromMatches_line hr
  | false => rfl

/-- The agent's command line is read back exactly when the request is plain. -/
theorem parse_argv_iff (clap : Clap.Parser helperGrammar) (helperPath : Str) {req : DialogRequest}
    (hr : InRange req) :
    Args.parse clap (req.argv helperPath) = some (readBack req) ↔ Plain req := by
  rw [parse_argv clap helperPath hr, ← accepted_line]
  cases Clap.accepted (line req).passed <;> simp

/-- The numbers of a request of the PAM module are of their types. -/
theorem inRange_passed {req : HelperRequest}
    (h : -2147483648 ≤ req.requestingPid ∧ req.requestingPid ≤ 2147483647) :
    InRange (passed req) := by
  have hsecs (n : UInt32) : n.toNat < 2 ^ 64 := by
    have := n.toNat_lt
    omega
  constructor
  case timeout => exact hsecs req.cfg.timeout
  case minTime => exact hsecs req.cfg.minDisplayTimeMs
  case pid =>
    intro pid hp
    simp only [passed] at hp
    split at hp
    · cases hp
      exact h
    · cases hp

/-- The helper reads back what either spawner passes, for every parser of its grammar, exactly
when no value looks like an option. -/
theorem spawn_contract_iff (clap : Clap.Parser helperGrammar) {helperPath : Str}
    (hpath : '\x00' ∉ helperPath) :
    (∀ req : HelperRequest, (∀ text ∈ texts (passed req), '\x00' ∉ text) →
      (-2147483648 ≤ req.requestingPid ∧ req.requestingPid ≤ 2147483647) →
      (Args.parse clap (Helper.childArgv helperPath req) = some (readBack (passed req)) ↔
        Plain (passed req))) ∧
    ∀ req : DialogRequest, InRange req →
      (Args.parse clap (req.argv helperPath) = some (readBack req) ↔ Plain req) := by
  constructor
  · intro req hnul hpid
    rw [childArgv_eq hpath hnul]
    exact parse_argv_iff clap helperPath (inRange_passed hpid)
  · intro req hr
    exact parse_argv_iff clap helperPath hr

/-- Where the packages install the helper. -/
def installedHelper : Str := "/usr/lib/sentinel-helper-kde".toList

/-- `sudo id` is passed by the module and read back by the helper, and so is a request of the
agent for it. -/
theorem promptWorld_read_back :
    let req := (promptOf (promptWorld fun _ ↦ none)).helper 300
    Args.parse helperClap (Helper.childArgv installedHelper req) = some (readBack (passed req)) ∧
      (readBack (passed req)).processCmdline = some "id".toList ∧
      Args.parse helperClap ((passed req).argv installedHelper) =
        some (readBack (passed req)) := by
  have hplain : Plain (passed ((promptOf (promptWorld fun _ ↦ none)).helper 300)) := by
    constructor
    · decide
    · intro pid hp
      cases hp
      decide
  have hpid : (-2147483648 : Int) ≤ 8 ∧ (8 : Int) ≤ 2147483647 := by decide
  refine ⟨?_, by decide, ?_⟩
  · exact ((spawn_contract_iff helperClap (by decide)).1 _ (by decide) hpid).mpr hplain
  · exact ((spawn_contract_iff helperClap (by decide)).2 _ (inRange_passed hpid)).mpr hplain

/-- `sudo -v` in a login shell, which the kernel shows as `-bash`. -/
def loginShellWorld : World :=
  { promptWorld (fun _ ↦ none) with
    host :=
      { (promptWorld fun _ ↦ none).host with
        fs := fun p ↦
          if p = 7 then
            { exe := some (toUtf8 "/usr/bin/bash".toList)
              cmdline := some (cmdlineBytes [toUtf8 "-bash".toList])
              loginuid := some (toUtf8 "1000".toList)
              sessionid := some (toUtf8 "3".toList) }
          else
            { exe := some (toUtf8 "/usr/bin/sudo".toList)
              cmdline := some (cmdlineBytes [toUtf8 "sudo".toList, toUtf8 "-v".toList])
              status := some (toUtf8 "PPid:\t7\n".toList) } } }

/-- The module comes to its dialog for it and passes `-bash` as the command line, and the helper
refuses its arguments. -/
theorem loginShell_refused :
    let req := (promptOf loginShellWorld).helper 0
    decideEarly loginShellWorld = .inr (promptOf loginShellWorld) ∧
      (promptOf loginShellWorld).rememberSecs = 0 ∧
      (∀ text ∈ texts (passed req), '\x00' ∉ text) ∧
      (readBack (passed req)).processCmdline = some "-bash".toList ∧
      Args.parse helperClap (Helper.childArgv installedHelper req) = none := by
  have hnul : ∀ text ∈ texts (passed ((promptOf loginShellWorld).helper 0)), '\x00' ∉ text := by
    decide
  have hpid : (-2147483648 : Int) ≤ 8 ∧ (8 : Int) ≤ 2147483647 := by decide
  have hrefused : Clap.accepted (line (passed ((promptOf loginShellWorld).helper 0))).passed =
      false := by decide
  refine ⟨?_, by decide, hnul, by decide, ?_⟩
  · exact (decideEarly_eq_inr_iff _ _).mpr ⟨by decide, by decide, by decide, rfl⟩
  · rw [childArgv_eq (by decide) hnul, parse_argv _ _ (inRange_passed hpid), hrefused]
    rfl

end Sentinel.System.Spawn
