import Sentinel.Packaging.Wiring

/-!
# The installer and the uninstaller

Scripts `packaging-kde/install.sh` and `packaging-kde/uninstall.sh` in its state-file mode. A run
reverts the install on record, puts its files in place one `install_file` at a time, verifies them
and commits the records as `install.state`. Rollback, revert and uninstall replay such records from
the last one to the first. Modes, owners and what `systemctl` does are outside the file tree.
-/

namespace Sentinel.Packaging

open Sentinel.Base Sentinel.Base.Shell Sentinel.Base.Undo

/-! ### Records -/

/-- `${dst}.pre-sentinel.bak`, `install.sh:125`. -/
def backupOf (p : Path) : Path := p ++ ".pre-sentinel.bak".toList

/-- The line of an entry, `install.sh:127,129`. -/
def record : Entry Path → Str
  | .created p => "CREATED".toList ++ '\t' :: p ++ ['\t']
  | .replaced p b => "REPLACED".toList ++ '\t' :: p ++ '\t' :: b

/-- What the replay loops take from a line, `install.sh:108-113`, `install.sh:234-242` and
`uninstall.sh:63-92`. -/
def parseRecord (line : Str) : Option (Entry Path) :=
  match readFields 2 line with
  | [action, path, backup] =>
    if path = [] then none
    else if action = "CREATED".toList then some (.created path)
    else if action = "REPLACED".toList ∧ backup ≠ [] then some (.replaced path backup)
    else none
  | _ => none

/-- Replay the records of a file from the last line to the first. -/
def replayFile (text : Str) (t : Tree) : Tree := replay ((lines text).filterMap parseRecord) t

/-! ### Installing files -/

/-- The files of one run and the records it has written. -/
structure Session where
  tree : Tree
  log : List (Entry Path)

/-- The paths `install_file` has recorded. -/
def Session.paths (s : Session) : List Path := s.log.map Entry.path

/-- The part of `install_file` in front of the copy, `install.sh:124-130`. -/
def Session.recordFile (s : Session) (dst : Path) : Session :=
  ⟨keep backupOf s.tree dst, s.log ++ [entryFor backupOf s.tree dst]⟩

/-- `install_file`, `install.sh:121-132`. -/
def Session.installFile (s : Session) (dst : Path) (content : Str) : Session :=
  { s.recordFile dst with tree := Function.update (s.recordFile dst).tree dst (some content) }

/-- What `stat` and `test -x` say of a file. -/
structure Stat where
  mode : Str
  owner : Str
  executable : Bool
  deriving DecidableEq, Repr

/-- The contents of the files that are installed as they are: build artifacts, packaged files and
what the script generates. -/
structure Sources where
  helper : Str
  agent : Str
  broker : Str
  pamModule : Str
  conf : Str
  userUnit : Str
  dbusConf : Str
  brokerUnit : Str
  adminRule : Str
  bashCompletion : Str
  fishCompletion : Str
  zshCompletion : Str
  man1 : Str
  man5 : Str
  man8 : Str
  deriving DecidableEq, Repr

/-- What one run of the installer finds: its flags and environment, the answers of the programs it
calls, and the uid of the invoking user when it has a name. -/
structure Env where
  prefixDir : Path
  sysconfdir : Path
  libexecdir : Path
  pamModuleDir : Path
  installSudo : Bool
  buildUid : Option Nat
  visudo : Option Bool
  sources : Sources
  versions : Str
  stat : Path → Stat
  masked : Bool
  enabled : Bool

/-- One action of the install section. -/
inductive Action where
  | file (content : Str) (dst : Path)
  | wire (svc : Str)
  | timestamp

namespace Env

variable (env : Env)

/-- `$PREFIX/$LIBEXECDIR`. -/
def libexec : Path := inDir env.prefixDir env.libexecdir

/-- `HELPER_PATH`, `install.sh:54`. -/
def helperPath : Path := inDir env.libexec "sentinel-helper-kde".toList

/-- The agent binary, `install.sh:295`. -/
def agentPath : Path := inDir env.libexec "sentinel-polkit-agent".toList

/-- The PAM module, `install.sh:299`. -/
def pamModulePath : Path := inDir env.pamModuleDir "pam_sentinel.so".toList

/-- The configuration, `install.sh:301`. -/
def confPath : Path := inDirs env.sysconfdir ["security", "sentinel.conf"]

/-- The user unit of the agent, `install.sh:309-310`. -/
def userUnitPath : Path :=
  inDirs env.prefixDir ["lib", "systemd", "user", "sentinel-polkit-agent.service"]

/-- The bus policy, `install.sh:318-319`. -/
def dbusConfPath : Path :=
  inDirs env.prefixDir ["share", "dbus-1", "system.d", "org.sentinel.Agent.conf"]

/-- The polkit admin rule, `install.sh:351`. -/
def adminRulePath : Path :=
  inDirs env.sysconfdir ["polkit-1", "rules.d", "49-sentinel-admin.rules"]

/-- The install section, `install.sh:289-409`, in the order of the script. -/
def actions : List Action :=
  [.file env.sources.helper env.helperPath,
    .file env.sources.agent env.agentPath,
    .file env.sources.broker (inDir env.libexec "sentinel-broker".toList),
    .file env.sources.pamModule env.pamModulePath,
    .file env.sources.conf env.confPath,
    .wire "polkit-1".toList,
    .file env.sources.userUnit env.userUnitPath,
    .file env.sources.dbusConf env.dbusConfPath,
    .file env.sources.brokerUnit
      (inDirs env.sysconfdir ["systemd", "system", "sentinel-broker.service"])] ++
  (if env.buildUid.isSome then [.file env.sources.adminRule env.adminRulePath] else []) ++
  (if env.installSudo then
    [.wire "sudo".toList, .wire "sudo-i".toList, .wire "su".toList, .timestamp] else []) ++
  [.file env.sources.bashCompletion
      (inDirs env.prefixDir ["share", "bash-completion", "completions", "sentinel-polkit-agent"]),
    .file env.sources.fishCompletion
      (inDirs env.prefixDir
        ["share", "fish", "vendor_completions.d", "sentinel-polkit-agent.fish"]),
    .file env.sources.zshCompletion
      (inDirs env.prefixDir ["share", "zsh", "site-functions", "_sentinel-polkit-agent"]),
    .file env.sources.man1
      (inDirs env.prefixDir ["share", "man", "man1", "sentinel-polkit-agent.1"]),
    .file env.sources.man5 (inDirs env.prefixDir ["share", "man", "man5", "sentinel.conf.5"]),
    .file env.sources.man8 (inDirs env.prefixDir ["share", "man", "man8", "pam_sentinel.8"])]

/-- The call of `install_file` that an action comes to on these files. -/
def call (t : Tree) : Action → Call
  | .file content dst => .install dst content
  | .wire svc => wirePamService env.sysconfdir t svc
  | .timestamp => timestampOverride env.visudo t

/-- One action; nothing when a command of it fails. -/
def perform (s : Session) (a : Action) : Option Session :=
  match env.call s.tree a with
  | .skip => some s
  | .install dst content => some (s.installFile dst content)
  | .fails => none

/-- Some actions in order. -/
def performs (as : List Action) (s : Session) : Option Session := as.foldlM env.perform s

/-! ### Verifying -/

/-- `verify`, `install.sh:414-422`: the message it ends the script with. -/
def verify (t : Tree) (path mode : Str) (exe : Bool) : Option Str :=
  if (t path).isNone then some ("Missing after install: ".toList ++ path)
  else if exe && !(env.stat path).executable then some ("Not executable: ".toList ++ path)
  else if (env.stat path).mode ≠ mode then
    some ("Wrong mode on ".toList ++ path ++ ": got ".toList ++ (env.stat path).mode ++
      ", want ".toList ++ mode)
  else if (env.stat path).owner ≠ "0:0".toList then
    some ("Wrong ownership on ".toList ++ path ++ ": got ".toList ++ (env.stat path).owner ++
      ", want 0:0".toList)
  else none

/-- A file that is verified only when it is there, `install.sh:437,441-443`. -/
def verifyPresent (t : Tree) (path mode : Str) : Option Str :=
  if (t path).isSome then env.verify t path mode false else none

/-- The `grep` behind the checks of the polkit stack, `install.sh:428-429`. -/
def verifyWiring (t : Tree) : Option Str :=
  let path := pamTarget env.sysconfdir "polkit-1".toList
  if (t path).any mentionsSentinel then none
  else some ("polkit-1 wiring failed: pam_sentinel line is missing from ".toList ++ path)

/-- The checks of the verify section in order, `install.sh:423-444`. The script has the drop-in
directory in a variable; nothing in between writes a sudoers file. -/
def checks (t : Tree) : List (Option Str) :=
  [env.verify t env.helperPath "755".toList true,
    env.verify t env.agentPath "755".toList true,
    env.verify t env.pamModulePath "755".toList false,
    env.verify t env.confPath "644".toList false,
    env.verify t (pamTarget env.sysconfdir "polkit-1".toList) "644".toList false,
    env.verifyWiring t,
    env.verify t env.userUnitPath "644".toList false,
    env.verify t env.dbusConfPath "644".toList false] ++
  (if env.buildUid.isSome then [env.verify t env.adminRulePath "644".toList false] else []) ++
  (if env.installSudo then
    ["sudo".toList, "sudo-i".toList, "su".toList].map (fun svc ↦
      env.verifyPresent t (pamTarget env.sysconfdir svc) "644".toList) ++
    (match env.visudo, findSudoersDropin t with
      | some _, some dir =>
        [env.verifyPresent t (inDir dir "sentinel-timestamp".toList) "440".toList]
      | _, _ => [])
    else [])

/-! ### The state file -/

/-- The first record, `install.sh:291`. -/
def versionRecord : Str :=
  "VERSION".toList ++ '\t' :: env.versions.takeWhile (· ≠ '\n') ++ ['\t']

/-- The record of a user unit, `install.sh:475,481`. -/
def unitRecord (action unit : Str) (uid : Nat) : Str :=
  action ++ '\t' :: unit ++ '\t' :: Nat.toDigits 10 uid

/-- The records of the activation, `install.sh:461-491`. -/
def activationRecords : List Str :=
  match env.buildUid with
  | none => []
  | some uid =>
    (if env.masked then
      [unitRecord "PLASMAMASK".toList "plasma-polkit-agent.service".toList uid] else []) ++
    (if env.enabled then
      [unitRecord "AGENTUNIT".toList "sentinel-polkit-agent.service".toList uid] else [])

/-- The text of `install.state` behind a run with these entries. -/
def stateText (log : List (Entry Path)) : Str :=
  unlines (env.versionRecord :: log.map record ++ env.activationRecords)

end Env

/-! ### Whole runs -/

/-- The machine between runs: its files and the content of `/var/lib/sentinel/install.state`. -/
structure Machine where
  tree : Tree
  state : Option Str

namespace Machine

/-- `revert_previous_install`, `install.sh:231-249`. -/
def revert (m : Machine) : Machine :=
  match m.state with
  | none => m
  | some text => ⟨replayFile text m.tree, none⟩

/-- A successful run of the installer: the machine behind it and the paths it has written. -/
def install (m : Machine) (env : Env) : Option (Machine × List Path) :=
  match env.performs env.actions ⟨m.revert.tree, []⟩ with
  | none => none
  | some s =>
    if (env.checks s.tree).all Option.isNone then
      some (⟨s.tree, some (env.stateText s.log)⟩, s.paths)
    else none

/-- Successful runs one after the other, with all the paths they have written. -/
def installs : Machine → List Env → Option (Machine × List Path)
  | m, [] => some (m, [])
  | m, env :: envs =>
    match m.install env with
    | none => none
    | some (m', written) =>
      match installs m' envs with
      | none => none
      | some (m'', written') => some (m'', written ++ written')

/-- A path of the legacy runtime directory, `uninstall.sh:100`. -/
def underRuntime (p : Path) : Bool :=
  p == "/run/sentinel".toList || "/run/sentinel/".toList.isPrefixOf p

/-- `uninstall.sh:60-107`; without a state file the script falls back on path names. -/
def uninstall (m : Machine) : Option Machine :=
  match m.state with
  | none => none
  | some text =>
    let t := replayFile text m.tree
    some ⟨fun p ↦ if underRuntime p then none else t p, none⟩

end Machine

/-! ### A small machine -/

/-- A run as root without an invoking user, with or without `--no-sudo`. -/
def sampleEnv (guarded : Bool) : Env where
  prefixDir := "/usr".toList
  sysconfdir := "/etc".toList
  libexecdir := "lib".toList
  pamModuleDir := "/lib/security".toList
  installSudo := guarded
  buildUid := none
  visudo := some true
  sources := ⟨['h'], ['a'], ['b'], ['m'], ['c'], ['u'], ['d'], ['s'], ['r'], ['1'], ['2'], ['3'],
    ['4'], ['5'], ['6']⟩
  versions := "0.9.0".toList
  stat p :=
    { mode :=
        if ["kde".toList, "agent".toList, ".so".toList].any (·.isSuffixOf p) then "755".toList
        else if "timestamp".toList.isSuffixOf p then "440".toList
        else "644".toList
      owner := "0:0".toList
      executable := true }
  masked := false
  enabled := false

/-- A machine with this PAM stack for polkit and this sudoers file, and nothing else. -/
def sampleMachine (polkit : Option Str) (sudoers : Str) : Machine where
  tree p :=
    if p = "/etc/pam.d/polkit-1".toList then polkit
    else if p = "/etc/sudoers".toList then some sudoers
    else none
  state := none

/-- Its sudoers file includes the standard directory. -/
def standardMachine : Machine :=
  sampleMachine (some "auth include system-auth\n".toList) "@includedir /etc/sudoers.d\n".toList

end Sentinel.Packaging
