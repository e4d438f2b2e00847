import Sentinel.Base.Program
import Sentinel.Broker.Proto
import Sentinel.Pam.ProcInfo
import Sentinel.Shared.Config

/-!
# `sm_authenticate`

Crate `pam-sentinel`, `crates/pam-sentinel/src/lib.rs` with `agent_bypass.rs`, `display.rs` and
`broker_client.rs`. One run reads its world (PAM items, passwd, environment, `/proc`,
configuration) and calls out three ways: to the user's agent, to the broker and to the dialog
helper. The run is a program over these calls; log lines are left out, their `source` field is
kept beside the result code.
-/

namespace Sentinel.Pam

open Sentinel.Base Sentinel.Shared Sentinel.Broker

/-- The result codes the module returns. -/
inductive PamResultCode where
  | success
  | authErr
  | ignore
  deriving DecidableEq, Repr

/-- Where a result comes from, as the audit lines name it. -/
inductive Source where
  | bypass
  | disabled
  | headless
  | policy
  | remember
  | dialog
  deriving DecidableEq, Repr

/-- A result code with its source. -/
structure PamReturn where
  code : PamResultCode
  source : Source
  deriving DecidableEq, Repr

/-- An entry of a runtime directory. -/
structure DirEntry where
  name : Bytes
  isSocket : Bool

/-- What one run reads. `getUser` is `pamh.get_user(None)`, the items are C strings, an absent
value stands for every read error. -/
structure World where
  getUser : Option Str
  userItem : Option CStr
  serviceItem : Option CStr
  passwdByName : Str → Option UInt32
  passwdByUid : UInt32 → Option Str
  env : Str → Option Bytes
  runtimeDir : UInt32 → Option (List DirEntry)
  document : Document
  host : Host
  ppid : Int
  ownUid : UInt32

/-- `std::env::var`: set and valid Unicode. -/
def envVar (env : Str → Option Bytes) (name : String) : Option Str :=
  (env name.toList).bind fromUtf8

/-- `HelperRequest`, `helper.rs:23-45`. -/
structure HelperRequest where
  cfg : ServiceConfig
  user : Str
  service : Str
  process : ProcessInfo
  formattedTitle : Str
  formattedMessage : Str
  formattedSecondary : Str
  soundName : Str
  targetUid : UInt32
  requestingPid : Int
  rememberSecs : UInt32
  deriving DecidableEq, Repr

/-- The calls of a run. -/
inductive Call where
  | queryAgent (uid : UInt32)
  | roundtrip (sock : Str) (req : Request)
  | runHelper (req : HelperRequest)
  deriving DecidableEq, Repr

/-- The answers: an absent one stands for every error of the call. -/
abbrev Answer : Call → Type
  | .queryAgent _ => Option Bool
  | .roundtrip _ _ => Option Response
  | .runHelper _ => Option Verdict

/-- A run of the module. -/
abbrev Run : Type → Type := Program Call Answer

/-- `query_agent`, `agent_bypass.rs:65-89`, as one call. -/
def queryAgent (uid : UInt32) : Run (Option Bool) := .call (.queryAgent uid) .pure

/-- `roundtrip_at`, `broker_client.rs:37-43`, as one call. -/
def roundtripAt (sock : Str) (req : Request) : Run (Option Response) :=
  .call (.roundtrip sock req) .pure

/-- `helper::run`, as one call. -/
def runHelper (req : HelperRequest) : Run (Option Verdict) := .call (.runHelper req) .pure

/-! ### The broker client -/

/-- `DEFAULT_SOCK`, `broker_client.rs:26`. -/
def defaultSock : Str := "/run/sentinel-broker/broker.sock".toList

/-- `sock_path`, `broker_client.rs:31-33`. -/
def sockPath (env : Str → Option Bytes) : Str :=
  (envVar env "SENTINEL_BROKER_SOCK").getD defaultSock

/-- `check_remember`, `broker_client.rs:48-54`. -/
def checkRemember (env : Str → Option Bytes) (key : RememberKey) (ttlSecs : UInt32) :
    Run Bool := do
  let resp ← roundtripAt (sockPath env) (.checkRemember ⟨key, ttlSecs⟩)
  return resp == some (.remember true)

/-- `record_remember`, `broker_client.rs:58-62`. -/
def recordRemember (env : Str → Option Bytes) (key : RememberKey) : Run Unit := do
  let _ ← roundtripAt (sockPath env) (.recordRemember key)
  return ()

/-! ### Stages -/

/-- `agent_bypass::resolve_user`, `agent_bypass.rs:91-99`. -/
def bypassUser (w : World) : Option Str :=
  w.getUser.or (w.userItem.bind CStr.toStr)

/-- `check_agent_bypass`, `agent_bypass.rs:38-60`. -/
def checkAgentBypass (w : World) : Run (Option PamResultCode) :=
  match (bypassUser w).bind w.passwdByName with
  | none => pure none
  | some uid => do
    let approved ← queryAgent uid
    return if approved = some true then some .success else none

/-- `pam_service`, `lib.rs:190-196`. -/
def pamService (w : World) : Str := (w.serviceItem.bind CStr.toStr).getD "unknown".toList

/-- `resolve_user`, `lib.rs:211-221`. -/
def resolveUser (w : World) (uid : UInt32) : Str :=
  match w.getUser.filter (fun name ↦ name ≠ []) with
  | some name => name
  | none => (w.passwdByUid uid).getD "unknown".toList

/-- `Path::extension` of a name that does not start with a dot. -/
def extension (name : Str) : Option Str :=
  if name.contains '.' then (name.splitOn '.').getLast? else none

/-- `detect_for_user`, `display.rs:12-59`, without its effect on the environment. -/
def detectForUser (w : World) (uid : UInt32) : Bool :=
  if (envVar w.env "WAYLAND_DISPLAY").any (fun v ↦ v ≠ []) then true
  else match w.runtimeDir uid with
    | none => false
    | some entries => entries.any (fun entry ↦
        match fromUtf8 entry.name with
        | none => false
        | some s =>
          "wayland-".toList.isPrefixOf s && extension s != some "lock".toList && entry.isSocket)

/-- `handle_headless`, `lib.rs:223-272`. -/
def handleHeadless (cfg : ServiceConfig) : PamResultCode :=
  match cfg.headlessAction with
  | .allow => .success
  | .deny => .authErr
  | .password => .ignore

/-- `check_policy`, `lib.rs:286-315`. -/
def checkPolicy (cfg : ServiceConfig) (process : ProcessInfo) : Option PamResultCode :=
  match cfg.policy.decide process.policyExe none with
  | .allow => some .success
  | .deny => some .authErr
  | .ask => none

/-- The remember key of a request, `lib.rs:112-133`: none without an audit session. -/
def rememberKey (cfg : ServiceConfig) (service : Str) (process : ProcessInfo)
    (loginuid sessionid : UInt32) : Option RememberKey :=
  if loginuid = 4294967295 ∨ sessionid = 4294967295 then none
  else process.rememberCommand.map (fun command ↦
    { loginuid, sessionid, service
      command := rememberKeyCommand command cfg.rememberScope })

/-- The request of `spawn_dialog`, `lib.rs:326-342`. -/
def helperRequest (cfg : ServiceConfig) (service user : Str) (process : ProcessInfo)
    (requestingPid : Int) (requestingUid rememberSecs : UInt32) : HelperRequest where
  cfg
  user
  service
  process
  formattedTitle := formatMessage user service process.name cfg.title
  formattedMessage := formatMessage user service process.name cfg.message
  formattedSecondary := formatMessage user service process.name cfg.secondary
  soundName := cfg.soundName
  targetUid := requestingUid
  requestingPid
  rememberSecs

/-- `spawn_dialog`, `lib.rs:317-390`. -/
def spawnDialog (req : HelperRequest) : Run (PamResultCode × Bool) := do
  let result ← runHelper req
  return match result with
    | some v => if v.outcome.isAllow then (.success, v.remember) else (.authErr, false)
    | none => (.authErr, false)

/-- What a run has read when it comes to the remember window. -/
structure Prompt where
  env : Str → Option Bytes
  cfg : ServiceConfig
  key : Option RememberKey
  helper : UInt32 → HelperRequest

/-- The checkbox window: none without a key, `lib.rs:155-159`. -/
def Prompt.rememberSecs (p : Prompt) : UInt32 := if p.key.isSome then p.cfg.rememberSeconds else 0

/-- The dialog and the recording of an opted-in grant, `lib.rs:155-180`. -/
def dialogStage (p : Prompt) : Run PamReturn := do
  let (rc, remember) ← spawnDialog (p.helper p.rememberSecs)
  if remember && 0 < p.rememberSecs then
    if let some key := p.key then
      recordRemember p.env key
  return ⟨rc, .dialog⟩

/-- The remember window in front of the dialog, `lib.rs:134-149`. -/
def rememberStage (p : Prompt) : Run PamReturn := do
  if 0 < p.cfg.rememberSeconds then
    if let some key := p.key then
      if ← checkRemember p.env key p.cfg.rememberSeconds then
        return ⟨.success, .remember⟩
  dialogStage p

/-- What a run does behind the agent bypass, up to its first call: an early return or the
prompt; `lib.rs:67-133`. -/
def decideEarly (w : World) : PamReturn ⊕ Prompt :=
  let service := pamService w
  let cfg := w.document.forService service
  if !cfg.enabled then .inl ⟨.ignore, .disabled⟩
  else
    let requestingUid := callerUid w.host.fs w.ownUid w.ppid
    let user := resolveUser w requestingUid
    if !detectForUser w requestingUid then .inl ⟨handleHeadless cfg, .headless⟩
    else
      let process := ProcessInfo.forPid w.host.fs w.host.pid
      match checkPolicy cfg process with
      | some rc => .inl ⟨rc, .policy⟩
      | none =>
        let loginuid := readProcU32 w.host.fs ProcDir.loginuid w.ppid
        let sessionid := readProcU32 w.host.fs ProcDir.sessionid w.ppid
        .inr
          { env := w.env
            cfg
            key := rememberKey cfg service process loginuid sessionid
            helper := helperRequest cfg service user process w.host.pid requestingUid }

/-- The run behind the agent bypass. -/
def afterBypass (w : World) : Run PamReturn :=
  match decideEarly w with
  | .inl ret => pure ret
  | .inr p => rememberStage p

/-- `PamSentinel::sm_authenticate`, `lib.rs:59-181`. -/
def smAuthenticate (w : World) : Run PamReturn := do
  match ← checkAgentBypass w with
  | some rc => return ⟨rc, .bypass⟩
  | none => afterBypass w

/-! ### The run call by call -/

/-- The result code of a dialog answer. -/
def dialogCode : Option Verdict → PamResultCode
  | some v => if v.outcome.isAllow then .success else .authErr
  | none => .authErr

/-- An Allow with the checkbox ticked. -/
def optedIn : Option Verdict → Bool
  | some v => v.outcome.isAllow && v.remember
  | none => false

/-- What follows the dialog: the record call of an opted-in request with a window and a key. -/
def recordStage (p : Prompt) (v : Option Verdict) : Run PamReturn :=
  match p.key with
  | some key =>
    if optedIn v && 0 < p.rememberSecs then
      .call (.roundtrip (sockPath p.env) (.recordRemember key))
        (fun _ ↦ .pure ⟨dialogCode v, .dialog⟩)
    else .pure ⟨dialogCode v, .dialog⟩
  | none => .pure ⟨dialogCode v, .dialog⟩

/-- The dialog stage calls the helper first. -/
theorem dialogStage_eq (p : Prompt) :
    dialogStage p = .call (.runHelper (p.helper p.rememberSecs)) (recordStage p) := by
  refine congrArg (Program.call _) (funext fun v ↦ ?_)
  unfold recordStage
  generalize p.key = key, decide (0 < p.rememberSecs) = window
  cases v with
  | none => cases key <;> rfl
  | some v =>
    obtain ⟨outcome, remember⟩ := v
    cases key <;> cases outcome <;> cases remember <;> cases window <;> rfl

/-- What follows the broker's answer. -/
def checkedStage (p : Prompt) (resp : Option Response) : Run PamReturn :=
  if resp = some (.remember true) then .pure ⟨.success, .remember⟩ else dialogStage p

/-- With a key and a window the remember stage asks the broker first. -/
theorem rememberStage_check {p : Prompt} {key : RememberKey} (hk : p.key = some key)
    (hs : 0 < p.cfg.rememberSeconds) :
    rememberStage p =
      .call (.roundtrip (sockPath p.env) (.checkRemember ⟨key, p.cfg.rememberSeconds⟩))
        (checkedStage p) := by
  unfold rememberStage
  rw [if_pos hs, hk]
  refine congrArg (Program.call _) (funext fun resp ↦ ?_)
  have hb : ∀ r : Option Response,
      (if (r == some (.remember true)) = true then .pure ⟨.success, .remember⟩
        else dialogStage p) = checkedStage p r := by
    intro r
    simp only [checkedStage, beq_iff_eq]
  exact hb resp

/-- Without a key or a window it goes straight to the dialog. -/
theorem rememberStage_skip {p : Prompt} (h : p.key = none ∨ ¬ 0 < p.cfg.rememberSeconds) :
    rememberStage p = dialogStage p := by
  unfold rememberStage
  cases h with
  | inl hk => rw [hk]; split <;> rfl
  | inr hs => rw [if_neg hs]

/-- What follows the agent's answer. -/
def queriedStage (w : World) (approved : Option Bool) : Run PamReturn :=
  if approved = some true then .pure ⟨.success, .bypass⟩ else afterBypass w

/-- The bypass asks the agent of the user, when there is one in passwd. -/
theorem smAuthenticate_eq (w : World) :
    smAuthenticate w =
      match (bypassUser w).bind w.passwdByName with
      | none => afterBypass w
      | some uid => .call (.queryAgent uid) (queriedStage w) := by
  unfold smAuthenticate checkAgentBypass
  cases (bypassUser w).bind w.passwdByName with
  | none => rfl
  | some uid =>
    refine congrArg (Program.call _) (funext fun approved ↦ ?_)
    match (approved : Option Bool) with
    | none => rfl
    | some true => rfl
    | some false => rfl

/-- The configuration a run reads. -/
def serviceConfig (w : World) : ServiceConfig := w.document.forService (pamService w)

/-- Whether a run finds a display for the requesting user. -/
def displayFound (w : World) : Bool := detectForUser w (callerUid w.host.fs w.ownUid w.ppid)

/-- The prompt of a run that comes to one. -/
def promptOf (w : World) : Prompt :=
  let process := ProcessInfo.forPid w.host.fs w.host.pid
  { env := w.env
    cfg := serviceConfig w
    key := rememberKey (serviceConfig w) (pamService w) process
      (readProcU32 w.host.fs ProcDir.loginuid w.ppid)
      (readProcU32 w.host.fs ProcDir.sessionid w.ppid)
    helper := helperRequest (serviceConfig w) (pamService w)
      (resolveUser w (callerUid w.host.fs w.ownUid w.ppid)) process w.host.pid
      (callerUid w.host.fs w.ownUid w.ppid) }

/-- A run comes to its prompt when it is enabled, finds a display and the policy asks. -/
theorem decideEarly_eq_inr_iff (w : World) (p : Prompt) :
    decideEarly w = .inr p ↔
      (serviceConfig w).enabled = true ∧ displayFound w = true ∧
        checkPolicy (serviceConfig w) (ProcessInfo.forPid w.host.fs w.host.pid) = none ∧
        p = promptOf w := by
  simp only [decideEarly, displayFound, serviceConfig, promptOf]
  cases (w.document.forService (pamService w)).enabled with
  | false => simp
  | true =>
    cases detectForUser w (callerUid w.host.fs w.ownUid w.ppid) with
    | false => simp
    | true =>
      cases checkPolicy (w.document.forService (pamService w))
          (ProcessInfo.forPid w.host.fs w.host.pid) with
      | some rc => simp
      | none => simp [eq_comm]

/-- What a prompt was made from. -/
theorem decideEarly_inr {w : World} {p : Prompt} (h : decideEarly w = .inr p) :
    p.env = w.env ∧ p.cfg = w.document.forService (pamService w) ∧
      p.key = rememberKey p.cfg (pamService w) (ProcessInfo.forPid w.host.fs w.host.pid)
        (readProcU32 w.host.fs ProcDir.loginuid w.ppid)
        (readProcU32 w.host.fs ProcDir.sessionid w.ppid) ∧
      ∀ secs, (p.helper secs).rememberSecs = secs := by
  simp only [decideEarly] at h
  split at h
  · cases h
  · split at h
    · cases h
    · split at h
      · cases h
      · cases h
        exact ⟨rfl, rfl, rfl, fun _ ↦ rfl⟩

/-- Early returns come neither from the remember window nor from the agent bypass. -/
theorem decideEarly_inl {w : World} {ret : PamReturn} (h : decideEarly w = .inl ret) :
    ret.source ≠ .remember ∧ ret.source ≠ .bypass := by
  simp only [decideEarly] at h
  split at h
  · cases h; simp
  · split at h
    · cases h; simp
    · split at h
      · cases h; simp
      · cases h

/-- A host process without a target is neither matched by the policy nor remembered: the run
reaches its dialog unless it is disabled or headless. -/
theorem decideEarly_silent {w : World}
    (hp : (ProcessInfo.forPid w.host.fs w.host.pid).policyExe = none)
    (hr : (ProcessInfo.forPid w.host.fs w.host.pid).rememberCommand = none) :
    (∃ ret, decideEarly w = .inl ret ∧ (ret.source = .disabled ∨ ret.source = .headless)) ∨
      ∃ p, decideEarly w = .inr p ∧ p.key = none := by
  have hpolicy (cfg : ServiceConfig) :
      checkPolicy cfg (ProcessInfo.forPid w.host.fs w.host.pid) = none := by
    rw [checkPolicy, hp, Policy.decide_none]
  simp only [decideEarly, hpolicy]
  split
  · exact Or.inl ⟨_, rfl, Or.inl rfl⟩
  · split
    · exact Or.inl ⟨_, rfl, Or.inr rfl⟩
    · refine Or.inr ⟨_, rfl, ?_⟩
      simp [rememberKey, hr]

/-- Without a key the prompt is the dialog alone: no window is offered, and no answer of the
broker or the user leads to a grant. -/
theorem rememberStage_keyless {p : Prompt} (h : p.key = none) :
    rememberStage p = .call (.runHelper (p.helper 0)) (fun v ↦ .pure ⟨dialogCode v, .dialog⟩) := by
  have hs : p.rememberSecs = 0 := by rw [Prompt.rememberSecs, h]; rfl
  have hr : recordStage p = fun v ↦ .pure ⟨dialogCode v, .dialog⟩ := by
    funext v
    rw [recordStage, h]
  rw [rememberStage_skip (Or.inl h), dialogStage_eq, hs, hr]

/-- A wrapper without a command is invisible to policy and remember exactly when every token
of its options and operands that is no option is taken for the value of one; a run for it then
comes to the dialog, unless it is disabled or headless, and neither asks for a grant nor records
one. -/
theorem bareInvocation_silent_iff (h : Host) (i : BareInvocation) :
    (((ProcessInfo.forPid (h.started i.argv).fs h.pid).policyExe = none ∧
        (ProcessInfo.forPid (h.started i.argv).fs h.pid).rememberCommand = none) ↔
      OptionsOnly (argvTokens i.args)) ∧
    (OptionsOnly (argvTokens i.args) → ∀ w : World, w.host = h.started i.argv →
      (∃ ret, decideEarly w = .inl ret ∧ (ret.source = .disabled ∨ ret.source = .headless)) ∨
      ∃ p, decideEarly w = .inr p ∧
        rememberStage p =
          .call (.runHelper (p.helper 0)) (fun v ↦ .pure ⟨dialogCode v, .dialog⟩)) := by
  refine ⟨forPid_bareInvocation_iff h i, ?_⟩
  intro ho w hw
  obtain ⟨hp, hr⟩ := (forPid_bareInvocation_iff h i).mpr ho
  have hpid : (h.started i.argv).pid = h.pid := rfl
  rcases decideEarly_silent (w := w) (by rw [hw, hpid, hp]) (by rw [hw, hpid, hr]) with
    hret | ⟨p, hd, hk⟩
  · exact Or.inl hret
  · exact Or.inr ⟨p, hd, rememberStage_keyless hk⟩

/-- `su root` is matched by the policy as the program `root` and remembered as its command. -/
theorem suRoot_not_silent :
    (ProcessInfo.forPid (Host.bare.started BareInvocation.suRoot.argv).fs Host.bare.pid).policyExe =
        some "root".toList ∧
      (ProcessInfo.forPid (Host.bare.started BareInvocation.suRoot.argv).fs
        Host.bare.pid).rememberCommand = some "root".toList := by
  decide

private theorem always_dialogStage (p : Prompt) :
    (dialogStage p).Always (fun ret ↦ ret.source ≠ .bypass) := by
  rw [dialogStage_eq]
  intro v
  unfold recordStage
  split
  · split
    · intro _
      simp [Program.Always]
    · simp [Program.Always]
  · simp [Program.Always]

/-- Behind the agent bypass no result comes from it, whatever the answers. -/
theorem always_afterBypass (w : World) :
    (afterBypass w).Always (fun ret ↦ ret.source ≠ .bypass) := by
  unfold afterBypass
  cases hd : decideEarly w with
  | inl ret => exact (decideEarly_inl hd).2
  | inr p =>
    by_cases hs : 0 < p.cfg.rememberSeconds
    · cases hk : p.key with
      | none =>
        simp only [rememberStage_skip (Or.inl hk)]
        exact always_dialogStage p
      | some key =>
        simp only [rememberStage_check hk hs]
        intro resp
        unfold checkedStage
        split
        · simp [Program.Always]
        · exact always_dialogStage p
    · simp only [rememberStage_skip (Or.inr hs)]
      exact always_dialogStage p

/-! ### The run as a state machine -/

/-- Where a run can stand that was not let in by a grant, with the window offered and the
answer of its dialog, once it had one: waiting for the agent, for the broker's check, for the
helper, for the broker's record, or returned. -/
inductive Phase (w : World) : Run PamReturn → Option (UInt32 × Option Verdict) → Prop where
  | query (uid : UInt32) : Phase w (.call (.queryAgent uid) (queriedStage w)) none
  | check {p : Prompt} {key : RememberKey} (hp : decideEarly w = .inr p)
      (hk : p.key = some key) :
      Phase w (.call (.roundtrip (sockPath p.env)
        (.checkRemember ⟨key, p.cfg.rememberSeconds⟩)) (checkedStage p)) none
  | dialog {p : Prompt} (hp : decideEarly w = .inr p) :
      Phase w (.call (.runHelper (p.helper p.rememberSecs)) (recordStage p)) none
  | record {p : Prompt} {key : RememberKey} {v : Option Verdict} (hp : decideEarly w = .inr p)
      (hk : p.key = some key) (hv : optedIn v = true) (hs : 0 < p.rememberSecs) :
      Phase w (.call (.roundtrip (sockPath p.env) (.recordRemember key))
        (fun _ ↦ .pure ⟨dialogCode v, .dialog⟩)) (some (p.rememberSecs, v))
  | done {ret : PamReturn} {d : Option (UInt32 × Option Verdict)} (hr : ret.source ≠ .remember) :
      Phase w (.pure ret) d

/-- The dialog stage waits for the helper. -/
theorem phase_dialogStage {w : World} {p : Prompt} (hp : decideEarly w = .inr p) :
    Phase w (dialogStage p) none := by
  rw [dialogStage_eq]
  exact .dialog hp

/-- Behind the agent a run has returned or waits for the broker or the helper. -/
theorem phase_afterBypass (w : World) : Phase w (afterBypass w) none := by
  unfold afterBypass
  cases hd : decideEarly w with
  | inl ret => exact .done (decideEarly_inl hd).1
  | inr p =>
    by_cases hs : 0 < p.cfg.rememberSeconds
    · cases hk : p.key with
      | none =>
        simp only [rememberStage_skip (Or.inl hk)]
        exact phase_dialogStage hd
      | some key =>
        simp only [rememberStage_check hk hs]
        exact .check hd hk
    · simp only [rememberStage_skip (Or.inr hs)]
      exact phase_dialogStage hd

/-- A run starts in a phase. -/
theorem phase_start (w : World) : Phase w (smAuthenticate w) none := by
  rw [smAuthenticate_eq]
  split
  · exact phase_afterBypass w
  · exact .query _

/-- The agent's answer. -/
theorem phase_queried (w : World) (approved : Option Bool) :
    Phase w (queriedStage w approved) none := by
  unfold queriedStage
  split
  · exact .done (by simp)
  · exact phase_afterBypass w

/-- The broker's answer to a check, when it is not a grant. -/
theorem phase_checked {w : World} {p : Prompt} (hp : decideEarly w = .inr p)
    {resp : Option Response} (hr : resp ≠ some (.remember true)) :
    Phase w (checkedStage p resp) none := by
  rw [checkedStage, if_neg hr]
  exact phase_dialogStage hp

/-- The helper's answer. -/
theorem phase_recorded {w : World} {p : Prompt} (hp : decideEarly w = .inr p)
    (v : Option Verdict) : Phase w (recordStage p v) (some (p.rememberSecs, v)) := by
  unfold recordStage
  cases hk : p.key with
  | none => exact .done (by simp)
  | some key =>
    simp only
    split
    next h =>
      rw [Bool.and_eq_true, decide_eq_true_eq] at h
      exact .record hp hk h.1 h.2
    next => exact .done (by simp)

/-! ### The run under a handler -/

/-- A ticked Allow is recorded before the return; the code is the dialog's either way. -/
theorem eval_recordStage (p : Prompt) (v : Option Verdict) (h : (c : Call) → Answer c) :
    (recordStage p v).eval h = ⟨dialogCode v, .dialog⟩ := by
  unfold recordStage
  split
  · split <;> rfl
  · rfl

/-- The dialog decides the code of its stage. -/
theorem eval_dialogStage (p : Prompt) (h : (c : Call) → Answer c) :
    (dialogStage p).eval h = ⟨dialogCode (h (.runHelper (p.helper p.rememberSecs))), .dialog⟩ := by
  rw [dialogStage_eq, Program.eval_call, eval_recordStage]

/-- The broker holds a grant for the key of a prompt with a window. -/
def Granted (h : (c : Call) → Answer c) (p : Prompt) : Prop :=
  ∃ key, p.key = some key ∧ 0 < p.cfg.rememberSeconds ∧
    h (.roundtrip (sockPath p.env) (.checkRemember ⟨key, p.cfg.rememberSeconds⟩)) =
      some (.remember true)

/-- With a grant the remember stage returns through it. -/
theorem eval_rememberStage_granted {h : (c : Call) → Answer c} {p : Prompt} (hg : Granted h p) :
    (rememberStage p).eval h = ⟨.success, .remember⟩ := by
  obtain ⟨key, hk, hs, hr⟩ := hg
  rw [rememberStage_check hk hs, Program.eval_call, checkedStage, if_pos hr]
  rfl

/-- Without one it is the dialog stage. -/
theorem eval_rememberStage_ungranted {h : (c : Call) → Answer c} {p : Prompt}
    (hg : ¬ Granted h p) : (rememberStage p).eval h = (dialogStage p).eval h := by
  by_cases hs : 0 < p.cfg.rememberSeconds
  · cases hk : p.key with
    | none => rw [rememberStage_skip (Or.inl hk)]
    | some key =>
      rw [rememberStage_check hk hs, Program.eval_call, checkedStage, if_neg]
      intro hr
      exact hg ⟨key, hk, hs, hr⟩
  · rw [rememberStage_skip (Or.inr hs)]

/-- The agent of the user approves. -/
def Bypassed (h : (c : Call) → Answer c) (w : World) : Prop :=
  ∃ uid, (bypassUser w).bind w.passwdByName = some uid ∧ h (.queryAgent uid) = some true

/-- With an approval the run returns at once. -/
theorem eval_bypassed {h : (c : Call) → Answer c} {w : World} (hb : Bypassed h w) :
    (smAuthenticate w).eval h = ⟨.success, .bypass⟩ := by
  obtain ⟨uid, hu, ha⟩ := hb
  rw [smAuthenticate_eq, hu]
  change (queriedStage w (h (.queryAgent uid))).eval h = _
  rw [queriedStage, if_pos ha]
  rfl

/-- Without one it goes on behind the bypass. -/
theorem eval_not_bypassed {h : (c : Call) → Answer c} {w : World} (hb : ¬ Bypassed h w) :
    (smAuthenticate w).eval h = (afterBypass w).eval h := by
  rw [smAuthenticate_eq]
  cases hu : (bypassUser w).bind w.passwdByName with
  | none => rfl
  | some uid =>
    change (queriedStage w (h (.queryAgent uid))).eval h = _
    rw [queriedStage, if_neg]
    intro ha
    exact hb ⟨uid, hu, ha⟩

/-- The ways through a run. -/
inductive Returned (h : (c : Call) → Answer c) (w : World) : PamReturn → Prop where
  | bypass (hb : Bypassed h w) : Returned h w ⟨.success, .bypass⟩
  | early {ret : PamReturn} (hb : ¬ Bypassed h w) (hd : decideEarly w = .inl ret) :
      Returned h w ret
  | granted {p : Prompt} (hb : ¬ Bypassed h w) (hd : decideEarly w = .inr p) (hg : Granted h p) :
      Returned h w ⟨.success, .remember⟩
  | asked {p : Prompt} (hb : ¬ Bypassed h w) (hd : decideEarly w = .inr p) (hg : ¬ Granted h p) :
      Returned h w ⟨dialogCode (h (.runHelper (p.helper p.rememberSecs))), .dialog⟩

/-- Every run takes one of them. -/
theorem returned_eval (h : (c : Call) → Answer c) (w : World) :
    Returned h w ((smAuthenticate w).eval h) := by
  by_cases hb : Bypassed h w
  · rw [eval_bypassed hb]
    exact .bypass hb
  · rw [eval_not_bypassed hb, afterBypass]
    cases hd : decideEarly w with
    | inl ret => exact .early hb hd
    | inr p =>
      show Returned h w ((rememberStage p).eval h)
      by_cases hg : Granted h p
      · rw [eval_rememberStage_granted hg]
        exact .granted hb hd hg
      · rw [eval_rememberStage_ungranted hg, eval_dialogStage]
        exact .asked hb hd hg

/-- A prompt succeeds on a grant or on an Allow, and on nothing else. -/
theorem eval_rememberStage_success_iff (h : (c : Call) → Answer c) (p : Prompt) :
    ((rememberStage p).eval h).code = .success ↔
      Granted h p ∨ dialogCode (h (.runHelper (p.helper p.rememberSecs))) = .success := by
  by_cases hg : Granted h p
  · simp [eval_rememberStage_granted hg, hg]
  · rw [eval_rememberStage_ungranted hg, eval_dialogStage]
    simp [hg]

/-- What opens the door: the agent's approval, a success of the headless gate or the policy, a
grant, or an Allow. -/
theorem eval_success_iff (h : (c : Call) → Answer c) (w : World) :
    ((smAuthenticate w).eval h).code = .success ↔
      Bypassed h w ∨
        (∃ ret, decideEarly w = .inl ret ∧ ret.code = .success) ∨
        ∃ p, decideEarly w = .inr p ∧
          (Granted h p ∨ dialogCode (h (.runHelper (p.helper p.rememberSecs))) = .success) := by
  by_cases hb : Bypassed h w
  · simp [eval_bypassed hb, hb]
  · rw [eval_not_bypassed hb, afterBypass]
    cases hd : decideEarly w with
    | inl ret => simp [hb]
    | inr p => simp [hb, eval_rememberStage_success_iff]

/-- A run returns through the remember window only on a grant for its prompt. -/
theorem granted_of_source_remember {h : (c : Call) → Answer c} {w : World}
    (hs : ((smAuthenticate w).eval h).source = .remember) :
    ∃ p, decideEarly w = .inr p ∧ Granted h p := by
  by_cases hb : Bypassed h w
  · rw [eval_bypassed hb] at hs
    cases hs
  · rw [eval_not_bypassed hb, afterBypass] at hs
    cases hd : decideEarly w with
    | inl ret =>
      rw [hd] at hs
      exact absurd hs (decideEarly_inl hd).1
    | inr p =>
      rw [hd] at hs
      refine ⟨p, rfl, ?_⟩
      by_contra hg
      change ((rememberStage p).eval h).source = .remember at hs
      rw [eval_rememberStage_ungranted hg, eval_dialogStage] at hs
      cases hs

/-! ### Keys -/

/-- The service of a run has no NUL. -/
theorem nul_not_mem_pamService (w : World) : '\x00' ∉ pamService w := by
  unfold pamService
  cases h : w.serviceItem.bind CStr.toStr with
  | none => decide
  | some s =>
    obtain ⟨a, -, ha⟩ := Option.bind_eq_some_iff.mp h
    exact CStr.nul_not_mem_toStr ha

/-- What a key is made of. -/
theorem rememberKey_eq_some {cfg : ServiceConfig} {service : Str} {process : ProcessInfo}
    {loginuid sessionid : UInt32} {key : RememberKey}
    (h : rememberKey cfg service process loginuid sessionid = some key) :
    loginuid ≠ 4294967295 ∧ sessionid ≠ 4294967295 ∧
      ∃ command, process.rememberCommand = some command ∧
        key = ⟨loginuid, sessionid, service, rememberKeyCommand command cfg.rememberScope⟩ := by
  unfold rememberKey at h
  split at h
  · cases h
  next hn =>
    rw [not_or] at hn
    obtain ⟨command, hc, hk⟩ := Option.map_eq_some_iff.mp h
    exact ⟨hn.1, hn.2, command, hc, hk.symm⟩

/-- The key of a prompt, from what the run read. -/
theorem decideEarly_key {w : World} {p : Prompt} {key : RememberKey}
    (hp : decideEarly w = .inr p) (hk : p.key = some key) :
    readProcU32 w.host.fs ProcDir.loginuid w.ppid ≠ 4294967295 ∧
      readProcU32 w.host.fs ProcDir.sessionid w.ppid ≠ 4294967295 ∧
      ∃ command, (ProcessInfo.forPid w.host.fs w.host.pid).rememberCommand = some command ∧
        key =
          { loginuid := readProcU32 w.host.fs ProcDir.loginuid w.ppid
            sessionid := readProcU32 w.host.fs ProcDir.sessionid w.ppid
            service := pamService w
            command := rememberKeyCommand command p.cfg.rememberScope } := by
  rw [(decideEarly_inr hp).2.2.1] at hk
  exact rememberKey_eq_some hk

/-- The service of a prompt's key has no NUL. -/
theorem nul_not_mem_service {w : World} {p : Prompt} {key : RememberKey}
    (hp : decideEarly w = .inr p) (hk : p.key = some key) : '\x00' ∉ key.service := by
  obtain ⟨-, -, command, -, rfl⟩ := decideEarly_key hp hk
  exact nul_not_mem_pamService w

/-! ### Every call -/

/-- What holds of the query and of every call behind the prompt holds of every call of a run. -/
theorem smAuthenticate_everyCall {P : Call → Prop} {w : World}
    (hquery : ∀ uid, P (.queryAgent uid))
    (hprompt : ∀ p, decideEarly w = .inr p → (rememberStage p).EveryCall P) :
    (smAuthenticate w).EveryCall P := by
  have hafter : (afterBypass w).EveryCall P := by
    unfold afterBypass
    cases hp : decideEarly w with
    | inl ret => trivial
    | inr p => exact hprompt p hp
  rw [smAuthenticate_eq]
  split
  · exact hafter
  · refine ⟨hquery _, fun approved ↦ ?_⟩
    unfold queriedStage
    split
    · trivial
    · exact hafter

/-- The only helper behind a prompt is the one of its request. -/
theorem rememberStage_everyCall {P : Call → Prop} {p : Prompt}
    (hround : ∀ sock req, P (.roundtrip sock req))
    (hhelper : P (.runHelper (p.helper p.rememberSecs))) : (rememberStage p).EveryCall P := by
  have hdialog : (dialogStage p).EveryCall P := by
    rw [dialogStage_eq]
    refine ⟨hhelper, fun v ↦ ?_⟩
    unfold recordStage
    split
    · split
      · exact ⟨hround _ _, fun _ ↦ trivial⟩
      · trivial
    · trivial
  cases hk : p.key with
  | none =>
    rw [rememberStage_skip (Or.inl hk)]
    exact hdialog
  | some key =>
    by_cases hs : 0 < p.cfg.rememberSeconds
    · rw [rememberStage_check hk hs]
      refine ⟨hround _ _, fun resp ↦ ?_⟩
      unfold checkedStage
      split
      · trivial
      · exact hdialog
    · rw [rememberStage_skip (Or.inr hs)]
      exact hdialog

end Sentinel.Pam
