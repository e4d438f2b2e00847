import Sentinel.Base.Window
import Sentinel.Shared.Argv
import Sentinel.Shared.Config

/-!
# What a polkit request is decided on

Crate `sentinel-polkit-agent`, the synchronous part of `begin_authentication`
(`crates/sentinel-polkit-agent/src/agent.rs:75-163`), `identity.rs` and the remember
key of `session.rs:110-127`, with the cache of `remember.rs` that stores such keys.
-/

namespace Sentinel.Agent

open Sentinel.Base Sentinel.Shared

/-- `Identity`, `identity.rs:9`: a detail is present or not, and converts to a `u32` or not. -/
structure Identity where
  kind : Str
  details : Str → Option (Option UInt32)

/-- `identity::pick`, `identity.rs:31-47`: the own uid, when it is offered. -/
def pick (identities : List Identity) (ownUid : UInt32) : Option UInt32 :=
  identities.findSome? (fun identity ↦
    if identity.kind = "unix-user".toList then
      match identity.details "uid".toList with
      | some (some uid) => if uid = ownUid then some uid else none
      | _ => none
    else none)

/-- A `BeginAuthentication` call, without the texts the agent ignores. D-Bus strings have no
NUL. -/
structure BeginRequest where
  actionId : Str
  details : Str → Option Str
  cookie : Str
  identities : List Identity
  nulFree : '\x00' ∉ actionId

/-- What the agent reads beside the request: passwd, `/proc` and the configuration. -/
structure Surroundings where
  passwdByUid : UInt32 → Option Str
  fs : Procfs
  document : Document

/-- `AuthInputs`, `session.rs:19-32`. -/
structure AuthInputs where
  actionId : Str
  cookie : Str
  username : Str
  cfg : ServiceConfig
  processExe : Option Str
  processCmdline : Option Str
  processPid : Option Int
  processCwd : Option Str
  requestingUser : Option Str
  nulFree : '\x00' ∉ actionId

/-- The refusals of `begin_authentication`, `agent.rs:77` and `agent.rs:83`. -/
inductive BeginError where
  | noAcceptableIdentities
  | uidUnknown (uid : UInt32)
  deriving DecidableEq, Repr

/-- The texts of the refusals. -/
def BeginError.text : BeginError → String
  | .noAcceptableIdentities => "no acceptable identities"
  | .uidUnknown uid => "uid " ++ toString uid.toNat ++ " unknown"

/-- A pid from the request's details. -/
def detailPid (req : BeginRequest) (name : String) : Option Int :=
  (req.details name.toList).bind parseI32

/-- A non-empty detail. -/
def detailText (req : BeginRequest) (name : String) : Option Str :=
  (req.details name.toList).filter (fun s ↦ s ≠ [])

/-- The elevated command recovered from the caller, `agent.rs:118-134`: only when the strip
changed it and left something. -/
def recoveredFromCaller (fs : Procfs) (req : BeginRequest) : Option Str :=
  match detailText req "command_line" with
  | some _ => none
  | none =>
    ((detailPid req "polkit.caller-pid").bind (readCmdline fs)).bind (fun raw ↦
      let stripped := stripElevationPrefix raw
      if stripped ≠ raw ∧ stripped ≠ [] then some stripped else none)

/-- `process_cmdline`, `agent.rs:136`. -/
def processCmdline (fs : Procfs) (req : BeginRequest) : Option Str :=
  (detailText req "command_line").or (recoveredFromCaller fs req)

/-- `process_exe`, `agent.rs:137-147`. -/
def processExe (fs : Procfs) (req : BeginRequest) : Option Str :=
  (detailText req "program").or
    (((processCmdline fs req).bind (fun s ↦ (splitWhitespace s).head?)).or
      ((detailPid req "polkit.subject-pid").bind (readExe fs)))

/-- The inputs of the session, or the refusal; `agent.rs:75-163`. -/
def beginInputs (ownUid : UInt32) (env : Surroundings) (req : BeginRequest) :
    Except BeginError AuthInputs :=
  match pick req.identities ownUid with
  | none => .error .noAcceptableIdentities
  | some uid =>
    match env.passwdByUid uid with
    | none => .error (.uidUnknown uid)
    | some username =>
      let subjectPid := detailPid req "polkit.subject-pid"
      .ok
        { actionId := req.actionId
          cookie := req.cookie
          username
          cfg := env.document.forService polkitPamService
          processExe := processExe env.fs req
          processCmdline := processCmdline env.fs req
          processPid := subjectPid
          processCwd := subjectPid.bind (readCwd env.fs)
          requestingUser := some username
          nulFree := req.nulFree }

namespace AuthInputs

/-- The policy decision, `session.rs:43-47`. -/
def decision (i : AuthInputs) : PolicyDecision := i.cfg.policy.decide i.processExe (some i.actionId)

/-- The effective remember window, `session.rs:117-122`. -/
def rememberSecs (i : AuthInputs) : UInt32 :=
  if rememberEligibleCommand (i.processCmdline.getD []) then i.cfg.rememberSeconds else 0

/-- The command a grant is keyed on, `session.rs:125-126`. -/
def rememberCommand (i : AuthInputs) : Str :=
  rememberKeyCommand (i.processCmdline.getD []) i.cfg.rememberScope

end AuthInputs

/-- The inputs come from the request. -/
theorem beginInputs_ok {ownUid : UInt32} {env : Surroundings} {req : BeginRequest}
    {i : AuthInputs} (h : beginInputs ownUid env req = .ok i) :
    i.actionId = req.actionId ∧ i.cookie = req.cookie ∧
      i.processCmdline = processCmdline env.fs req ∧
      i.cfg = env.document.forService polkitPamService := by
  unfold beginInputs at h
  split at h
  · cases h
  · split at h
    · cases h
    · cases h
      exact ⟨rfl, rfl, rfl, rfl⟩

/-- The program of the inputs comes from the request and `/proc`. -/
theorem beginInputs_processExe {ownUid : UInt32} {env : Surroundings} {req : BeginRequest}
    {i : AuthInputs} (h : beginInputs ownUid env req = .ok i) :
    i.processExe = processExe env.fs req := by
  unfold beginInputs at h
  split at h
  · cases h
  · split at h
    · cases h
    · cases h
      rfl

/-! ### The remember cache -/

/-- `MAX_REMEMBER`, `remember.rs:25`. -/
def maxRemember : Nat := fromSecs 900

/-- `RememberCache::key`, `remember.rs:39-41`. -/
def cacheKey (actionId command : Str) : Str := actionId ++ '\x00' :: command

/-- `RememberCache`, `remember.rs:27-30`. -/
def RememberCache : Type := Window.Table Str

namespace RememberCache

/-- `RememberCache::new`, `remember.rs:33-35`. -/
def new : RememberCache := Window.Table.empty

/-- `RememberCache::is_fresh`, `remember.rs:47-55`. -/
def isFresh (m : RememberCache) (actionId command : Str) (ttlSecs : UInt32) (now : Nat) : Bool :=
  Window.Table.isFresh maxRemember m (cacheKey actionId command) (fromSecs ttlSecs.toNat) now

/-- `RememberCache::remember`, `remember.rs:59-64`. -/
def remember (m : RememberCache) (actionId command : Str) (now : Nat) : RememberCache :=
  Window.Table.record maxRemember m (cacheKey actionId command) now

end RememberCache

/-- A cache key: D-Bus action ids have no NUL. -/
structure ActionKey where
  actionId : Str
  command : Str
  nulFree : '\x00' ∉ actionId
  deriving DecidableEq

/-- The string an action key is stored under. -/
def ActionKey.str (k : ActionKey) : Str := cacheKey k.actionId k.command

/-- Action keys are told apart by their strings. -/
theorem cacheKey_inj {a b c d : Str} (ha : '\x00' ∉ a) (hc : '\x00' ∉ c)
    (h : cacheKey a b = cacheKey c d) : a = c ∧ b = d := append_sep_inj ha hc h

/-- Action keys are told apart by their strings. -/
theorem ActionKey.str_injective : Function.Injective ActionKey.str := by
  rintro ⟨a, b, ha⟩ ⟨c, d, hc⟩ h
  obtain ⟨rfl, rfl⟩ := cacheKey_inj ha hc h
  rfl

end Sentinel.Agent
