import Sentinel.Base.Logged
import Sentinel.Pam.Authenticate
import Sentinel.System.AuditLog

/-!
# What the log tells of a run of the module

Crate `pam-sentinel`, `crates/pam-sentinel/src/lib.rs` and `agent_bypass.rs` with their
`event=auth.*` records. Without its records a run makes the same calls as before; with them it tells
a reader of the log how it ended.
-/

namespace Sentinel.System.AuditTrail

open Sentinel.Base Sentinel.Base.Logfmt Sentinel.Base.Program.Logged Sentinel.Shared Sentinel.Pam
open Sentinel.Base.Program (Logged)

/-! ### Reading the log -/

/-- The value of a field in a record of the log. -/
def valueOf (name : String) (line : Str) : Option Str :=
  (readRecord line).bind fun fs ↦ (fs.find? fun f ↦ f.1.text == name.toList).map Prod.snd

/-- A record that reports a verdict; the notice of a missing display reports none. -/
def reportsVerdict (line : Str) : Bool := valueOf "event" line != some "auth.headless".toList

/-- The records that report verdicts. -/
def verdictLines (es : List AuditEvent) : List Str := (es.map AuditEvent.line).filter reportsVerdict

/-- What a reader finds in a record stands among its fields. -/
theorem valueOf_line (name : String) (e : AuditEvent) :
    valueOf name e.line =
      ((e.allFields.map pair).find? fun f ↦ f.1.text == name.toList).map Prod.snd := by
  rw [valueOf, e.readRecord_line]
  rfl

/-! ### `sm_authenticate` with its records -/

/-- What a run reads for its records only: `[general].log_attempts`, the session of the parent
process, how long the helper took and the text of its error. -/
structure Measured where
  logAttempts : Bool
  session : Option SessionInfo
  latencyMs : Nat
  helperError : Str

/-- A run of the module with its records. -/
abbrev Audited : Type → Type := Logged AuditEvent Call Answer

/-- `check_agent_bypass`, `agent_bypass.rs:38-60`. -/
def checkAgentBypass (w : World) : Audited (Option PamResultCode) :=
  match (bypassUser w).bind w.passwdByName with
  | none => pure none
  | some uid => do
    let approved ← ask (Call.queryAgent uid)
    if approved = some true then do
      log (.bypass uid)
      return some .success
    else return none

variable (m : Measured)

/-- `handle_headless`, `lib.rs:223-272`. -/
def handleHeadless (cfg : ServiceConfig) (service user : Str) : Audited PamResultCode := do
  logIf m.logAttempts (.headless user service m.session)
  match cfg.headlessAction with
  | .allow => do
    logIf m.logAttempts (.headlessAllow user service m.session)
    return .success
  | .deny => do
    logIf m.logAttempts (.headlessDeny user service m.session)
    return .authErr
  | .password => return .ignore

/-- `check_policy`, `lib.rs:286-315`. -/
def checkPolicy (cfg : ServiceConfig) (service user : Str) (process : ProcessInfo)
    (requestingUid : UInt32) : Audited (Option PamResultCode) :=
  match cfg.policy.decide process.policyExe none with
  | .allow => do
    logIf m.logAttempts (.policy true user service process requestingUid m.session)
    return some .success
  | .deny => do
    logIf m.logAttempts (.policy false user service process requestingUid m.session)
    return some .authErr
  | .ask => return none

/-- The record of a dialog, `lib.rs:353-383`. -/
def dialogEvent (service user : Str) (process : ProcessInfo) (requestingUid : UInt32) :
    Option Verdict → AuditEvent
  | some v => .dialog v.outcome user service process requestingUid m.latencyMs m.session
  | none => .dialogError user service m.helperError m.latencyMs m.session

/-- `spawn_dialog`, `lib.rs:317-390`. -/
def spawnDialog (service user : Str) (process : ProcessInfo) (requestingUid : UInt32)
    (req : HelperRequest) : Audited (PamResultCode × Bool) := do
  let result : Option Verdict ← ask (Call.runHelper req)
  logIf m.logAttempts (dialogEvent m service user process requestingUid result)
  return match result with
    | some v => if v.outcome.isAllow then (.success, v.remember) else (.authErr, false)
    | none => (.authErr, false)

/-- The dialog and the recording of an opted-in grant, `lib.rs:155-180`. -/
def dialogStage (service user : Str) (process : ProcessInfo) (requestingUid : UInt32)
    (p : Prompt) : Audited PamReturn := do
  let (rc, remember) ←
    spawnDialog m service user process requestingUid (p.helper p.rememberSecs)
  if remember && 0 < p.rememberSecs then
    if let some key := p.key then
      let _ ← ask (Call.roundtrip (sockPath p.env) (.recordRemember key))
  return ⟨rc, .dialog⟩

/-- The remember window in front of the dialog, `lib.rs:134-149`. -/
def rememberStage (service user : Str) (process : ProcessInfo) (requestingUid : UInt32)
    (p : Prompt) : Audited PamReturn :=
  match p.key with
  | some key =>
    if 0 < p.cfg.rememberSeconds then do
      let resp ← ask (Call.roundtrip (sockPath p.env) (.checkRemember ⟨key, p.cfg.rememberSeconds⟩))
      if resp = some (.remember true) then do
        logIf m.logAttempts (.remember user service process requestingUid)
        return ⟨.success, .remember⟩
      else dialogStage m service user process requestingUid p
    else dialogStage m service user process requestingUid p
  | none => dialogStage m service user process requestingUid p

/-- The run behind the agent bypass, `lib.rs:67-180`. -/
def afterBypass (w : World) : Audited PamReturn :=
  let service := pamService w
  let cfg := w.document.forService service
  if !cfg.enabled then pure ⟨.ignore, .disabled⟩
  else
    let requestingUid := callerUid w.host.fs w.ownUid w.ppid
    let user := resolveUser w requestingUid
    if !detectForUser w requestingUid then do
      let rc ← handleHeadless m cfg service user
      return ⟨rc, .headless⟩
    else do
      let process := ProcessInfo.forPid w.host.fs w.host.pid
      match ← checkPolicy m cfg service user process requestingUid with
      | some rc => return ⟨rc, .policy⟩
      | none => rememberStage m service user process requestingUid (promptOf w)

/-- `PamSentinel::sm_authenticate`, `lib.rs:59-181`. -/
def smAuthenticate (w : World) : Audited PamReturn := do
  match ← checkAgentBypass w with
  | some rc => return ⟨rc, .bypass⟩
  | none => afterBypass m w

/-! ### The records change nothing -/

private theorem erase_checkAgentBypass (w : World) :
    erase (checkAgentBypass w) = Pam.checkAgentBypass w := by
  unfold checkAgentBypass Pam.checkAgentBypass
  cases (bypassUser w).bind w.passwdByName with
  | none => rfl
  | some uid =>
    refine congrArg (Program.call _) (funext fun approved ↦ ?_)
    match (approved : Option Bool) with
    | none => rfl
    | some true => rfl
    | some false => rfl

private theorem erase_handleHeadless (cfg : ServiceConfig) (service user : Str) :
    erase (handleHeadless m cfg service user) = pure (Pam.handleHeadless cfg) := by
  unfold handleHeadless Pam.handleHeadless
  rw [erase_bind, erase_logIf]
  cases cfg.headlessAction with
  | allow =>
    change erase (logIf _ _ >>= _) = _
    rw [erase_bind, erase_logIf]
    rfl
  | deny =>
    change erase (logIf _ _ >>= _) = _
    rw [erase_bind, erase_logIf]
    rfl
  | password => rfl

private theorem erase_checkPolicy (cfg : ServiceConfig) (service user : Str)
    (process : ProcessInfo) (uid : UInt32) :
    erase (checkPolicy m cfg service user process uid) = pure (Pam.checkPolicy cfg process) := by
  unfold checkPolicy Pam.checkPolicy
  cases cfg.policy.decide process.policyExe none with
  | allow =>
    rw [erase_bind, erase_logIf]
    rfl
  | deny =>
    rw [erase_bind, erase_logIf]
    rfl
  | ask => rfl

private theorem erase_dialogStage (service user : Str) (process : ProcessInfo) (uid : UInt32)
    (p : Prompt) : erase (dialogStage m service user process uid p) = Pam.dialogStage p := by
  unfold dialogStage spawnDialog
  rw [dialogStage_eq]
  refine congrArg (Program.call _) (funext fun v ↦ ?_)
  unfold recordStage logIf
  generalize p.key = key, decide (0 < p.rememberSecs) = window, m.logAttempts = logging
  cases v with
  | none => cases key <;> cases logging <;> rfl
  | some v =>
    obtain ⟨outcome, remember⟩ := v
    cases key <;> cases outcome <;> cases remember <;> cases window <;> cases logging <;> rfl

private theorem erase_rememberStage (service user : Str) (process : ProcessInfo) (uid : UInt32)
    (p : Prompt) : erase (rememberStage m service user process uid p) = Pam.rememberStage p := by
  unfold rememberStage
  cases hk : p.key with
  | none => rw [erase_dialogStage, rememberStage_skip (Or.inl hk)]
  | some key =>
    by_cases hs : 0 < p.cfg.rememberSeconds
    · dsimp only
      rw [if_pos hs, rememberStage_check hk hs]
      refine congrArg (Program.call _) (funext fun resp ↦ ?_)
      unfold checkedStage
      by_cases hr : resp = some (.remember true)
      · rw [if_pos hr]
        change erase (if _ then _ else _) = _
        rw [if_pos hr, erase_bind, erase_logIf]
        rfl
      · rw [if_neg hr]
        change erase (if _ then _ else _) = _
        rw [if_neg hr, erase_dialogStage]
    · dsimp only
      rw [if_neg hs, erase_dialogStage, rememberStage_skip (Or.inr hs)]

private theorem erase_afterBypass (w : World) : erase (afterBypass m w) = Pam.afterBypass w := by
  unfold afterBypass Pam.afterBypass decideEarly
  dsimp only
  cases (w.document.forService (pamService w)).enabled with
  | false => rfl
  | true =>
    cases detectForUser w (callerUid w.host.fs w.ownUid w.ppid) with
    | false =>
      change erase (handleHeadless m _ _ _ >>= _) = _
      rw [erase_bind, erase_handleHeadless]
      rfl
    | true =>
      change erase (checkPolicy m _ _ _ _ _ >>= _) = _
      rw [erase_bind, erase_checkPolicy]
      cases Pam.checkPolicy (w.document.forService (pamService w))
          (ProcessInfo.forPid w.host.fs w.host.pid) with
      | some rc => rfl
      | none => exact erase_rememberStage m _ _ _ _ _

/-- Without its records a run is the run. -/
theorem erase_smAuthenticate (w : World) : erase (smAuthenticate m w) = Pam.smAuthenticate w := by
  unfold smAuthenticate Pam.smAuthenticate
  rw [erase_bind, erase_checkAgentBypass]
  congr 1
  funext rc
  cases rc with
  | none => exact erase_afterBypass m w
  | some rc => rfl

/-! ### What the records tell -/

/-- The source of a result, as the records name it; a disabled service has none. -/
def sourceText : Source → Str
  | .bypass => "bypass".toList
  | .disabled => []
  | .headless => "headless".toList
  | .policy => "policy".toList
  | .remember => "remember".toList
  | .dialog => "dialog".toList

/-- The events that stand for a result code. -/
def eventTexts : PamResultCode → List Str
  | .success => ["auth.allow".toList]
  | .authErr => ["auth.deny".toList, "auth.timeout".toList, "auth.error".toList]
  | .ignore => []

/-- The records tell a reader of the log how a run ended: an ignored request has no verdict, every
other one has exactly one, with the event of its code, its source and, behind the bypass, the
service and the user. -/
def Reports (w : World) (ret : PamReturn) (es : List AuditEvent) : Prop :=
  match ret.code with
  | .ignore => verdictLines es = []
  | code =>
    ∃ line, verdictLines es = [line] ∧
      (∃ event ∈ eventTexts code, valueOf "event" line = some event) ∧
      valueOf "source" line = some (sourceText ret.source) ∧
      (ret.source ≠ .bypass →
        valueOf "service" line = some (pamService w) ∧
          valueOf "user" line =
            some (resolveUser w (callerUid w.host.fs w.ownUid w.ppid)))

/-- A run reports its result when it logs its attempts, and in any case when it was let in by
the agent; it writes nothing otherwise. -/
def Audits (w : World) (tr : List (Call ⊕ AuditEvent)) (ret : PamReturn) : Prop :=
  if m.logAttempts = true ∨ ret.source = .bypass then Reports w ret (records tr)
  else records tr = []

private theorem verdictLines_singleton {e : AuditEvent} {event : Str}
    (he : valueOf "event" e.line = some event) (hn : event ≠ "auth.headless".toList) :
    verdictLines [e] = [e.line] := by
  have hr : reportsVerdict e.line = true := by
    rw [reportsVerdict, he]
    simpa using hn
  rw [verdictLines, List.map_singleton, List.filter_cons_of_pos hr, List.filter_nil]

/-- The notice of a missing display reports no verdict. -/
private theorem verdictLines_headless (user service : Str) (session : Option SessionInfo)
    (es : List AuditEvent) :
    verdictLines (.headless user service session :: es) = verdictLines es := by
  have he : valueOf "event" (AuditEvent.headless user service session).line =
      some "auth.headless".toList := by
    rw [valueOf_line]
    rfl
  have hr : reportsVerdict (AuditEvent.headless user service session).line = false := by
    rw [reportsVerdict, he]
    exact bne_self_eq_false _
  rw [verdictLines, List.map_cons, List.filter_cons_of_neg (by simp [hr])]
  rfl

section Reports

variable {m : Measured} {w : World} {ret : PamReturn} {e : AuditEvent} {t : Str}

private theorem reports_singleton (hm : t ∈ eventTexts ret.code)
    (he : valueOf "event" e.line = some t)
    (hs : valueOf "source" e.line = some (sourceText ret.source))
    (hw : ret.source ≠ .bypass →
      valueOf "service" e.line = some (pamService w) ∧
        valueOf "user" e.line = some (resolveUser w (callerUid w.host.fs w.ownUid w.ppid))) :
    Reports w ret [e] := by
  obtain ⟨code, source⟩ := ret
  have hn : t ≠ "auth.headless".toList := by
    rintro rfl
    cases code <;> simp [eventTexts] at hm
  have hlines := verdictLines_singleton he hn
  cases code with
  | ignore => cases hm
  | success => exact ⟨e.line, hlines, ⟨t, hm, he⟩, hs, hw⟩
  | authErr => exact ⟨e.line, hlines, ⟨t, hm, he⟩, hs, hw⟩

private theorem reports_headless {user service : Str} {session : Option SessionInfo}
    {es : List AuditEvent} (h : Reports w ret es) :
    Reports w ret (.headless user service session :: es) := by
  unfold Reports at h ⊢
  rwa [verdictLines_headless]

private theorem audits_call (c : Call) (tr : List (Call ⊕ AuditEvent)) :
    Audits m w (tr ++ [.inl c]) ret ↔ Audits m w tr ret := by
  rw [Audits, Audits, records_append, records_inl, records_nil, List.append_nil]

private theorem audits_logged {tr : List (Call ⊕ AuditEvent)} (hb : ret.source ≠ .bypass)
    (hon : m.logAttempts = true → Reports w ret (records tr))
    (hoff : m.logAttempts = false → records tr = []) : Audits m w tr ret := by
  unfold Audits
  cases hl : m.logAttempts with
  | false => simpa [hb] using hoff hl
  | true => simpa using hon hl

private theorem audits_logIf {tr : List (Call ⊕ AuditEvent)} (htr : records tr = [])
    (hb : ret.source ≠ .bypass) (h : Reports w ret [e]) :
    Audits m w (if m.logAttempts = true then tr ++ [.inr e] else tr) ret := by
  apply audits_logged hb
  · intro hl
    simpa [hl, htr] using h
  · intro hl
    simpa [hl] using htr

end Reports

/-- The user a run names. -/
private abbrev userOf (w : World) : Str := resolveUser w (callerUid w.host.fs w.ownUid w.ppid)

private theorem ends_handleHeadless (w : World) (cfg : ServiceConfig)
    {tr : List (Call ⊕ AuditEvent)} (htr : records tr = []) :
    (handleHeadless m cfg (pamService w) (userOf w)).Ends
      (fun tr rc ↦ Audits m w tr ⟨rc, .headless⟩) tr := by
  unfold handleHeadless
  rw [Program.ends_bind, ends_logIf]
  cases cfg.headlessAction with
  | allow =>
    rw [Program.ends_bind, ends_logIf, Program.ends_pure]
    have hr : Reports w ⟨.success, .headless⟩
        [.headlessAllow (userOf w) (pamService w) m.session] :=
      reports_singleton (t := "auth.allow".toList) (by decide) (valueOf_line _ _)
        (valueOf_line _ _) (fun _ ↦ ⟨valueOf_line _ _, valueOf_line _ _⟩)
    apply audits_logged (by decide)
    · intro hl
      simpa [hl, htr] using reports_headless hr
    · intro hl
      simpa [hl] using htr
  | deny =>
    rw [Program.ends_bind, ends_logIf, Program.ends_pure]
    have hr : Reports w ⟨.authErr, .headless⟩
        [.headlessDeny (userOf w) (pamService w) m.session] :=
      reports_singleton (t := "auth.deny".toList) (by decide) (valueOf_line _ _)
        (valueOf_line _ _) (fun _ ↦ ⟨valueOf_line _ _, valueOf_line _ _⟩)
    apply audits_logged (by decide)
    · intro hl
      simpa [hl, htr] using reports_headless hr
    · intro hl
      simpa [hl] using htr
  | password =>
    rw [Program.ends_pure]
    apply audits_logIf htr (by decide)
    apply reports_headless
    rfl

private theorem ends_checkPolicy (w : World) (cfg : ServiceConfig) (process : ProcessInfo)
    (uid : UInt32) {tr : List (Call ⊕ AuditEvent)} (htr : records tr = []) :
    (checkPolicy m cfg (pamService w) (userOf w) process uid).Ends
      (fun tr rc ↦
        match rc with
        | some rc => Audits m w tr ⟨rc, .policy⟩
        | none => records tr = []) tr := by
  unfold checkPolicy
  cases cfg.policy.decide process.policyExe none with
  | allow =>
    rw [Program.ends_bind, ends_logIf, Program.ends_pure]
    apply audits_logIf htr (by decide)
    exact reports_singleton (t := "auth.allow".toList) (by decide) (valueOf_line _ _)
      (valueOf_line _ _) (fun _ ↦ ⟨valueOf_line _ _, valueOf_line _ _⟩)
  | deny =>
    rw [Program.ends_bind, ends_logIf, Program.ends_pure]
    apply audits_logIf htr (by decide)
    exact reports_singleton (t := "auth.deny".toList) (by decide) (valueOf_line _ _)
      (valueOf_line _ _) (fun _ ↦ ⟨valueOf_line _ _, valueOf_line _ _⟩)
  | ask => exact htr

private theorem reports_dialog (w : World) (process : ProcessInfo) (uid : UInt32)
    (v : Option Verdict) :
    Reports w ⟨dialogCode v, .dialog⟩ [dialogEvent m (pamService w) (userOf w) process uid v] := by
  cases v with
  | none =>
    exact reports_singleton (t := "auth.error".toList) (by decide) (valueOf_line _ _)
      (valueOf_line _ _) (fun _ ↦ ⟨valueOf_line _ _, valueOf_line _ _⟩)
  | some v =>
    obtain ⟨outcome, remember⟩ := v
    cases outcome with
    | allow =>
      exact reports_singleton (t := "auth.allow".toList) (List.mem_singleton_self _)
        (valueOf_line _ _) (valueOf_line _ _) (fun _ ↦ ⟨valueOf_line _ _, valueOf_line _ _⟩)
    | deny =>
      exact reports_singleton (t := "auth.deny".toList) List.mem_cons_self
        (valueOf_line _ _) (valueOf_line _ _) (fun _ ↦ ⟨valueOf_line _ _, valueOf_line _ _⟩)
    | timeout =>
      exact reports_singleton (t := "auth.timeout".toList)
        (List.mem_cons_of_mem _ List.mem_cons_self)
        (valueOf_line _ _) (valueOf_line _ _) (fun _ ↦ ⟨valueOf_line _ _, valueOf_line _ _⟩)

private theorem ends_spawnDialog (service user : Str) (process : ProcessInfo) (uid : UInt32)
    (req : HelperRequest) (P : List (Call ⊕ AuditEvent) → PamResultCode × Bool → Prop)
    (tr : List (Call ⊕ AuditEvent)) :
    (spawnDialog m service user process uid req).Ends P tr ↔
      ∀ v : Option Verdict,
        P (if m.logAttempts = true then
            tr ++ [.inl (.runHelper req)] ++ [.inr (dialogEvent m service user process uid v)]
          else tr ++ [.inl (.runHelper req)]) (dialogCode v, optedIn v) := by
  unfold spawnDialog
  rw [Program.ends_bind]
  refine forall_congr' fun (v : Option Verdict) ↦ ?_
  change Program.Ends P (logIf _ _ >>= _) _ ↔ _
  rw [Program.ends_bind, ends_logIf, Program.ends_pure]
  have hv : (match v with
      | some v => if v.outcome.isAllow = true then (PamResultCode.success, v.remember)
        else (PamResultCode.authErr, false)
      | none => (PamResultCode.authErr, false)) = (dialogCode v, optedIn v) := by
    cases v with
    | none => rfl
    | some v =>
      obtain ⟨outcome, remember⟩ := v
      cases outcome <;> rfl
  rw [hv]

private theorem ends_dialogStage (w : World) (process : ProcessInfo) (uid : UInt32) (p : Prompt)
    {tr : List (Call ⊕ AuditEvent)} (htr : records tr = []) :
    (dialogStage m (pamService w) (userOf w) process uid p).Ends (Audits m w) tr := by
  unfold dialogStage
  rw [Program.ends_bind, ends_spawnDialog]
  intro v
  have hlog : Audits m w
      (if m.logAttempts = true then
        tr ++ [.inl (.runHelper (p.helper p.rememberSecs))] ++
          [.inr (dialogEvent m (pamService w) (userOf w) process uid v)]
      else tr ++ [.inl (.runHelper (p.helper p.rememberSecs))]) ⟨dialogCode v, .dialog⟩ := by
    apply audits_logIf (by simpa using htr) (by simp)
    exact reports_dialog m w process uid v
  dsimp only
  split
  · cases p.key with
    | none => exact hlog
    | some key =>
      -- Recording a grant is a call; it writes no line.
      rw [Program.ends_bind, ends_ask]
      intro resp
      exact (audits_call _ _).mpr hlog
  · exact hlog

private theorem ends_rememberStage (w : World) (process : ProcessInfo) (uid : UInt32) (p : Prompt)
    {tr : List (Call ⊕ AuditEvent)} (htr : records tr = []) :
    (rememberStage m (pamService w) (userOf w) process uid p).Ends (Audits m w) tr := by
  unfold rememberStage
  cases p.key with
  | none => exact ends_dialogStage m w process uid p htr
  | some key =>
    dsimp only
    split
    · rw [Program.ends_bind, ends_ask]
      intro resp
      have htr' : records (tr ++ [.inl (Call.roundtrip (sockPath p.env)
          (.checkRemember ⟨key, p.cfg.rememberSeconds⟩))] : List (Call ⊕ AuditEvent)) = [] := by
        simpa using htr
      split
      · rw [Program.ends_bind, ends_logIf, Program.ends_pure]
        apply audits_logIf htr' (by decide)
        exact reports_singleton (t := "auth.allow".toList) (by decide) (valueOf_line _ _)
          (valueOf_line _ _) (fun _ ↦ ⟨valueOf_line _ _, valueOf_line _ _⟩)
      · exact ends_dialogStage m w process uid p htr'
    · exact ends_dialogStage m w process uid p htr

private theorem ends_afterBypass (w : World) {tr : List (Call ⊕ AuditEvent)}
    (htr : records tr = []) : (afterBypass m w).Ends (Audits m w) tr := by
  unfold afterBypass
  dsimp only
  split
  · apply audits_logged (by decide)
    · intro _
      rw [htr]
      rfl
    · intro _
      exact htr
  · split
    · rw [Program.ends_bind]
      exact ends_handleHeadless m w _ htr
    · rw [Program.ends_bind]
      have hp := ends_checkPolicy m w (w.document.forService (pamService w))
        (ProcessInfo.forPid w.host.fs w.host.pid) (callerUid w.host.fs w.ownUid w.ppid) htr
      apply hp.imp
      intro tr rc hrc
      cases rc with
      | some rc => exact hrc
      | none => exact ends_rememberStage m w _ _ _ hrc

/-- Without its records, the texts it hands to the log one at a time, a run of the module is the
run, and however its calls are answered, a reader of its records learns how it ended. -/
theorem smAuthenticate_audited (w : World) :
    erase (smAuthenticate m w) = Pam.smAuthenticate w ∧
      (smAuthenticate m w).Ends (Audits m w) [] := by
  refine ⟨erase_smAuthenticate m w, ?_⟩
  unfold smAuthenticate checkAgentBypass
  rw [Program.ends_bind]
  cases (bypassUser w).bind w.passwdByName with
  | none => exact ends_afterBypass m w rfl
  | some uid =>
    dsimp only
    rw [Program.ends_bind, ends_ask]
    intro approved
    split
    · rw [Program.ends_bind, ends_log, Program.ends_pure, Program.ends_pure, Audits,
        if_pos (Or.inr rfl)]
      exact reports_singleton (t := "auth.allow".toList) (by decide) (valueOf_line _ _)
        (valueOf_line _ _) (fun h ↦ absurd rfl h)
    · exact ends_afterBypass m w rfl

end Sentinel.System.AuditTrail
