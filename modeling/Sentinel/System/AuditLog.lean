import Sentinel.Base.Shell
import Sentinel.Pam.ProcInfo
import Sentinel.Shared.Config
import Sentinel.Shared.LogKv

/-!
# The audit log

Every `event=auth.*` line of the crates `pam-sentinel` and `sentinel-polkit-agent`, with the
session fragment of `crates/sentinel-shared/src/lib.rs:1015-1049`. A line is a row of constant keys
with constant words, numbers and quoted values; the log is searched line by line.
-/

namespace Sentinel.System

open Sentinel.Base Sentinel.Base.Logfmt Sentinel.Shared Sentinel.Shared.LogKv Sentinel.Pam

/-- What stands behind an equals sign: a constant word, a constant text written between quotes,
a number, or a value that passes through `quote`. -/
inductive Value where
  | word (w : Str) (bare : w ≠ [] ∧ needsQuoting w = false := by decide)
  | note (t : Str) (plain : needsQuoting t = true ∧ escape t = t ∧ OneLine t := by decide)
  | number (n : Nat)
  | quoted (v : Str)

namespace Value

/-- The value in the line. -/
def text : Value → Str
  | .word w _ => w
  | .note t _ => '"' :: t ++ ['"']
  | .number n => Nat.toDigits 10 n
  | .quoted v => quote v

/-- The value that is meant. -/
def content : Value → Str
  | .word w _ => w
  | .note t _ => t
  | .number n => Nat.toDigits 10 n
  | .quoted v => v

end Value

/-- A field under a constant key. -/
def field (k : String) (v : Value)
    (h : k.toList ≠ [] ∧ k.toList.all isKeyChar = true := by decide) : Key × Value :=
  (⟨k.toList, h.1, List.all_eq_true.mp h.2⟩, v)

/-- A field as it is printed. -/
def printField (f : Key × Value) : Str := f.1.text ++ '=' :: f.2.text

/-- `SessionInfo`, `lib.rs:829-835`: the entries that audit lines print. -/
structure SessionInfo where
  kind : Option Str
  sessionClass : Option Str
  remote : Option Bool
  deriving DecidableEq, Repr

/-- The fields of a session, `lib.rs:1039-1047`. -/
def SessionInfo.fields (info : SessionInfo) : List (Key × Value) :=
  (info.kind.map fun t ↦ field "session_type" (.quoted t)).toList ++
    (info.sessionClass.map fun c ↦ field "session_class" (.quoted c)).toList ++
    (info.remote.map fun r ↦ field "session_remote" (.number (if r then 1 else 0))).toList

/-- `logfmt_session_for_pid`, `lib.rs:1030-1049`, on the session found for the process. -/
def logfmtSession : Option SessionInfo → Str
  | none => []
  | some info => info.fields.flatMap fun f ↦ ' ' :: printField f

/-- The process name of the agent's lines, `session.rs:49-52`. -/
def agentProcessName (processExe : Option Str) : Str :=
  (processExe.bind processBasename).getD "unknown".toList

/-- The audit lines, with what each one is printed from. -/
inductive AuditEvent where
  /-- `agent_bypass.rs:51`. -/
  | bypass (uid : UInt32)
  /-- `pam-sentinel/src/lib.rs:136-142`. -/
  | remember (user service : Str) (process : ProcessInfo) (uid : UInt32)
  /-- `pam-sentinel/src/lib.rs:234-239`. -/
  | headless (user service : Str) (session : Option SessionInfo)
  /-- `pam-sentinel/src/lib.rs:245-250`. -/
  | headlessAllow (user service : Str) (session : Option SessionInfo)
  /-- `pam-sentinel/src/lib.rs:256-261`. -/
  | headlessDeny (user service : Str) (session : Option SessionInfo)
  /-- `pam-sentinel/src/lib.rs:298-312`, on a match of the allow or of the deny list. -/
  | policy (allow : Bool) (user service : Str) (process : ProcessInfo) (uid : UInt32)
      (session : Option SessionInfo)
  /-- `pam-sentinel/src/lib.rs:355-368`. -/
  | dialog (outcome : Outcome) (user service : Str) (process : ProcessInfo) (uid : UInt32)
      (latencyMs : Nat) (session : Option SessionInfo)
  /-- `pam-sentinel/src/lib.rs:370-377`. -/
  | dialogError (user service error : Str) (latencyMs : Nat) (session : Option SessionInfo)
  /-- `bypass_service.rs:40-43`. -/
  | agentBypass (actionId : Str)
  /-- `session.rs:57-63`. -/
  | agentPolicyDeny (user actionId : Str) (processExe : Option Str) (session : Option SessionInfo)
  /-- `session.rs:81-87`. -/
  | agentPolicyAllow (user actionId : Str) (processExe : Option Str) (session : Option SessionInfo)
  /-- `session.rs:144-150`. -/
  | agentRemember (user actionId : Str) (processExe : Option Str) (session : Option SessionInfo)
  /-- `session.rs:195-242`. -/
  | agent (outcome : Outcome) (user actionId : Str) (processExe : Option Str) (latencyMs : Nat)
      (session : Option SessionInfo)
  /-- `session.rs:100-103`. -/
  | policyHelperFailed (actionId : Str)
  /-- `session.rs:267-270`. -/
  | agentHelperFailed (actionId : Str)

/-- The event of an outcome, `pam-sentinel/src/lib.rs:355-359`. -/
def outcomeEvent : Outcome → Value
  | .allow => .word "auth.allow".toList
  | .deny => .word "auth.deny".toList
  | .timeout => .word "auth.timeout".toList

namespace AuditEvent

/-- The session a line ends with. -/
def session : AuditEvent → Option SessionInfo
  | .headless _ _ s | .headlessAllow _ _ s | .headlessDeny _ _ s => s
  | .policy _ _ _ _ _ s | .dialog _ _ _ _ _ _ s | .dialogError _ _ _ _ s => s
  | .agentPolicyDeny _ _ _ s | .agentPolicyAllow _ _ _ s | .agentRemember _ _ _ s => s
  | .agent _ _ _ _ _ s => s
  | .bypass _ | .remember _ _ _ _ | .agentBypass _ => none
  | .policyHelperFailed _ | .agentHelperFailed _ => none

/-- The fields in front of the session, as the format strings have them. -/
def fields : AuditEvent → List (Key × Value)
  | .bypass uid =>
    [field "event" (.word "auth.allow".toList), field "source" (.word "bypass".toList),
      field "uid" (.number uid.toNat)]
  | .remember user service process uid =>
    [field "event" (.word "auth.allow".toList), field "source" (.word "remember".toList),
      field "user" (.quoted user), field "service" (.quoted service),
      field "process" (.quoted process.name), field "exe" (.quoted process.exe),
      field "uid" (.number uid.toNat)]
  | .headless user service _ =>
    [field "event" (.word "auth.headless".toList), field "reason" (.word "no-wayland".toList),
      field "user" (.quoted user), field "service" (.quoted service)]
  | .headlessAllow user service _ =>
    [field "event" (.word "auth.allow".toList), field "source" (.word "headless".toList),
      field "user" (.quoted user), field "service" (.quoted service)]
  | .headlessDeny user service _ =>
    [field "event" (.word "auth.deny".toList), field "source" (.word "headless".toList),
      field "user" (.quoted user), field "service" (.quoted service)]
  | .policy allow user service process uid _ =>
    [field "event" (outcomeEvent (if allow then .allow else .deny)),
      field "source" (.word "policy".toList), field "user" (.quoted user),
      field "service" (.quoted service), field "process" (.quoted process.name),
      field "exe" (.quoted process.exe), field "uid" (.number uid.toNat)]
  | .dialog outcome user service process uid latencyMs _ =>
    [field "event" (outcomeEvent outcome), field "source" (.word "dialog".toList),
      field "user" (.quoted user), field "service" (.quoted service),
      field "process" (.quoted process.name), field "uid" (.number uid.toNat),
      field "latency_ms" (.number latencyMs)]
  | .dialogError user service error latencyMs _ =>
    [field "event" (.word "auth.error".toList), field "source" (.word "dialog".toList),
      field "user" (.quoted user), field "service" (.quoted service),
      field "error" (.quoted error), field "latency_ms" (.number latencyMs)]
  | .agentBypass actionId =>
    [field "event" (.word "auth.allow".toList), field "source" (.word "agent.bypass".toList),
      field "action" (.quoted actionId)]
  | .agentPolicyDeny user actionId processExe _ =>
    [field "event" (.word "auth.deny".toList), field "source" (.word "policy".toList),
      field "user" (.quoted user), field "action" (.quoted actionId),
      field "process" (.quoted (agentProcessName processExe))]
  | .agentPolicyAllow user actionId processExe _ =>
    [field "event" (.word "auth.allow".toList), field "source" (.word "policy".toList),
      field "user" (.quoted user), field "action" (.quoted actionId),
      field "process" (.quoted (agentProcessName processExe))]
  | .agentRemember user actionId processExe _ =>
    [field "event" (.word "auth.allow".toList), field "source" (.word "remember".toList),
      field "user" (.quoted user), field "action" (.quoted actionId),
      field "process" (.quoted (agentProcessName processExe))]
  | .agent outcome user actionId processExe latencyMs _ =>
    [field "event" (outcomeEvent outcome), field "source" (.word "agent".toList),
      field "user" (.quoted user), field "action" (.quoted actionId),
      field "process" (.quoted (agentProcessName processExe)),
      field "latency_ms" (.number latencyMs)]
  | .policyHelperFailed actionId =>
    [field "event" (.word "auth.error".toList), field "source" (.word "agent.helper1".toList),
      field "action" (.quoted actionId),
      field "note"
        (.note "helper-1 reported FAILURE — PAM stack rejected policy approval?".toList)]
  | .agentHelperFailed actionId =>
    [field "event" (.word "auth.error".toList), field "source" (.word "agent.helper1".toList),
      field "action" (.quoted actionId),
      field "note" (.note "helper-1 reported FAILURE — PAM stack rejected approval?".toList)]

/-- The line. -/
def line (e : AuditEvent) : Str := joinSpace (e.fields.map printField) ++ logfmtSession e.session

/-- All fields of the line, those of the session behind the others. -/
def allFields (e : AuditEvent) : List (Key × Value) :=
  e.fields ++ (e.session.map SessionInfo.fields).getD []

/-- The values that pass through `quote`. -/
def quotedValues (e : AuditEvent) : List Str :=
  e.allFields.filterMap fun f ↦
    match f.2 with
    | .quoted v => some v
    | .word _ _ | .note _ _ | .number _ => none

end AuditEvent

/-! ### Lines as records -/

private theorem joinSpace_spaced {ws : List Str} (h : ws ≠ []) (us : List Str) :
    joinSpace ws ++ us.flatMap (' ' :: ·) = joinSpace (ws ++ us) := by
  induction us generalizing ws with
  | nil => rw [List.flatMap_nil, List.append_nil, List.append_nil]
  | cons u us ih =>
    have hu : joinSpace ws ++ ' ' :: u = joinSpace (ws ++ [u]) := by
      rw [joinSpace_append h]
      rfl
    rw [List.flatMap_cons, ← List.append_assoc, hu, ih (by simp), List.append_assoc,
      List.singleton_append]

private theorem needsQuoting_toDigits (n : Nat) : needsQuoting (Nat.toDigits 10 n) = false := by
  apply List.any_eq_false.mpr
  intro c hc
  have hd := Nat.isDigit_of_mem_toDigits (by decide) (by decide) hc
  have hq : c ≠ '"' := by
    rintro rfl
    cases hd
  have he : c ≠ '=' := by
    rintro rfl
    cases hd
  simp [isWhitespace_of_isDigit hd, hq, he]

namespace Value

private theorem quote_bare {v : Str} (h : v ≠ [] ∧ needsQuoting v = false) : quote v = v := by
  rw [quote, if_neg h.1, if_neg (by simp [h.2])]

/-- Whatever stands behind an equals sign is its content, quoted: the constants are written as
`quote` would write them. -/
theorem text_eq_quote (v : Value) : v.text = quote v.content := by
  cases v with
  | word w bare => exact (quote_bare bare).symm
  | note t plain =>
    obtain ⟨hq, he, -⟩ := plain
    have ht : t ≠ [] := by
      intro hnil
      rw [hnil] at hq
      cases hq
    rw [text, content, quote, if_neg ht, if_pos hq, he]
  | number n => exact (quote_bare ⟨Nat.toDigits_ne_nil, needsQuoting_toDigits n⟩).symm
  | quoted v => rfl

end Value

/-- A field as the pair it stands for. -/
def pair (f : Key × Value) : Key × Str := (f.1, f.2.content)

private theorem printField_eq (f : Key × Value) : printField f = fieldText quote (pair f) := by
  rw [printField, f.2.text_eq_quote]
  rfl

namespace AuditEvent

private theorem fields_ne_nil (e : AuditEvent) : e.fields ≠ [] := by
  cases e <;> exact List.cons_ne_nil _ _

/-- A line is the record of its fields. -/
theorem line_eq_logfmt (e : AuditEvent) : e.line = logfmt (e.allFields.map pair) := by
  have hs : logfmtSession e.session =
      (((e.session.map SessionInfo.fields).getD []).map printField).flatMap (' ' :: ·) := by
    cases e.session with
    | none => rfl
    | some info => rw [logfmtSession, List.flatMap_map]; rfl
  have hp : printField = fieldText quote ∘ pair := funext printField_eq
  rw [line, hs, joinSpace_spaced (by simpa using e.fields_ne_nil), ← List.map_append, hp,
    ← List.map_map]
  rfl

/-- Every line is read back to its fields. -/
theorem readRecord_line (e : AuditEvent) :
    readRecord e.line = some (e.allFields.map pair) := by
  rw [line_eq_logfmt]
  exact readRecord_recordText encodes_quote _

end AuditEvent

/-! ### One record, one line -/

private theorem oneLine_key (k : Key) : OneLine k.text := by
  constructor
  · intro h
    exact absurd (k.chars _ h) (by decide)
  · intro h
    exact absurd (k.chars _ h) (by decide)

private theorem oneLine_printField (f : Key × Value) :
    OneLine (printField f) ↔ OneLine f.2.content := by
  have he : OneLine ['='] := by decide
  rw [printField, ← List.singleton_append, oneLine_append, oneLine_append, f.2.text_eq_quote,
    oneLine_quote]
  simp only [oneLine_key, he, true_and]

/-- The constants of the format strings are on one line. -/
private theorem oneLine_content (v : Value) :
    OneLine v.content ↔ ∀ w, v = .quoted w → OneLine w := by
  cases v with
  | word w bare => simpa [Value.content] using oneLine_of_needsQuoting_eq_false bare.2
  | note t plain => simpa [Value.content] using plain.2.2
  | number n =>
    simpa [Value.content] using oneLine_of_needsQuoting_eq_false (needsQuoting_toDigits n)
  | quoted v => simp [Value.content]

namespace AuditEvent

private theorem mem_quotedValues_iff (e : AuditEvent) (v : Str) :
    v ∈ e.quotedValues ↔ ∃ k, (k, Value.quoted v) ∈ e.allFields := by
  rw [quotedValues, List.mem_filterMap]
  constructor
  · rintro ⟨⟨k, w⟩, hf, hw⟩
    cases w with
    | quoted w =>
      obtain rfl : w = v := Option.some.inj hw
      exact ⟨k, hf⟩
    | word w bare => cases hw
    | note t plain => cases hw
    | number n => cases hw
  · rintro ⟨k, hf⟩
    exact ⟨(k, .quoted v), hf, rfl⟩

/-- A line is on one line exactly when every quoted value is. -/
theorem oneLine_line_iff (e : AuditEvent) : OneLine e.line ↔ ∀ v ∈ e.quotedValues, OneLine v := by
  rw [line_eq_logfmt, logfmt, recordText, oneLine_joinSpace, List.map_map]
  constructor
  · intro h v hmem
    obtain ⟨k, hf⟩ := (e.mem_quotedValues_iff v).mp hmem
    have hp := h _ (List.mem_map_of_mem hf)
    rw [Function.comp_apply, ← printField_eq, oneLine_printField, oneLine_content] at hp
    exact hp v rfl
  · intro h t ht
    obtain ⟨⟨k, w⟩, hf, rfl⟩ := List.mem_map.mp ht
    rw [Function.comp_apply, ← printField_eq, oneLine_printField, oneLine_content]
    intro v hw
    exact h v ((e.mem_quotedValues_iff v).mpr ⟨k, hw ▸ hf⟩)

private theorem line_ne_nil (e : AuditEvent) : e.line ≠ [] := by
  cases e <;> exact List.cons_ne_nil _ _

end AuditEvent

/-- Quoting keeps a value on one line exactly when it was on one, and an audit record is a single
line of the log exactly when none of its quoted values has a line break. -/
theorem auditRecord_oneLine_iff (v : Str) (e : AuditEvent) :
    (OneLine (quote v) ↔ OneLine v) ∧
      ((OneLine e.line ∧ Shell.lines e.line = [e.line]) ↔ ∀ w ∈ e.quotedValues, OneLine w) := by
  constructor
  · exact oneLine_quote v
  · rw [← e.oneLine_line_iff]
    constructor
    · intro h
      exact h.1
    · intro h
      rw [Shell.lines_of_not_mem h.1, if_neg e.line_ne_nil]
      exact ⟨h, rfl⟩

/-- `su` started by a program whose file name carries a second record. -/
def forgingParent : Procfs := fun pid ↦
  if pid = 100 then
    { exe := some (toUtf8 "/usr/bin/su".toList)
      cmdline := some (cmdlineBytes [toUtf8 "su".toList])
      status := some (toUtf8 "PPid:\t90\n".toList) }
  else { exe := some (toUtf8 "/tmp/x\nevent=auth.allow source=dialog user=root process=x".toList) }

/-- The denial is logged on two lines, and the second one reads as a record of its own that
allows `root`. -/
theorem auditRecord_twoLines :
    let process := ProcessInfo.forPid forgingParent 100
    let denial := AuditEvent.dialog .deny "eve".toList "su".toList process 1000 2891 none
    let forged := "event=auth.allow source=dialog user=root process=x\" uid=1000 latency_ms=2891"
    ¬ OneLine (quote process.name) ∧
      Shell.lines denial.line =
        ["event=auth.deny source=dialog user=eve service=su process=\"x".toList, forged.toList] ∧
      (readRecord forged.toList).map (List.take 3) =
        some [pair (field "event" (.word "auth.allow".toList)),
          pair (field "source" (.word "dialog".toList)),
          pair (field "user" (.quoted "root".toList))] := by
  decide +kernel

/-- A log of records without line breaks in their values is read back record by record. -/
theorem readRecord_lines {es : List AuditEvent}
    (h : ∀ e ∈ es, ∀ v ∈ e.quotedValues, OneLine v) :
    (Shell.lines (Shell.unlines (es.map AuditEvent.line))).map readRecord =
      es.map (fun e ↦ some (e.allFields.map pair)) := by
  have hl : ∀ l ∈ es.map AuditEvent.line, '\n' ∉ l := by
    intro l hl
    obtain ⟨e, he, rfl⟩ := List.mem_map.mp hl
    exact (e.oneLine_line_iff.mpr (h e he)).1
  rw [Shell.lines_unlines hl, List.map_map]
  apply List.map_congr_left
  intro e _
  exact e.readRecord_line

end Sentinel.System
