import Sentinel.Agent.Session
import Sentinel.System.AuditTrail

/-!
# What the log tells of a session of the agent

Crate `sentinel-polkit-agent`, `crates/sentinel-polkit-agent/src/session.rs` with its
`event=auth.*` records and desktop notifications. Without them a session makes the same awaits as
before. An approval is never pushed before its record, wherever the session is cut off, and the
records of a whole session tell how it ended.
-/

namespace Sentinel.System.SessionTrail

open Sentinel.Base Sentinel.Base.Program.Logged Sentinel.Shared Sentinel.Agent
open Sentinel.System.AuditTrail (valueOf valueOf_line)
open Sentinel.Base.Program (Logged)

/-- What a session writes: records of the log and desktop notifications. -/
inductive Report where
  | audit (e : AuditEvent)
  | notify (summary body : Str)

/-- A session with its reports. -/
abbrev Audited : Type := Logged Report Await Await.Result (Option Bool)

/-- What a session reads for its records only: the session of the subject and how long the dialog
took. -/
structure Measured where
  session : Option SessionInfo
  latencyMs : Nat

/-- The name of the subject's program in notifications, `session.rs:49-52`. -/
def notifyText (i : AuthInputs) (before after : String) : Str :=
  before.toList ++ agentProcessName i.processExe ++ after.toList

/-- The hand-off to helper-1, `session.rs:88-105`, `session.rs:149-160` and `session.rs:253-272`; of
the three only the first and the last report its refusal. -/
def handOff (i : AuthInputs) (failure : Option AuditEvent) : Audited := do
  let _ ← ask (Await.push i.actionId)
  let success : Option Bool ← ask (Await.helper1 i.username i.cookie)
  match success with
  | none => return none
  | some true => return some true
  | some false => do
    let _ ← ask Await.drain
    match failure with
    | none => return some false
    | some e => do
      log (.audit e)
      return some false

variable (m : Measured) (i : AuthInputs)

/-- The dialog and what follows it, `session.rs:163-272`. -/
def dialogStage : Audited := do
  let verdict : Option Verdict ← ask (Await.dialog (DialogRequest.forAction i))
  match verdict with
  | none => return none
  | some v => do
    log (.audit (.agent v.outcome i.username i.actionId i.processExe m.latencyMs m.session))
    match v.outcome with
    | .deny => do
      logIf i.cfg.notifyOnDeny (.notify "Authentication denied".toList
        (notifyText i "You denied an elevation request from " "."))
      return some false
    | .timeout => do
      logIf i.cfg.notifyOnTimeout (.notify "Authentication timed out".toList
        (notifyText i "An elevation request from " " was auto-denied (no response)."))
      return some false
    | .allow =>
      if v.remember && 0 < i.rememberSecs then do
        let _ ← ask (Await.remember i.actionId i.rememberCommand)
        handOff i (some (.agentHelperFailed i.actionId))
      else handOff i (some (.agentHelperFailed i.actionId))

/-- `session::run`, `session.rs:34-273`. -/
def run : Audited :=
  match i.decision with
  | .deny => do
    log (.audit (.agentPolicyDeny i.username i.actionId i.processExe m.session))
    logIf i.cfg.notifyOnDeny (.notify "Privilege request blocked".toList
      (notifyText i "Policy denied an elevation request from " "."))
    return some false
  | .allow => do
    log (.audit (.agentPolicyAllow i.username i.actionId i.processExe m.session))
    handOff i (some (.policyHelperFailed i.actionId))
  | .ask =>
    if 0 < i.rememberSecs then do
      let fresh : Bool ← ask (Await.isFresh i.actionId i.rememberCommand i.rememberSecs)
      if fresh then do
        log (.audit (.agentRemember i.username i.actionId i.processExe m.session))
        handOff i none
      else dialogStage m i
    else dialogStage m i

/-! ### The reports change nothing -/

private theorem erase_handOff (failure : Option AuditEvent) :
    erase (handOff i failure) = Agent.handOff i := by
  refine congrArg (Program.call _) (funext fun _ ↦ congrArg (Program.call _) (funext fun r ↦ ?_))
  match (r : Option Bool) with
  | none => rfl
  | some true => rfl
  | some false =>
    refine congrArg (Program.call _) (funext fun _ ↦ ?_)
    cases failure <;> rfl

private theorem erase_dialogStage : erase (dialogStage m i) = Agent.dialogStage i := by
  refine congrArg (Program.call _) (funext fun v ↦ ?_)
  match (v : Option Verdict) with
  | none => rfl
  | some ⟨.deny, _⟩ =>
    change erase (logIf i.cfg.notifyOnDeny _ >>= _) = _
    rw [erase_bind, erase_logIf]
    rfl
  | some ⟨.timeout, _⟩ =>
    change erase (logIf i.cfg.notifyOnTimeout _ >>= _) = _
    rw [erase_bind, erase_logIf]
    rfl
  | some ⟨.allow, remember⟩ =>
    change erase (if _ then _ else _) = if _ then _ else _
    split
    · exact congrArg (Program.call _)
        (funext fun _ ↦ erase_handOff i (some (.agentHelperFailed i.actionId)))
    · exact erase_handOff i (some (.agentHelperFailed i.actionId))

/-- Without its reports a session is the session. -/
theorem erase_run : erase (run m i) = Agent.run i := by
  unfold run Agent.run
  cases i.decision with
  | deny =>
    change erase (logIf i.cfg.notifyOnDeny _ >>= _) = _
    rw [erase_bind, erase_logIf]
    rfl
  | allow => exact erase_handOff i (some (.policyHelperFailed i.actionId))
  | ask =>
    dsimp only
    split
    · refine congrArg (Program.call _) (funext fun fresh ↦ ?_)
      match (fresh : Bool) with
      | true => exact erase_handOff i none
      | false => exact erase_dialogStage m i
    · exact erase_dialogStage m i

/-! ### What the records tell -/

/-- The records of a transcript. -/
def lines (tr : List (Await ⊕ Report)) : List Str :=
  (records tr).filterMap fun
    | .audit e => some e.line
    | .notify _ _ => none

/-- The desktop notifications of a transcript. -/
def notices (tr : List (Await ⊕ Report)) : List (Str × Str) :=
  (records tr).filterMap fun
    | .audit _ => none
    | .notify summary body => some (summary, body)

/-- The records of a transcript with this event. -/
def linesWith (event : String) (tr : List (Await ⊕ Report)) : List Str :=
  (lines tr).filter fun line ↦ valueOf "event" line == some event.toList

/-- The number of approvals that were pushed. -/
def pushes (tr : List (Await ⊕ Report)) : Nat :=
  (calls tr).countP fun
    | .push _ => true
    | _ => false

/-- At a point of a session at most one approval was pushed, and none without its record. -/
def Covered (tr : List (Await ⊕ Report)) : Prop :=
  pushes tr ≤ (linesWith "auth.allow" tr).length ∧ (linesWith "auth.allow" tr).length ≤ 1

/-- The records of a session tell how it ended: an approval was pushed exactly behind an allowing
record, every record names the action, a session that ended well has no other verdict, one that was
refused without an approval has a denial or a timeout, and only such a one notifies the user. -/
structure Tells (tr : List (Await ⊕ Report)) (result : Option Bool) : Prop where
  pushed : pushes tr = (linesWith "auth.allow" tr).length
  action : ∀ line ∈ lines tr, valueOf "action" line = some i.actionId
  granted : result = some true → pushes tr = 1 ∧ (lines tr).length = 1
  refused : result = some false → pushes tr = 0 →
    (linesWith "auth.deny" tr ++ linesWith "auth.timeout" tr).length = 1 ∧ (lines tr).length = 1
  noticed : notices tr ≠ [] → result = some false ∧ pushes tr = 0

section Lines

variable {tr : List (Await ⊕ Report)} {t : String}

@[simp] private theorem lines_append (tr' : List (Await ⊕ Report)) :
    lines (tr ++ tr') = lines tr ++ lines tr' := by
  rw [lines, records_append, List.filterMap_append]
  rfl

@[simp] private theorem linesWith_append (tr' : List (Await ⊕ Report)) :
    linesWith t (tr ++ tr') = linesWith t tr ++ linesWith t tr' := by
  rw [linesWith, lines_append, List.filter_append]
  rfl

@[simp] private theorem pushes_append (tr' : List (Await ⊕ Report)) :
    pushes (tr ++ tr') = pushes tr + pushes tr' := by
  rw [pushes, calls_append, List.countP_append]
  rfl

@[simp] private theorem notices_append (tr' : List (Await ⊕ Report)) :
    notices (tr ++ tr') = notices tr ++ notices tr' := by
  rw [notices, records_append, List.filterMap_append]
  rfl

private theorem linesWith_of_lines {l : Str} (h : lines tr = [l]) :
    linesWith t tr = if valueOf "event" l == some t.toList then [l] else [] := by
  rw [linesWith, h, List.filter_singleton]
  cases valueOf "event" l == some t.toList <;> rfl

end Lines

/-- A point at which nothing was written and no approval was pushed. -/
private structure Silent (tr : List (Await ⊕ Report)) : Prop where
  unpushed : pushes tr = 0
  unwritten : lines tr = []
  unnoticed : notices tr = []

/-- A point behind the one record of a verdict, in front of every push. -/
private structure Decided (event : String) (tr : List (Await ⊕ Report)) : Prop where
  unpushed : pushes tr = 0
  written : ∃ line, lines tr = [line] ∧ valueOf "event" line = some event.toList ∧
    valueOf "action" line = some i.actionId
  unnoticed : notices tr = []

section Points

variable {i} {t : String} {tr : List (Await ⊕ Report)}

private theorem Silent.decided (h : Silent tr) {e : AuditEvent}
    (he : valueOf "event" e.line = some t.toList)
    (ha : valueOf "action" e.line = some i.actionId) :
    Decided i t (tr ++ [.inr (.audit e)]) where
  unpushed := by
    rw [pushes_append, h.unpushed]
    rfl
  written := by
    refine ⟨e.line, ?_, he, ha⟩
    rw [lines_append, h.unwritten]
    rfl
  unnoticed := by
    rw [notices_append, h.unnoticed]
    rfl

/-- An await that pushes nothing keeps the point. -/
private theorem Decided.await (h : Decided i t tr) {e : Await}
    (he : pushes [.inl e] = 0) : Decided i t (tr ++ [.inl e]) where
  unpushed := by rw [pushes_append, h.unpushed, he]
  written := by
    obtain ⟨line, hl, hline⟩ := h.written
    refine ⟨line, ?_, hline⟩
    rw [lines_append, hl]
    rfl
  unnoticed := by
    rw [notices_append, h.unnoticed]
    rfl

private theorem Decided.length_allow (h : Decided i "auth.allow" tr) :
    (linesWith "auth.allow" tr).length = 1 := by
  obtain ⟨line, hl, he, -⟩ := h.written
  rw [linesWith_of_lines hl, he, if_pos (beq_self_eq_true _)]
  rfl

private theorem Silent.covered (h : Silent tr) : Covered tr := by
  rw [Covered, h.unpushed, linesWith, h.unwritten]
  decide

private theorem Decided.covered (h : Decided i t tr) : Covered tr := by
  obtain ⟨line, hl, -⟩ := h.written
  rw [Covered, h.unpushed, linesWith_of_lines hl]
  split <;> simp

/-- A notice says nothing that the records do not say. -/
private theorem Tells.notified (h : Tells i tr (some false)) (hunpushed : pushes tr = 0)
    (summary body : Str) : Tells i (tr ++ [.inr (.notify summary body)]) (some false) := by
  have hn (other : String) :
      linesWith other (tr ++ [.inr (.notify summary body)]) = linesWith other tr := by
    rw [linesWith_append]
    exact List.append_nil _
  have hln : lines (tr ++ [.inr (.notify summary body)]) = lines tr := by
    rw [lines_append]
    exact List.append_nil _
  have hp : pushes (tr ++ [.inr (.notify summary body)]) = pushes tr := pushes_append _
  exact
    { pushed := by rw [hp, hn]; exact h.pushed
      action := by rw [hln]; exact h.action
      granted := by intro hr; cases hr
      refused := by rw [hp, hn, hn, hln]; exact h.refused
      noticed := fun _ ↦ ⟨rfl, hp.trans hunpushed⟩ }

/-- A refusal without an approval, with or without a notification. -/
private theorem Decided.tells_refused (h : Decided i t tr)
    (he : t = "auth.deny" ∨ t = "auth.timeout") (notify : Bool) (summary body : Str) :
    Tells i (if notify = true then tr ++ [.inr (.notify summary body)] else tr) (some false) := by
  obtain ⟨line, hl, hev, ha⟩ := h.written
  have hw (other : String) : linesWith other tr =
      if t.toList == other.toList then [line] else [] := by
    rw [linesWith_of_lines hl, hev]
    rfl
  have hbase : Tells i tr (some false) := by
    refine ⟨?_, ?_, ?_, ?_, ?_⟩
    · rcases he with rfl | rfl
      · rw [h.unpushed, hw]; rfl
      · rw [h.unpushed, hw]; rfl
    · rw [hl]
      simpa using ha
    · intro hr
      cases hr
    · intro _ _
      rcases he with rfl | rfl
      · rw [hw, hw, hl]; exact ⟨rfl, rfl⟩
      · rw [hw, hw, hl]; exact ⟨rfl, rfl⟩
    · intro _
      exact ⟨rfl, h.unpushed⟩
  cases notify with
  | false => exact hbase
  | true => exact hbase.notified h.unpushed summary body

end Points

/-- The refusal of helper-1 is reported under its action, if at all. -/
private def Names (failure : Option AuditEvent) : Prop :=
  ∀ e, failure = some e → valueOf "event" e.line = some "auth.error".toList ∧
    valueOf "action" e.line = some i.actionId

section HandOff

variable {i} {failure : Option AuditEvent} {tr t : List (Await ⊕ Report)}

/-- The calls of a hand-off behind an allowing line. -/
private theorem tells_pushed (h : Decided i "auth.allow" tr) (hp : pushes t = 1)
    (hl : lines t = []) (hn : notices t = []) (result : Option Bool) :
    Tells i (tr ++ t) result := by
  obtain ⟨line, hline, he, ha⟩ := h.written
  have hlines : lines (tr ++ t) = [line] := by rw [lines_append, hline, hl]; rfl
  have hpush : pushes (tr ++ t) = 1 := by rw [pushes_append, h.unpushed, hp]
  refine ⟨?_, ?_, ?_, ?_, ?_⟩
  · rw [hpush, linesWith_of_lines hlines, he]
    rfl
  · rw [hlines]
    simpa using ha
  · intro _
    rw [hlines]
    exact ⟨hpush, rfl⟩
  · intro _ hz
    omega
  · intro hne
    rw [notices_append, h.unnoticed, hn] at hne
    exact absurd rfl hne

/-- A refusal of helper-1 that is reported behind them. -/
private theorem Tells.reported {e : AuditEvent} (h : Tells i tr (some false))
    (hp : pushes tr = 1) (hn : notices tr = [])
    (he : valueOf "event" e.line = some "auth.error".toList)
    (ha : valueOf "action" e.line = some i.actionId) :
    Tells i (tr ++ [.inr (.audit e)]) (some false) := by
  have hpush : pushes (tr ++ [.inr (.audit e)]) = 1 := by rw [pushes_append, hp]; rfl
  have hlines : lines (tr ++ [.inr (.audit e)]) = lines tr ++ [e.line] := lines_append _
  have hsingle : linesWith "auth.allow" [.inr (.audit e)] =
      if valueOf "event" e.line == some "auth.allow".toList then [e.line] else [] :=
    linesWith_of_lines rfl
  refine ⟨?_, ?_, ?_, ?_, ?_⟩
  · rw [hpush, ← hp, h.pushed, linesWith_append, List.length_append, hsingle, he]
    rfl
  · rw [hlines]
    intro line hmem
    rcases List.mem_append.mp hmem with hmem | hmem
    · exact h.action line hmem
    · rw [List.mem_singleton.mp hmem]
      exact ha
  · intro hr
    cases hr
  · intro _ hz
    omega
  · intro hne
    rw [notices_append, hn] at hne
    exact absurd rfl hne

private theorem ends_handOff (hf : Names i failure) (h : Decided i "auth.allow" tr) :
    (handOff i failure).Ends (Tells i) tr := by
  unfold handOff
  rw [Program.ends_bind, ends_ask]
  intro _
  rw [Program.ends_bind]
  refine (ends_ask (e := Await.helper1 i.username i.cookie) _).mpr fun r ↦ ?_
  rw [List.append_assoc]
  match (r : Option Bool) with
  | none => exact tells_pushed h rfl rfl rfl none
  | some true => exact tells_pushed h rfl rfl rfl (some true)
  | some false =>
    rw [Program.ends_bind, ends_ask]
    intro _
    rw [List.append_assoc]
    have hdrained := tells_pushed (t := [.inl (.push i.actionId)] ++
      [.inl (.helper1 i.username i.cookie)] ++ [.inl .drain]) h rfl rfl rfl (some false)
    cases failure with
    | none => exact hdrained
    | some e =>
      obtain ⟨he, ha⟩ := hf e rfl
      rw [Program.ends_bind, ends_log]
      exact hdrained.reported (by rw [pushes_append, h.unpushed]; rfl)
        (by rw [notices_append, h.unnoticed]; rfl) he ha

private theorem covered_pushed (h : Decided i "auth.allow" tr) (hp : pushes t ≤ 1)
    (hl : linesWith "auth.allow" t = []) : Covered (tr ++ t) := by
  rw [Covered, pushes_append, linesWith_append, h.unpushed, hl, List.append_nil, h.length_allow]
  omega

private theorem throughout_handOff (hf : Names i failure) (h : Decided i "auth.allow" tr) :
    (handOff i failure).Throughout Covered tr := by
  have hone (tail : List (Await ⊕ Report)) (ht : pushes tail = 0)
      (hl : linesWith "auth.allow" tail = []) :
      Covered (tr ++ ([.inl (.push i.actionId)] ++ tail)) := by
    apply covered_pushed h
    · rw [pushes_append, ht]
      rfl
    · rw [linesWith_append, hl]
      rfl
  unfold handOff
  rw [Program.throughout_bind]
  refine ⟨⟨h.covered, fun _ ↦ hone [] rfl rfl⟩, fun _ ↦ ?_⟩
  refine (Program.throughout_bind _ _ _ _).mpr ⟨⟨hone [] rfl rfl, fun _ ↦ ?_⟩, fun r ↦ ?_⟩
  · rw [List.append_assoc]
    exact hone [.inl (.helper1 i.username i.cookie)] rfl rfl
  · rw [List.append_assoc]
    match (r : Option Bool) with
    | none => exact hone _ rfl rfl
    | some true => exact hone _ rfl rfl
    | some false =>
      refine (Program.throughout_bind _ _ _ _).mpr ⟨⟨hone _ rfl rfl, fun _ ↦ ?_⟩, fun _ ↦ ?_⟩
      · rw [List.append_assoc, List.append_assoc]
        exact hone _ rfl rfl
      · rw [List.append_assoc, List.append_assoc]
        cases failure with
        | none => exact hone _ rfl rfl
        | some e =>
          have hreport :
              linesWith "auth.allow" ([.inr (.audit e)] : List (Await ⊕ Report)) = [] := by
            rw [linesWith_of_lines (l := e.line) rfl, (hf e rfl).1]
            rfl
          refine (Program.throughout_bind _ _ _ _).mpr ⟨⟨hone _ rfl rfl, fun _ ↦ ?_⟩, fun _ ↦ ?_⟩
          · rw [List.append_assoc, List.append_assoc]
            exact hone _ rfl hreport
          · rw [List.append_assoc, List.append_assoc]
            exact hone _ rfl hreport

end HandOff

private theorem names_none : Names i none := by
  intro e he
  cases he

private theorem names_policyHelperFailed : Names i (some (.policyHelperFailed i.actionId)) := by
  rintro _ ⟨⟩
  exact ⟨valueOf_line _ _, valueOf_line _ _⟩

private theorem names_agentHelperFailed : Names i (some (.agentHelperFailed i.actionId)) := by
  rintro _ ⟨⟩
  exact ⟨valueOf_line _ _, valueOf_line _ _⟩

section Dialog

variable {i} {t : String} {tr : List (Await ⊕ Report)}

private theorem Silent.await (h : Silent tr) {e : Await} (he : pushes [.inl e] = 0) :
    Silent (tr ++ [.inl e]) where
  unpushed := by rw [pushes_append, h.unpushed, he]
  unwritten := by
    rw [lines_append, h.unwritten]
    rfl
  unnoticed := by
    rw [notices_append, h.unnoticed]
    rfl

/-- An error of the dialog ends the session without a line. -/
private theorem Silent.tells_none (h : Silent tr) : Tells i tr none where
  pushed := by
    rw [h.unpushed, linesWith, h.unwritten]
    rfl
  action := by
    rw [h.unwritten]
    intro line hl
    cases hl
  granted := by
    intro hr
    cases hr
  refused := by
    intro hr
    cases hr
  noticed hne := absurd h.unnoticed hne

private theorem ends_dialogStage (h : Silent tr) : (dialogStage m i).Ends (Tells i) tr := by
  have hd := h.await (e := .dialog (DialogRequest.forAction i)) rfl
  unfold dialogStage
  rw [Program.ends_bind]
  refine (ends_ask (e := Await.dialog (DialogRequest.forAction i)) _).mpr fun v ↦ ?_
  match (v : Option Verdict) with
  | none => exact hd.tells_none
  | some ⟨.deny, _⟩ =>
    rw [Program.ends_bind, ends_log, Program.ends_bind, ends_logIf, Program.ends_pure]
    apply Decided.tells_refused (t := "auth.deny") _ (Or.inl rfl)
    exact hd.decided (valueOf_line _ _) (valueOf_line _ _)
  | some ⟨.timeout, _⟩ =>
    rw [Program.ends_bind, ends_log, Program.ends_bind, ends_logIf, Program.ends_pure]
    apply Decided.tells_refused (t := "auth.timeout") _ (Or.inr rfl)
    exact hd.decided (valueOf_line _ _) (valueOf_line _ _)
  | some ⟨.allow, remember⟩ =>
    rw [Program.ends_bind, ends_log]
    have hallow : Decided i "auth.allow"
        (tr ++ [.inl (.dialog (DialogRequest.forAction i))] ++ [.inr (.audit
          (.agent .allow i.username i.actionId i.processExe m.latencyMs m.session))]) :=
      hd.decided (valueOf_line _ _) (valueOf_line _ _)
    dsimp only
    split
    · rw [Program.ends_bind, ends_ask]
      intro _
      exact ends_handOff (names_agentHelperFailed i) (hallow.await rfl)
    · exact ends_handOff (names_agentHelperFailed i) hallow

private theorem covered_notice (h : Decided i t tr) (notify : Bool) (summary body : Str) :
    Covered (if notify = true then tr ++ [.inr (.notify summary body)] else tr) := by
  cases notify with
  | false => exact h.covered
  | true =>
    have hc := h.covered
    have hp : pushes [.inr (.notify summary body)] = 0 := rfl
    have hl : linesWith "auth.allow" [.inr (.notify summary body)] = [] := rfl
    rw [Covered] at hc ⊢
    rw [if_pos rfl, pushes_append, linesWith_append, hp, hl, List.append_nil]
    exact hc

private theorem throughout_refused (h : Decided i t tr) (notify : Bool) (summary body : Str) :
    (do
      logIf notify (.notify summary body)
      return some false : Audited).Throughout Covered tr := by
  rw [Program.throughout_bind, throughout_logIf, ends_logIf]
  exact ⟨⟨h.covered, covered_notice h notify summary body⟩, covered_notice h notify summary body⟩

private theorem throughout_dialogStage (h : Silent tr) :
    (dialogStage m i).Throughout Covered tr := by
  have hd := h.await (e := .dialog (DialogRequest.forAction i)) rfl
  have hline (outcome : Outcome) {t : String}
      (he : valueOf "event" (AuditEvent.agent outcome i.username i.actionId i.processExe
        m.latencyMs m.session).line = some t.toList) :
      Decided i t (tr ++ [.inl (.dialog (DialogRequest.forAction i))] ++ [.inr (.audit
        (.agent outcome i.username i.actionId i.processExe m.latencyMs m.session))]) :=
    hd.decided he (valueOf_line _ _)
  unfold dialogStage
  rw [Program.throughout_bind]
  refine ⟨⟨h.covered, fun _ ↦ hd.covered⟩, fun v ↦ ?_⟩
  match (v : Option Verdict) with
  | none => exact hd.covered
  | some ⟨.deny, _⟩ =>
    have hdeny := hline .deny (t := "auth.deny") (valueOf_line _ _)
    refine (Program.throughout_bind _ _ _ _).mpr ⟨⟨hd.covered, fun _ ↦ hdeny.covered⟩, fun _ ↦ ?_⟩
    exact throughout_refused hdeny _ _ _
  | some ⟨.timeout, _⟩ =>
    have htimeout := hline .timeout (t := "auth.timeout") (valueOf_line _ _)
    refine (Program.throughout_bind _ _ _ _).mpr
      ⟨⟨hd.covered, fun _ ↦ htimeout.covered⟩, fun _ ↦ ?_⟩
    exact throughout_refused htimeout _ _ _
  | some ⟨.allow, remember⟩ =>
    have hallow := hline .allow (t := "auth.allow") (valueOf_line _ _)
    refine (Program.throughout_bind _ _ _ _).mpr ⟨⟨hd.covered, fun _ ↦ hallow.covered⟩, fun _ ↦ ?_⟩
    dsimp only
    split
    · have hrecorded := hallow.await (e := .remember i.actionId i.rememberCommand) rfl
      refine (Program.throughout_bind _ _ _ _).mpr
        ⟨⟨hallow.covered, fun _ ↦ hrecorded.covered⟩, fun _ ↦ ?_⟩
      exact throughout_handOff (names_agentHelperFailed i) hrecorded
    · exact throughout_handOff (names_agentHelperFailed i) hallow

end Dialog

private theorem silent_nil : Silent [] := ⟨rfl, rfl, rfl⟩

private theorem ends_run : (run m i).Ends (Tells i) [] := by
  unfold run
  cases i.decision with
  | deny =>
    dsimp only
    rw [Program.ends_bind, ends_log, Program.ends_bind, ends_logIf, Program.ends_pure]
    apply Decided.tells_refused (t := "auth.deny") _ (Or.inl rfl)
    exact silent_nil.decided (valueOf_line _ _) (valueOf_line _ _)
  | allow =>
    dsimp only
    rw [Program.ends_bind, ends_log]
    exact ends_handOff (names_policyHelperFailed i)
      (silent_nil.decided (valueOf_line _ _) (valueOf_line _ _))
  | ask =>
    dsimp only
    split
    · have hchecked := silent_nil.await
        (e := .isFresh i.actionId i.rememberCommand i.rememberSecs) rfl
      rw [Program.ends_bind]
      refine (ends_ask (e := Await.isFresh _ _ _) _).mpr fun fresh ↦ ?_
      match (fresh : Bool) with
      | true =>
        exact fun _ ↦ ends_handOff (names_none i)
          (hchecked.decided (valueOf_line _ _) (valueOf_line _ _))
      | false => exact ends_dialogStage m hchecked
    · exact ends_dialogStage m silent_nil

private theorem throughout_run : (run m i).Throughout Covered [] := by
  unfold run
  cases i.decision with
  | deny =>
    have hdeny := silent_nil.decided (i := i)
      (e := .agentPolicyDeny i.username i.actionId i.processExe m.session)
      (t := "auth.deny") (valueOf_line _ _) (valueOf_line _ _)
    refine (Program.throughout_bind _ _ _ _).mpr
      ⟨⟨silent_nil.covered, fun _ ↦ hdeny.covered⟩, fun _ ↦ ?_⟩
    exact throughout_refused hdeny _ _ _
  | allow =>
    have hallow := silent_nil.decided (i := i)
      (e := .agentPolicyAllow i.username i.actionId i.processExe m.session)
      (t := "auth.allow") (valueOf_line _ _) (valueOf_line _ _)
    refine (Program.throughout_bind _ _ _ _).mpr
      ⟨⟨silent_nil.covered, fun _ ↦ hallow.covered⟩, fun _ ↦ ?_⟩
    exact throughout_handOff (names_policyHelperFailed i) hallow
  | ask =>
    dsimp only
    split
    · have hchecked := silent_nil.await
        (e := .isFresh i.actionId i.rememberCommand i.rememberSecs) rfl
      refine (Program.throughout_bind _ _ _ _).mpr
        ⟨⟨silent_nil.covered, fun _ ↦ hchecked.covered⟩, fun fresh ↦ ?_⟩
      match (fresh : Bool) with
      | true =>
        have hallow := hchecked.decided (i := i)
          (e := .agentRemember i.username i.actionId i.processExe m.session)
          (t := "auth.allow") (valueOf_line _ _) (valueOf_line _ _)
        refine (Program.throughout_bind _ _ _ _).mpr
          ⟨⟨hchecked.covered, fun _ ↦ hallow.covered⟩, fun _ ↦ ?_⟩
        exact throughout_handOff (names_none i) hallow
      | false => exact throughout_dialogStage m hchecked
    · exact throughout_dialogStage m silent_nil

/-- Without its reports a session is the session; wherever it is cut off, no approval was pushed
without its record; and the records of a whole one tell how it ended. -/
theorem session_audited :
    erase (run m i) = Agent.run i ∧ (run m i).Throughout Covered [] ∧ (run m i).Ends (Tells i) [] :=
  ⟨erase_run m i, throughout_run m i, ends_run m i⟩

end Sentinel.System.SessionTrail
