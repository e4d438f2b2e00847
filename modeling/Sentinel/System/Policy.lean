import Sentinel.Agent.Agent
import Sentinel.Pam.Environment

/-!
# The static policy on both paths

`[policy]` is read at two places: by `sm_authenticate` behind the headless gate, on the program
its host process elevates, and by the agent's session before everything else, on the program of
the polkit request or its action id. The laws say what a match decides on each path, and which
program a request without a target is matched by.
-/

namespace Sentinel.System

open Sentinel.Base Sentinel.Shared

/-! ### A deny -/

/-- A deny entry matches the program the run is for. -/
def PamDenied (w : Pam.World) : Prop :=
  ∃ entry ∈ (Pam.serviceConfig w).policy.deny,
    Policy.NamesExe entry (Pam.ProcessInfo.forPid w.host.fs w.host.pid).policyExe

/-- A deny entry matches the program or the action of a request. -/
def AgentDenied (i : Agent.AuthInputs) : Prop :=
  ∃ entry ∈ i.cfg.policy.deny, entry = i.actionId ∨ Policy.NamesExe entry i.processExe

/-- A denied run ends before its first call behind the bypass: at the headless gate without a
display, at the policy with one. -/
theorem decideEarly_denied {w : Pam.World} (hd : PamDenied w)
    (he : (Pam.serviceConfig w).enabled = true) :
    Pam.decideEarly w = .inl
      (if Pam.displayFound w then ⟨.authErr, .policy⟩
        else ⟨Pam.handleHeadless (Pam.serviceConfig w), .headless⟩) := by
  have hpolicy : Pam.checkPolicy (Pam.serviceConfig w)
      (Pam.ProcessInfo.forPid w.host.fs w.host.pid) = some .authErr := by
    obtain ⟨entry, hm, hn⟩ := hd
    have hdeny := (Policy.decide_eq_deny_iff (Pam.serviceConfig w).policy
      (Pam.ProcessInfo.forPid w.host.fs w.host.pid).policyExe none).mpr ⟨entry, hm, Or.inr hn⟩
    rw [Pam.checkPolicy, hdeny]
  unfold Pam.serviceConfig at he hpolicy
  cases hdisp : Pam.detectForUser w (callerUid w.host.fs w.ownUid w.ppid) with
  | true => simp [Pam.decideEarly, Pam.displayFound, he, hpolicy, hdisp]
  | false => simp [Pam.decideEarly, Pam.displayFound, Pam.serviceConfig, he, hdisp]

/-- A deny decides both paths whatever the grants and the answers, with one gate in front of it:
a run of the module whose service is enabled and whose agent approves nothing succeeds exactly
when it finds no display and the headless action is Allow, and a session ends refused with no
await at all. -/
theorem deny_decides :
    (∀ (w : Pam.World) (h : (c : Pam.Call) → Pam.Answer c), PamDenied w →
      (Pam.serviceConfig w).enabled = true → ¬ Pam.Bypassed h w →
      (((Pam.smAuthenticate w).eval h).code = .success ↔
        Pam.displayFound w = false ∧ (Pam.serviceConfig w).headlessAction = .allow)) ∧
    ∀ i : Agent.AuthInputs, AgentDenied i → Agent.run i = .pure (some false) := by
  constructor
  · intro w h hd he hb
    rw [Pam.eval_not_bypassed hb, Pam.afterBypass, decideEarly_denied hd he]
    cases Pam.displayFound w with
    | true => simp
    | false => cases ha : (Pam.serviceConfig w).headlessAction <;> simp [Pam.handleHeadless, ha]
  · rintro i ⟨entry, hm, he⟩
    have hdeny : i.decision = .deny := by
      apply (Policy.decide_eq_deny_iff _ _ _).mpr
      refine ⟨entry, hm, ?_⟩
      rw [Option.some.injEq, eq_comm]
      exact he
    rw [Agent.run, hdeny]

/-- `sudo id` under a policy that denies `id` and a headless action that allows. -/
def deniedWorld (runtimeDir : Option (List Pam.DirEntry)) : Pam.World :=
  { Pam.promptWorld (fun _ ↦ none) with
    runtimeDir := fun _ ↦ runtimeDir
    document :=
      { general := { headlessAction := .allow }
        policy := ⟨[], ["id".toList]⟩ } }

private theorem deniedWorld_denied (dir : Option (List Pam.DirEntry)) :
    PamDenied (deniedWorld dir) :=
  ⟨"id".toList, List.mem_singleton_self _, "id".toList, rfl, by decide⟩

private theorem deniedWorld_not_bypassed (dir : Option (List Pam.DirEntry))
    (h : (c : Pam.Call) → Pam.Answer c) : ¬ Pam.Bypassed h (deniedWorld dir) := by
  rintro ⟨uid, hu, -⟩
  cases hu

/-- `pkexec id` under the same policy. -/
def deniedInputs : Agent.AuthInputs where
  actionId := "org.freedesktop.policykit.exec".toList
  cookie := "cookie".toList
  username := "alice".toList
  cfg := (deniedWorld none).document.forService polkitPamService
  processExe := some "/usr/bin/id".toList
  processCmdline := some "/usr/bin/id".toList
  processPid := none
  processCwd := none
  requestingUser := none
  nulFree := (Agent.plainRequest "cookie").nulFree

/-- With a display a broker that grants everything and a helper that always allows do not help
against the deny, and the session of the agent is refused at once. -/
theorem deniedWorld_decides :
    (¬ ((Pam.smAuthenticate (deniedWorld (some [⟨toUtf8 "wayland-0".toList, true⟩]))).eval
      (fun
        | .queryAgent _ => none
        | .roundtrip _ _ => some (.remember true)
        | .runHelper _ => some ⟨.allow, true⟩)).code = .success) ∧
      Agent.run deniedInputs = .pure (some false) := by
  constructor
  · intro hs
    have hdecides := (deny_decides.1 _ _ (deniedWorld_denied _) rfl
      (deniedWorld_not_bypassed _ _)).mp hs
    cases hdecides.1
  · exact deny_decides.2 deniedInputs
      ⟨"id".toList, List.mem_singleton_self _, Or.inr ⟨"/usr/bin/id".toList, rfl, by decide⟩⟩

/-- A deny does not keep every run from success: without a display the headless action comes
first, and `sudo id` is let in although `id` is denied. -/
theorem headless_allows_denied :
    ¬ ∀ (w : Pam.World) (h : (c : Pam.Call) → Pam.Answer c), PamDenied w →
      (Pam.serviceConfig w).enabled = true → ¬ Pam.Bypassed h w →
      ((Pam.smAuthenticate w).eval h).code ≠ .success := by
  intro hnever
  refine hnever (deniedWorld none) (fun
    | .queryAgent _ => none
    | .roundtrip _ _ => none
    | .runHelper _ => none) (deniedWorld_denied none) rfl (deniedWorld_not_bypassed none _) ?_
  decide

/-! ### A request without a target -/

/-- A request that names no program and whose caller is a wrapper without a target. -/
structure BareCaller (fs : Procfs) (req : Agent.BeginRequest) : Prop where
  program : Agent.detailText req "program" = none
  commandLine : Agent.detailText req "command_line" = none
  stripped : ∃ raw, (Agent.detailPid req "polkit.caller-pid").bind (readCmdline fs) = some raw ∧
    stripElevationPrefix raw = []

/-- The executable of the subject, the last resort of `agent.rs:146`. -/
def subjectExe (fs : Procfs) (req : Agent.BeginRequest) : Option Str :=
  (Agent.detailPid req "polkit.subject-pid").bind (readExe fs)

/-- Such a request goes by the executable of its subject. -/
theorem processExe_bareCaller {fs : Procfs} {req : Agent.BeginRequest} (h : BareCaller fs req) :
    Agent.processExe fs req = subjectExe fs req := by
  obtain ⟨raw, hraw, hs⟩ := h.stripped
  have hrecovered : Agent.recoveredFromCaller fs req = none := by
    simp [Agent.recoveredFromCaller, h.commandLine, hraw, hs]
  have hcmdline : Agent.processCmdline fs req = none := by
    rw [Agent.processCmdline, h.commandLine, hrecovered]
    rfl
  rw [Agent.processExe, h.program, hcmdline]
  rfl

/-- The session of a request without a target takes the Allow branch only for its action id
exactly when the action is an allow entry, a deny entry matches the subject's executable or the
action, or no allow entry names the subject's executable. -/
theorem bareCaller_allow_iff {ownUid : UInt32} {env : Agent.Surroundings}
    {req : Agent.BeginRequest} {i : Agent.AuthInputs}
    (h : Agent.beginInputs ownUid env req = .ok i) (hb : BareCaller env.fs req) :
    (i.decision = .allow → i.actionId ∈ i.cfg.policy.allow) ↔
      req.actionId ∈ (env.document.forService polkitPamService).policy.allow ∨
      (∃ entry ∈ (env.document.forService polkitPamService).policy.deny,
        entry = req.actionId ∨ Policy.NamesExe entry (subjectExe env.fs req)) ∨
      ¬ ∃ entry ∈ (env.document.forService polkitPamService).policy.allow,
        Policy.NamesExe entry (subjectExe env.fs req) := by
  obtain ⟨hact, -, -, hcfg⟩ := Agent.beginInputs_ok h
  have hexe : i.processExe = subjectExe env.fs req := by
    rw [Agent.beginInputs_processExe h, processExe_bareCaller hb]
  rw [Agent.AuthInputs.decision, Policy.decide_eq_allow_iff, hexe, hact, hcfg]
  simp only [Option.some.injEq]
  constructor
  · intro hallow
    by_contra hno
    simp only [not_or, not_not] at hno
    obtain ⟨hnot, hdeny, entry, hm, hn⟩ := hno
    refine hnot (hallow ⟨⟨entry, hm, Or.inr hn⟩, ?_⟩)
    rintro ⟨e, he, hmatch⟩
    refine hdeny ⟨e, he, ?_⟩
    rw [eq_comm]
    exact hmatch
  · rintro hcond ⟨⟨entry, hm, hmatch⟩, hdeny⟩
    rcases hcond with hin | ⟨e, he, hmatch'⟩ | hno
    · exact hin
    · rw [eq_comm] at hmatch'
      exact absurd ⟨e, he, hmatch'⟩ hdeny
    · rcases hmatch with rfl | hn
      · exact hm
      · exact absurd ⟨entry, hm, hn⟩ hno

/-- A bare `pkexec` started by `/usr/bin/topgrade`. -/
def barePkexec : Agent.BeginRequest :=
  { Agent.plainRequest "cookie" with
    details := fun name ↦
      if name = "polkit.subject-pid".toList then some "10".toList
      else if name = "polkit.caller-pid".toList then some "11".toList
      else none }

/-- Its host, under a policy that allows one entry. -/
def topgradeSurroundings (entry : String) : Agent.Surroundings :=
  { Agent.plainSurroundings with
    fs := fun pid ↦
      if pid = 10 then { exe := some (toUtf8 "/usr/bin/topgrade".toList) }
      else { cmdline := some (cmdlineBytes [toUtf8 "pkexec".toList]) }
    document := { policy := ⟨[entry.toList], []⟩ } }

private theorem barePkexec_bareCaller (entry : String) :
    BareCaller (topgradeSurroundings entry).fs barePkexec where
  program := rfl
  commandLine := rfl
  stripped := ⟨"pkexec".toList, rfl, by decide⟩

/-- What the agent makes of it. -/
def barePkexecInputs (entry : String) : Agent.AuthInputs where
  actionId := "org.freedesktop.policykit.exec".toList
  cookie := "cookie".toList
  username := "alice".toList
  cfg := (topgradeSurroundings entry).document.forService polkitPamService
  processExe := some "/usr/bin/topgrade".toList
  processCmdline := none
  processPid := some 10
  processCwd := none
  requestingUser := some "alice".toList
  nulFree := (Agent.plainRequest "cookie").nulFree

private theorem beginInputs_barePkexec (entry : String) :
    Agent.beginInputs 1000 (topgradeSurroundings entry) barePkexec =
      .ok (barePkexecInputs entry) := rfl

/-- With `pacman` as the only allow entry the subject does not help the bare `pkexec`. -/
theorem barePkexec_asks :
    Agent.beginInputs 1000 (topgradeSurroundings "pacman") barePkexec =
        .ok (barePkexecInputs "pacman") ∧
      ((barePkexecInputs "pacman").decision = .allow →
        (barePkexecInputs "pacman").actionId ∈ (barePkexecInputs "pacman").cfg.policy.allow) := by
  refine ⟨beginInputs_barePkexec "pacman", ?_⟩
  apply (bareCaller_allow_iff (beginInputs_barePkexec "pacman")
    (barePkexec_bareCaller "pacman")).mpr
  refine Or.inr (Or.inr ?_)
  rintro ⟨entry, hm, path, hp, hn⟩
  cases List.mem_singleton.mp hm
  cases hp
  revert hn
  decide

/-- With `topgrade` as allow entry a bare `pkexec` started by topgrade is handed off without a
dialog, although the action is no allow entry. -/
theorem barePkexec_allowed :
    Agent.beginInputs 1000 (topgradeSurroundings "topgrade") barePkexec =
        .ok (barePkexecInputs "topgrade") ∧
      BareCaller (topgradeSurroundings "topgrade").fs barePkexec ∧
      (barePkexecInputs "topgrade").decision = .allow ∧
      Agent.run (barePkexecInputs "topgrade") = Agent.handOff (barePkexecInputs "topgrade") ∧
      (barePkexecInputs "topgrade").actionId ∉
        (barePkexecInputs "topgrade").cfg.policy.allow := by
  have hallow : (barePkexecInputs "topgrade").decision = .allow := by decide
  refine ⟨beginInputs_barePkexec "topgrade", barePkexec_bareCaller "topgrade", hallow, ?_, ?_⟩
  · rw [Agent.run, hallow]
  · decide

end Sentinel.System
