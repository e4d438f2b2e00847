import Sentinel.System.Grants
import Sentinel.System.Verdicts

/-!
# No approval without a click

The agent from end to end: its sessions, cancels and takings with every dialog a process of
`crates/sentinel-helper-kde` that `run` of `crates/sentinel-polkit-agent/src/helper_ui.rs` reads. An
approval is pushed for a request that the configuration allows, that was clicked in its own dialog,
or that stands on the ticked click of an earlier session.
-/

namespace Sentinel.System.Approvals

open Sentinel.Base Sentinel.Shared Sentinel.Kde Sentinel.Agent
open Sentinel.System.Spawn Sentinel.System.Verdicts

/-! ### What a step tells a session -/

/-- A move tells a session nothing of its dialog, or it brings the answer of its own one. -/
theorem dialog_of_move {sh sh' : Shared} {call : Nat} {t t' : Task} {m : Move} {b : Bool}
    (hp : Place t.inputs t.prog t.learned b) (h : t.move sh call m = some (sh', t')) :
    t'.inputs = t.inputs ∧
      (t'.learned.dialog = t.learned.dialog ∨
        ∃ k v, m = .dialog v ∧ t.prog = .call (.dialog (DialogRequest.forAction t.inputs)) k ∧
          t'.learned.dialog = some v) := by
  obtain ⟨inputs, prog, outside, learned, checkedAt, aborted⟩ := t
  change Place inputs prog learned b at hp
  cases m with
  | step =>
    have hquiet : t'.inputs = inputs ∧ t'.learned.dialog = learned.dialog := by
      cases hp with
      | check hd hs => cases h; exact ⟨rfl, rfl⟩
      | remember hd hs => cases h; exact ⟨rfl, rfl⟩
      | push hp => cases h; exact ⟨rfl, rfl⟩
      | drain hp => cases h; exact ⟨rfl, rfl⟩
      | refused => cases h
      | done => cases h
      | dialog hd =>
        cases outside with
        | true => cases h
        | false => cases h; exact ⟨rfl, rfl⟩
      | helper1 hp =>
        cases outside with
        | true => cases h
        | false => cases h; exact ⟨rfl, rfl⟩
    exact ⟨hquiet.1, .inl hquiet.2⟩
  | dialog v =>
    cases hp with
    | dialog hd =>
      cases outside with
      | true => cases h; exact ⟨rfl, .inr ⟨_, v, rfl, rfl, rfl⟩⟩
      | false => cases h
    | _ => cases h
  | helper1 r =>
    cases hp with
    | helper1 hp =>
      cases outside with
      | true => cases h; exact ⟨rfl, .inl rfl⟩
      | false => cases h
    | _ => cases h

private theorem task_setCall_cases {s : State} {i j : Nat} {c : Call} {t : Task}
    (h : (s.setCall i c).task j = some t) :
    (j = i ∧ c.stage.task = some t) ∨ s.task j = some t := by
  rw [task_setCall] at h
  by_cases hj : j = i
  · rw [hj, Function.update_self] at h
    exact .inl ⟨hj, h⟩
  · rw [Function.update_of_ne hj] at h
    exact .inr h

/-- A step moves a session, starts it, or tells it nothing. -/
theorem told_of_step {ownUid : UInt32} {s s' : State} {l : Label} (h : Step ownUid s l s')
    {j : Nat} {t' : Task} (ht' : s'.task j = some t') :
    (∃ t, s.task j = some t ∧ t'.inputs = t.inputs ∧ t'.learned.dialog = t.learned.dialog) ∨
      t'.learned.dialog = none ∨
      ∃ t m sh, l = .task j m ∧ s.task j = some t ∧ t.move s.shared j m = some (sh, t') := by
  have hsame (hold : s.task j = some t') : (∃ t, s.task j = some t ∧ t'.inputs = t.inputs ∧
      t'.learned.dialog = t.learned.dialog) := ⟨t', hold, rfl, rfl⟩
  cases h with
  | beginAuthentication req =>
    rcases task_setCall_cases (s := s) ht' with ⟨-, hnone⟩ | hold
    · cases hnone
    · exact .inl (hsame hold)
  | acquire hc hg hf hb =>
    rcases task_setCall_cases (s := s) ht' with ⟨-, hnone⟩ | hold
    · cases hnone
    · exact .inl (hsame hold)
  | refuse hc hg hf =>
    rcases task_setCall_cases ht' with ⟨-, hnone⟩ | hold
    · cases hnone
    · exact .inl (hsame hold)
  | spawn hc hg =>
    rcases task_setCall_cases (s := s) ht' with ⟨-, hnew⟩ | hold
    · cases hnew
      exact .inr (.inl rfl)
    · exact .inl (hsame hold)
  | @task i c t u m sh hc hg ha hm =>
    rcases task_setCall_cases (s := s) ht' with ⟨rfl, hnew⟩ | hold
    · cases hnew
      exact .inr (.inr ⟨t, m, sh, rfl, by simp [State.task, hc, hg, Stage.task], hm⟩)
    · exact .inl (hsame hold)
  | @finish i c t hc hg he =>
    rcases task_setCall_cases (s := s) ht' with ⟨rfl, hkept⟩ | hold
    · cases hkept
      exact .inl (hsame (by simp [State.task, hc, hg, Stage.task]))
    · exact .inl (hsame hold)
  | cancelDrain cookie => exact .inl (hsame ht')
  | @cancelAbort n cookie hn =>
    simp only [State.task, State.abort] at ht'
    split at ht'
    next =>
      cases hc : s.calls j with
      | none => rw [hc] at ht'; cases ht'
      | some c =>
        have ht : s.task j = c.stage.task := by simp [State.task, hc]
        rw [hc] at ht'
        change c.stage.abort.task = some t' at ht'
        cases hg : c.stage with
        | spawned t =>
          rw [hg] at ht ht'
          cases ht'
          exact .inl ⟨t, ht, rfl, rfl⟩
        | returned t =>
          rw [hg] at ht ht'
          cases ht'
          exact .inl (hsame ht)
        | waiting => rw [hg] at ht'; cases ht'
        | ready inputs => rw [hg] at ht'; cases ht'
        | refused e => rw [hg] at ht'; cases ht'
    next => exact .inl (hsame ht')
  | takeApproval => exact .inl (hsame ht')
  | tick d => exact .inl (hsame ht')

/-! ### Whatever is approved -/

/-- The process of a dialog and what the agent sees of it. -/
structure Screen where
  child : HelperUi.Child
  course : Course

section Screens

variable (clap : Clap.Parser helperGrammar) (helperPath : Str) (screens : Nat → Screen)

/-- A request is shown and answered: the process gets its arguments, and the agent goes on with what
it reads of the process. -/
structure Shown (screen : Screen) (req : DialogRequest) (v : Option Verdict) : Prop where
  range : InRange req
  receives : Receives screen.child
    (screen.course.written (Args.parse clap (req.argv helperPath)))
  answer : ∃ r, HelperUi.run helperPath req screen.child = some r ∧ v = r.toOption

/-- Every answer of a dialog is one of its screen's. -/
def Screened (s : State) : Label → Prop
  | .task i (.dialog v) =>
    ∀ t req k, s.task i = some t → t.prog = .call (.dialog req) k →
      Shown clap helperPath (screens i) req v
  | _ => True

/-- Allow was clicked in the dialog of a session, with the checkbox ticked if it is to be
remembered. -/
def ClickedIn (i : Nat) (t : Task) (remember : Bool) : Prop :=
  DialogClicked clap ((DialogRequest.forAction t.inputs).argv helperPath)
    (DialogRequest.forAction t.inputs) remember (screens i).course

/-- What a session has learned of its dialog is a click. -/
def Told (i : Nat) (t : Task) : Prop :=
  ∀ v, t.learned.dialog = some (some v) → v.outcome = .allow →
    ClickedIn clap helperPath screens i t v.remember

/-- A recorded grant stands for a ticked click in the dialog of the session that has recorded it. -/
def Ticked (s : State) (g : Grant) : Prop :=
  ∃ t, s.task g.call = some t ∧ g.actionId = t.inputs.actionId ∧
    g.command = t.inputs.rememberCommand ∧ ClickedIn clap helperPath screens g.call t true

/-- A request was approved: by the configuration, by a grant for its action and its command, not
older than its window, that a ticked click stands for, or by a click in its own dialog. -/
def Approved (s : State) (i : Nat) (t : Task) : Prop :=
  t.inputs.decision = .allow ∨
    (t.inputs.decision = .ask ∧ 0 < t.inputs.rememberSecs ∧
      ∃ n, t.checkedAt = some n ∧ ∃ g ∈ s.shared.grants, g.actionId = t.inputs.actionId ∧
        g.command = t.inputs.rememberCommand ∧ g.time ≤ n ∧
        n - g.time < min (fromSecs t.inputs.rememberSecs.toNat) maxRemember ∧
        Ticked clap helperPath screens s g) ∨
    (t.inputs.decision = .ask ∧ ∃ remember, ClickedIn clap helperPath screens i t remember)

end Screens

section Steps

variable {ownUid : UInt32} {clap : Clap.Parser helperGrammar} {helperPath : Str}
  {screens : Nat → Screen} {s s' : State}

private theorem told_step {l : Label} (hd : Decided s.task s.shared)
    (hj : ∀ i t, s.task i = some t → Told clap helperPath screens i t)
    (hl : Screened clap helperPath screens s l) (h : Step ownUid s l s') :
    ∀ i t, s'.task i = some t → Told clap helperPath screens i t := by
  intro i t' ht'
  rcases told_of_step h ht' with ⟨t, ht, hinputs, hsame⟩ | hnone | ⟨t, m, sh, rfl, ht, hm⟩
  · intro v hv hallow
    rw [ClickedIn, hinputs]
    exact hj i t ht v (hsame ▸ hv) hallow
  · intro v hv
    rw [hnone] at hv
    cases hv
  · obtain ⟨hinputs, hsame | ⟨k, v, rfl, hprog, hanswer⟩⟩ := dialog_of_move (hd.place i t ht) hm
    · intro v hv hallow
      rw [ClickedIn, hinputs]
      exact hj i t ht v (hsame ▸ hv) hallow
    · intro v' hv hallow
      rw [hanswer] at hv
      cases hv
      obtain ⟨hrange, hreceives, r, hrun, hr⟩ := hl t _ k ht hprog
      rw [ClickedIn, hinputs]
      cases r with
      | error e => cases hr
      | ok v =>
        cases hr
        exact clicked_of_child clap hrange hreceives hrun hallow

/-- In every run whose dialogs are screens, every answer of a dialog is known to be a click. -/
private theorem told_run {ls : List Label}
    (hl : (system ownUid).Meets (Screened clap helperPath screens) {} ls)
    (h : (system ownUid).Run ls s) :
    Decided s.task s.shared ∧ ∀ i t, s.task i = some t → Told clap helperPath screens i t := by
  have hempty : (system ownUid).Run [] (system ownUid).init := rfl
  have hstart : ∀ i t, (system ownUid).init.task i = some t → Told clap helperPath screens i t := by
    intro i t ht
    cases ht
  have hall := (system ownUid).meets_invariant (Screened clap helperPath screens)
    (fun s ↦ (Control s ∧ Decided s.task s.shared) ∧
      ∀ i t, s.task i = some t → Told clap helperPath screens i t) ?_
    ⟨⟨control_init ownUid, decided_run hempty⟩, hstart⟩ hl h
  · exact ⟨hall.1.2, hall.2⟩
  · rintro s l s' ⟨⟨hc, hd⟩, hj⟩ hs hn
    have hstep := step_of_next hn
    exact ⟨⟨control_step hc hstep, decided_change hd (change_of_step hc hstep)⟩,
      told_step hd hj hs hstep⟩

private theorem ticked_of_mem (hd : Decided s.task s.shared)
    (hj : ∀ i t, s.task i = some t → Told clap helperPath screens i t) {g : Grant}
    (hg : g ∈ s.shared.grants) :
    Ticked clap helperPath screens s g := by
  obtain ⟨-, t, ht, ha, hc, -, hv⟩ := hd.grants g hg
  exact ⟨t, ht, ha, hc, hj g.call t ht _ hv rfl⟩

private theorem approved_of_pusher (hd : Decided s.task s.shared)
    (hj : ∀ i t, s.task i = some t → Told clap helperPath screens i t) {i : Nat} {t : Task}
    (ht : s.task i = some t) (hmem : i ∈ s.shared.ledger.pushers) :
    Approved clap helperPath screens s i t := by
  have hplace := hd.place i t ht
  rw [decide_eq_true hmem] at hplace
  rcases hplace.positive with ⟨hallow, -⟩ | ⟨hask, hs, hf, -⟩ | ⟨hask, -, v, hv, hallow⟩
  · exact .inl hallow
  · obtain ⟨n, hn, g, hg, ha, hc, hle, hlt⟩ := hd.fresh i t ht hf
    exact .inr (.inl ⟨hask, hs, n, hn, g, hg, ha, hc, hle, hlt, ticked_of_mem hd hj hg⟩)
  · exact .inr (.inr ⟨hask, _, hj i t ht v hv hallow⟩)

end Steps

/-- In every run of the agent in which what it reads of a dialog is what its process has written,
every grant of the cache was made by a ticked click, and every approval it has pushed was approved:
by the configuration, by such a grant inside its window, or by a click in the request's own
dialog. -/
theorem agent_approval_clicked (ownUid : UInt32) (clap : Clap.Parser helperGrammar)
    {helperPath : Str} {screens : Nat → Screen} {ls : List Label} {s : State}
    (hl : (system ownUid).Meets (Screened clap helperPath screens) {} ls)
    (h : (system ownUid).Run ls s) :
    (∀ k n, s.shared.cache k = some n →
      ∃ g ∈ s.shared.grants, cacheKey g.actionId g.command = k ∧ g.time = n ∧
        Ticked clap helperPath screens s g) ∧
    ∀ p ∈ s.shared.ledger.pushes,
      ∃ t, s.task p.call = some t ∧ Approved clap helperPath screens s p.call t := by
  obtain ⟨hd, hj⟩ := told_run hl h
  constructor
  · intro k n hk
    obtain ⟨g, hg, hkey, hn⟩ := hd.cache k n hk
    exact ⟨g, hg, hkey, hn, ticked_of_mem hd hj hg⟩
  · intro p hp
    have hmem : p.call ∈ s.shared.ledger.pushers := List.mem_map.mpr ⟨p, hp, rfl⟩
    obtain ⟨t, ht⟩ := hd.pusher p.call hmem
    exact ⟨t, ht, approved_of_pusher hd hj ht hmem⟩

/-- `pkexec id -u` with the checkbox ticked, up to its approval. -/
def tickedPush : List Label := Grants.tickedPolkit ++ [.task 0 .step]

/-- The agent behind it. -/
def tickedPushed : State := ((system 1000).exec {} tickedPush).getD {}

private theorem nul_not_mem_pkexec : '\x00' ∉ "org.freedesktop.policykit.exec".toList := by decide

/-- Its request. -/
private def tickedInputs : AuthInputs where
  actionId := "org.freedesktop.policykit.exec".toList
  cookie := "cookie".toList
  username := "alice".toList
  cfg := Document.forService { general := { rememberScope := .program } } polkitPamService
  processExe := some "/usr/bin/id".toList
  processCmdline := some "/usr/bin/id -u".toList
  processPid := none
  processCwd := none
  requestingUser := some "alice".toList
  nulFree := nul_not_mem_pkexec

/-- The checkbox is ticked, and Allow is clicked behind the minimum time. -/
def tickedScreen : Screen where
  child := ⟨none, true, toUtf8 "ALLOW REMEMBER\n".toList, .closed⟩
  course :=
    .main true true [.tick, .tick, .tick, .tick, .tick, .setRememberChecked true, .allow] false

private theorem tickedScreen_shown :
    Shown helperClap installedHelper tickedScreen (DialogRequest.forAction tickedInputs)
      (some ⟨.allow, true⟩) := by
  have hrange : InRange (DialogRequest.forAction tickedInputs) := by
    constructor
    · decide
    · decide
    · intro pid hp
      cases hp
  have hplain : Plain (DialogRequest.forAction tickedInputs) := by
    constructor
    · decide
    · intro pid hp
      cases hp
  refine ⟨hrange, ⟨rfl, .inl ?_⟩, .ok ⟨.allow, true⟩, by decide, rfl⟩
  rw [(parse_argv_iff helperClap installedHelper hrange).mpr hplain]
  decide

/-- The agent in front of the click. -/
private def tickedAsked : State := ((system 1000).exec {} (tickedPush.take 5)).getD {}

private theorem tickedAsked_screened :
    Screened helperClap installedHelper (fun _ ↦ tickedScreen) tickedAsked
      (.task 0 (.dialog (some ⟨.allow, true⟩))) := by
  have hrun : (system 1000).Run (tickedPush.take 5) tickedAsked := rfl
  intro t req k ht hp
  have hinputs : t.inputs = tickedInputs := by
    have h : (tickedAsked.task 0).map (fun t ↦ t.inputs) = some tickedInputs := rfl
    rw [ht] at h
    exact Option.some.inj h
  have hplace := (decided_run hrun).place 0 t ht
  rw [hp, hinputs] at hplace
  generalize t.learned = learned at hplace
  generalize decide (0 ∈ tickedAsked.shared.ledger.pushers) = b at hplace
  cases hplace with
  | dialog hd => exact tickedScreen_shown

private theorem tickedPush_screened :
    (system 1000).Meets (Screened helperClap installedHelper fun _ ↦ tickedScreen) {}
      tickedPush := by
  unfold tickedPush Grants.tickedPolkit
  iterate 5 refine Transition.meets_cons _ trivial rfl ?_
  refine Transition.meets_cons _ tickedAsked_screened rfl ?_
  iterate 2 refine Transition.meets_cons _ trivial rfl ?_
  trivial

/-- The approval and the grant behind it are the same click. -/
theorem tickedPush_clicked :
    (system 1000).Run tickedPush tickedPushed ∧ tickedPushed.shared.ledger.pushers = [0] ∧
      (∃ t, tickedPushed.task 0 = some t ∧
        Approved helperClap installedHelper (fun _ ↦ tickedScreen) tickedPushed 0 t) ∧
      ∃ g ∈ tickedPushed.shared.grants,
        Ticked helperClap installedHelper (fun _ ↦ tickedScreen) tickedPushed g := by
  have hrun : (system 1000).Run tickedPush tickedPushed := rfl
  obtain ⟨hcache, hpushes⟩ := agent_approval_clicked 1000 helperClap tickedPush_screened hrun
  have hgrant : tickedPushed.shared.cache
      (cacheKey "org.freedesktop.policykit.exec".toList "/usr/bin/id".toList) = some 0 := by
    decide +kernel
  obtain ⟨g, hg, -, -, hticked⟩ := hcache _ _ hgrant
  exact ⟨hrun, rfl, hpushes ⟨0, 0⟩ (List.mem_singleton.mpr rfl), g, hg, hticked⟩

end Sentinel.System.Approvals
