import Sentinel.Base.Utf8
import Sentinel.Kde.Controller

/-!
# The helper process

Crate `sentinel-helper-kde`, `crates/sentinel-helper-kde/src/main.rs` with the end of
`crates/sentinel-helper-kde/src/bridge.rs`, and the child of `crates/pam-sentinel/src/helper.rs` in
front of its `execv`. A process prints at most one line, and whatever keeps it from showing the
dialog is a Deny or no line at all. Sound, styling and the choice of the scene are left out.
-/

namespace Sentinel.Shared

open Sentinel.Base

/-- `Outcome::fmt`, `lib.rs:90-98`. -/
def Outcome.display : Outcome → Str
  | .allow => "ALLOW".toList
  | .deny => "DENY".toList
  | .timeout => "TIMEOUT".toList

/-- `Verdict::fmt`, `lib.rs:148-156`. -/
def Verdict.display (v : Verdict) : Str :=
  v.outcome.display ++ if v.remember && v.outcome.isAllow then ' ' :: Verdict.rememberToken else []

end Sentinel.Shared

namespace Sentinel.Kde

open Sentinel.Base Sentinel.Shared

/-- How the process behind a fork goes on: it leaves in front of `execv`, the `execv` fails, or
`main` runs, with or without a display and a scene, under some calls, and its event loop may end. -/
inductive Course where
  | left
  | execFails
  | main (display scene : Bool) (calls : List Event) (loopEnds : Bool)
  deriving DecidableEq, Repr

/-- `finish_deny`, `bridge.rs:285-287`. -/
def denied : Verdict := ⟨.deny, false⟩

/-- The verdict a process finishes with, `main.rs:28-108` and `helper.rs:69-167`; none when clap has
refused its arguments, or while the dialog is open. -/
def Course.verdict (args : Option Args) : Course → Option Verdict
  | .left => none
  | .execFails => some denied
  | .main display scene calls loopEnds =>
    args.bind fun a ↦
      if !display then some denied
      else if !scene then some denied
      else
        match (Dialog.run a calls).output with
        | v :: _ => some v
        | [] => if loopEnds then some denied else none

/-- `finish`, `bridge.rs:267-273`. -/
def finish (v : Verdict) : Bytes := toUtf8 (v.display ++ ['\n'])

/-- What the process has written. -/
def Course.written (args : Option Args) (course : Course) : Bytes :=
  ((course.verdict args).map finish).getD []

/-- The button was clicked in a dialog that showed these arguments and was still open behind its
minimum time, with the checkbox ticked if the verdict is to be remembered. -/
def Clicked (shown : Args) (remember : Bool) (course : Course) : Prop :=
  ∃ calls loopEnds before after, course = .main true true calls loopEnds ∧
    calls = before ++ .allow :: after ∧ (Dialog.run shown before).output = [] ∧
    shown.minTime ≤ 100 * ticks before ∧
    (remember = true → 0 < shown.rememberSecs ∧ lastChecked before = some true)

/-- An Allow comes from the button. -/
theorem clicked_of_output {a : Args} {calls : List Event} {v : Verdict} (loopEnds : Bool)
    (h : v ∈ (Dialog.run a calls).output) (hv : v.outcome = .allow) :
    Clicked a v.remember (.main true true calls loopEnds) := by
  obtain ⟨before, after, hcalls, hquiet, hlate, hremember⟩ := allow_of_output h hv
  exact ⟨calls, loopEnds, before, after, rfl, hcalls, hquiet, hlate, hremember⟩

/-- A process that runs `main` up to its event loop ends with a verdict of the dialog or with a
Deny. -/
theorem verdict_cases {args : Option Args} {course : Course} {v : Verdict}
    (h : course.verdict args = some v) :
    v = denied ∨ ∃ a calls loopEnds, args = some a ∧ course = .main true true calls loopEnds ∧
      v ∈ (Dialog.run a calls).output := by
  cases course with
  | left => cases h
  | execFails =>
    cases h
    exact .inl rfl
  | main display scene calls loopEnds =>
    obtain ⟨a, rfl, h⟩ := Option.bind_eq_some_iff.mp h
    cases display with
    | false =>
      cases h
      exact .inl rfl
    | true =>
      cases scene with
      | false =>
        cases h
        exact .inl rfl
      | true =>
        change (match (Dialog.run a calls).output with
          | v :: _ => some v
          | [] => if loopEnds then some denied else none) = some v at h
        cases hout : (Dialog.run a calls).output with
        | nil =>
          rw [hout] at h
          cases loopEnds with
          | false => cases h
          | true =>
            cases h
            exact .inl rfl
        | cons v' vs =>
          rw [hout] at h
          cases h
          refine .inr ⟨a, calls, loopEnds, rfl, rfl, ?_⟩
          rw [hout]
          exact List.mem_cons_self

/-- Only what allows remembers, whatever becomes of the process. -/
theorem remember_of_verdict {args : Option Args} {course : Course} {v : Verdict}
    (h : course.verdict args = some v) (hr : v.remember = true) : v.outcome = .allow := by
  rcases verdict_cases h with rfl | ⟨a, calls, loopEnds, -, -, hmem⟩
  · cases hr
  · exact remember_of_output hmem hr

/-- An Allow was clicked, whatever becomes of the process. -/
theorem clicked_of_verdict {args : Option Args} {course : Course} {v : Verdict}
    (h : course.verdict args = some v) (hv : v.outcome = .allow) :
    ∃ a, args = some a ∧ Clicked a v.remember course := by
  rcases verdict_cases h with rfl | ⟨a, calls, loopEnds, ha, rfl, hmem⟩
  · cases hv
  · exact ⟨a, ha, clicked_of_output loopEnds hmem hv⟩

end Sentinel.Kde
