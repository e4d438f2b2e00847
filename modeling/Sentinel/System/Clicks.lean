import Sentinel.System.Terminal
import Sentinel.System.Verdicts

/-!
# Nobody is let in without a click

The terminal path from end to end: runs of `sm_authenticate` and their broker, with every helper a
process of `crates/sentinel-helper-kde` that is read over the pipe of
`crates/pam-sentinel/src/helper.rs`. A run that opens the door was let in by the agent or by the
configuration, was clicked open in its own dialog, or stands on the ticked click of another run.
-/

namespace Sentinel.System.Clicks

open Sentinel.Base Sentinel.Shared Sentinel.Kde Sentinel.Broker Sentinel.Pam
open Sentinel.System.Spawn Sentinel.System.Terminal Sentinel.System.Verdicts

/-! ### The ways out of a run -/

/-- How a run with an answer of its dialog, if it had one, comes to return. -/
inductive Exit (w : World) : Option (UInt32 × Option Verdict) → PamReturn → Prop where
  | bypass {d : Option (UInt32 × Option Verdict)} : Exit w d ⟨.success, .bypass⟩
  | early {d : Option (UInt32 × Option Verdict)} {ret : PamReturn}
      (hd : decideEarly w = .inl ret) : Exit w d ret
  | remember {d : Option (UInt32 × Option Verdict)} : Exit w d ⟨.success, .remember⟩
  | dialog (secs : UInt32) (v : Option Verdict) : Exit w (some (secs, v)) ⟨dialogCode v, .dialog⟩

private theorem dialogStage_ne_pure (p : Prompt) (ret : PamReturn) :
    dialogStage p ≠ .pure ret := by
  rw [dialogStage_eq]
  exact nofun

private theorem exit_afterBypass {w : World} {ret : PamReturn} (h : afterBypass w = .pure ret) :
    Exit w none ret := by
  unfold afterBypass at h
  cases hd : decideEarly w with
  | inl early =>
    rw [hd] at h
    cases h
    exact .early hd
  | inr p =>
    rw [hd] at h
    change rememberStage p = _ at h
    by_cases hs : 0 < p.cfg.rememberSeconds
    · cases hk : p.key with
      | none =>
        rw [rememberStage_skip (.inl hk)] at h
        exact absurd h (dialogStage_ne_pure p ret)
      | some key =>
        rw [rememberStage_check hk hs] at h
        cases h
    · rw [rememberStage_skip (.inr hs)] at h
      exact absurd h (dialogStage_ne_pure p ret)

private theorem exit_start {w : World} {ret : PamReturn} (h : smAuthenticate w = .pure ret) :
    Exit w none ret := by
  rw [smAuthenticate_eq] at h
  split at h
  · exact exit_afterBypass h
  · cases h

private theorem exit_queried {w : World} {approved : Option Bool} {ret : PamReturn}
    (h : queriedStage w approved = .pure ret) : Exit w none ret := by
  unfold queriedStage at h
  split at h
  · cases h
    exact .bypass
  · exact exit_afterBypass h

private theorem exit_recorded {w : World} {p : Prompt} {v : Option Verdict} {ret : PamReturn}
    (secs : UInt32) (h : recordStage p v = .pure ret) : Exit w (some (secs, v)) ret := by
  unfold recordStage at h
  split at h
  · split at h
    · cases h
    · cases h
      exact .dialog secs v
  · cases h
    exact .dialog secs v

private theorem exit_checked {w : World} {p : Prompt} {resp : Option Response} {ret : PamReturn}
    (h : checkedStage p resp = .pure ret) : Exit w none ret := by
  unfold checkedStage at h
  split at h
  · cases h
    exact .remember
  · exact absurd h (dialogStage_ne_pure p ret)

/-! ### What a step does to a run -/

/-- A run goes on: it gets an answer, or it sends a request. -/
inductive Moved (l : Label) (i : Nat) (c : Client) : Client → Prop where
  | agent {uid : UInt32} {k : Option Bool → Run PamReturn} (hp : c.prog = .call (.queryAgent uid) k)
      (approved : Option Bool) : Moved l i c { c with prog := k approved }
  | helper {req : HelperRequest} {k : Option Verdict → Run PamReturn} {v : Option Verdict}
      (hl : l = .helper i v) (hp : c.prog = .call (.runHelper req) k) :
      Moved l i c { c with prog := k v, verdict := some (req.rememberSecs, v) }
  | send (conn : Nat) : Moved l i c { c with conn := some conn }
  | answer {c' : Client} {resp : Option Response} {time : Option Nat}
      (ha : c.answer resp time = some c') : Moved l i c c'

/-- A step leaves a run as it is, starts it or moves it. -/
theorem moved_of_next {wire : Wire} {s s' : State} {l : Label} {i : Nat} {c' : Client}
    (h : next wire s l = some s') (hc' : s'.runs i = some c') :
    s.runs i = some c' ∨ (∃ w, c' = { world := w, prog := smAuthenticate w }) ∨
      ∃ c, s.runs i = some c ∧ Moved l i c c' := by
  have hset {j : Nat} {c d : Client} (hc : s.runs j = some c) (hm : Moved l j c d)
      (hd : Function.update s.runs j (some d) i = some c') :
      s.runs i = some c' ∨ (∃ w, c' = { world := w, prog := smAuthenticate w }) ∨
        ∃ c, s.runs i = some c ∧ Moved l i c c' := by
    rcases slot_update_cases hd with ⟨rfl, rfl⟩ | ⟨-, hd⟩
    · exact .inr (.inr ⟨c, hc, hm⟩)
    · exact .inl hd
  cases l with
  | start w =>
    simp only [next] at h
    split at h
    · cases h
      rcases slot_update_cases hc' with ⟨-, rfl⟩ | ⟨-, hd⟩
      · exact .inr (.inl ⟨w, rfl⟩)
      · exact .inl hd
    · cases h
  | agent j approved =>
    simp only [next] at h
    split at h
    next c hc =>
      split at h
      next hp =>
        cases h
        exact hset hc (.agent hp approved) hc'
      next => cases h
    next => cases h
  | helper j v =>
    simp only [next] at h
    split at h
    next c hc =>
      split at h
      next hp =>
        cases h
        exact hset hc (.helper rfl hp) hc'
      next => cases h
    next => cases h
  | send j =>
    simp only [next] at h
    split at h
    next c hc =>
      split at h
      next =>
        split at h
        next =>
          split at h
          next =>
            cases h
            exact hset hc (.send s.nextConn) hc'
          next => cases h
        next => cases h
      next => cases h
    next => cases h
  | fail j =>
    simp only [next] at h
    split at h
    next c hc =>
      obtain ⟨d, ha, rfl⟩ := Option.map_eq_some_iff.mp h
      exact hset hc (.answer ha) hc'
    next => cases h
  | process n peer =>
    simp only [next] at h
    split at h
    next =>
      cases h
      exact .inl hc'
    next => cases h
  | loseRequest n =>
    cases h
    exact .inl hc'
  | loseReply n =>
    cases h
    exact .inl hc'
  | receive n =>
    simp only [next] at h
    split at h
    next =>
      split at h
      next c hc =>
        split at h
        next =>
          obtain ⟨d, ha, rfl⟩ := Option.map_eq_some_iff.mp h
          exact hset hc (.answer ha) hc'
        next => cases h
      next => cases h
    next => cases h
  | tick d =>
    cases h
    exact .inl hc'

/-! ### Whoever is let in -/

/-- The process of a helper and what the module sees of it. -/
structure Screen where
  io : Helper.HelperIo
  course : Course

section Screens

variable (clap : Clap.Parser helperGrammar) (helperPath : Str) (screens : Nat → Screen)

/-- A request is shown and answered: the process gets its arguments, and the module answers by what
it reads of the process. -/
structure Shown (screen : Screen) (req : HelperRequest) (v : Option Verdict) : Prop where
  range : InRange (passed req)
  nulFree : ∀ text ∈ texts (passed req), '\x00' ∉ text
  reads : Reads screen.io
    (screen.course.written (Args.parse clap (Helper.childArgv helperPath req)))
  answer : v = (Helper.run screen.io req).toOption

/-- Every answer of a helper is one of its screen's. -/
def Screened (s : State) : Label → Prop
  | .helper i v =>
    ∀ c req k, s.runs i = some c → c.prog = .call (.runHelper req) k →
      Shown clap helperPath (screens i) req v
  | _ => True

/-- The dialog of a run was clicked: the one whose process has read the request of this prompt. -/
def PromptClicked (i : Nat) (p : Prompt) (remember : Bool) : Prop :=
  DialogClicked clap (Helper.childArgv helperPath (p.helper p.rememberSecs))
    (passed (p.helper p.rememberSecs)) remember (screens i).course

/-- Allow was clicked in the dialog of a run, with the checkbox ticked if it is to be remembered. -/
def ClickedFor (i : Nat) (w : World) (remember : Bool) : Prop :=
  ∃ p, decideEarly w = .inr p ∧ PromptClicked clap helperPath screens i p remember

/-- What is known of a run. -/
structure Told (i : Nat) (c : Client) : Prop where
  clicked : ∀ secs v, c.verdict = some (secs, some v) → v.outcome = .allow →
    ClickedFor clap helperPath screens i c.world v.remember
  returned : ∀ ret, c.prog = .pure ret → Exit c.world c.verdict ret

/-- A record of the broker stands for a ticked click: the run that has sent it was asked under its
key, and Allow was clicked in its dialog with the checkbox ticked. -/
def Ticked (s : State) (r : Record) : Prop :=
  ∃ d q, s.runs r.run = some d ∧ decideEarly d.world = .inr q ∧ q.key = some r.key ∧
    PromptClicked clap helperPath screens r.run q true

end Screens

section Steps

variable {wire : Wire} {clap : Clap.Parser helperGrammar} {helperPath : Str}
  {screens : Nat → Screen} {s s' : State} {i : Nat} {c c' : Client}

private theorem phase_of_call (hi : Inv wire s) (hc : s.runs i = some c) {e : Pam.Call}
    {k : Answer e → Run PamReturn} (hp : c.prog = .call e k) :
    Phase c.world (.call e k) c.verdict := by
  rcases hi.phase i c hc with hphase | ⟨hg, -⟩
  · rw [← hp]
    exact hphase
  · rw [hp] at hg
    cases hg

/-- The answer of a helper is a click in the dialog of the run's own request. -/
private theorem told_helper (hpath : '\x00' ∉ helperPath) (hi : Inv wire s)
    (hc : s.runs i = some c) {req : HelperRequest} {k : Option Verdict → Run PamReturn}
    {v : Option Verdict} (hp : c.prog = .call (.runHelper req) k)
    (hshown : Shown clap helperPath (screens i) req v) :
    Told clap helperPath screens i
      { c with prog := k v, verdict := some (req.rememberSecs, v) } := by
  have hphase := phase_of_call hi hc hp
  obtain ⟨world, prog, conn, verdict, answeredAt⟩ := c
  cases hphase with
  | @dialog p hd =>
    constructor
    · rintro secs v ⟨⟩ hv
      have hrun : Helper.run (screens i).io (p.helper p.rememberSecs) = .ok v := by
        have ha := hshown.answer
        cases hx : Helper.run (screens i).io (p.helper p.rememberSecs) with
        | error e => rw [hx] at ha; cases ha
        | ok v' => rw [hx] at ha; cases ha; rfl
      exact ⟨p, hd, clicked_of_helper clap hpath hshown.range hshown.nulFree hshown.reads hrun hv⟩
    · exact fun ret hret ↦ exit_recorded _ hret

/-- An answer of the broker leaves the dialog's. -/
private theorem told_answer (hi : Inv wire s) (hc : s.runs i = some c)
    (h : Told clap helperPath screens i c)
    {resp : Option Response} {time : Option Nat} (ha : c.answer resp time = some c') :
    Told clap helperPath screens i c' := by
  unfold Client.answer at ha
  split at ha
  next sock req k hp =>
    have hphase := phase_of_call hi hc hp
    cases ha
    refine ⟨h.clicked, fun ret hret ↦ ?_⟩
    obtain ⟨world, prog, conn, verdict, answeredAt⟩ := c
    cases hphase with
    | check hd hk => exact exit_checked hret
    | record hd hk hv hs =>
      cases hret
      exact .dialog _ _
  next => cases ha

private theorem told_next (hpath : '\x00' ∉ helperPath) {l : Label}
    (hi : Inv wire s) (hj : ∀ i c, s.runs i = some c → Told clap helperPath screens i c)
    (hl : Screened clap helperPath screens s l) (h : next wire s l = some s') :
    ∀ i c, s'.runs i = some c → Told clap helperPath screens i c := by
  intro i c' hc'
  rcases moved_of_next h hc' with hold | ⟨w, rfl⟩ | ⟨c, hc, hm⟩
  · exact hj i c' hold
  · exact ⟨nofun, fun ret hret ↦ exit_start hret⟩
  · cases hm with
    | agent hp approved =>
      have hphase := phase_of_call hi hc hp
      obtain ⟨world, prog, conn, verdict, answeredAt⟩ := c
      cases hphase with
      | query uid => exact ⟨nofun, fun ret hret ↦ exit_queried hret⟩
    | helper hlabel hp =>
      subst hlabel
      exact told_helper hpath hi hc hp (hl c _ _ hc hp)
    | send conn => exact ⟨(hj i c hc).clicked, (hj i c hc).returned⟩
    | answer ha => exact told_answer hi hc (hj i c hc) ha

/-- In every run whose helpers are screens, every answer of a helper is known to be a click. -/
private theorem told_run (hpath : '\x00' ∉ helperPath) {ls : List Label}
    (hl : (system wire).Meets (Screened clap helperPath screens) {} ls)
    (h : (system wire).Run ls s) :
    Inv wire s ∧ ∀ i c, s.runs i = some c → Told clap helperPath screens i c := by
  have hempty : (system wire).Run [] (system wire).init := rfl
  have hstart : ∀ i c, (system wire).init.runs i = some c → Told clap helperPath screens i c := by
    intro i c hc
    cases hc
  refine (system wire).meets_invariant (Screened clap helperPath screens)
    (fun s ↦ Inv wire s ∧ ∀ i c, s.runs i = some c → Told clap helperPath screens i c) ?_
    ⟨inv_run hempty, hstart⟩ hl h
  rintro s l s' ⟨hi, hj⟩ hs hn
  exact ⟨inv_next hi hn, told_next hpath hi hj hs hn⟩

private theorem ticked_of_mem (hi : Inv wire s)
    (hj : ∀ i c, s.runs i = some c → Told clap helperPath screens i c)
    {r : Record} (hr : r ∈ s.records) : Ticked clap helperPath screens s r := by
  obtain ⟨⟨d, q, v, hd, hq, hk, hv, hopt, -⟩, -⟩ := hi.records r hr
  rw [optedIn_eq hopt] at hv
  obtain ⟨p, hp, hclicked⟩ := (hj r.run d hd).clicked _ _ hv rfl
  cases hq.symm.trans hp
  exact ⟨d, q, hd, hq, hk, hclicked⟩

end Steps

/-- In every run of the system in which what the module reads of a helper is what its process has
written, every grant of the broker was made by a ticked click; and a run that opens the door was
let in by the agent, by the configuration, by a click in its own dialog, or by a record of another
run under its key, not older than the window, which a ticked click stands for. -/
theorem terminal_success_clicked (wire : Wire) (clap : Clap.Parser helperGrammar)
    {helperPath : Str} (hpath : '\x00' ∉ helperPath) {screens : Nat → Screen} {ls : List Label}
    {s : State} (hl : (system wire).Meets (Screened clap helperPath screens) {} ls)
    (h : (system wire).Run ls s) :
    (∀ k t, s.store k = some t →
      ∃ r ∈ s.records, keystr r.key = k ∧ r.time = t ∧ Ticked clap helperPath screens s r) ∧
    ∀ i c ret, s.runs i = some c → c.prog = .pure ret → ret.code = .success →
      ret.source = .bypass ∨ decideEarly c.world = .inl ret ∨
        (ret.source = .dialog ∧ ∃ remember, ClickedFor clap helperPath screens i c.world remember) ∨
        (ret.source = .remember ∧ ∃ p t, decideEarly c.world = .inr p ∧ c.answeredAt = some t ∧
          ∃ r ∈ s.records, r.run ≠ i ∧ p.key = some r.key ∧ r.time ≤ t ∧
            t - r.time < min (fromSecs p.cfg.rememberSeconds.toNat) maxRemember ∧
            Ticked clap helperPath screens s r) := by
  obtain ⟨hi, hj⟩ := told_run hpath hl h
  constructor
  · intro k t ht
    obtain ⟨r, hr, hk, hrt⟩ := hi.store k t ht
    exact ⟨r, hr, hk, hrt, ticked_of_mem hi hj hr⟩
  · intro i c ret hc hret hs
    rcases hi.phase i c hc with hphase | ⟨hg, hv, p, key, t, hp, hk, ht, r, hr, rfl, hle, hlt⟩
    · have hexit := (hj i c hc).returned ret hret
      rw [hret] at hphase
      generalize hd : c.verdict = d at hexit hphase
      cases hphase with
      | done hsource =>
        cases hexit with
        | bypass => exact .inl rfl
        | early hearly => exact .inr (.inl hearly)
        | remember => exact absurd rfl hsource
        | dialog secs v =>
          cases v with
          | none => cases hs
          | some v =>
            obtain ⟨outcome, remember⟩ := v
            cases outcome with
            | allow => exact .inr (.inr (.inl ⟨rfl, _, (hj i c hc).clicked _ _ hd rfl⟩))
            | deny => cases hs
            | timeout => cases hs
    · cases hret.symm.trans hg
      have hticked := ticked_of_mem hi hj hr
      refine .inr (.inr (.inr ⟨rfl, p, t, hp, ht, r, hr, ?_, hk, hle, hlt, hticked⟩))
      -- The run that was let in has had no dialog.
      rintro rfl
      obtain ⟨⟨d, q, v, hd, -, -, hdv, -⟩, -⟩ := hi.records r hr
      cases hc.symm.trans hd
      rw [hv] at hdv
      cases hdv

/-- The checkbox is ticked, and Allow is clicked behind the minimum time. -/
def tickedLate : Screen where
  io := ⟨true, true, fun _ ↦ some 1, .bytes (toUtf8 "ALLOW REMEMBER\n".toList)⟩
  course :=
    .main true true [.tick, .tick, .tick, .tick, .tick, .setRememberChecked true, .allow] false

private theorem tickedLate_shown :
    let req := (promptOf (promptWorld fun _ ↦ none)).helper 300
    Shown helperClap installedHelper tickedLate req (some ⟨.allow, true⟩) := by
  intro req
  obtain ⟨hrange, hnul, hargv, -⟩ := parse_promptWorld
  refine ⟨hrange, hnul, ?_, by decide⟩
  intro bs hbs
  rw [hargv]
  cases hbs
  exact .inl (by decide)

private theorem rememberedTwice_screened :
    (system Postcard.wire).Meets (Screened helperClap installedHelper fun _ ↦ tickedLate) {}
      rememberedTwice := by
  unfold rememberedTwice
  iterate 4 refine Transition.meets_cons _ trivial rfl ?_
  refine Transition.meets_cons _ ?_ rfl ?_
  · intro c req k hc hp
    cases hc
    cases hp
    exact tickedLate_shown
  · iterate 8 refine Transition.meets_cons _ trivial rfl ?_
    trivial

/-- The second `sudo id` stands on the click in the dialog of the first one. -/
theorem rememberedTwice_clicked :
    ∃ c r, rememberedState.runs 1 = some c ∧ c.prog = .pure ⟨.success, .remember⟩ ∧
      r ∈ rememberedState.records ∧ r.run ≠ 1 ∧
      Ticked helperClap installedHelper (fun _ ↦ tickedLate) rememberedState r := by
  have hrun : (system Postcard.wire).Run rememberedTwice rememberedState := rfl
  obtain ⟨c, hc⟩ : ∃ c, rememberedState.runs 1 = some c := ⟨_, rfl⟩
  have hret : c.prog = .pure ⟨.success, .remember⟩ := by
    cases hc
    rfl
  obtain ⟨-, hlet⟩ := terminal_success_clicked Postcard.wire helperClap (by decide)
    rememberedTwice_screened hrun
  rcases hlet 1 c _ hc hret rfl with h | h | ⟨h, -⟩ | ⟨-, p, t, hp, ht, r, hr, hne, -, -, -, hclick⟩
  · cases h
  · exact absurd rfl (decideEarly_inl h).1
  · cases h
  · exact ⟨c, r, hc, hret, hr, hne, hclick⟩

end Sentinel.System.Clicks
