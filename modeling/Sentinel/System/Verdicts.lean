import Sentinel.Agent.HelperUi
import Sentinel.Kde.Helper
import Sentinel.Pam.Faults
import Sentinel.System.Spawn

/-!
# From the button to the verdict

The helper of `crates/sentinel-helper-kde` between its arguments and its one line, and the two
readers of that line, `crates/pam-sentinel/src/helper.rs` and
`crates/sentinel-polkit-agent/src/helper_ui.rs`. Both readers take from the line what the dialog has
decided, and what they take for an Allow is a click in a dialog that showed the request.
-/

namespace Sentinel.System.Verdicts

open Sentinel.Base Sentinel.Shared Sentinel.Kde Sentinel.Pam Sentinel.Agent Sentinel.System.Spawn

/-! ### The line -/

/-- A verdict that only remembers what it allows is one of four. -/
private theorem proper_cases {v : Verdict} (h : v.remember = true → v.outcome = .allow) :
    v = ⟨.allow, true⟩ ∨ v = ⟨.allow, false⟩ ∨ v = ⟨.deny, false⟩ ∨ v = ⟨.timeout, false⟩ := by
  obtain ⟨outcome, remember⟩ := v
  cases remember with
  | true =>
    cases outcome with
    | allow => exact .inl rfl
    | deny => exact absurd (h rfl) (by decide)
    | timeout => exact absurd (h rfl) (by decide)
  | false =>
    cases outcome with
    | allow => exact .inr (.inl rfl)
    | deny => exact .inr (.inr (.inl rfl))
    | timeout => exact .inr (.inr (.inr rfl))

/-- The line of a verdict fits the buffer of the module and is read back there. -/
private theorem parseVerdict_finish {v : Verdict} (h : v.remember = true → v.outcome = .allow) :
    finish v ≠ [] ∧ Helper.parseVerdict ((finish v).take 16) = v := by
  rcases proper_cases h with rfl | rfl | rfl | rfl
  all_goals decide

/-- The agent reads it back as the first line. -/
private theorem read_finish {v : Verdict} (h : v.remember = true → v.outcome = .allow)
    {child : HelperUi.Child} (harrived : child.arrived = finish v) :
    child.read = some (.ok (some v)) := by
  have hline : ∃ l, (finish v).splitOn 10 = [l, []] ∧
      (HelperUi.lineText l).bind Verdict.fromStr = some v := by
    rcases proper_cases h with rfl | rfl | rfl | rfl
    · exact ⟨toUtf8 "ALLOW REMEMBER".toList, by decide, by decide⟩
    · exact ⟨toUtf8 "ALLOW".toList, by decide, by decide⟩
    · exact ⟨toUtf8 "DENY".toList, by decide, by decide⟩
    · exact ⟨toUtf8 "TIMEOUT".toList, by decide, by decide⟩
  obtain ⟨l, hl, hv⟩ := hline
  obtain ⟨s, hs, hv⟩ := Option.bind_eq_some_iff.mp hv
  rw [HelperUi.Child.read, harrived, hl]
  show HelperUi.readVerdict [] child.tail [l] = _
  rw [HelperUi.readVerdict, hs]
  simp only [hv]

/-! ### The two readers -/

/-- The module reads what the process has written, when it reads anything. -/
def Reads (io : Helper.HelperIo) (written : Bytes) : Prop :=
  ∀ bs, io.read = .bytes bs → bs = written ∨ bs = []

/-- So does the agent, without its test seam. -/
def Receives (child : HelperUi.Child) (written : Bytes) : Prop :=
  child.canned = none ∧ (child.arrived = written ∨ child.arrived = [])

private theorem written_cases (course : Course) (args : Option Args) :
    course.verdict args = none ∧ course.written args = [] ∨
      ∃ v, course.verdict args = some v ∧ course.written args = finish v := by
  rw [Course.written]
  cases course.verdict args with
  | none => exact .inl ⟨rfl, rfl⟩
  | some v => exact .inr ⟨v, rfl, rfl⟩

/-- The module's verdict is the one the process has finished with. -/
private theorem verdict_of_pam {io : Helper.HelperIo} {req : HelperRequest} {course : Course}
    {args : Option Args} {v : Verdict} (hio : Reads io (course.written args))
    (h : Helper.run io req = .ok v) : course.verdict args = some v := by
  obtain ⟨-, -, -, bs, hread, hne, hparse⟩ := (Helper.run_eq_ok_iff io req v).mp h
  rcases hio bs hread with rfl | rfl
  · rcases written_cases course args with ⟨-, hw⟩ | ⟨v', hv', hw⟩
    · exact absurd hw hne
    · rw [hw, (parseVerdict_finish (remember_of_verdict hv')).2] at hparse
      rw [hv', hparse]
  · exact absurd rfl hne

/-- The agent's verdict is the one the process has finished with. -/
private theorem verdict_of_agent {helperPath : Str} {req : DialogRequest} {child : HelperUi.Child}
    {course : Course} {args : Option Args} {v : Verdict}
    (hchild : Receives child (course.written args))
    (h : HelperUi.run helperPath req child = some (.ok v)) : course.verdict args = some v := by
  obtain ⟨hcanned, harrived⟩ := hchild
  have hread := HelperUi.read_of_run hcanned h
  have hsilent : child.arrived ≠ [] := by
    intro hnil
    rw [HelperUi.Child.read, hnil] at hread
    cases ht : child.tail with
    | closed => rw [ht] at hread; cases hread
    | fails => rw [ht] at hread; cases hread
    | silent => rw [ht] at hread; cases hread
  rcases harrived with ha | ha
  · rcases written_cases course args with ⟨-, hw⟩ | ⟨v', hv', hw⟩
    · exact absurd (ha.trans hw) hsilent
    · rw [read_finish (remember_of_verdict hv') (ha.trans hw)] at hread
      cases hread
      exact hv'
  · exact absurd ha hsilent

/-- Both parents read back what the process has finished with, and a process that has left without
a verdict is an error to both. -/
theorem verdict_read_back (course : Course) (args : Option Args) :
    (∀ io req, io.pipe = true → io.fork = true →
      (∃ n, io.poll (Helper.parentPollTimeout req.cfg.timeout) = some n ∧ n ≠ 0) →
      io.read = .bytes (course.written args) →
      Helper.run io req = (course.verdict args).elim (.error .noOutput) .ok) ∧
    ∀ helperPath req (child : HelperUi.Child), child.canned = none → child.starts = true →
      (∀ word ∈ req.argv helperPath, '\x00' ∉ word) → child.arrived = course.written args →
      child.tail = .closed →
      HelperUi.run helperPath req child =
        some ((course.verdict args).elim (.error .noOutput) .ok) := by
  constructor
  · intro io req hpipe hfork hpoll hread
    rcases written_cases course args with ⟨hv, hw⟩ | ⟨v, hv, hw⟩
    · obtain ⟨n, hn, hne⟩ := hpoll
      rw [Helper.run, hpipe, hfork, Helper.parentWait, hn, hread, hw, hv]
      simp [hne]
    · rw [hv]
      apply (Helper.run_eq_ok_iff io req v).mpr
      obtain ⟨hne, hparse⟩ := parseVerdict_finish (remember_of_verdict hv)
      exact ⟨hpipe, hfork, hpoll, finish v, hread.trans (congrArg _ hw), hne, hparse⟩
  · intro helperPath req child hcanned hstarts hnul harrived htail
    have hargv : ((req.argv helperPath).any fun word ↦ word.contains '\x00') = false := by
      rw [List.any_eq_false]
      intro word hword
      simpa using hnul word hword
    have hrun : ∀ {got}, child.read = some (.ok got) →
        HelperUi.run helperPath req child = some (got.elim (.error .noOutput) .ok) := by
      intro got hgot
      rw [HelperUi.run, hcanned, hstarts, hargv, hgot]
      cases got <;> rfl
    rcases written_cases course args with ⟨hv, hw⟩ | ⟨v, hv, hw⟩
    · apply hrun
      rw [HelperUi.Child.read, harrived, hw, htail, hv]
      rfl
    · apply hrun
      rw [read_finish (remember_of_verdict hv) (harrived.trans hw), hv]

/-! ### What an Allow stands for -/

private theorem source_of_decideEarly {w : World} {ret : PamReturn}
    (h : decideEarly w = .inl ret) : ret.source ≠ .dialog := by
  simp only [decideEarly] at h
  split at h
  · cases h; simp
  · split at h
    · cases h; simp
    · split at h
      · cases h; simp
      · cases h

/-- A run that opens the door through its dialog has its Allow from the helper. -/
private theorem allow_of_authenticate {o : Outside} {w : World}
    (h : o.authenticate w = ⟨.success, .dialog⟩) :
    ∃ p v, decideEarly w = .inr p ∧
      Helper.run (o.helper (p.helper p.rememberSecs)) (p.helper p.rememberSecs) = .ok v ∧
      v.outcome = .allow := by
  have hreturned := returned_eval o.answer w
  rw [← Outside.authenticate, h] at hreturned
  generalize hret : (⟨.success, .dialog⟩ : PamReturn) = ret at hreturned
  cases hreturned with
  | bypass hb => cases hret
  | early hb hd =>
    rw [← hret] at hd
    exact absurd rfl (source_of_decideEarly hd)
  | granted hb hd hg => cases hret
  | @asked p hb hd hg =>
    have hcode := congrArg PamReturn.code hret
    dsimp only [Outside.answer] at hcode
    cases hrun : Helper.run (o.helper (p.helper p.rememberSecs)) (p.helper p.rememberSecs) with
    | error e =>
      rw [hrun] at hcode
      cases hcode
    | ok v =>
      rw [hrun] at hcode
      refine ⟨p, v, hd, hrun, ?_⟩
      obtain ⟨outcome, remember⟩ := v
      cases outcome with
      | allow => rfl
      | deny => cases hcode
      | timeout => cases hcode

private theorem requestingPid_of_decideEarly {w : World} {p : Prompt}
    (h : decideEarly w = .inr p) (secs : UInt32) :
    (p.helper secs).requestingPid = w.host.pid := by
  simp only [decideEarly] at h
  split at h
  · cases h
  · split at h
    · cases h
    · split at h
      · cases h
      · cases h
        rfl

/-- Allow was clicked in the dialog of a request: the process has read the request back from the
arguments it was started with, and was clicked while it showed that. -/
structure DialogClicked (clap : Clap.Parser helperGrammar) (argv : List Str) (req : DialogRequest)
    (remember : Bool) (course : Course) : Prop where
  shown : Args.parse clap argv = some (readBack req)
  clicked : Clicked (readBack req) remember course

/-- An Allow of a process that was started for a request was clicked in the request's dialog. -/
private theorem dialogClicked_of_verdict (clap : Clap.Parser helperGrammar) {helperPath : Str}
    {req : DialogRequest} {course : Course} {v : Verdict} (hrange : InRange req)
    (h : course.verdict (Args.parse clap (req.argv helperPath)) = some v)
    (hv : v.outcome = .allow) :
    DialogClicked clap (req.argv helperPath) req v.remember course := by
  obtain ⟨a, ha, hclicked⟩ := clicked_of_verdict h hv
  have hread := parse_argv clap helperPath hrange
  rw [ha] at hread
  split at hread
  · cases hread
    exact ⟨ha, hclicked⟩
  · cases hread

/-- An Allow that the module reads was clicked in the dialog of its request. -/
theorem clicked_of_helper (clap : Clap.Parser helperGrammar) {helperPath : Str}
    (hpath : '\x00' ∉ helperPath) {req : HelperRequest} {io : Helper.HelperIo} {course : Course}
    {v : Verdict} (hrange : InRange (passed req))
    (hnul : ∀ text ∈ texts (passed req), '\x00' ∉ text)
    (hreads : Reads io (course.written (Args.parse clap (Helper.childArgv helperPath req))))
    (hrun : Helper.run io req = .ok v) (hv : v.outcome = .allow) :
    DialogClicked clap (Helper.childArgv helperPath req) (passed req) v.remember course := by
  have hverdict := verdict_of_pam hreads hrun
  rw [childArgv_eq hpath hnul] at hverdict ⊢
  exact dialogClicked_of_verdict clap hrange hverdict hv

/-- So was an Allow that the agent reads. -/
theorem clicked_of_child (clap : Clap.Parser helperGrammar) {helperPath : Str}
    {req : DialogRequest} {child : HelperUi.Child} {course : Course} {v : Verdict}
    (hrange : InRange req)
    (hchild : Receives child (course.written (Args.parse clap (req.argv helperPath))))
    (hrun : HelperUi.run helperPath req child = some (.ok v)) (hv : v.outcome = .allow) :
    DialogClicked clap (req.argv helperPath) req v.remember course :=
  dialogClicked_of_verdict clap hrange (verdict_of_agent hchild hrun) hv

/-- A run that opens the door through its dialog was clicked open: in a dialog whose process has
read the run's own request from its arguments, behind the minimum time. -/
theorem dialog_success_clicked (clap : Clap.Parser helperGrammar) {helperPath : Str}
    (hpath : '\x00' ∉ helperPath) {o : Outside} {w : World} {course : Course}
    (hpid : -2147483648 ≤ w.host.pid ∧ w.host.pid ≤ 2147483647)
    (hnul : ∀ p, decideEarly w = .inr p →
      ∀ text ∈ texts (passed (p.helper p.rememberSecs)), '\x00' ∉ text)
    (hreads : ∀ p, decideEarly w = .inr p →
      Reads (o.helper (p.helper p.rememberSecs)) (course.written
        (Args.parse clap (Helper.childArgv helperPath (p.helper p.rememberSecs)))))
    (h : o.authenticate w = ⟨.success, .dialog⟩) :
    ∃ p remember, decideEarly w = .inr p ∧
      DialogClicked clap (Helper.childArgv helperPath (p.helper p.rememberSecs))
        (passed (p.helper p.rememberSecs)) remember course := by
  obtain ⟨p, v, hp, hrun, hv⟩ := allow_of_authenticate h
  have hrange : InRange (passed (p.helper p.rememberSecs)) := by
    apply inRange_passed
    rw [requestingPid_of_decideEarly hp]
    exact hpid
  exact ⟨p, v.remember, hp,
    clicked_of_helper clap hpath hrange (hnul p hp) (hreads p hp) hrun hv⟩

/-! ### `sudo id` -/

/-- Allow is clicked behind five ticks, the default minimum time. -/
def clickedLate : Course := .main true true [.tick, .tick, .tick, .tick, .tick, .allow] false

/-- Its request is read back. -/
theorem parse_promptWorld :
    let req := (promptOf (promptWorld fun _ ↦ none)).helper 300
    InRange (passed req) ∧ (∀ text ∈ texts (passed req), '\x00' ∉ text) ∧
      Args.parse helperClap (Helper.childArgv installedHelper req) = some (readBack (passed req)) ∧
      Args.parse helperClap ((passed req).argv installedHelper) = some (readBack (passed req)) := by
  have hplain : Plain (passed ((promptOf (promptWorld fun _ ↦ none)).helper 300)) := by
    constructor
    · decide
    · intro pid hp
      cases hp
      decide
  have hrange : InRange (passed ((promptOf (promptWorld fun _ ↦ none)).helper 300)) := by
    apply inRange_passed
    decide
  have hnul : ∀ text ∈ texts (passed ((promptOf (promptWorld fun _ ↦ none)).helper 300)),
      '\x00' ∉ text := by decide
  have hargv := (parse_argv_iff helperClap installedHelper hrange).mpr hplain
  refine ⟨hrange, hnul, ?_, hargv⟩
  rw [childArgv_eq (by decide) hnul]
  exact hargv

/-- Its line, from either command line. -/
private theorem written_clickedLate :
    clickedLate.written
      (some (readBack (passed ((promptOf (promptWorld fun _ ↦ none)).helper 300)))) =
        toUtf8 "ALLOW\n".toList := by decide

private theorem decideEarly_sudo {p : Prompt}
    (h : decideEarly (promptWorld fun _ ↦ none) = .inr p) :
    p.helper p.rememberSecs = (promptOf (promptWorld fun _ ↦ none)).helper 300 := by
  have hd : decideEarly (promptWorld fun _ ↦ none) =
      .inr (promptOf (promptWorld fun _ ↦ none)) :=
    (decideEarly_eq_inr_iff _ _).mpr ⟨by decide, by decide, by decide, rfl⟩
  rw [hd] at h
  cases h
  have hsecs : (promptOf (promptWorld fun _ ↦ none)).rememberSecs = 300 := by decide
  rw [hsecs]

/-- The door is opened by that click. -/
theorem dialog_success_clicked_sudo :
    brokerlessOutside.authenticate (promptWorld fun _ ↦ none) = ⟨.success, .dialog⟩ ∧
      ∃ p remember, decideEarly (promptWorld fun _ ↦ none) = .inr p ∧
        DialogClicked helperClap (Helper.childArgv installedHelper (p.helper p.rememberSecs))
          (passed (p.helper p.rememberSecs)) remember clickedLate := by
  obtain ⟨-, hnul, hargv, -⟩ := parse_promptWorld
  have hs : brokerlessOutside.authenticate (promptWorld fun _ ↦ none) = ⟨.success, .dialog⟩ := by
    decide
  have hpath : '\x00' ∉ installedHelper := by decide
  have hreads : ∀ p, decideEarly (promptWorld fun _ ↦ none) = .inr p →
      Reads (brokerlessOutside.helper (p.helper p.rememberSecs)) (clickedLate.written
        (Args.parse helperClap (Helper.childArgv installedHelper (p.helper p.rememberSecs)))) := by
    intro p hp bs hbs
    rw [decideEarly_sudo hp, hargv, written_clickedLate]
    cases hbs
    exact .inl rfl
  refine ⟨hs, dialog_success_clicked helperClap hpath (by decide) ?_ hreads hs⟩
  intro p hp
  rw [decideEarly_sudo hp]
  exact hnul

/-- Both parents take it for an Allow. -/
theorem verdict_read_back_sudo :
    let req := (promptOf (promptWorld fun _ ↦ none)).helper 300
    let args := Args.parse helperClap (Helper.childArgv installedHelper req)
    Helper.run ⟨true, true, fun _ ↦ some 1, .bytes (clickedLate.written args)⟩ req =
        .ok ⟨.allow, false⟩ ∧
      HelperUi.run installedHelper (passed req) ⟨none, true, clickedLate.written args, .closed⟩ =
        some (.ok ⟨.allow, false⟩) := by
  intro req args
  obtain ⟨-, hnul, hargv, -⟩ := parse_promptWorld
  have hverdict : clickedLate.verdict args = some ⟨.allow, false⟩ := by
    show clickedLate.verdict (Args.parse helperClap (Helper.childArgv installedHelper req)) = _
    rw [hargv]
    decide
  obtain ⟨hpam, hagent⟩ := verdict_read_back clickedLate args
  constructor
  · rw [hpam _ req rfl rfl ⟨1, rfl, by decide⟩ rfl, hverdict]
    rfl
  · rw [hagent installedHelper (passed req) _ rfl rfl _ rfl rfl, hverdict]
    · rfl
    · exact nulFree_argv (by decide) hnul

end Sentinel.System.Verdicts
