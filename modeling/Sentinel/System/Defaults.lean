import Sentinel.Agent.Agent
import Sentinel.Pam.Environment

/-!
# What a configuration file can turn on

`Document::load_from`, `crates/sentinel-shared/src/lib.rs:551-574`, in front of the two paths that
use it. A file that is absent, cannot be read or does not decode leaves the defaults, under which
every request is asked; and the broker of the terminal paths is only reached by a window that the
file gives to the service by name.
-/

namespace Sentinel.System.Defaults

open Sentinel.Base Sentinel.Shared Sentinel.Broker Sentinel.Pam Sentinel.Agent

/-- What the read of the file comes to. -/
inductive FileRead where
  | notFound
  | failed
  | bytes (bs : Bytes)
  deriving DecidableEq, Repr

/-- The document the file decodes to, for a decoder of TOML texts. -/
def parsed (fromStr : Str → Option Document) : FileRead → Option Document
  | .notFound | .failed => none
  | .bytes bs => (fromUtf8 bs).bind fromStr

/-- `Document::load_from`, `lib.rs:551-574`. -/
def loadFrom (fromStr : Str → Option Document) : FileRead → Document
  | .notFound => {}
  | .failed => {}
  | .bytes bs =>
    match fromUtf8 bs with
    | none => {}
    | some contents =>
      match fromStr contents with
      | some document => document
      | none => {}

section Load

variable {fromStr : Str → Option Document} {file : FileRead}

private theorem loadFrom_of_parsed {document : Document} (h : parsed fromStr file = some document) :
    loadFrom fromStr file = document := by
  cases file with
  | notFound => cases h
  | failed => cases h
  | bytes bs =>
    obtain ⟨contents, hc, hd⟩ := Option.bind_eq_some_iff.mp h
    simp only [loadFrom, hc, hd]

private theorem loadFrom_of_not_parsed (h : parsed fromStr file = none) :
    loadFrom fromStr file = {} := by
  cases file with
  | notFound => rfl
  | failed => rfl
  | bytes bs =>
    rw [parsed] at h
    cases hc : fromUtf8 bs with
    | none => simp only [loadFrom, hc]
    | some contents =>
      rw [hc, Option.bind_some] at h
      simp only [loadFrom, hc, h]

end Load

/-! ### Opting in -/

/-- The file opts a service into a window. -/
def OptsIn (fromStr : Str → Option Document) (file : FileRead) (service : Str) : Prop :=
  ∃ document svc secs, parsed fromStr file = some document ∧
    document.services service = some svc ∧ svc.rememberSeconds = some secs ∧ 0 < secs

/-- A call that neither asks nor tells the broker, and offers no window. -/
def Forgets : Pam.Call → Prop
  | .queryAgent _ => True
  | .roundtrip _ _ => False
  | .runHelper req => req.rememberSecs = 0

/-- Without an opt-in a terminal service has no window. -/
private theorem rememberSeconds_eq_zero {fromStr : Str → Option Document} {file : FileRead}
    {service : Str} (hservice : service ≠ polkitPamService) (h : ¬ OptsIn fromStr file service) :
    ((loadFrom fromStr file).forService service).rememberSeconds = 0 := by
  have hbase (document : Document) : (document.base service).rememberSeconds = 0 := by
    rw [Document.base]
    exact if_neg hservice
  cases hp : parsed fromStr file with
  | none =>
    rw [loadFrom_of_not_parsed hp]
    exact hbase {}
  | some document =>
    rw [loadFrom_of_parsed hp, Document.forService]
    cases hs : document.services service with
    | none => exact hbase document
    | some svc =>
      show svc.rememberSeconds.getD (document.base service).rememberSeconds = 0
      cases hr : svc.rememberSeconds with
      | none => exact hbase document
      | some secs =>
        by_contra hne
        exact h ⟨document, svc, secs, hp, hs, hr, UInt32.pos_iff_ne_zero.mpr hne⟩

private theorem dialogStage_forgets {p : Prompt} (hs : p.rememberSecs = 0)
    (hhelper : ∀ secs, (p.helper secs).rememberSecs = secs) :
    (dialogStage p).EveryCall Forgets := by
  rw [dialogStage_eq]
  refine ⟨(hhelper _).trans hs, fun v ↦ ?_⟩
  unfold recordStage
  cases p.key with
  | none => trivial
  | some key =>
    simp only [hs, UInt32.lt_irrefl, decide_false, Bool.and_false, Bool.false_eq_true, if_false]
    trivial

/-- A terminal service that the file does not opt in by name never reaches the broker and never
offers the checkbox, whatever else the file holds and whatever a run is answered. -/
theorem terminal_opt_in {fromStr : Str → Option Document} {file : FileRead} {w : World}
    (hdocument : w.document = loadFrom fromStr file) (hservice : pamService w ≠ polkitPamService)
    (h : ¬ OptsIn fromStr file (pamService w)) : (smAuthenticate w).EveryCall Forgets := by
  have hzero : (serviceConfig w).rememberSeconds = 0 := by
    rw [serviceConfig, hdocument]
    exact rememberSeconds_eq_zero hservice h
  apply smAuthenticate_everyCall (fun _ ↦ trivial)
  intro p hp
  obtain ⟨-, hcfg, -, hhelper⟩ := decideEarly_inr hp
  have hsecs : p.cfg.rememberSeconds = 0 := hcfg ▸ hzero
  have hwindow : ¬ 0 < p.cfg.rememberSeconds := by
    rw [hsecs]
    exact UInt32.lt_irrefl 0
  rw [rememberStage_skip (Or.inr hwindow)]
  apply dialogStage_forgets _ hhelper
  rw [Prompt.rememberSecs, hsecs, ite_self]

/-- A decoder that finds a window for `su` in every text. -/
def suOnly : Str → Option Document := fun _ ↦ some
  { services := fun s ↦ if s = "su".toList then some { rememberSeconds := some 300 } else none }

/-- The window of `su` is not one of `sudo`. -/
theorem terminal_opt_in_sudo :
    let w : World := { promptWorld (fun _ ↦ none) with document := loadFrom suOnly (.bytes []) }
    (smAuthenticate w).EveryCall Forgets := by
  intro w
  have hdocument : w.document = loadFrom suOnly (.bytes []) := rfl
  apply terminal_opt_in hdocument (by decide)
  rintro ⟨document, svc, secs, hparsed, hservices, -⟩
  cases hparsed
  have hother : pamService w ≠ "su".toList := by decide
  dsimp only at hservices
  rw [if_neg hother] at hservices
  cases hservices

/-! ### Without a configuration -/

private theorem defaults_forService (service : Str) :
    (({} : Document).forService service).enabled = true ∧
      (({} : Document).forService service).headlessAction = .password ∧
      (({} : Document).forService service).policy = ⟨[], []⟩ := ⟨rfl, rfl, rfl⟩

private theorem empty_decide (exe action : Option Str) :
    (⟨[], []⟩ : Policy).decide exe action = .ask := rfl

/-- Under the defaults a run returns early only to leave the request to the next module. -/
private theorem decideEarly_defaults {w : World} {ret : PamReturn} (hdocument : w.document = {})
    (h : decideEarly w = .inl ret) : ret = ⟨.ignore, .headless⟩ := by
  obtain ⟨henabled, hheadless, hpolicy⟩ := defaults_forService (pamService w)
  simp only [decideEarly, hdocument, henabled, handleHeadless, hheadless, checkPolicy, hpolicy,
    empty_decide, Bool.not_true, Bool.false_eq_true, if_false] at h
  split at h
  · cases h
    rfl
  · cases h

private theorem service_of_granted {h : (c : Pam.Call) → Answer c} {w : World} {p : Prompt}
    (hdocument : w.document = {}) (hp : decideEarly w = .inr p) (hg : Granted h p) :
    pamService w = polkitPamService := by
  obtain ⟨key, -, hsecs, -⟩ := hg
  rw [(decideEarly_inr hp).2.1, hdocument] at hsecs
  by_contra hne
  have hzero : (({} : Document).forService (pamService w)).rememberSeconds = 0 := if_neg hne
  rw [hzero] at hsecs
  exact UInt32.lt_irrefl 0 hsecs

private theorem allow_of_dialogCode {v : Option Verdict} (h : dialogCode v = .success) :
    ∃ remember, v = some ⟨.allow, remember⟩ := by
  match v, h with
  | some ⟨.allow, remember⟩, _ => exact ⟨remember, rfl⟩

/-- Whether a session handed its request off. -/
private theorem eval_run_defaults {i : AuthInputs} (hdecision : i.decision = .ask)
    (h : (e : Await) → e.Result) (hrun : (Agent.run i).eval h = some true) :
    (0 < i.rememberSecs ∧ h (.isFresh i.actionId i.rememberCommand i.rememberSecs) = true) ∨
      ∃ remember, h (.dialog (DialogRequest.forAction i)) = some ⟨.allow, remember⟩ := by
  have hdialog (hr : (Agent.dialogStage i).eval h = some true) :
      ∃ remember, h (.dialog (DialogRequest.forAction i)) = some ⟨.allow, remember⟩ := by
    rw [Agent.dialogStage, Program.eval_call] at hr
    match hv : (h (.dialog (DialogRequest.forAction i)) : Option Verdict) with
    | none =>
      rw [hv] at hr
      cases hr
    | some ⟨.deny, _⟩ =>
      rw [hv] at hr
      cases hr
    | some ⟨.timeout, _⟩ =>
      rw [hv] at hr
      cases hr
    | some ⟨.allow, remember⟩ => exact ⟨remember, rfl⟩
  rw [Agent.run, hdecision] at hrun
  dsimp only at hrun
  split at hrun
  next hsecs =>
    rw [Program.eval_call] at hrun
    match hf : (h (.isFresh i.actionId i.rememberCommand i.rememberSecs) : Bool) with
    | true => exact .inl ⟨hsecs, rfl⟩
    | false =>
      rw [hf] at hrun
      exact .inr (hdialog hrun)
  next => exact .inr (hdialog hrun)

/-- A session was told to approve: by a fresh grant or by an Allow of its dialog. -/
def Told (i : AuthInputs) (tr : List (Sigma Await.Result)) : Prop :=
  (0 < i.rememberSecs ∧
      ⟨.isFresh i.actionId i.rememberCommand i.rememberSecs, true⟩ ∈ tr) ∨
    ∃ remember, ⟨.dialog (DialogRequest.forAction i), some ⟨.allow, remember⟩⟩ ∈ tr

/-- An approval is pushed only when the session was told to. -/
def PushesWhenTold (i : AuthInputs) (tr : List (Sigma Await.Result)) (e : Await) : Prop :=
  ∀ actionId, e = .push actionId → Told i tr

section Pushes

variable {i : AuthInputs} {tr : List (Sigma Await.Result)}

private theorem Told.concat (h : Told i tr) (event : Sigma Await.Result) :
    Told i (tr ++ [event]) := by
  rcases h with ⟨hs, hmem⟩ | ⟨remember, hmem⟩
  · exact .inl ⟨hs, List.mem_append_left _ hmem⟩
  · exact .inr ⟨remember, List.mem_append_left _ hmem⟩

private theorem handOff_told (h : Told i tr) :
    (handOff i).EveryCallBehind (PushesWhenTold i) tr := by
  refine ⟨fun _ _ ↦ h, fun _ ↦ ⟨nofun, fun answer ↦ ?_⟩⟩
  match answer with
  | none => trivial
  | some true => trivial
  | some false => exact ⟨nofun, fun _ ↦ trivial⟩

private theorem dialogStage_told :
    (Agent.dialogStage i).EveryCallBehind (PushesWhenTold i) tr := by
  refine ⟨nofun, fun answer ↦ ?_⟩
  match answer with
  | none => trivial
  | some ⟨.deny, _⟩ => trivial
  | some ⟨.timeout, _⟩ => trivial
  | some ⟨.allow, remember⟩ =>
    have htold : Told i
        (tr ++ [⟨.dialog (DialogRequest.forAction i), some ⟨.allow, remember⟩⟩]) :=
      .inr ⟨remember, List.mem_append_right _ (List.mem_singleton_self _)⟩
    dsimp only [afterDialog]
    split
    next => exact ⟨nofun, fun _ ↦ handOff_told (htold.concat _)⟩
    next => exact handOff_told htold

/-- A session that the policy does not decide pushes nothing untold, wherever it is cut off. -/
private theorem run_told (hdecision : i.decision = .ask) :
    (Agent.run i).EveryCallBehind (PushesWhenTold i) [] := by
  rw [Agent.run, hdecision]
  dsimp only
  split
  next hs =>
    refine ⟨nofun, fun fresh ↦ ?_⟩
    match fresh with
    | true => exact handOff_told (.inl ⟨hs, List.mem_singleton_self _⟩)
    | false => exact dialogStage_told
  next => exact dialogStage_told

end Pushes

/-- When the file is absent, cannot be read or does not decode, no run and no session decides for
itself: what opens the door is the agent's approval, an Allow, or a grant of the polkit service, and
a refusal is the dialog's; and a session pushes an approval, or ends well, only by a fresh grant or
an Allow. -/
theorem lost_file_asks {fromStr : Str → Option Document} {file : FileRead}
    (hlost : parsed fromStr file = none) :
    (∀ (w : World) (h : (c : Pam.Call) → Answer c), w.document = loadFrom fromStr file →
      (((smAuthenticate w).eval h).code = .success →
        Bypassed h w ∨ ∃ p, decideEarly w = .inr p ∧
          (pamService w = polkitPamService ∧ Granted h p ∨
            ∃ remember, h (.runHelper (p.helper p.rememberSecs)) = some ⟨.allow, remember⟩)) ∧
      (((smAuthenticate w).eval h).code = .authErr →
        ((smAuthenticate w).eval h).source = .dialog)) ∧
    ∀ (ownUid : UInt32) (env : Surroundings) (req : BeginRequest) (i : AuthInputs)
      (h : (e : Await) → e.Result), env.document = loadFrom fromStr file →
      beginInputs ownUid env req = .ok i →
        (Agent.run i).EveryCallBehind (PushesWhenTold i) [] ∧
          ((Agent.run i).eval h = some true →
            (0 < i.rememberSecs ∧
                h (.isFresh i.actionId i.rememberCommand i.rememberSecs) = true) ∨
              ∃ remember, h (.dialog (DialogRequest.forAction i)) = some ⟨.allow, remember⟩) := by
  rw [loadFrom_of_not_parsed hlost]
  constructor
  · intro w h hdocument
    have hreturned := returned_eval h w
    generalize (smAuthenticate w).eval h = ret at hreturned ⊢
    constructor
    · intro hcode
      cases hreturned with
      | bypass hb => exact .inl hb
      | early hb hd => rw [decideEarly_defaults hdocument hd] at hcode; cases hcode
      | granted hb hd hg => exact .inr ⟨_, hd, .inl ⟨service_of_granted hdocument hd hg, hg⟩⟩
      | asked hb hd hg => exact .inr ⟨_, hd, .inr (allow_of_dialogCode hcode)⟩
    · intro hcode
      cases hreturned with
      | bypass hb => cases hcode
      | early hb hd => rw [decideEarly_defaults hdocument hd] at hcode; cases hcode
      | granted hb hd hg => cases hcode
      | asked hb hd hg => rfl
  · intro ownUid env req i h hdocument hi
    have hdecision : i.decision = .ask := by
      rw [AuthInputs.decision, (beginInputs_ok hi).2.2.2, hdocument]
      rfl
    exact ⟨run_told hdecision, eval_run_defaults hdecision h⟩

/-- A file that is no text: `sudo id` is let in by its Allow, and so is a polkit request. -/
theorem lost_file_asks_sudo :
    let w : World := { promptWorld (fun _ ↦ none) with
      document := loadFrom suOnly (.bytes [255]) }
    let h : (c : Pam.Call) → Answer c
      | .queryAgent _ => none
      | .roundtrip _ _ => none
      | .runHelper _ => some ⟨.allow, false⟩
    let env : Surroundings := { plainSurroundings with
      document := loadFrom suOnly (.bytes [255]) }
    let h' : (e : Await) → e.Result
      | .push _ => ()
      | .isFresh _ _ _ => false
      | .remember _ _ => ()
      | .dialog _ => some ⟨.allow, false⟩
      | .helper1 _ _ => some true
      | .drain => ()
    (((smAuthenticate w).eval h).code = .success ∧
      (Bypassed h w ∨ ∃ p, decideEarly w = .inr p ∧
        (pamService w = polkitPamService ∧ Granted h p ∨
          ∃ remember, h (.runHelper (p.helper p.rememberSecs)) = some ⟨.allow, remember⟩))) ∧
      ∃ i, beginInputs 1000 env (plainRequest "cookie") = .ok i ∧
        (Agent.run i).EveryCallBehind (PushesWhenTold i) [] ∧ (Agent.run i).eval h' = some true ∧
        (0 < i.rememberSecs ∧ h' (.isFresh i.actionId i.rememberCommand i.rememberSecs) = true ∨
          ∃ remember, h' (.dialog (DialogRequest.forAction i)) = some ⟨.allow, remember⟩) := by
  intro w h env h'
  have hlost : parsed suOnly (.bytes [255]) = none := by decide
  obtain ⟨hpam, hagent⟩ := lost_file_asks hlost
  have hcode : ((smAuthenticate w).eval h).code = .success := by decide
  obtain ⟨i, hi⟩ : ∃ i, beginInputs 1000 env (plainRequest "cookie") = .ok i := ⟨_, rfl⟩
  have hrun : (Agent.run i).eval h' = some true := by
    cases hi
    rfl
  obtain ⟨hpushes, hends⟩ := hagent 1000 env (plainRequest "cookie") i h' rfl hi
  exact ⟨⟨hcode, (hpam w h rfl).1 hcode⟩, i, hi, hpushes, hrun, hends hrun⟩

end Sentinel.System.Defaults
