import Sentinel.Agent.Inputs
import Sentinel.Base.Program
import Sentinel.Shared.Cli

/-!
# One authentication session

Crate `sentinel-polkit-agent`, `session::run` (`crates/sentinel-polkit-agent/src/session.rs`)
with the dialog request of `helper_ui.rs`. The session is a program over its awaits: the
queue, the remember cache, the dialog helper and the hand-off to `polkit-agent-helper-1`.
What follows says where such a program can stand and what it has decided by then; log lines and
desktop notifications are left out.
-/

namespace Sentinel.Agent

open Sentinel.Base Sentinel.Shared

/-- `helper_ui::Request`, `helper_ui.rs:36-51`. -/
structure DialogRequest where
  title : Str
  message : Str
  secondary : Str
  timeout : Nat
  minTime : Nat
  randomize : Bool
  soundName : Str
  rememberSecs : UInt32
  processExe : Option Str
  processCmdline : Option Str
  processPid : Option Int
  processCwd : Option Str
  requestingUser : Option Str
  action : Option Str
  deriving DecidableEq, Repr

/-- `Request::for_action`, `helper_ui.rs:90-137`. -/
def DialogRequest.forAction (i : AuthInputs) : DialogRequest :=
  let processName := (i.processExe.bind processBasename).getD "unknown".toList
  { title := formatMessage i.username polkitPamService processName i.cfg.title
    message := formatMessage i.username polkitPamService processName i.cfg.message
    secondary := formatMessage i.username polkitPamService processName i.cfg.secondary
    timeout := i.cfg.timeout.toNat
    minTime := i.cfg.minDisplayTimeMs.toNat
    randomize := i.cfg.randomizeButtons
    soundName := i.cfg.soundName
    rememberSecs := i.rememberSecs
    processExe := i.processExe
    processCmdline := i.processCmdline
    processPid := i.processPid
    processCwd := i.processCwd
    requestingUser := i.requestingUser
    action := some i.actionId }

/-- The words of an option that is passed with a value or left out. -/
def optionWords (name : String) : Option Str → List Str
  | some value => [name.toList, value]
  | none => []

/-- The words `helper_ui::run` starts the helper with, `helper_ui.rs:150-187`. -/
def DialogRequest.argv (helperPath : Str) (req : DialogRequest) : List Str :=
  [helperPath, "--title".toList, req.title, "--message".toList, req.message,
    "--secondary".toList, req.secondary, "--timeout".toList, Nat.toDigits 10 req.timeout,
    "--min-time".toList, Nat.toDigits 10 req.minTime,
    "--remember-secs".toList, Nat.toDigits 10 req.rememberSecs.toNat] ++
  (if req.soundName ≠ [] then ["--sound-name".toList, req.soundName] else []) ++
  (if req.randomize then ["--randomize".toList] else []) ++
  optionWords "--process-exe" req.processExe ++
  optionWords "--process-cmdline" req.processCmdline ++
  optionWords "--process-pid" (req.processPid.map intToString) ++
  optionWords "--process-cwd" req.processCwd ++
  optionWords "--requesting-user" req.requestingUser ++
  optionWords "--action" req.action

/-- The awaits of a session. -/
inductive Await where
  | push (actionId : Str)
  | isFresh (actionId command : Str) (ttlSecs : UInt32)
  | remember (actionId command : Str)
  | dialog (req : DialogRequest)
  | helper1 (username cookie : Str)
  | drain

/-- What the awaits return; an absent verdict or result is an error. -/
abbrev Await.Result : Await → Type
  | .push _ => Unit
  | .isFresh _ _ _ => Bool
  | .remember _ _ => Unit
  | .dialog _ => Option Verdict
  | .helper1 _ _ => Option Bool
  | .drain => Unit

/-- A session program; no result is an error. -/
abbrev Session : Type := Program Await Await.Result (Option Bool)

/-- The end of a hand-off: a refused approval is drained, an error is passed on. -/
def afterHelper1 : Option Bool → Session
  | none => .pure none
  | some true => .pure (some true)
  | some false => .call .drain (fun _ ↦ .pure (some false))

/-- The hand-off behind the push. -/
def awaitHelper1 (i : AuthInputs) : Session :=
  .call (.helper1 i.username i.cookie) afterHelper1

/-- Pre-approve and hand off to helper-1, the tail of all three allow paths;
`session.rs:88-105`, `session.rs:149-160` and `session.rs:253-272`. -/
def handOff (i : AuthInputs) : Session := .call (.push i.actionId) (fun _ ↦ awaitHelper1 i)

/-- What follows the dialog, `session.rs:178-272`. -/
def afterDialog (i : AuthInputs) : Option Verdict → Session
  | none => .pure none
  | some v =>
    match v.outcome with
    | .deny => .pure (some false)
    | .timeout => .pure (some false)
    | .allow =>
      if v.remember && 0 < i.rememberSecs then
        .call (.remember i.actionId i.rememberCommand) (fun _ ↦ handOff i)
      else handOff i

/-- The dialog, `session.rs:163-177`. -/
def dialogStage (i : AuthInputs) : Session :=
  .call (.dialog (DialogRequest.forAction i)) (afterDialog i)

/-- What follows the cache, `session.rs:131-162`. -/
def afterCheck (i : AuthInputs) (fresh : Bool) : Session :=
  if fresh then handOff i else dialogStage i

/-- `session::run`, `session.rs:34-273`. -/
def run (i : AuthInputs) : Session :=
  match i.decision with
  | .deny => .pure (some false)
  | .allow => handOff i
  | .ask =>
    if 0 < i.rememberSecs then
      .call (.isFresh i.actionId i.rememberCommand i.rememberSecs) (afterCheck i)
    else dialogStage i

/-! ### Where a session can stand -/

/-- What a session has learned: whether the cache answered fresh, and the dialog's answer. -/
structure Learned where
  fresh : Bool := false
  dialog : Option (Option Verdict) := none
  deriving DecidableEq

/-- A request decided positively: by policy, by a fresh grant inside a positive window, or by
an allowing dialog. -/
def Positive (i : AuthInputs) (k : Learned) : Prop :=
  (i.decision = .allow ∧ k.dialog = none) ∨
    (i.decision = .ask ∧ 0 < i.rememberSecs ∧ k.fresh = true ∧ k.dialog = none) ∨
    (i.decision = .ask ∧ k.fresh = false ∧ ∃ v, k.dialog = some (some v) ∧ v.outcome = .allow)

/-- The places of a session program, with what it has learned and whether it has pushed. -/
inductive Place (i : AuthInputs) : Session → Learned → Bool → Prop where
  | check (hd : i.decision = .ask) (hs : 0 < i.rememberSecs) :
      Place i (.call (.isFresh i.actionId i.rememberCommand i.rememberSecs) (afterCheck i)) {}
        false
  | dialog (hd : i.decision = .ask) :
      Place i (.call (.dialog (DialogRequest.forAction i)) (afterDialog i)) {} false
  | remember (hd : i.decision = .ask) (hs : 0 < i.rememberSecs) :
      Place i (.call (.remember i.actionId i.rememberCommand) (fun _ ↦ handOff i))
        { dialog := some (some ⟨.allow, true⟩) } false
  | push {k : Learned} (hp : Positive i k) :
      Place i (.call (.push i.actionId) (fun _ ↦ awaitHelper1 i)) k false
  | helper1 {k : Learned} (hp : Positive i k) :
      Place i (.call (.helper1 i.username i.cookie) afterHelper1) k true
  | drain {k : Learned} (hp : Positive i k) :
      Place i (.call .drain (fun _ ↦ .pure (some false))) k true
  | refused {k : Learned} {r : Option Bool} : Place i (.pure r) k false
  | done {k : Learned} {r : Option Bool} (hp : Positive i k) : Place i (.pure r) k true

/-- A session starts in a place. -/
theorem place_run (i : AuthInputs) : Place i (run i) {} false := by
  unfold run
  cases hd : i.decision with
  | deny => exact .refused
  | allow => exact .push (Or.inl ⟨hd, rfl⟩)
  | ask =>
    simp only
    split
    next hs => exact .check hd hs
    next => exact .dialog hd

/-- The answer of the cache. -/
theorem place_afterCheck {i : AuthInputs} (hd : i.decision = .ask) (hs : 0 < i.rememberSecs)
    (fresh : Bool) : Place i (afterCheck i fresh) { fresh } false := by
  cases fresh with
  | true => exact .push (Or.inr (Or.inl ⟨hd, hs, rfl, rfl⟩))
  | false => exact .dialog hd

/-- The answer of the dialog. -/
theorem place_afterDialog {i : AuthInputs} (hd : i.decision = .ask) (v : Option Verdict) :
    Place i (afterDialog i v) { dialog := some v } false := by
  cases v with
  | none => exact .refused
  | some v =>
    obtain ⟨outcome, remember⟩ := v
    cases outcome with
    | deny => exact .refused
    | timeout => exact .refused
    | allow =>
      simp only [afterDialog]
      split
      next h =>
        rw [Bool.and_eq_true, decide_eq_true_eq] at h
        obtain ⟨rfl, hs⟩ := h
        exact .remember hd hs
      next => exact .push (Or.inr (Or.inr ⟨hd, rfl, _, rfl, rfl⟩))

/-- A session that has pushed was decided positively. -/
theorem Place.positive {i : AuthInputs} {prog : Session} {k : Learned}
    (h : Place i prog k true) : Positive i k := by
  cases h with
  | helper1 hp => exact hp
  | drain hp => exact hp
  | done hp => exact hp

/-- The result of helper-1. -/
theorem place_afterHelper1 {i : AuthInputs} {k : Learned} (hp : Positive i k)
    (r : Option Bool) : Place i (afterHelper1 r) k true := by
  match r with
  | none => exact .done hp
  | some true => exact .done hp
  | some false => exact .drain hp

end Sentinel.Agent
