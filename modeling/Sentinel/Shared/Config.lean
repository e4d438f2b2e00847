import Sentinel.Shared.Command

/-!
# Configuration, verdicts and static policy

Crate `sentinel-shared`, `crates/sentinel-shared/src/lib.rs:79-614`. The TOML document is
taken parsed, as `Document::load` returns it; `for_service` computes what one PAM service
sees of it. Fields that only logging reads are left out.
-/

namespace Sentinel.Shared

open Sentinel.Base

/-- `POLKIT_PAM_SERVICE`, `lib.rs:57`. -/
def polkitPamService : Str := "polkit-1".toList

/-- `Outcome`, `lib.rs:84-88`. -/
inductive Outcome where
  | allow
  | deny
  | timeout
  deriving DecidableEq, Repr

/-- `Outcome::is_allow`, `lib.rs:123-125`. -/
def Outcome.isAllow : Outcome → Bool
  | .allow => true
  | .deny | .timeout => false

/-- `Outcome::from_str`, `lib.rs:101-111`. -/
def Outcome.fromStr (s : Str) : Option Outcome :=
  if trim s = "ALLOW".toList then some .allow
  else if trim s = "DENY".toList then some .deny
  else if trim s = "TIMEOUT".toList then some .timeout
  else none

/-- `Verdict`, `lib.rs:136-141`. -/
structure Verdict where
  outcome : Outcome
  remember : Bool
  deriving DecidableEq, Repr

/-- `Verdict::REMEMBER_TOKEN`, `lib.rs:145`. -/
def Verdict.rememberToken : Str := "REMEMBER".toList

/-- `Verdict::from_str`, `lib.rs:158-166`: the outcome, then the marker anywhere behind it. -/
def Verdict.fromStr (s : Str) : Option Verdict :=
  (Outcome.fromStr ((splitWhitespace s).headD [])).map fun outcome ↦
    { outcome, remember := (splitWhitespace s).tail.contains rememberToken }

/-- `HeadlessAction`, `lib.rs:170-181`. -/
inductive HeadlessAction where
  | allow
  | deny
  | password
  deriving DecidableEq, Repr

/-- `PolicyDecision`, `lib.rs:359-366`. -/
inductive PolicyDecision where
  | allow
  | deny
  | ask
  deriving DecidableEq, Repr

/-- `Policy`, `lib.rs:388-394`. -/
structure Policy where
  allow : List Str
  deny : List Str
  deriving DecidableEq, Repr

namespace Policy

/-- One entry against a request: the action id, the whole path for an entry with a slash,
the basename for a bare one; `lib.rs:412-428`. -/
def entryMatches (exe action : Option Str) (entry : Str) : Bool :=
  if action = some entry then true
  else match exe with
    | some path =>
      if entry.contains '/' then entry == path else processBasename path == some entry
    | none => false

/-- `Policy::list_matches`, `lib.rs:410-429`. -/
def listMatches (list : List Str) (exe action : Option Str) : Bool :=
  list.any (entryMatches exe action)

/-- `Policy::decide`, `lib.rs:400-408`: deny wins over allow. -/
def decide (p : Policy) (exe action : Option Str) : PolicyDecision :=
  if listMatches p.deny exe action then .deny
  else if listMatches p.allow exe action then .allow
  else .ask

/-- Without an executable and an action nothing matches. -/
theorem decide_none (p : Policy) : p.decide none none = .ask := by
  have hl (l : List Str) : listMatches l none none = false := by
    simp [listMatches, entryMatches]
  simp [decide, hl]

/-- An entry names a program: by its whole path when the entry has a slash, else by its
basename. -/
def NamesExe (entry : Str) (exe : Option Str) : Prop :=
  ∃ path, exe = some path ∧
    if entry.contains '/' then entry = path else processBasename path = some entry

/-- An entry matches as the action id or as a name of the program. -/
theorem entryMatches_iff (exe action : Option Str) (entry : Str) :
    entryMatches exe action entry = true ↔ action = some entry ∨ NamesExe entry exe := by
  unfold entryMatches NamesExe
  by_cases ha : action = some entry
  · simp [ha]
  · cases exe with
    | none => simp [ha]
    | some path => simp [ha]

/-- A list matches when one of its entries does. -/
theorem listMatches_iff (list : List Str) (exe action : Option Str) :
    listMatches list exe action = true ↔
      ∃ entry ∈ list, action = some entry ∨ NamesExe entry exe := by
  simp only [listMatches, List.any_eq_true, entryMatches_iff]

/-- A request is denied exactly when a deny entry matches. -/
theorem decide_eq_deny_iff (p : Policy) (exe action : Option Str) :
    p.decide exe action = .deny ↔ ∃ entry ∈ p.deny, action = some entry ∨ NamesExe entry exe := by
  rw [← listMatches_iff, decide]
  split
  next h => simp [h]
  next h => split <;> simp [h]

/-- A request is allowed exactly when an allow entry matches and no deny entry does. -/
theorem decide_eq_allow_iff (p : Policy) (exe action : Option Str) :
    p.decide exe action = .allow ↔
      (∃ entry ∈ p.allow, action = some entry ∨ NamesExe entry exe) ∧
        ¬ ∃ entry ∈ p.deny, action = some entry ∨ NamesExe entry exe := by
  rw [← listMatches_iff, ← listMatches_iff, decide]
  split
  next h => simp [h]
  next h =>
    split
    next ha => simp [h, ha]
    next ha => simp [ha]

end Policy

/-- `General`, `lib.rs:229-268`, without `log_attempts`. -/
structure General where
  enabled : Bool := true
  timeout : UInt32 := 30
  randomizeButtons : Bool := true
  headlessAction : HeadlessAction := .password
  showProcessInfo : Bool := true
  minDisplayTimeMs : UInt32 := 500
  rememberSeconds : UInt32 := 300
  rememberScope : RememberScope := .command

/-- `Appearance` and `Audio`, `lib.rs:286-335`. -/
structure Appearance where
  title : Str := "Authentication Required".toList
  message : Str := "The application \"%p\" is requesting elevated privileges.".toList
  secondary : Str := []
  soundName : Str := "dialog-warning".toList

/-- `ServiceOverride`, `lib.rs:337-356`: an absent field inherits. -/
structure ServiceOverride where
  enabled : Option Bool := none
  timeout : Option UInt32 := none
  randomize : Option Bool := none
  rememberSeconds : Option UInt32 := none
  rememberScope : Option RememberScope := none

/-- `Notifications`, `lib.rs:204-210`. -/
structure Notifications where
  onDeny : Bool := false
  onTimeout : Bool := false

/-- `Document`, `lib.rs:184-198`; `Document::defaults()` is the default value. -/
structure Document where
  general : General := {}
  appearance : Appearance := {}
  services : Str → Option ServiceOverride := fun _ ↦ none
  policy : Policy := ⟨[], []⟩
  notifications : Notifications := {}

/-- `ServiceConfig`, `lib.rs:435-471`, without `log_attempts`. -/
structure ServiceConfig where
  enabled : Bool
  timeout : UInt32
  randomizeButtons : Bool
  headlessAction : HeadlessAction
  showProcessInfo : Bool
  minDisplayTimeMs : UInt32
  title : Str
  message : Str
  secondary : Str
  soundName : Str
  policy : Policy
  notifyOnDeny : Bool
  notifyOnTimeout : Bool
  rememberSeconds : UInt32
  rememberScope : RememberScope
  deriving DecidableEq, Repr

namespace Document

/-- The configuration before per-service overrides; `lib.rs:489-519`. Only the polkit
service inherits the general remember window, every other service starts at zero. -/
def base (d : Document) (service : Str) : ServiceConfig where
  enabled := d.general.enabled
  timeout := d.general.timeout
  randomizeButtons := d.general.randomizeButtons
  headlessAction := d.general.headlessAction
  showProcessInfo := d.general.showProcessInfo
  minDisplayTimeMs := d.general.minDisplayTimeMs
  title := d.appearance.title
  message := d.appearance.message
  secondary := d.appearance.secondary
  soundName := d.appearance.soundName
  policy := d.policy
  notifyOnDeny := d.notifications.onDeny
  notifyOnTimeout := d.notifications.onTimeout
  rememberSeconds := if service = polkitPamService then d.general.rememberSeconds else 0
  rememberScope := d.general.rememberScope

/-- `Document::for_service`, `lib.rs:488-537`. -/
def forService (d : Document) (service : Str) : ServiceConfig :=
  let cfg := d.base service
  match d.services service with
  | none => cfg
  | some svc =>
    { cfg with
      enabled := svc.enabled.getD cfg.enabled
      timeout := svc.timeout.getD cfg.timeout
      randomizeButtons := svc.randomize.getD cfg.randomizeButtons
      rememberSeconds := svc.rememberSeconds.getD cfg.rememberSeconds
      rememberScope := svc.rememberScope.getD cfg.rememberScope }

end Document

/-- `format_message`, `lib.rs:593-614`: one pass over the template. -/
def formatMessage (user service process : Str) : Str → Str
  | [] => []
  | '%' :: [] => ['%']
  | '%' :: c :: rest =>
    (if c = 'u' then user
      else if c = 's' then service
      else if c = 'p' then process
      else if c = '%' then ['%']
      else ['%', c]) ++ formatMessage user service process rest
  | c :: rest => c :: formatMessage user service process rest

end Sentinel.Shared
