import Mathlib.Data.List.Induction
import Sentinel.Base.Int32
import Sentinel.Shared.Cli
import Sentinel.Shared.Config

/-!
# The dialog controller

Crate `sentinel-helper-kde`, `crates/sentinel-helper-kde/src/bridge.rs`. The controller behind the
dialog counts ticks of 100 ms in a wrapping `i32`, opens the Allow button behind the minimum
display time and gives up at the timeout. A terminal event prints its verdict and ends the process.
What is only shown, texts, icon, progress bar and button order, is left out.
-/

namespace Sentinel.Kde

open Sentinel.Base Sentinel.Shared

/-- `TICK_MS`, `bridge.rs:89`. -/
def tickMs : Int32 := 100

/-- `DialogControllerRust`, `bridge.rs:94-117`. -/
structure DialogController where
  timeoutSecs : Int32
  minTimeMs : Int32
  remainingSecs : Int32
  elapsedMs : Int32
  allowEnabled : Bool
  showDetails : Bool
  rememberOffered : Bool
  rememberChecked : Bool
  deriving DecidableEq

namespace DialogController

/-- `DialogControllerRust::default`, `bridge.rs:119-190`. -/
def default (a : Args) : DialogController :=
  let timeoutSecs := (I32.tryFrom a.timeout).getD Int32.maxValue
  { timeoutSecs
    minTimeMs := (I32.tryFrom a.minTime).getD Int32.maxValue
    remainingSecs := timeoutSecs
    elapsedMs := 0
    allowEnabled := a.minTime == 0
    showDetails := false
    rememberOffered := 0 < a.rememberSecs
    rememberChecked := false }

/-- The whole seconds left of some milliseconds, rounded up. -/
def ceilSecs (ms : Int32) : Int32 := Int32.ofInt ((max ms.toInt 0 + 999) / 1000)

/-- The clock and the Allow button behind a tick, `bridge.rs:195-204`. -/
def advance (c : DialogController) (elapsed : Int32) : DialogController :=
  { c with
    elapsedMs := elapsed
    allowEnabled := c.allowEnabled || decide (c.minTimeMs ≤ elapsed) }

/-- `tick`, `bridge.rs:194-220`: the controller behind it and the verdict it ends with. -/
def tick (c : DialogController) : DialogController × Option Verdict :=
  let elapsed := c.elapsedMs + tickMs
  if 0 < c.timeoutSecs then
    let total := I32.saturatingMul c.timeoutSecs 1000
    ({ c.advance elapsed with remainingSecs := ceilSecs (total - elapsed) },
      if total ≤ elapsed then some ⟨.timeout, false⟩ else none)
  else (c.advance elapsed, none)

/-- `tick` with the arithmetic of the debug profile, where an overflow ends the process. -/
def tickChecked (c : DialogController) : Option (DialogController × Option Verdict) := do
  let elapsed ← I32.checkedAdd c.elapsedMs tickMs
  if 0 < c.timeoutSecs then
    let total := I32.saturatingMul c.timeoutSecs 1000
    let left ← I32.checkedSub total elapsed
    return ({ c.advance elapsed with remainingSecs := ceilSecs left },
      if total ≤ elapsed then some ⟨.timeout, false⟩ else none)
  else return (c.advance elapsed, none)

/-- `allow`, `bridge.rs:224-232`: nothing while the button is disabled. -/
def allow (c : DialogController) : DialogController × Option Verdict :=
  if c.allowEnabled then (c, some ⟨.allow, c.rememberOffered && c.rememberChecked⟩) else (c, none)

/-- `deny`, `bridge.rs:235-237`. -/
def deny (c : DialogController) : DialogController × Option Verdict := (c, some ⟨.deny, false⟩)

/-- `toggle_details`, `bridge.rs:240-243`. -/
def toggleDetails (c : DialogController) : DialogController × Option Verdict :=
  ({ c with showDetails := !c.showDetails }, none)

/-- The checkbox writes its property. -/
def setRememberChecked (c : DialogController) (checked : Bool) :
    DialogController × Option Verdict :=
  ({ c with rememberChecked := checked }, none)

end DialogController

/-- What the dialog calls. -/
inductive Event where
  | tick
  | allow
  | deny
  | toggleDetails
  | setRememberChecked (checked : Bool)
  deriving DecidableEq, Repr

/-- One call. -/
def DialogController.handle (c : DialogController) : Event → DialogController × Option Verdict
  | .tick => c.tick
  | .allow => c.allow
  | .deny => c.deny
  | .toggleDetails => c.toggleDetails
  | .setRememberChecked checked => c.setRememberChecked checked

/-- The helper process: its controller, what it has printed, and whether it has ended. -/
structure Dialog where
  controller : DialogController
  output : List Verdict := []
  exited : Bool := false

namespace Dialog

/-- The process as it comes up. -/
def start (a : Args) : Dialog := { controller := .default a }

/-- A call in the process; `finish`, `bridge.rs:267-273`, prints the verdict and exits, and in a
process that has ended nothing is called. -/
def step (d : Dialog) (e : Event) : Dialog :=
  if d.exited then d
  else
    { controller := (d.controller.handle e).1
      output := d.output ++ (d.controller.handle e).2.toList
      exited := (d.controller.handle e).2.isSome }

/-- A sequence of calls. -/
def run (a : Args) (es : List Event) : Dialog := es.foldl step (start a)

/-- The calls one after another. -/
theorem run_concat (a : Args) (es : List Event) (e : Event) :
    run a (es ++ [e]) = (run a es).step e := by
  rw [run, List.foldl_append]
  rfl

end Dialog

/-- The number of ticks. -/
def ticks (es : List Event) : Nat := es.count .tick

/-- What the checkbox was last set to. -/
def lastChecked (es : List Event) : Option Bool :=
  es.reverse.findSome? (fun
    | .setRememberChecked checked => some checked
    | _ => none)

/-- One more tick counts. -/
theorem ticks_tick (es : List Event) : ticks (es ++ [.tick]) = ticks es + 1 := by
  simp [ticks]

/-- Another event does not. -/
theorem ticks_other {e : Event} (h : e ≠ .tick) (es : List Event) :
    ticks (es ++ [e]) = ticks es := by
  simp [ticks, List.count_append, h]

/-- The last set decides. -/
theorem lastChecked_concat (es : List Event) (e : Event) :
    lastChecked (es ++ [e]) =
      match e with
      | .setRememberChecked checked => some checked
      | _ => lastChecked es := by
  rw [lastChecked, List.reverse_append, List.reverse_singleton, List.singleton_append,
    List.findSome?_cons]
  cases e <;> rfl

/-! ### What a sequence of calls leaves -/

/-- The milliseconds of some ticks as 32 bits count them. -/
def wrappedMs (n : Nat) : Int := (100 * (n : Int)).bmod 4294967296

/-- Behind some ticks the button is open: the counter has stood at the minimum time or above. -/
def Opened (a : Args) (n : Nat) : Prop := ∃ m ≤ n, (a.minTime : Int) ≤ wrappedMs m

/-- A tick brings the deadline. -/
def Due (a : Args) (n : Nat) : Prop := 0 < a.timeout ∧ 1000 * (a.timeout : Int) ≤ wrappedMs n

/-- The controller behind some calls: the counter wraps, the limits are cut at the maximum, the
button is open from the minimum time on, and the checkbox is as it was last set. -/
structure Follows (a : Args) (es : List Event) (c : DialogController) : Prop where
  timeout : c.timeoutSecs.toInt = min (a.timeout : Int) 2147483647
  minTime : c.minTimeMs.toInt = min (a.minTime : Int) 2147483647
  elapsed : c.elapsedMs.toInt = wrappedMs (ticks es)
  enabled : c.allowEnabled = true ↔ Opened a (ticks es)
  offered : c.rememberOffered = decide (0 < a.rememberSecs)
  checked : c.rememberChecked = (lastChecked es).getD false

/-- The controller as it comes up. -/
theorem follows_default (a : Args) : Follows a [] (.default a) where
  timeout := I32.toInt_tryFrom a.timeout
  minTime := I32.toInt_tryFrom a.minTime
  elapsed := rfl
  enabled := by
    have hstart : wrappedMs 0 = 0 := rfl
    rw [show ticks [] = 0 from rfl, Opened]
    simp [DialogController.default, hstart]
  offered := rfl
  checked := rfl

/-- The wrapped counter never runs ahead of the clock, and stands on multiples of four, so it never
reaches the maximum. -/
theorem wrappedMs_bounds (n : Nat) : wrappedMs n ≤ 100 * n ∧ wrappedMs n < 2147483647 := by
  unfold wrappedMs Int.bmod
  dsimp only
  split
  · omega
  · omega

/-- An open button is open behind the minimum time. -/
theorem Opened.late {a : Args} {n : Nat} (h : Opened a n) : a.minTime ≤ 100 * n := by
  obtain ⟨m, hm, hle⟩ := h
  have hclock := (wrappedMs_bounds m).1
  omega

/-- One more tick opens the button when it brings the counter there. -/
theorem opened_succ {a : Args} {n : Nat} :
    Opened a (n + 1) ↔ Opened a n ∨ (a.minTime : Int) ≤ wrappedMs (n + 1) := by
  constructor
  · rintro ⟨m, hm, hle⟩
    rcases Nat.le_succ_iff.mp hm with hm | rfl
    · exact Or.inl ⟨m, hm, hle⟩
    · exact Or.inr hle
  · rintro (⟨m, hm, hle⟩ | hle)
    · exact ⟨m, hm.trans (Nat.le_succ n), hle⟩
    · exact ⟨n + 1, Nat.le_refl _, hle⟩

section Steps

variable {a : Args} {es : List Event} {c : DialogController}

/-- The counter behind one more tick. -/
theorem Follows.toInt_elapsed (h : Follows a es c) :
    (c.elapsedMs + tickMs).toInt = wrappedMs (ticks es + 1) := by
  have htick : tickMs.toInt = 100 := rfl
  have hnext : 100 * ((ticks es + 1 : Nat) : Int) = 100 * (ticks es : Int) + 100 := by omega
  rw [Int32.toInt_add, h.elapsed, htick]
  unfold wrappedMs
  rw [hnext]
  exact Int.bmod_add_bmod

/-- The deadline in milliseconds is cut at the maximum. -/
theorem Follows.toInt_total (h : Follows a es c) :
    (I32.saturatingMul c.timeoutSecs 1000).toInt = min (1000 * (a.timeout : Int)) 2147483647 := by
  have hk : (1000 : Int32).toInt = 1000 := rfl
  have ht := h.timeout
  rw [I32.toInt_saturatingMul]
  · rw [hk]
    omega
  · rw [hk]
    omega

/-- Behind a tick the button is open only behind the minimum time. -/
theorem Follows.advance (h : Follows a es c) :
    Follows a (es ++ [.tick]) (c.advance (c.elapsedMs + tickMs)) where
  timeout := h.timeout
  minTime := h.minTime
  elapsed := by
    rw [ticks_tick]
    exact h.toInt_elapsed
  enabled := by
    rw [ticks_tick, opened_succ, ← h.enabled, DialogController.advance, Bool.or_eq_true,
      decide_eq_true_eq, Int32.le_iff_toInt_le, h.minTime, h.toInt_elapsed]
    -- A minimum time above the maximum is never reached.
    have hmax := (wrappedMs_bounds (ticks es + 1)).2
    refine or_congr_right ⟨fun hle ↦ ?_, fun hle ↦ ?_⟩
    · omega
    · omega
  offered := h.offered
  checked := by
    rw [lastChecked_concat]
    exact h.checked

/-- A tick. -/
theorem Follows.tick (h : Follows a es c) : Follows a (es ++ [.tick]) c.tick.1 := by
  unfold DialogController.tick
  dsimp only
  split
  · exact { h.advance with }
  · exact h.advance

/-- Another call leaves the clock and the button alone. -/
theorem Follows.other (h : Follows a es c) {e : Event} (he : e ≠ .tick) (shown checked : Bool)
    (hc : checked = (lastChecked (es ++ [e])).getD false) :
    Follows a (es ++ [e]) { c with showDetails := shown, rememberChecked := checked } where
  timeout := h.timeout
  minTime := h.minTime
  elapsed := by
    rw [ticks_other he]
    exact h.elapsed
  enabled := by
    rw [ticks_other he]
    exact h.enabled
  offered := h.offered
  checked := hc

/-- The controller follows every call. -/
theorem Follows.handle (h : Follows a es c) (e : Event) : Follows a (es ++ [e]) (c.handle e).1 := by
  cases e with
  | tick => exact h.tick
  | allow =>
    have hc : (c.handle .allow).1 = c := by
      change c.allow.1 = c
      unfold DialogController.allow
      split <;> rfl
    rw [hc]
    apply h.other (by decide) c.showDetails c.rememberChecked
    rw [lastChecked_concat]
    exact h.checked
  | deny =>
    apply h.other (by decide) c.showDetails c.rememberChecked
    rw [lastChecked_concat]
    exact h.checked
  | toggleDetails =>
    apply h.other (by decide) (!c.showDetails) c.rememberChecked
    rw [lastChecked_concat]
    exact h.checked
  | setRememberChecked checked =>
    apply h.other (by simp) c.showDetails checked
    rw [lastChecked_concat]
    rfl

end Steps

/-- A dialog is still open and follows its calls, or one of them has ended it with the one verdict
that was printed. -/
theorem run_cases (a : Args) (es : List Event) :
    ((Dialog.run a es).exited = false ∧ (Dialog.run a es).output = [] ∧
      Follows a es (Dialog.run a es).controller) ∨
    ∃ pre e post v, es = pre ++ e :: post ∧ (Dialog.run a pre).exited = false ∧
      Follows a pre (Dialog.run a pre).controller ∧
      ((Dialog.run a pre).controller.handle e).2 = some v ∧
      (Dialog.run a es).exited = true ∧ (Dialog.run a es).output = [v] := by
  induction es using List.reverseRecOn with
  | nil => exact Or.inl ⟨rfl, rfl, follows_default a⟩
  | append_singleton es e ih =>
    rw [Dialog.run_concat]
    rcases ih with ⟨hopen, hout, hf⟩ | ⟨pre, e', post, v, rfl, hopen, hf, hv, hexit, hout⟩
    · rw [Dialog.step, if_neg (by simp [hopen]), hout]
      cases hv : ((Dialog.run a es).controller.handle e).2 with
      | none => exact Or.inl ⟨rfl, rfl, hf.handle e⟩
      | some v => exact Or.inr ⟨es, e, [], v, rfl, hopen, hf, hv, rfl, rfl⟩
    · rw [Dialog.step, if_pos hexit]
      refine Or.inr ⟨pre, e', post ++ [e], v, ?_, hopen, hf, hv, hexit, hout⟩
      rw [List.append_assoc, List.cons_append]

/-- A process that has ended prints nothing more. -/
theorem foldl_step_of_exited {d : Dialog} (h : d.exited = true) (es : List Event) :
    es.foldl Dialog.step d = d := by
  induction es with
  | nil => rfl
  | cons e es ih => rw [List.foldl_cons, Dialog.step, if_pos h, ih]

/-! ### The verdict -/

/-- What ends the process: the timeout, the open Allow button, or Deny. -/
theorem handle_cases {c : DialogController} {e : Event} {v : Verdict}
    (h : (c.handle e).2 = some v) :
    (e = .tick ∧ 0 < c.timeoutSecs ∧
      I32.saturatingMul c.timeoutSecs 1000 ≤ c.elapsedMs + tickMs ∧ v = ⟨.timeout, false⟩) ∨
    (e = .allow ∧ c.allowEnabled = true ∧
      v = ⟨.allow, c.rememberOffered && c.rememberChecked⟩) ∨
    (e = .deny ∧ v = ⟨.deny, false⟩) := by
  cases e with
  | tick =>
    simp only [DialogController.handle, DialogController.tick] at h
    split at h
    next ht =>
      split at h
      next hle =>
        cases h
        exact Or.inl ⟨rfl, ht, hle, rfl⟩
      next => cases h
    next => cases h
  | allow =>
    simp only [DialogController.handle, DialogController.allow] at h
    split at h
    next he =>
      cases h
      exact Or.inr (Or.inl ⟨rfl, he, rfl⟩)
    next => cases h
  | deny =>
    cases h
    exact Or.inr (Or.inr ⟨rfl, rfl⟩)
  | toggleDetails => cases h
  | setRememberChecked checked => cases h

/-- A terminal event behind some calls, with its verdict: Deny, Allow with the button open, or the
tick that brings the deadline. -/
inductive Terminal (a : Args) (pre : List Event) : Event → Verdict → Prop where
  | deny : Terminal a pre .deny ⟨.deny, false⟩
  | allow (ho : Opened a (ticks pre)) : Terminal a pre .allow
      ⟨.allow, decide (0 < a.rememberSecs) && (lastChecked pre).getD false⟩
  | timeout (hd : Due a (ticks pre + 1)) : Terminal a pre .tick ⟨.timeout, false⟩

/-- None of the calls is terminal. -/
def Unended (a : Args) (es : List Event) : Prop :=
  ∀ pre e post v, es = pre ++ e :: post → ¬ Terminal a pre e v

/-- This is the verdict of the first terminal event. -/
def EndsWith (a : Args) (es : List Event) (v : Verdict) : Prop :=
  ∃ pre e post, es = pre ++ e :: post ∧ Unended a pre ∧ Terminal a pre e v

/-- The controller ends at exactly the terminal events, with their verdicts. -/
theorem Follows.handle_iff {a : Args} {es : List Event} {c : DialogController}
    (h : Follows a es c) {e : Event} {v : Verdict} :
    (c.handle e).2 = some v ↔ Terminal a es e v := by
  have hpos : 0 < c.timeoutSecs ↔ 0 < a.timeout := by
    rw [Int32.lt_iff_toInt_lt, h.timeout]
    change 0 < _ ↔ _
    omega
  -- A deadline above the maximum is cut at a number that the counter never reaches.
  have hmax := (wrappedMs_bounds (ticks es + 1)).2
  have hdue : I32.saturatingMul c.timeoutSecs 1000 ≤ c.elapsedMs + tickMs ↔
      1000 * (a.timeout : Int) ≤ wrappedMs (ticks es + 1) := by
    rw [Int32.le_iff_toInt_le, h.toInt_total, h.toInt_elapsed]
    omega
  constructor
  · intro hv
    rcases handle_cases hv with ⟨rfl, ht, hle, rfl⟩ | ⟨rfl, hen, rfl⟩ | ⟨rfl, rfl⟩
    · exact .timeout ⟨hpos.mp ht, hdue.mp hle⟩
    · rw [h.offered, h.checked]
      exact .allow (h.enabled.mp hen)
    · exact .deny
  · intro ht
    cases ht with
    | deny => rfl
    | allow ho =>
      simp only [DialogController.handle, DialogController.allow, if_pos (h.enabled.mpr ho),
        h.offered, h.checked]
    | timeout hd =>
      simp only [DialogController.handle, DialogController.tick, if_pos (hpos.mpr hd.1),
        if_pos (hdue.mpr hd.2)]

/-- An open dialog has seen no terminal event. -/
theorem unended_of_open {a : Args} {es : List Event} (h : (Dialog.run a es).exited = false) :
    Unended a es := by
  rintro pre e post v rfl ht
  have hsplit : Dialog.run a (pre ++ e :: post) =
      post.foldl Dialog.step ((Dialog.run a pre).step e) := by
    rw [Dialog.run, List.foldl_append, List.foldl_cons]
    rfl
  rcases run_cases a pre with ⟨hopen, -, hf⟩ | ⟨-, -, -, -, -, -, -, -, hexit, -⟩
  · have hexit : ((Dialog.run a pre).step e).exited = true := by
      rw [Dialog.step, if_neg (by simp [hopen]), hf.handle_iff.mpr ht]
      rfl
    rw [hsplit, foldl_step_of_exited hexit, hexit] at h
    cases h
  · have hexit' : ((Dialog.run a pre).step e).exited = true := by
      rw [Dialog.step, if_pos hexit, hexit]
    rw [hsplit, foldl_step_of_exited hexit', hexit'] at h
    cases h

/-- What is printed is the verdict of the first terminal event. -/
theorem output_iff (a : Args) (es : List Event) (v : Verdict) :
    (Dialog.run a es).output = [v] ↔ EndsWith a es v := by
  constructor
  · intro hout
    rcases run_cases a es with ⟨-, hnil, -⟩ | ⟨pre, e, post, v', he, hopen, hf, hv, -, hout'⟩
    · rw [hnil] at hout
      cases hout
    · cases hout'.symm.trans hout
      exact ⟨pre, e, post, he, unended_of_open hopen, hf.handle_iff.mp hv⟩
  · rintro ⟨pre, e, post, rfl, hquiet, ht⟩
    rcases run_cases a pre with ⟨hopen, hnil, hf⟩ | ⟨pre', e', post', v', he, -, hf, hv, -, -⟩
    · have hstep : (Dialog.run a pre).step e =
          ⟨((Dialog.run a pre).controller.handle e).1, [v], true⟩ := by
        rw [Dialog.step, if_neg (by simp [hopen]), hf.handle_iff.mpr ht, hnil]
        rfl
      rw [Dialog.run, List.foldl_append, List.foldl_cons, ← Dialog.run, hstep,
        foldl_step_of_exited rfl]
    · exact absurd (hf.handle_iff.mp hv) (hquiet pre' e' post' v' he)

/-- At most one verdict is printed. -/
theorem output_cases (a : Args) (es : List Event) :
    (Dialog.run a es).output = [] ∨ ∃ v, (Dialog.run a es).output = [v] := by
  rcases run_cases a es with ⟨-, hnil, -⟩ | ⟨-, -, -, v, -, -, -, -, -, hout⟩
  · exact Or.inl hnil
  · exact Or.inr ⟨v, hout⟩

/-- A printed verdict is that of the first terminal event. -/
theorem endsWith_of_mem {a : Args} {es : List Event} {v : Verdict}
    (h : v ∈ (Dialog.run a es).output) : EndsWith a es v := by
  rw [← output_iff]
  rcases output_cases a es with hnil | ⟨v', hout⟩
  · rw [hnil] at h
    cases h
  · rw [hout, List.mem_singleton] at h
    rw [hout, h]

/-- Nothing is printed in front of the first terminal event. -/
theorem output_of_unended {a : Args} {es : List Event} (h : Unended a es) :
    (Dialog.run a es).output = [] := by
  rcases output_cases a es with hnil | ⟨v, hout⟩
  · exact hnil
  · obtain ⟨pre, e, post, he, -, ht⟩ := (output_iff a es v).mp hout
    exact absurd ht (h pre e post v he)

/-- An Allow comes from the button, behind ticks that cover the minimum time, remembered only when
the checkbox was offered and last set. -/
theorem allow_of_output {a : Args} {es : List Event} {v : Verdict}
    (h : v ∈ (Dialog.run a es).output) (hv : v.outcome = .allow) :
    ∃ pre post, es = pre ++ .allow :: post ∧ (Dialog.run a pre).output = [] ∧
      a.minTime ≤ 100 * ticks pre ∧
      (v.remember = true → 0 < a.rememberSecs ∧ lastChecked pre = some true) := by
  obtain ⟨pre, e, post, he, hquiet, ht⟩ := endsWith_of_mem h
  cases ht with
  | deny => cases hv
  | timeout hd => cases hv
  | allow ho =>
    refine ⟨pre, post, he, output_of_unended hquiet, ho.late, fun hr ↦ ?_⟩
    obtain ⟨hoff, hchk⟩ := Bool.and_eq_true_iff.mp hr
    refine ⟨of_decide_eq_true hoff, ?_⟩
    cases hl : lastChecked pre with
    | none =>
      rw [hl] at hchk
      cases hchk
    | some checked =>
      rw [hl] at hchk
      exact congrArg some hchk

/-- Only what allows remembers. -/
theorem remember_of_output {a : Args} {es : List Event} {v : Verdict}
    (h : v ∈ (Dialog.run a es).output) (hr : v.remember = true) : v.outcome = .allow := by
  obtain ⟨pre, e, post, -, -, ht⟩ := endsWith_of_mem h
  cases ht with
  | deny => cases hr
  | timeout hd => cases hr
  | allow ho => rfl

/-- For all arguments and calls at most one verdict is printed, the one of the first terminal event,
and it stands whatever is called behind it; an Allow comes from the button behind ticks that cover
the minimum time, remembered only when the checkbox was offered and last set. -/
theorem dialog_allows_late_once (a : Args) (es : List Event) :
    (Dialog.run a es).output.length ≤ 1 ∧
    (∀ v, (Dialog.run a es).output = [v] ↔ EndsWith a es v) ∧
    (∀ more, (Dialog.run a es).output ≠ [] →
      (Dialog.run a (es ++ more)).output = (Dialog.run a es).output) ∧
    ∀ v ∈ (Dialog.run a es).output,
      (v.outcome = .allow →
        ∃ pre post, es = pre ++ .allow :: post ∧ (Dialog.run a pre).output = [] ∧
          a.minTime ≤ 100 * ticks pre ∧
          (v.remember = true → 0 < a.rememberSecs ∧ lastChecked pre = some true)) ∧
      (v.remember = true → v.outcome = .allow) := by
  refine ⟨?_, output_iff a es, ?_, fun v hv ↦ ⟨allow_of_output hv, remember_of_output hv⟩⟩
  · rcases output_cases a es with hnil | ⟨v, hout⟩
    · simp [hnil]
    · simp [hout]
  · intro more hne
    rcases output_cases a es with hnil | ⟨v, hout⟩
    · exact absurd hnil hne
    · obtain ⟨pre, e, post, he, hquiet, ht⟩ := (output_iff a es v).mp hout
      rw [hout, output_iff]
      exact ⟨pre, e, post ++ more, by simp [he], hquiet, ht⟩

/-- A dialog with a minimum time of 500 ms and a window of 300 s. -/
def halfSecond : Args := { minTime := 500, rememberSecs := 300 }

/-- The first click comes too early; behind five ticks the ticked checkbox is taken along. -/
def clickedTwice : List Event :=
  [.tick, .allow, .tick, .tick, .tick, .setRememberChecked true, .tick, .allow, .deny]

/-- The second click is the one that counts. -/
theorem clickedTwice_allows_late :
    (Dialog.run halfSecond clickedTwice).output = [⟨.allow, true⟩] ∧
      ∃ pre post, clickedTwice = pre ++ .allow :: post ∧
        (Dialog.run halfSecond pre).output = [] ∧ halfSecond.minTime ≤ 100 * ticks pre ∧
        lastChecked pre = some true := by
  have hout : (Dialog.run halfSecond clickedTwice).output = [⟨.allow, true⟩] := by decide
  have hmem : (⟨.allow, true⟩ : Verdict) ∈ (Dialog.run halfSecond clickedTwice).output := by
    rw [hout]
    exact List.mem_singleton_self _
  obtain ⟨-, -, -, hall⟩ := dialog_allows_late_once halfSecond clickedTwice
  obtain ⟨pre, post, he, hpre, hmin, hrem⟩ := (hall _ hmem).1 rfl
  exact ⟨hout, pre, post, he, hpre, hmin, (hrem rfl).2⟩

/-! ### The timeout -/

/-- An event decides in an open dialog: Deny, or Allow with the button open. -/
def Dialog.Decides (d : Dialog) (e : Event) : Prop :=
  d.exited = false ∧ (e = .deny ∨ e = .allow ∧ d.controller.allowEnabled = true)

/-- Nobody decides along the calls. -/
def Quiet (a : Args) (es : List Event) : Prop :=
  ∀ pre e post, es = pre ++ e :: post → ¬ (Dialog.run a pre).Decides e

/-- Along calls in which nobody decides the timeout comes exactly with the tick number
`10 * timeout`, and up to it no operation of a tick overflows. -/
def OnTime (a : Args) : Prop :=
  ∀ es, Quiet a es →
    (Dialog.run a es).output =
        (if 10 * a.timeout ≤ ticks es then [⟨.timeout, false⟩] else []) ∧
      ∀ pre post, es = pre ++ .tick :: post → ticks pre < 10 * a.timeout →
        (Dialog.run a pre).controller.tickChecked ≠ none

section Timeout

variable {a : Args} {es : List Event} {c : DialogController}

/-- While the counter has not wrapped it is the clock. -/
theorem Follows.toInt_clock (h : Follows a es c) (hn : ticks es < 21474830) :
    (c.elapsedMs + tickMs).toInt = 100 * ((ticks es : Int) + 1) := by
  rw [h.toInt_elapsed]
  unfold wrappedMs
  rw [Int.bmod_eq_of_le]
  · omega
  · omega
  · omega

/-- Before the deadline the tick does not overflow. -/
theorem Follows.tickChecked (h : Follows a es c) (ht : a.timeout ≤ 2147483)
    (hn : ticks es < 10 * a.timeout) : c.tickChecked ≠ none := by
  have hclock := h.toInt_clock (by omega)
  have htotal := h.toInt_total
  have htick : tickMs.toInt = 100 := rfl
  have hold : c.elapsedMs.toInt = 100 * (ticks es : Int) := by
    rw [h.elapsed]
    unfold wrappedMs
    rw [Int.bmod_eq_of_le]
    · omega
    · omega
  have hadd : I32.InRange (c.elapsedMs.toInt + tickMs.toInt) := by
    rw [hold, htick]
    constructor
    · omega
    · omega
  have hsub : I32.InRange ((I32.saturatingMul c.timeoutSecs 1000).toInt -
      (c.elapsedMs + tickMs).toInt) := by
    rw [hclock, htotal]
    constructor
    · omega
    · omega
  unfold DialogController.tickChecked
  rw [I32.checkedAdd_eq hadd]
  simp only [Option.bind_eq_bind, Option.bind_some]
  split
  · rw [I32.checkedSub_eq hsub]
    simp
  · simp

/-- An open dialog has not come to its deadline. -/
theorem ticks_lt_of_open (ht : 0 < a.timeout) (hmax : a.timeout ≤ 2147483)
    (hopen : (Dialog.run a es).exited = false) : ticks es < 10 * a.timeout := by
  induction es using List.reverseRecOn with
  | nil =>
    simp only [ticks, List.count_nil]
    omega
  | append_singleton es e ih =>
    rcases run_cases a es with ⟨hprev, -, hf⟩ | ⟨-, -, -, -, -, -, -, -, hexit, -⟩
    · have hlt := ih hprev
      by_cases he : e = .tick
      · subst he
        have hclock := hf.toInt_clock (by omega)
        have htotal := hf.toInt_total
        have hpos : 0 < (Dialog.run a es).controller.timeoutSecs := by
          rw [Int32.lt_iff_toInt_lt, hf.timeout]
          change 0 < _
          omega
        rw [Dialog.run_concat, Dialog.step, if_neg (by simp [hprev])] at hopen
        by_cases hle : I32.saturatingMul (Dialog.run a es).controller.timeoutSecs 1000 ≤
            (Dialog.run a es).controller.elapsedMs + tickMs
        · simp [DialogController.handle, DialogController.tick, hpos, hle] at hopen
        · rw [Int32.le_iff_toInt_le, hclock, htotal] at hle
          rw [ticks_tick]
          omega
      · rw [ticks_other he]
        exact hlt
    · rw [Dialog.run_concat, Dialog.step, if_pos hexit, hexit] at hopen
      cases hopen

end Timeout

/-- In ticks alone nobody decides. -/
theorem quiet_replicate (a : Args) (n : Nat) : Quiet a (List.replicate n .tick) := by
  intro pre e post he hd
  have hm : e ∈ List.replicate n Event.tick := by
    rw [he]
    simp
  rw [List.eq_of_mem_replicate hm] at hd
  rcases hd.2 with hx | ⟨hx, -⟩ <;> cases hx

/-- Above 2147483 seconds the deadline saturates at a number of milliseconds that the counter never
reaches: ticks alone never end the dialog. -/
theorem output_replicate_of_lt {a : Args} (hlarge : 2147483 < a.timeout) (n : Nat) :
    (Dialog.run a (List.replicate n .tick)).output = [] := by
  rcases run_cases a (List.replicate n .tick) with
    ⟨-, hnil, -⟩ | ⟨pre, e, post, v, he, -, hf, hv, -, -⟩
  · exact hnil
  · have hm : e ∈ List.replicate n Event.tick := by
      rw [he]
      simp
    rw [List.eq_of_mem_replicate hm] at hv
    rcases handle_cases hv with ⟨-, -, hle, -⟩ | ⟨hx, -, -⟩ | ⟨hx, -⟩
    · have hbelow := (wrappedMs_bounds (ticks pre + 1)).2
      rw [Int32.le_iff_toInt_le, hf.toInt_total, hf.toInt_elapsed] at hle
      omega
    · cases hx
    · cases hx

/-- A dialog whose deadline saturates is not on time. -/
theorem not_onTime_of_lt {a : Args} (hlarge : 2147483 < a.timeout) : ¬ OnTime a := by
  intro hon
  have hout := (hon _ (quiet_replicate a (10 * a.timeout))).1
  have hcount : ticks (List.replicate (10 * a.timeout) .tick) = 10 * a.timeout :=
    List.count_replicate_self
  rw [hcount, if_pos (Nat.le_refl _), output_replicate_of_lt hlarge] at hout
  cases hout

/-- The timeout comes on time exactly up to 2147483 seconds. -/
theorem on_time_iff {a : Args} (ht : 0 < a.timeout) : OnTime a ↔ a.timeout ≤ 2147483 := by
  constructor
  · intro hon
    by_contra hlarge
    exact not_onTime_of_lt (by omega) hon
  · intro hmax es hquiet
    -- A dialog that is not open any more ended with the tick at the deadline.
    have hended {fs gs : List Event} (hsplit : es = fs ++ gs)
        (hexit : (Dialog.run a fs).exited = true) :
        (Dialog.run a fs).output = [⟨.timeout, false⟩] ∧ 10 * a.timeout ≤ ticks fs := by
      rcases run_cases a fs with ⟨hopen, -, -⟩ | ⟨pre, e, post, v, he, hopen, hf, hv, -, hout⟩
      · rw [hopen] at hexit
        cases hexit
      · have hno := hquiet pre e (post ++ gs) (by rw [hsplit, he]; simp)
        rcases handle_cases hv with ⟨rfl, -, hle, rfl⟩ | ⟨rfl, hen, -⟩ | ⟨rfl, -⟩
        · refine ⟨hout, ?_⟩
          have hlt := ticks_lt_of_open ht hmax hopen
          rw [Int32.le_iff_toInt_le, hf.toInt_total, hf.toInt_clock (by omega)] at hle
          have hcount : ticks fs = ticks pre + (1 + ticks post) := by
            rw [he]
            simp only [ticks, List.count_append, List.count_cons_self]
            omega
          omega
        · exact absurd ⟨hopen, Or.inr ⟨rfl, hen⟩⟩ hno
        · exact absurd ⟨hopen, Or.inl rfl⟩ hno
    constructor
    · cases hx : (Dialog.run a es).exited with
      | false =>
        have hlt := ticks_lt_of_open ht hmax hx
        rw [if_neg (by omega)]
        rcases run_cases a es with ⟨-, hnil, -⟩ | ⟨-, -, -, -, -, -, -, -, hexit, -⟩
        · exact hnil
        · rw [hx] at hexit
          cases hexit
      | true =>
        obtain ⟨hout, hle⟩ := hended (List.append_nil es).symm hx
        rw [if_pos hle, hout]
    · intro pre post he hlt
      rcases run_cases a pre with ⟨-, -, hf⟩ | ⟨-, -, -, -, -, -, -, -, hexit, -⟩
      · exact hf.tickChecked hmax hlt
      · have hle := (hended he hexit).2
        omega

/-- The default timeout of 30 seconds comes with tick number 300. -/
theorem thirtySeconds_on_time :
    OnTime {} ∧ (Dialog.run {} (List.replicate 299 .tick)).output = [] ∧
      (Dialog.run {} (List.replicate 300 .tick)).output = [⟨.timeout, false⟩] := by
  have hon : OnTime {} := (on_time_iff (by decide)).mpr (by decide)
  have hsecs : ({} : Args).timeout = 30 := rfl
  have hout (n : Nat) := (hon _ (quiet_replicate {} n)).1
  have hcount (n : Nat) : ticks (List.replicate n .tick) = n := List.count_replicate_self
  refine ⟨hon, ?_, ?_⟩
  · rw [hout, hcount, hsecs, if_neg (by omega)]
  · rw [hout, hcount, hsecs, if_pos (by omega)]

/-- With one second more than fits, the dialog is open behind tick number `10 * timeout`. -/
theorem longTimeout_never_fires :
    (Dialog.run { timeout := 2147484 } (List.replicate (10 * 2147484) .tick)).output = [] ∧
      ¬ OnTime { timeout := 2147484 } := by
  constructor
  · apply output_replicate_of_lt
    change 2147483 < 2147484
    omega
  · apply not_onTime_of_lt
    change 2147483 < 2147484
    omega

end Sentinel.Kde
