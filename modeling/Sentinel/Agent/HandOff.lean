import Sentinel.Agent.ApprovalQueue
import Sentinel.Agent.Session

/-!
# What a hand-off leaves in the queue

Crate `sentinel-polkit-agent`, `crates/sentinel-polkit-agent/src/session.rs:72-273` over the
conversation of `crates/sentinel-polkit-agent/src/helper1.rs`. A session pushes its approval, waits
for helper-1 and drains the queue when helper-1 refuses. An error of the conversation is passed on
before the drain, and the approval stays where it is unless somebody has claimed it meanwhile.
-/

namespace Sentinel.Agent

open Sentinel.Base Sentinel.Shared

/-! ### The conversation with helper-1 -/

/-- How an operation on the socket ends; the whole conversation is cut off behind ten seconds. -/
inductive Ended (α : Type) where
  | ok (a : α)
  | error
  | timedOut
  deriving DecidableEq, Repr

/-- The outside of one conversation: the canned outcome of the test seam, whether the socket is
there, how connecting and writing end, and the lines that are read up to the end of the stream. -/
structure Helper1Io where
  canned : Option Str := none
  socketExists : Bool
  connect : Ended Unit := .ok ()
  write : Ended Unit := .ok ()
  lines : List (Ended Str) := []

/-- The loop over the lines, `helper1.rs:90-122`: a verdict ends it, and the end of the stream
counts as a refusal. Lines of the PAM conversation, blank ones and unknown ones are passed by. -/
def readVerdict : List (Ended Str) → Option Bool
  | [] => some false
  | .error :: _ => none
  | .timedOut :: _ => some false
  | .ok line :: lines =>
    if trim line = "SUCCESS".toList then some true
    else if trim line = "FAILURE".toList then some false
    else readVerdict lines

/-- `helper1::run`, `helper1.rs:47-125`; no result is an error. -/
def helper1Run (io : Helper1Io) : Option Bool :=
  match io.canned with
  | some outcome => some (outcome == "SUCCESS".toList)
  | none =>
    if !io.socketExists then none
    else
      match io.connect, io.write with
      | .error, _ => none
      | .timedOut, _ => some false
      | .ok _, .error => none
      | .ok _, .timedOut => some false
      | .ok _, .ok _ => readVerdict io.lines

/-- A line that is passed by. -/
def Passed (r : Ended Str) : Prop :=
  ∃ line, r = .ok line ∧ trim line ≠ "SUCCESS".toList ∧ trim line ≠ "FAILURE".toList

/-- The loop fails exactly when a read error comes before every verdict. -/
theorem readVerdict_eq_none_iff (lines : List (Ended Str)) :
    readVerdict lines = none ↔
      ∃ before after, lines = before ++ .error :: after ∧ ∀ r ∈ before, Passed r := by
  induction lines with
  | nil => simp [readVerdict]
  | cons r lines ih =>
    -- What is neither an error nor passed by ends the loop with a verdict.
    have hstop (he : r ≠ .error) (hp : ¬ Passed r) :
        ¬ ∃ before after, r :: lines = before ++ .error :: after ∧ ∀ x ∈ before, Passed x := by
      rintro ⟨before, after, hsplit, hb⟩
      cases before with
      | nil => exact he (List.cons.inj hsplit).1
      | cons x before =>
        rw [(List.cons.inj hsplit).1] at hp
        exact hp (hb x List.mem_cons_self)
    cases r with
    | error =>
      simp only [readVerdict, true_iff]
      exact ⟨[], lines, rfl, by simp⟩
    | timedOut =>
      simp only [readVerdict, reduceCtorEq, false_iff]
      apply hstop (by simp)
      simp [Passed]
    | ok line =>
      rw [readVerdict]
      by_cases hs : trim line = "SUCCESS".toList
      · rw [if_pos hs]
        simp only [reduceCtorEq, false_iff]
        apply hstop (by simp)
        rintro ⟨_, he, hne, -⟩
        cases he
        exact hne hs
      · by_cases hf : trim line = "FAILURE".toList
        · rw [if_neg hs, if_pos hf]
          simp only [reduceCtorEq, false_iff]
          apply hstop (by simp)
          rintro ⟨_, he, -, hne⟩
          cases he
          exact hne hf
        · rw [if_neg hs, if_neg hf, ih]
          constructor
          · rintro ⟨before, after, rfl, hb⟩
            refine ⟨.ok line :: before, after, rfl, ?_⟩
            intro x hx
            rcases List.mem_cons.mp hx with rfl | hx
            · exact ⟨line, rfl, hs, hf⟩
            · exact hb x hx
          · rintro ⟨before, after, he, hb⟩
            cases before with
            | nil => cases he
            | cons x before =>
              obtain ⟨-, rfl⟩ := List.cons.inj he
              exact ⟨before, after, rfl, fun y hy ↦ hb y (List.mem_cons_of_mem _ hy)⟩

/-- The conversation fails when there is no socket, when connecting or writing fails, or when a read
fails in front of every verdict. -/
theorem helper1Run_eq_none_iff (io : Helper1Io) :
    helper1Run io = none ↔
      io.canned = none ∧
        (io.socketExists = false ∨ io.connect = .error ∨
          io.connect = .ok () ∧ io.write = .error ∨
          io.connect = .ok () ∧ io.write = .ok () ∧
            ∃ before after, io.lines = before ++ .error :: after ∧ ∀ r ∈ before, Passed r) := by
  obtain ⟨canned, socketExists, connect, write, lines⟩ := io
  simp only [helper1Run, ← readVerdict_eq_none_iff]
  cases canned with
  | some outcome => simp
  | none =>
    cases socketExists with
    | false => simp
    | true =>
      cases connect with
      | error => simp
      | timedOut => simp
      | ok _ =>
        cases write with
        | error => simp
        | timedOut => simp
        | ok _ => simp

/-! ### The session over the queue -/

/-- What is around one session: the queue it starts with, the number and the time of the push it may
make, the answers of the cache, the dialog and the conversation with helper-1, and what the other
users of the queue do to it up to the push and while helper-1 runs. They take, drain and push
approvals of their own, but none with the number of this session. -/
structure Around where
  queue : ApprovalQueue
  serial : Nat
  now : Nat
  fresh : Bool
  dialog : Option Verdict
  helper1 : Helper1Io
  before : ApprovalQueue → ApprovalQueue
  during : ApprovalQueue → ApprovalQueue
  new : ∀ a ∈ queue, a.serial ≠ serial
  foreignBefore : ∀ q, ∀ a ∈ before q, a.serial = serial → a ∈ q
  foreignDuring : ∀ q, ∀ a ∈ during q, a.serial = serial → a ∈ q

namespace Around

/-- The answers, over the queue. -/
def answer (w : Around) : (e : Await) → ApprovalQueue → e.Result × ApprovalQueue
  | .push actionId, q => ((), (w.before q).push actionId w.serial w.now)
  | .isFresh _ _ _, q => (w.fresh, q)
  | .remember _ _, q => ((), q)
  | .dialog _, q => (w.dialog, q)
  | .helper1 _ _, q => (helper1Run w.helper1, w.during q)
  | .drain, q => ((), q.drain)

/-- The result of the session and the queue behind it. -/
def ran (w : Around) (i : AuthInputs) : Option Bool × ApprovalQueue :=
  (run i).evalState w.answer w.queue

/-- The session comes to a hand-off: by policy, by a fresh grant, or by an Allow of the dialog. -/
def HandsOff (w : Around) (i : AuthInputs) : Prop :=
  i.decision = .allow ∨
    i.decision = .ask ∧
      (0 < i.rememberSecs ∧ w.fresh = true ∨
        ¬ (0 < i.rememberSecs ∧ w.fresh = true) ∧
          ∃ v, w.dialog = some v ∧ v.outcome = .allow)

/-- The queue when helper-1 has run. -/
def handedOff (w : Around) (i : AuthInputs) : ApprovalQueue :=
  w.during ((w.before w.queue).push i.actionId w.serial w.now)

/-- The approval of this session is in a queue. -/
def Holds (w : Around) (q : ApprovalQueue) : Prop := ∃ a ∈ q, a.serial = w.serial

/-- A session that does not end with success leaves no approval of its own. -/
def LeavesNothing (w : Around) (i : AuthInputs) : Prop :=
  (w.ran i).1 ≠ some true → ¬ w.Holds (w.ran i).2

/-- The conversation fails while the approval is still queued. -/
def Leftover (w : Around) (i : AuthInputs) : Prop :=
  w.HandsOff i ∧ helper1Run w.helper1 = none ∧ w.Holds (w.handedOff i)

variable (w : Around) (i : AuthInputs)

/-- What a hand-off makes of a queue. -/
def handOffResult (i : AuthInputs) : Option Bool × ApprovalQueue :=
  match helper1Run w.helper1 with
  | none => (none, w.handedOff i)
  | some true => (some true, w.handedOff i)
  | some false => (some false, [])

/-- The tail of all three allow paths. -/
theorem evalState_handOff : (handOff i).evalState w.answer w.queue = w.handOffResult i := by
  rw [handOff, Program.evalState_call, awaitHelper1, Program.evalState_call, handOffResult]
  change (afterHelper1 (helper1Run w.helper1)).evalState w.answer (w.handedOff i) = _
  match helper1Run w.helper1 with
  | none => rfl
  | some true => rfl
  | some false => rfl

/-- What follows the dialog. -/
theorem evalState_dialogStage :
    (dialogStage i).evalState w.answer w.queue =
      if ∃ v, w.dialog = some v ∧ v.outcome = .allow then w.handOffResult i
      else (w.dialog.map fun _ ↦ false, w.queue) := by
  rw [dialogStage, Program.evalState_call]
  change (afterDialog i w.dialog).evalState w.answer w.queue = _
  cases w.dialog with
  | none => rfl
  | some v =>
    obtain ⟨outcome, remember⟩ := v
    cases outcome with
    | deny => rfl
    | timeout => rfl
    | allow =>
      rw [if_pos ⟨_, rfl, rfl⟩, ← evalState_handOff]
      simp only [afterDialog]
      split
      · rfl
      · rfl

/-- What follows the policy. -/
theorem evalState_check (hd : i.decision = .ask) :
    w.ran i =
      if 0 < i.rememberSecs ∧ w.fresh = true then w.handOffResult i
      else (dialogStage i).evalState w.answer w.queue := by
  rw [ran, run, hd]
  dsimp only
  by_cases hs : 0 < i.rememberSecs
  · rw [if_pos hs, Program.evalState_call]
    change (afterCheck i w.fresh).evalState w.answer w.queue = _
    cases hf : w.fresh with
    | false => simp [afterCheck]
    | true =>
      rw [if_pos ⟨hs, rfl⟩, ← evalState_handOff]
      rfl
  · rw [if_neg hs, if_neg fun h ↦ hs h.1]

/-- A session that comes to a hand-off ends with it. -/
theorem ran_of_handsOff {w : Around} {i : AuthInputs} (h : w.HandsOff i) :
    w.ran i = w.handOffResult i := by
  rcases h with hd | ⟨hd, hfresh | ⟨hno, hallow⟩⟩
  · rw [ran, run, hd]
    exact evalState_handOff w i
  · rw [evalState_check w i hd, if_pos hfresh]
  · rw [evalState_check w i hd, if_neg hno, evalState_dialogStage, if_pos hallow]

/-- Every other session leaves the queue alone. -/
theorem ran_of_not_handsOff {w : Around} {i : AuthInputs} (h : ¬ w.HandsOff i) :
    (w.ran i).2 = w.queue := by
  cases hd : i.decision with
  | allow => exact absurd (Or.inl hd) h
  | deny =>
    rw [ran, run, hd]
    rfl
  | ask =>
    have hno : ¬ (0 < i.rememberSecs ∧ w.fresh = true) :=
      fun hf ↦ h (Or.inr ⟨hd, Or.inl hf⟩)
    have hno' : ¬ ∃ v, w.dialog = some v ∧ v.outcome = .allow :=
      fun hv ↦ h (Or.inr ⟨hd, Or.inr ⟨hno, hv⟩⟩)
    rw [evalState_check w i hd, if_neg hno, evalState_dialogStage, if_neg hno']

/-- For every input, queue, grant, verdict and conversation a session that does not end with
success leaves no approval of its own exactly when its conversation does not fail with the approval
still queued. -/
theorem leaves_nothing_iff : w.LeavesNothing i ↔ ¬ w.Leftover i := by
  by_cases hoff : w.HandsOff i
  · rw [LeavesNothing, ran_of_handsOff hoff, handOffResult, Leftover]
    match hr : helper1Run w.helper1 with
    | none => simp [hoff]
    | some true => simp
    | some false => simp [Holds]
  · have hnone : ¬ w.Leftover i := fun h ↦ hoff h.1
    simp only [hnone, not_false_eq_true, iff_true]
    rintro - ⟨a, ha, hs⟩
    rw [ran_of_not_handsOff hoff] at ha
    exact w.new a ha hs

/-- A request that the policy allows. -/
def allowedInputs : AuthInputs where
  actionId := "org.example.run".toList
  cookie := "c".toList
  username := "user".toList
  cfg := { Document.forService {} polkitPamService with
    policy := { allow := ["/usr/bin/id".toList], deny := [] } }
  processExe := some "/usr/bin/id".toList
  processCmdline := none
  processPid := none
  processCwd := none
  requestingUser := none
  nulFree := by decide

/-- The socket of helper-1 is missing, and nobody else touches the queue. -/
def noSocket : Around where
  queue := []
  serial := 0
  now := 0
  fresh := false
  dialog := none
  helper1 := { socketExists := false }
  before := id
  during := id
  new := by simp
  foreignBefore := fun _ _ ha _ ↦ ha
  foreignDuring := fun _ _ ha _ ↦ ha

/-- The session ends with an error and its approval in the queue. -/
theorem noSocket_leftover :
    (noSocket.ran allowedInputs).1 = none ∧
      (noSocket.ran allowedInputs).2 =
        [⟨"org.example.run".toList, defaultTtl, 0⟩] ∧
      ¬ noSocket.LeavesNothing allowedInputs := by
  have hres : (noSocket.ran allowedInputs).1 = none := by decide
  have hqueue : (noSocket.ran allowedInputs).2 =
      [⟨"org.example.run".toList, defaultTtl, 0⟩] := by decide
  refine ⟨hres, hqueue, ?_⟩
  intro h
  apply h
  · rw [hres]
    simp
  · rw [hqueue]
    exact ⟨_, List.mem_singleton_self _, rfl⟩

end Around

end Sentinel.Agent
