import Sentinel.Agent.Session
import Sentinel.Base.Utf8

/-!
# The agent's side of the dialog

Crate `sentinel-polkit-agent`, `crates/sentinel-polkit-agent/src/helper_ui.rs`. The agent starts the
helper, reads its standard output line by line up to the first verdict, and gives up at a deadline
when the dialog has one. What arrives behind the deadline is not seen.
-/

namespace Sentinel.Agent.HelperUi

open Sentinel.Base Sentinel.Shared

/-- `HelperError`, `helper_ui.rs:23-33`. -/
inductive HelperError where
  | spawn
  | noOutput
  | timeout
  | io
  deriving DecidableEq, Repr

/-- How the pipe goes on behind what has arrived: it is closed, a read fails, or nothing comes. -/
inductive Tail where
  | closed
  | fails
  | silent
  deriving DecidableEq, Repr

/-- What one run meets: the variable of the test seam, whether the helper starts, and its output. -/
structure Child where
  canned : Option Str := none
  starts : Bool
  arrived : Bytes
  tail : Tail

/-- The text of a terminated line, without a carriage return in front of its line feed. -/
def lineText (l : Bytes) : Option Str := fromUtf8 (if l.getLast? = some 13 then l.dropLast else l)

/-- `read_verdict`, `helper_ui.rs:202-209`, on the terminated lines and the rest behind them;
without a result it still waits. -/
def readVerdict (rest : Bytes) (tail : Tail) :
    List Bytes → Option (Except HelperError (Option Verdict))
  | [] =>
    match tail with
    | .closed =>
      if rest = [] then some (.ok none)
      else
        match fromUtf8 rest with
        | some s => some (.ok (Verdict.fromStr s))
        | none => some (.error .io)
    | .fails => some (.error .io)
    | .silent => none
  | l :: ls =>
    match lineText l with
    | none => some (.error .io)
    | some s =>
      match Verdict.fromStr s with
      | some v => some (.ok (some v))
      | none => readVerdict rest tail ls

/-- What the output comes to. -/
def Child.read (child : Child) : Option (Except HelperError (Option Verdict)) :=
  let pieces := child.arrived.splitOn 10
  readVerdict (pieces.getLastD []) child.tail pieces.dropLast

/-- `run`, `helper_ui.rs:144-229`; without a result it waits for good, which it does only for a
dialog without a timeout. -/
def run (helperPath : Str) (req : DialogRequest) (child : Child) :
    Option (Except HelperError Verdict) :=
  match child.canned.bind Verdict.fromStr with
  | some v => some (.ok v)
  | none =>
    if !child.starts || (req.argv helperPath).any fun word ↦ word.contains '\x00' then
      some (.error .spawn)
    else
      match child.read with
      | some (.ok (some v)) => some (.ok v)
      | some (.ok none) => some (.error .noOutput)
      | some (.error e) => some (.error e)
      | none => if 0 < req.timeout then some (.error .timeout) else none

/-- Without the test seam a verdict is read from the output. -/
theorem read_of_run {helperPath : Str} {req : DialogRequest} {child : Child} {v : Verdict}
    (hcanned : child.canned = none) (h : run helperPath req child = some (.ok v)) :
    child.read = some (.ok (some v)) := by
  rw [run, hcanned, Option.bind_none] at h
  dsimp only at h
  split at h
  next => cases h
  next =>
    split at h
    next v' hread =>
      cases h
      exact hread
    next => cases h
    next => cases h
    next =>
      split at h
      · cases h
      · cases h

end Sentinel.Agent.HelperUi
