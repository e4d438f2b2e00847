import Mathlib.Algebra.Group.Nat.Defs
import Sentinel.Base.Int32
import Sentinel.Pam.Authenticate
import Sentinel.Shared.Cli

/-!
# The dialog helper

Crate `pam-sentinel`, `crates/pam-sentinel/src/helper.rs`. The parent forks the helper, waits for
its pipe with a deadline and reads one verdict from it; whatever goes wrong on the way is an
error, and whatever is read that is no verdict is a Deny. Killing and reaping the child is left
out: the verdict does not depend on it.
-/

namespace Sentinel.Pam.Helper

open Sentinel.Base Sentinel.Shared

/-- `HELPER_GRACE_SECS`, `helper.rs:21`. -/
def helperGraceSecs : Int := 5

/-- The value of a wrapping `i32` operation. -/
def wrapI32 (x : Int) : Int := x.bmod (2 ^ 32)

/-- `PollTimeout`. -/
inductive PollTimeout where
  | none
  | millis (ms : Nat)
  deriving DecidableEq, Repr

/-- `PollTimeout::MAX`. -/
def PollTimeout.max : PollTimeout := .millis 2147483647

/-- `PollTimeout::try_from` of an `i32`: -1 and everything that is not negative. -/
def PollTimeout.tryFrom (ms : Int) : Option PollTimeout :=
  if ms = -1 then some .none else if 0 ≤ ms then some (.millis ms.toNat) else Option.none

/-- `parent_poll_timeout`, `helper.rs:177-185`, with the wrapping arithmetic of the release
profile. -/
def parentPollTimeout (timeoutSecs : UInt32) : PollTimeout :=
  if timeoutSecs = 0 then .none
  else
    let secs : Int := if timeoutSecs.toNat < 2 ^ 31 then timeoutSecs.toNat else 30
    (PollTimeout.tryFrom (wrapI32 (wrapI32 (secs + helperGraceSecs) * 1000))).getD .max

/-- `parent_poll_timeout` with the arithmetic of the debug profile, where an overflow panics. -/
def parentPollTimeoutChecked (timeoutSecs : UInt32) : Option PollTimeout :=
  if timeoutSecs = 0 then some .none
  else do
    let secs := (I32.tryFrom timeoutSecs.toNat).getD 30
    let total ← I32.checkedAdd secs (Int32.ofInt helperGraceSecs)
    let timeoutMs ← I32.checkedMul total 1000
    return (PollTimeout.tryFrom timeoutMs.toInt).getD .max

/-- The parent waits for the helper's own timeout and the grace on top, cut at the maximum, and no
operation on the way overflows; a timeout that is no `i32` is replaced by the default, and no
timeout means no deadline. -/
def WaitsOut (timeoutSecs : UInt32) : Prop :=
  (timeoutSecs = 0 → parentPollTimeout timeoutSecs = .none) ∧
  (1 ≤ timeoutSecs.toNat → timeoutSecs.toNat ≤ 2147483647 →
    parentPollTimeoutChecked timeoutSecs ≠ none ∧
      parentPollTimeout timeoutSecs =
        if (timeoutSecs.toNat + 5) * 1000 ≤ 2147483647
        then .millis ((timeoutSecs.toNat + 5) * 1000) else .max) ∧
  (2147483647 < timeoutSecs.toNat → parentPollTimeout timeoutSecs = .millis 35000)

section PollTimeout

variable {t : UInt32}

/-- A timeout of some seconds is not zero. -/
theorem ne_zero_of_pos (h : 1 ≤ t.toNat) : t ≠ 0 := by
  intro hz
  rw [hz] at h
  exact absurd h (by decide)

/-- In range the wrapping operations are the exact ones. -/
theorem wrapI32_eq {x : Int} (h : I32.InRange x) : wrapI32 x = x := by
  obtain ⟨hlo, hhi⟩ := h
  unfold wrapI32
  apply Int.bmod_eq_of_le
  · omega
  · omega

/-- Up to 2147478 seconds the deadline is the exact one. -/
theorem parentPollTimeout_eq (hpos : 1 ≤ t.toNat) (hmax : t.toNat ≤ 2147478) :
    parentPollTimeout t = .millis ((t.toNat + 5) * 1000) := by
  have hsum : I32.InRange ((t.toNat : Int) + helperGraceSecs) := by
    unfold helperGraceSecs
    constructor
    · omega
    · omega
  have hmul : I32.InRange (((t.toNat : Int) + helperGraceSecs) * 1000) := by
    unfold helperGraceSecs
    constructor
    · omega
    · omega
  have hms : ((t.toNat : Int) + helperGraceSecs) * 1000 = (((t.toNat + 5) * 1000 : Nat) : Int) := by
    unfold helperGraceSecs
    omega
  rw [parentPollTimeout, if_neg (ne_zero_of_pos hpos)]
  dsimp only
  rw [if_pos (by omega), wrapI32_eq hsum, wrapI32_eq hmul, hms, PollTimeout.tryFrom,
    if_neg (by omega), if_pos (by omega), Int.toNat_natCast, Option.getD_some]

/-- A number of seconds that is no `i32` counts as the default. -/
theorem parentPollTimeout_default (h : 2147483647 < t.toNat) :
    parentPollTimeout t = .millis 35000 := by
  rw [parentPollTimeout, if_neg (ne_zero_of_pos (by omega))]
  dsimp only
  rw [if_neg (by omega)]
  decide

/-- The seconds that the addition sees. -/
theorem toInt_secs (h : t.toNat ≤ 2147483647) :
    ((I32.tryFrom t.toNat).getD 30).toInt = (t.toNat : Int) := by
  rw [I32.tryFrom, if_pos h, Option.getD_some]
  exact Int32.toInt_ofNat_of_lt (by omega)

/-- No operation overflows exactly up to 2147478 seconds. -/
theorem parentPollTimeoutChecked_ne_none_iff (hpos : 1 ≤ t.toNat) (hmax : t.toNat ≤ 2147483647) :
    parentPollTimeoutChecked t ≠ none ↔ t.toNat ≤ 2147478 := by
  have hgrace : (Int32.ofInt helperGraceSecs).toInt = 5 := rfl
  have hk : (1000 : Int32).toInt = 1000 := rfl
  rw [parentPollTimeoutChecked, if_neg (ne_zero_of_pos hpos)]
  by_cases hsum : I32.InRange ((t.toNat : Int) + 5)
  · have hadd : I32.checkedAdd ((I32.tryFrom t.toNat).getD 30) (Int32.ofInt helperGraceSecs) =
        some (Int32.ofInt ((t.toNat : Int) + 5)) := by
      rw [I32.checkedAdd, toInt_secs hmax, hgrace, I32.checked, if_pos hsum]
    simp only [hadd, Option.bind_eq_bind, Option.bind_some, I32.checkedMul, I32.toInt_ofInt hsum,
      hk]
    obtain ⟨hlo, hhi⟩ := hsum
    by_cases hmul : I32.InRange (((t.toNat : Int) + 5) * 1000)
    · rw [I32.checked, if_pos hmul]
      obtain ⟨-, hle⟩ := hmul
      simp
      omega
    · rw [I32.checked, if_neg hmul]
      have hgt : 2147483647 < ((t.toNat : Int) + 5) * 1000 := by
        by_contra hle
        exact hmul ⟨by omega, by omega⟩
      simp
      omega
  · have hadd : I32.checkedAdd ((I32.tryFrom t.toNat).getD 30) (Int32.ofInt helperGraceSecs) =
        none := by
      rw [I32.checkedAdd, toInt_secs hmax, hgrace, I32.checked, if_neg hsum]
    have hgt : 2147483647 < (t.toNat : Int) + 5 := by
      by_contra hle
      exact hsum ⟨by omega, by omega⟩
    simp only [hadd, Option.bind_eq_bind, Option.bind_none, ne_eq, not_true_eq_false, false_iff]
    omega

end PollTimeout

/-- The parent waits out the dialog exactly when the addition and the multiplication stay in range
or are not reached with the seconds of the configuration. -/
theorem waits_out_iff (t : UInt32) :
    WaitsOut t ↔ t.toNat ≤ 2147478 ∨ 2147483647 < t.toNat := by
  constructor
  · intro h
    by_cases hmax : t.toNat ≤ 2147483647
    · by_cases hpos : 1 ≤ t.toNat
      · have hchecked := (h.2.1 hpos hmax).1
        exact Or.inl ((parentPollTimeoutChecked_ne_none_iff hpos hmax).mp hchecked)
      · omega
    · omega
  · intro h
    refine ⟨?_, ?_, parentPollTimeout_default⟩
    · intro hz
      rw [hz]
      rfl
    · intro hpos hmax
      have hle : t.toNat ≤ 2147478 := by omega
      refine ⟨(parentPollTimeoutChecked_ne_none_iff hpos hmax).mpr hle, ?_⟩
      rw [parentPollTimeout_eq hpos hle, if_pos (by omega)]

/-- A timeout of 4294963 seconds wraps to a deadline of 704 ms. -/
theorem wrapped_cuts_short :
    parentPollTimeout 4294963 = .millis 704 ∧ parentPollTimeoutChecked 4294963 = none ∧
      ¬ WaitsOut 4294963 := by
  have hval : parentPollTimeout 4294963 = .millis 704 := by decide
  refine ⟨hval, by decide, ?_⟩
  intro h
  have hmax := (h.2.1 (by decide) (by decide)).2
  rw [hval] at hmax
  exact absurd hmax (by decide)

/-- The words `child_exec` pushes for the helper, `helper.rs:119-155`. -/
def childWords (helperPath : Str) (req : HelperRequest) : List Str :=
  [helperPath, "--title".toList, req.formattedTitle, "--message".toList, req.formattedMessage,
    "--secondary".toList, req.formattedSecondary,
    "--timeout".toList, Nat.toDigits 10 req.cfg.timeout.toNat,
    "--min-time".toList, Nat.toDigits 10 req.cfg.minDisplayTimeMs.toNat,
    "--remember-secs".toList, Nat.toDigits 10 req.rememberSecs.toNat] ++
  (if req.soundName ≠ [] then ["--sound-name".toList, req.soundName] else []) ++
  (if req.cfg.randomizeButtons then ["--randomize".toList] else []) ++
  (if req.cfg.showProcessInfo then
    ["--process-exe".toList, req.process.exe] ++
    (if req.process.cmdline ≠ [] then ["--process-cmdline".toList, req.process.cmdline] else []) ++
    ["--process-pid".toList, intToString req.requestingPid] ++
    (if req.process.cwd ≠ [] then ["--process-cwd".toList, req.process.cwd] else []) ++
    ["--requesting-user".toList, req.user, "--action".toList, req.service]
  else [])

/-- The arguments of the helper, `helper.rs:113-156`: `push` drops a word that is no C string. -/
def childArgv (helperPath : Str) (req : HelperRequest) : List Str :=
  (childWords helperPath req).filter (fun s ↦ '\x00' ∉ s)

/-- How a read of the pipe ends: with the bytes that were there, with `EINTR` or with another
error. -/
inductive PipeRead where
  | bytes (bs : Bytes)
  | interrupted
  | error
  deriving DecidableEq, Repr

/-- The system calls of one helper run: whether the pipe and the fork come about, how many
descriptors `poll` reports before the deadline, and what the pipe delivers. -/
structure HelperIo where
  pipe : Bool
  fork : Bool
  poll : PollTimeout → Option Nat
  read : PipeRead

/-- The errors of a helper run. -/
inductive HelperError where
  | pipe
  | fork
  | poll
  | timeout
  | read
  | noOutput
  deriving DecidableEq, Repr

/-- The text up to the first line break. -/
def firstLine (s : Str) : Str := s.takeWhile (fun c ↦ c != '\n' && c != '\r')

/-- The verdict in what was read, `helper.rs:221-237`. -/
def parseVerdict (read : Bytes) : Verdict :=
  (Verdict.fromStr (firstLine ((fromUtf8 read).getD []))).getD ⟨.deny, false⟩

/-- `parent_wait`, `helper.rs:187-238`: a read takes at most 16 bytes, and one that was
interrupted has read nothing. -/
def parentWait (io : HelperIo) (req : HelperRequest) : Except HelperError Verdict :=
  match io.poll (parentPollTimeout req.cfg.timeout) with
  | none => .error .poll
  | some n =>
    if n = 0 then .error .timeout
    else
      match io.read with
      | .error => .error .read
      | .interrupted => .error .noOutput
      | .bytes bs =>
        if bs.take 16 = [] then .error .noOutput else .ok (parseVerdict (bs.take 16))

/-- `run`, `helper.rs:51-67`, on the side of the parent. -/
def run (io : HelperIo) (req : HelperRequest) : Except HelperError Verdict :=
  if !io.pipe then .error .pipe
  else if !io.fork then .error .fork
  else parentWait io req

/-- A run has a verdict exactly when every system call came about and something was read. -/
theorem run_eq_ok_iff (io : HelperIo) (req : HelperRequest) (v : Verdict) :
    run io req = .ok v ↔
      io.pipe = true ∧ io.fork = true ∧
        (∃ n, io.poll (parentPollTimeout req.cfg.timeout) = some n ∧ n ≠ 0) ∧
        ∃ bs, io.read = .bytes bs ∧ bs ≠ [] ∧ parseVerdict (bs.take 16) = v := by
  have hwait : parentWait io req = .ok v ↔
      (∃ n, io.poll (parentPollTimeout req.cfg.timeout) = some n ∧ n ≠ 0) ∧
        ∃ bs, io.read = .bytes bs ∧ bs ≠ [] ∧ parseVerdict (bs.take 16) = v := by
    unfold parentWait
    cases io.poll (parentPollTimeout req.cfg.timeout) with
    | none => simp
    | some n =>
      by_cases hn : n = 0
      · simp [hn]
      · cases io.read with
        | error => simp [hn]
        | interrupted => simp [hn]
        | bytes bs =>
          cases bs with
          | nil => simp [hn]
          | cons b bs => simp [hn]
  unfold run
  cases io.pipe with
  | false => simp
  | true =>
    cases io.fork with
    | false => simp
    | true => simpa using hwait

end Sentinel.Pam.Helper
