import Mathlib.Algebra.Group.Nat.Defs
import Sentinel.Base.Clap
import Sentinel.Shared.Procfs

/-!
# The command line of the helper

Crate `sentinel-shared`, `crates/sentinel-shared/src/cli.rs:33-113`: the options the helper
knows, their types and their defaults. The words are taken apart by the parser of `Base.Clap`;
what it finds is read into `Args`. Numbers are written in decimal by both spawners and read back
here.
-/

namespace Sentinel.Shared

open Sentinel.Base

/-! ### Decimal numbers -/

/-- `to_string` of an `i32`. -/
def intToString : Int → Str
  | .ofNat n => Nat.toDigits 10 n
  | .negSucc n => '-' :: Nat.toDigits 10 (n + 1)

/-- `str::parse::<u64>`: digits with an optional plus sign, in range. -/
def parseU64 (s : Str) : Option Nat :=
  let digits := match s with
    | '+' :: rest => rest
    | _ => s
  match parseDigits digits with
  | some n => if n < 2 ^ 64 then some n else none
  | none => none

/-- A decimal number begins with a digit. -/
theorem toDigits_cons (n : Nat) : ∃ d ds, Nat.toDigits 10 n = d :: ds ∧ d.isDigit = true := by
  cases h : Nat.toDigits 10 n with
  | nil => exact absurd h Nat.toDigits_ne_nil
  | cons d ds =>
    refine ⟨d, ds, rfl, ?_⟩
    apply Nat.isDigit_of_mem_toDigits (b := 10) (n := n) (by decide) (by decide)
    rw [h]
    exact List.mem_cons_self

/-- A decimal number reads back. -/
theorem parseDigits_toDigits (n : Nat) : parseDigits (Nat.toDigits 10 n) = some n := by
  have hne : Nat.toDigits 10 n ≠ [] := Nat.toDigits_ne_nil
  have hall : (Nat.toDigits 10 n).all Char.isDigit = true := by
    apply List.all_eq_true.mpr
    intro c hc
    exact Nat.isDigit_of_mem_toDigits (by decide) (by decide) hc
  rw [parseDigits, if_pos ⟨hne, hall⟩, Nat.ofDigitChars_toDigits (by decide) (by decide)]

/-- A decimal number has no sign. -/
private theorem toDigits_unsigned (n : Nat) {c : Char} (hc : c.isDigit = false) (s : Str) :
    Nat.toDigits 10 n ≠ c :: s := by
  obtain ⟨d, ds, hd, hdigit⟩ := toDigits_cons n
  rw [hd]
  rintro ⟨⟩
  rw [hdigit] at hc
  cases hc

/-- A `u64` reads back. -/
theorem parseU64_toDigits {n : Nat} (h : n < 2 ^ 64) :
    parseU64 (Nat.toDigits 10 n) = some n := by
  unfold parseU64
  split
  next rest hs => exact absurd hs (toDigits_unsigned n (by decide) rest)
  next => simp only [parseDigits_toDigits, h, if_true]

/-- A `u32` reads back. -/
theorem parseU32_toDigits (n : UInt32) : parseU32 (Nat.toDigits 10 n.toNat) = some n := by
  have hlt : n.toNat < 4294967296 := n.toNat_lt
  unfold parseU32
  split
  next rest hs => exact absurd hs (toDigits_unsigned _ (by decide) rest)
  next => simp only [parseDigits_toDigits, hlt, if_true, UInt32.ofNat_toNat]

/-- An `i32` reads back. -/
theorem parseI32_intToString {i : Int} (hl : -2147483648 ≤ i) (hu : i ≤ 2147483647) :
    parseI32 (intToString i) = some i := by
  cases i with
  | ofNat n =>
    unfold parseI32 intToString
    split
    next rest hs => exact absurd hs (toDigits_unsigned n (by decide) rest)
    next rest hs => exact absurd hs (toDigits_unsigned n (by decide) rest)
    next =>
      simp only [parseDigits_toDigits]
      rw [if_pos (by simp only [Int.ofNat_eq_natCast] at hu; omega)]
      rfl
  | negSucc n =>
    simp only [parseI32, intToString, parseDigits_toDigits]
    rw [if_pos (by omega)]
    rfl

/-- A number that is not negative is accepted as a value, a negative one is not. -/
theorem acceptable_intToString (i : Int) :
    Clap.acceptable (intToString i) = decide (0 ≤ i) := by
  cases i with
  | ofNat n =>
    obtain ⟨d, ds, hd, hdigit⟩ := toDigits_cons n
    have hne : d ≠ '-' := by
      rintro rfl
      revert hdigit
      decide
    simp [intToString, Clap.acceptable, hd, hne]
  | negSucc n =>
    obtain ⟨d, ds, hd, -⟩ := toDigits_cons (n + 1)
    simp [intToString, Clap.acceptable, hd]

/-- A number has no NUL. -/
theorem nul_not_mem_intToString (i : Int) : '\x00' ∉ intToString i := by
  cases i with
  | ofNat n => exact nul_not_mem_toDigits n
  | negSucc n =>
    rw [intToString, List.mem_cons, not_or]
    exact ⟨by decide, nul_not_mem_toDigits (n + 1)⟩

/-- An unsigned number is accepted as a value. -/
theorem acceptable_toDigits (n : Nat) : Clap.acceptable (Nat.toDigits 10 n) = true := by
  have h := acceptable_intToString (Int.ofNat n)
  rw [intToString] at h
  rw [h]
  simp

/-! ### The options -/

/-- The options of `Args`. -/
inductive Opt where
  | title
  | message
  | secondary
  | processExe
  | processCmdline
  | processPid
  | processCwd
  | requestingUser
  | action
  | timeout
  | minTime
  | randomize
  | windowed
  | layerShell
  | soundName
  | rememberSecs
  deriving DecidableEq, Repr

/-- Their names on the command line. -/
def Opt.name : Opt → Str
  | .title => "--title".toList
  | .message => "--message".toList
  | .secondary => "--secondary".toList
  | .processExe => "--process-exe".toList
  | .processCmdline => "--process-cmdline".toList
  | .processPid => "--process-pid".toList
  | .processCwd => "--process-cwd".toList
  | .requestingUser => "--requesting-user".toList
  | .action => "--action".toList
  | .timeout => "--timeout".toList
  | .minTime => "--min-time".toList
  | .randomize => "--randomize".toList
  | .windowed => "--windowed".toList
  | .layerShell => "--layer-shell".toList
  | .soundName => "--sound-name".toList
  | .rememberSecs => "--remember-secs".toList

/-- Names have no NUL. -/
theorem nul_not_mem_name (o : Opt) : '\x00' ∉ o.name := by
  cases o <;> decide

/-- The flags stand alone. -/
def Opt.takesValue : Opt → Bool
  | .randomize | .windowed | .layerShell => false
  | _ => true

/-- The options as a grammar. -/
def helperGrammar : Clap.Grammar Opt := ⟨Opt.name, Opt.takesValue⟩

/-- `Args`, `cli.rs:35-113`. -/
structure Args where
  title : Str := "Authentication Required".toList
  message : Str := "An application is requesting elevated privileges.".toList
  secondary : Str := "Click Allow to continue or Deny to cancel.".toList
  processExe : Option Str := none
  processCmdline : Option Str := none
  processPid : Option Int := none
  processCwd : Option Str := none
  requestingUser : Option Str := none
  action : Option Str := none
  timeout : Nat := 30
  minTime : Nat := 500
  randomize : Bool := false
  windowed : Bool := false
  layerShell : Bool := false
  soundName : Str := []
  rememberSecs : UInt32 := 0
  deriving DecidableEq, Repr

/-- A value of its type, when there is one. -/
def typed {α : Type} (parse : Str → Option α) : Option Str → Option (Option α)
  | none => some none
  | some s => (parse s).map some

/-- A value that reads is there. -/
theorem typed_some {α : Type} {parse : Str → Option α} {s : Str} {a : α}
    (h : parse s = some a) : typed parse (some s) = some (some a) := by
  rw [typed, h]
  rfl

/-- The fields from what the parser found: types, defaults and the conflict of the two render
flags. -/
def Args.fromMatches (m : Clap.Matches Opt) : Option Args := do
  let processPid ← typed parseI32 (Clap.lookup m .processPid)
  let timeout ← typed parseU64 (Clap.lookup m .timeout)
  let minTime ← typed parseU64 (Clap.lookup m .minTime)
  let rememberSecs ← typed parseU32 (Clap.lookup m .rememberSecs)
  if Clap.present m .windowed && Clap.present m .layerShell then none
  else
    let defaults : Args := {}
    return {
      title := (Clap.lookup m .title).getD defaults.title
      message := (Clap.lookup m .message).getD defaults.message
      secondary := (Clap.lookup m .secondary).getD defaults.secondary
      processExe := Clap.lookup m .processExe
      processCmdline := Clap.lookup m .processCmdline
      processPid
      processCwd := Clap.lookup m .processCwd
      requestingUser := Clap.lookup m .requestingUser
      action := Clap.lookup m .action
      timeout := timeout.getD defaults.timeout
      minTime := minTime.getD defaults.minTime
      randomize := Clap.present m .randomize
      windowed := Clap.present m .windowed
      layerShell := Clap.present m .layerShell
      soundName := (Clap.lookup m .soundName).getD defaults.soundName
      rememberSecs := rememberSecs.getD defaults.rememberSecs }

/-- `Args::parse`, `cli.rs:141-143`: the first word is the program. -/
def Args.parse (clap : Clap.Parser helperGrammar) (argv : List Str) : Option Args :=
  (clap.parse argv.tail).bind Args.fromMatches

/-- The scan over the options of the helper. -/
def helperClap : Clap.Parser helperGrammar :=
  Clap.scanParser helperGrammar
    [.title, .message, .secondary, .processExe, .processCmdline, .processPid, .processCwd,
      .requestingUser, .action, .timeout, .minTime, .randomize, .windowed, .layerShell, .soundName,
      .rememberSecs]
    (by intro o; cases o <;> rfl)

end Sentinel.Shared
