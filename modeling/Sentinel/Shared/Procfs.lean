import Sentinel.Base.Utf8
import Mathlib.Data.List.Basic

/-!
# Best-effort `/proc` readers

Crate `sentinel-shared`, `crates/sentinel-shared/src/lib.rs:915-1013`, with the numeric
readers of `crates/pam-sentinel/src/lib.rs:434-473`. A process directory is given by the
raw content of its files and links; an absent content stands for every read error.
-/

namespace Sentinel.Shared

open Sentinel.Base

/-- The files and link targets of one `/proc/<pid>` directory. -/
structure ProcDir where
  exe : Option Bytes := none
  cwd : Option Bytes := none
  cmdline : Option Bytes := none
  comm : Option Bytes := none
  status : Option Bytes := none
  loginuid : Option Bytes := none
  sessionid : Option Bytes := none
  deriving DecidableEq, Repr

/-- The `/proc` tree by process id. -/
def Procfs : Type := Int → ProcDir

/-- The lines of a text: pieces between line feeds, a trailing carriage return dropped and
no empty piece behind the last line feed. -/
def lines (s : Str) : List Str :=
  let pieces := s.splitOn '\n'
  let pieces := if pieces.getLast? = some [] then pieces.dropLast else pieces
  pieces.map (fun l ↦ if l.getLast? = some '\r' then l.dropLast else l)

/-- A decimal digit string as a number. -/
def parseDigits (s : Str) : Option Nat :=
  if s ≠ [] ∧ s.all Char.isDigit then some (Nat.ofDigitChars 10 s 0) else none

/-- `str::parse::<u32>`: digits with an optional plus sign, in range. -/
def parseU32 (s : Str) : Option UInt32 :=
  let digits := match s with
    | '+' :: rest => rest
    | _ => s
  match parseDigits digits with
  | some n => if n < 4294967296 then some (UInt32.ofNat n) else none
  | none => none

/-- `str::parse::<i32>`: digits with an optional sign, in range. -/
def parseI32 (s : Str) : Option Int :=
  match s with
  | '-' :: rest =>
    match parseDigits rest with
    | some n => if n ≤ 2147483648 then some (-(n : Int)) else none
    | none => none
  | '+' :: rest =>
    match parseDigits rest with
    | some n => if n ≤ 2147483647 then some (n : Int) else none
    | none => none
  | _ =>
    match parseDigits s with
    | some n => if n ≤ 2147483647 then some (n : Int) else none
    | none => none

/-- `str::strip_prefix`. -/
def stripPrefix (pre s : Str) : Option Str :=
  if pre.isPrefixOf s then some (s.drop pre.length) else none

/-- A read of a text file of one process: no process id below one, no malformed UTF-8. -/
def readText (fs : Procfs) (file : ProcDir → Option Bytes) (pid : Int) : Option Str :=
  if pid ≤ 0 then none else (file (fs pid)).bind fromUtf8

/-- `procfs::read_comm`, `lib.rs:919-926`. -/
def readComm (fs : Procfs) (pid : Int) : Option Str := (readText fs ProcDir.comm pid).map trim

/-- `procfs::read_exe`, `lib.rs:949-956`. -/
def readExe (fs : Procfs) (pid : Int) : Option Str := readText fs ProcDir.exe pid

/-- `procfs::read_cwd`, `lib.rs:960-967`. -/
def readCwd (fs : Procfs) (pid : Int) : Option Str := readText fs ProcDir.cwd pid

/-- `procfs::read_ppid`, `lib.rs:933-944`: the first `PPid:` line decides. -/
def readPpid (fs : Procfs) (pid : Int) : Option Int :=
  match readText fs ProcDir.status pid with
  | none => none
  | some s =>
    match (lines s).findSome? (stripPrefix "PPid:".toList) with
    | none => none
    | some rest => parseI32 (trim rest)

/-- The words of a `cmdline` file: pieces between NUL bytes, empty ones dropped, decoded
with replacement; `lib.rs:977-981`. -/
def cmdlineWords (bytes : Bytes) : List Str :=
  ((bytes.splitOn 0).filter (fun w ↦ w ≠ [])).map fromUtf8Lossy

/-- `procfs::read_cmdline`, `lib.rs:972-987`. -/
def readCmdline (fs : Procfs) (pid : Int) : Option Str :=
  if pid ≤ 0 then none
  else match (fs pid).cmdline with
    | none => none
    | some bytes =>
      match cmdlineWords bytes with
      | [] => none
      | words => some (joinSpace words)

/-- `read_proc_u32`, `crates/pam-sentinel/src/lib.rs:464-473`: `u32::MAX` when the file is
absent or unreadable as a number. -/
def readProcU32 (fs : Procfs) (file : ProcDir → Option Bytes) (ppid : Int) : UInt32 :=
  ((readText fs file ppid).bind (fun s ↦ parseU32 (trim s))).getD 4294967295

/-- `caller_uid`, `crates/pam-sentinel/src/lib.rs:440-460`: a set login uid, else the real
uid of the status file, else the own uid. -/
def callerUid (fs : Procfs) (ownUid : UInt32) (ppid : Int) : UInt32 :=
  let login := (readText fs ProcDir.loginuid ppid).bind (fun s ↦ parseU32 (trim s))
  match login.filter (fun u ↦ u ≠ 4294967295) with
  | some uid => uid
  | none =>
    let real (line : Str) : Option UInt32 :=
      (stripPrefix "Uid:".toList line).bind (fun rest ↦
        (splitWhitespace rest).head?.bind parseU32)
    match (readText fs ProcDir.status ppid).bind (fun s ↦ (lines s).findSome? real) with
    | some uid => uid
    | none => ownUid

/-! ### Command lines as the kernel writes them -/

/-- The `cmdline` file of an argument vector: every word followed by a NUL byte. -/
def cmdlineBytes (argv : List Bytes) : Bytes := argv.flatMap (fun w ↦ w ++ [0])

/-- The pieces of NUL-terminated entries. -/
theorem splitOn_cmdlineBytes {argv : List Bytes} (h : ∀ w ∈ argv, 0 ∉ w) :
    (cmdlineBytes argv).splitOn 0 = argv ++ [[]] := by
  induction argv with
  | nil => rfl
  | cons w ws ih =>
    have hw : 0 ∉ w := h w (by simp)
    have hs : cmdlineBytes (w :: ws) = w ++ 0 :: cmdlineBytes ws := by
      simp [cmdlineBytes]
    rw [hs, List.splitOn_append_cons_self_of_not_mem hw, ih (fun v hv ↦ h v (by simp [hv])),
      List.cons_append]

/-- The words read back are the non-empty ones, decoded. -/
theorem cmdlineWords_cmdlineBytes {argv : List Bytes} (h : ∀ w ∈ argv, 0 ∉ w) :
    cmdlineWords (cmdlineBytes argv) = (argv.filter (fun w ↦ w ≠ [])).map fromUtf8Lossy := by
  rw [cmdlineWords, splitOn_cmdlineBytes h]
  simp

end Sentinel.Shared
