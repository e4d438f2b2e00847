import Mathlib.Data.List.Infix
import Sentinel.Base.Shell
import Sentinel.Base.Undo
import Sentinel.Shared.Procfs

/-!
# Wiring the PAM stacks and the sudoers drop-in

Script `packaging-kde/install.sh:134-216,378-393`. What the installer writes for a PAM service and
for sudo's timestamp is computed from the files it finds: the base stack of the service with the
Sentinel line inserted, and a snippet in a directory that the active sudoers file includes.
Files are regular ones; a path is its name from the root, without links or `..` being resolved.
-/

namespace Sentinel.Packaging

open Sentinel.Base Sentinel.Base.Shell

/-- The name of a file. -/
abbrev Path := Str

/-- The files of the machine. -/
abbrev Tree := Undo.Tree Path Str

/-- An entry of a directory. -/
def inDir (dir name : Str) : Path := dir ++ '/' :: name

/-- A file some directories down. -/
def inDirs (dir : Path) (names : List String) : Path :=
  names.foldl (fun d name ↦ inDir d name.toList) dir

/-- What a part of the script comes to: nothing, one `install_file`, or a failing command. -/
inductive Call where
  | skip
  | install (dst : Path) (content : Str)
  | fails
  deriving DecidableEq, Repr

/-! ### PAM stacks -/

/-- `SENTINEL_PAM_LINE`, `install.sh:190`. -/
def sentinelPamLine : Str :=
  "auth       sufficient pam_sentinel.so   # Sentinel-KDE: confirm instead of password".toList

/-- `grep -q 'pam_sentinel\.so'`, `install.sh:197,428`. -/
def mentionsSentinel (text : Str) : Bool := decide ("pam_sentinel.so".toList <:+: text)

/-- `find_pam_base`, `install.sh:137-143`: the stack of a service, `/etc` first. -/
def findPamBase (sysconfdir : Path) (t : Tree) (svc : Str) : Option Str :=
  [inDir sysconfdir "pam.d".toList, "/usr/lib/pam.d".toList, "/usr/etc/pam.d".toList,
    "/lib/pam.d".toList].findSome? fun d ↦ t (inDir d svc)

/-- An `auth … include` or `auth … substack` line, `install.sh:202`. -/
def isAnchor (line : Str) : Bool :=
  match Shared.stripPrefix "auth".toList (line.dropWhile isSpace) with
  | some (c :: rest) =>
    isSpace c && (decide ("include".toList <:+: rest) || decide ("substack".toList <:+: rest))
  | _ => false

/-- A `#%PAM-1.0` header line, `install.sh:212`. -/
def isHeader (line : Str) : Bool :=
  match Shared.stripPrefix "#%PAM-1.0".toList (line.dropWhile isSpace) with
  | some rest => rest.all isSpace
  | none => false

/-- One turn of the loop, `install.sh:201-207`: the lines written so far and whether the Sentinel
line is among them. -/
def wireLine (acc : List Str × Bool) (line : Str) : List Str × Bool :=
  if !acc.2 && isAnchor line then (acc.1 ++ [sentinelPamLine, line], true)
  else (acc.1 ++ [line], acc.2)

/-- The wired stack, `install.sh:199-213`. Without an anchor the file is rebuilt behind a header,
and `grep -v` fails when that leaves no line. -/
def wireStack (base : Str) : Option Str :=
  let (out, inserted) := (lines base).foldl wireLine ([], false)
  if inserted then some (unlines out)
  else
    match (lines base).filter fun l ↦ !isHeader l with
    | [] => none
    | body => some (unlines ("#%PAM-1.0".toList :: sentinelPamLine :: body))

/-- The stack that shadows a service. -/
def pamTarget (sysconfdir : Path) (svc : Str) : Path :=
  inDir (inDir sysconfdir "pam.d".toList) svc

/-- `wire_pam_service`, `install.sh:191-216`. -/
def wirePamService (sysconfdir : Path) (t : Tree) (svc : Str) : Call :=
  match findPamBase sysconfdir t svc with
  | none => .skip
  | some base =>
    if (t (pamTarget sysconfdir svc)).any mentionsSentinel then .skip
    else
      match wireStack base with
      | none => .fails
      | some text => .install (pamTarget sysconfdir svc) text

/-! ### The sudoers drop-in -/

/-- `s/^"(.*)"$/\1/`, `install.sh:164`. -/
def unquote (s : Str) : Str :=
  match s with
  | '"' :: rest => if rest.getLast? = some '"' then rest.dropLast else s
  | _ => s

/-- The directory of an `@includedir` or `#includedir` line, `install.sh:163-164`. -/
def includeDir (line : Str) : Option Path :=
  match line.dropWhile isSpace with
  | c :: rest =>
    if c = '#' ∨ c = '@' then
      match Shared.stripPrefix "includedir".toList rest with
      | some (d :: dir) =>
        if isSpace d then some (unquote ((dir.dropWhile isSpace).rdropWhile isSpace)) else none
      | _ => none
    else none
  | [] => none

/-- `find_sudoers_dropin`, `install.sh:157-175`: the standard directory if it is included, else the
first included one under `/etc`. -/
def findSudoersDropin (t : Tree) : Option Path :=
  let mains := ["/etc/sudoers-rs".toList, "/etc/sudoers".toList, "/usr/etc/sudoers".toList]
  let incdirs := mains.flatMap fun m ↦ (lines ((t m).getD [])).filterMap includeDir
  if "/etc/sudoers.d".toList ∈ incdirs then some "/etc/sudoers.d".toList
  else incdirs.find? fun d ↦ "/etc/".toList.isPrefixOf d

/-- The snippet, `install.sh:382`. -/
def timestampSnippet : Str :=
  ("# Installed by Sentinel — do not edit.\n" ++
    "# Disable sudo credential caching so every sudo runs the PAM stack and\n" ++
    "# Sentinel's per-command remember is the only cache. Remove to restore\n" ++
    "# sudo's default ~5-minute timestamp.\n" ++
    "Defaults timestamp_timeout=0\n").toList

/-- The timestamp override, `install.sh:378-393`; `visudo` is absent or says whether the snippet
is valid. -/
def timestampOverride (visudo : Option Bool) (t : Tree) : Call :=
  match visudo, findSudoersDropin t with
  | some true, some dir => .install (inDir dir "sentinel-timestamp".toList) timestampSnippet
  | _, _ => .skip

end Sentinel.Packaging
