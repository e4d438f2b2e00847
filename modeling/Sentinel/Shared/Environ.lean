import Sentinel.Base.KeyValue
import Sentinel.Shared.Procfs

/-!
# The environment of another process

Crate `sentinel-shared`, `crates/sentinel-shared/src/lib.rs:988-1012`. The environment of a
requesting process is under the control of its user.
-/

namespace Sentinel.Shared

open Sentinel.Base Sentinel.Base.KeyValue

/-- The content of `/proc/<pid>/environ` by process id; absent for every read error. -/
abbrev Environs : Type := Int → Option Bytes

/-- The value of an entry under a key, `lib.rs:1000-1010`: an entry that is no text or no
assignment is passed by. -/
def environEntry (key : Str) (entry : Bytes) : Option Str :=
  match entry with
  | [] => none
  | _ =>
    match (fromUtf8 entry).bind (splitOnce '=') with
    | some (k, v) => if k = key then some v else none
    | none => none

/-- `procfs::read_environ_var`, `lib.rs:994-1012`: the first entry under the key. -/
def readEnvironVar (environs : Environs) (pid : Int) (key : Str) : Option Str :=
  if pid ≤ 0 then none
  else (environs pid).bind fun bytes ↦ (bytes.splitOn 0).findSome? (environEntry key)

private theorem environEntry_assignment {key : Str} {kv : Str × Str} (h : '=' ∉ kv.1) :
    environEntry key (toUtf8 (assignment kv)) = if kv.1 = key then some kv.2 else none := by
  have hne : toUtf8 (assignment kv) ≠ [] := by
    intro hnil
    have hread := fromUtf8_toUtf8 (assignment kv)
    rw [hnil] at hread
    have hlen := congrArg List.length (Option.some.inj hread)
    simp [assignment] at hlen
  unfold environEntry
  split
  next heq => exact absurd heq hne
  next =>
    rw [fromUtf8_toUtf8, Option.bind_some, splitOnce_assignment h]

/-- Of an environment of proper assignments the first one to the key is read. -/
theorem readEnvironVar_eq {environs : Environs} {pid : Int} (hpid : 0 < pid)
    {env : List (Str × Str)}
    (henv : environs pid = some (cmdlineBytes (env.map fun kv ↦ toUtf8 (assignment kv))))
    (hproper : ∀ kv ∈ env, 0 ∉ toUtf8 (assignment kv) ∧ '=' ∉ kv.1) (key : Str) :
    readEnvironVar environs pid key = firstValue key env := by
  have hnul : ∀ e ∈ env.map fun kv ↦ toUtf8 (assignment kv), 0 ∉ e := by
    intro e he
    obtain ⟨kv, hkv, rfl⟩ := List.mem_map.mp he
    exact (hproper kv hkv).1
  rw [readEnvironVar, if_neg (by omega), henv, Option.bind_some, splitOn_cmdlineBytes hnul,
    List.findSome?_append]
  show _ = firstValue key env
  rw [show List.findSome? (environEntry key) [[]] = none from rfl, Option.or_none,
    List.findSome?_map, firstValue]
  clear henv hnul
  induction env with
  | nil => rfl
  | cons kv env ih =>
    have hkv : environEntry key (toUtf8 (assignment kv)) = if kv.1 = key then some kv.2 else none :=
      environEntry_assignment (hproper kv List.mem_cons_self).2
    rw [List.findSome?_cons, List.findSome?_cons,
      ih fun kv' hkv' ↦ hproper kv' (List.mem_cons_of_mem _ hkv'), Function.comp_apply, hkv]

end Sentinel.Shared
