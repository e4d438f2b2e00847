import Sentinel.Pam.Authenticate
import Sentinel.Shared.Environ

/-!
# The environment of the dialog helper

Crate `pam-sentinel`: the effect of `crates/pam-sentinel/src/display.rs:12-59`, the whole of
`crates/pam-sentinel/src/locale.rs` and the assignments of `child_exec`,
`crates/pam-sentinel/src/helper.rs:92-112`. The helper inherits the variables of the privileged
program; what it gets from the requesting process are locales of a strict form.
-/

namespace Sentinel.Pam

open Sentinel.Base Sentinel.Base.KeyValue Sentinel.Shared

/-- The variables of a process. -/
abbrev Vars : Type := Str → Option Bytes

/-- `std::env::set_var`. -/
def Vars.setVar (env : Vars) (name : String) (value : Bytes) : Vars :=
  Function.update env name.toList (some value)

/-- The entry is a display socket of this name, `display.rs:27-46`. -/
def isWaylandSocket (entry : DirEntry) (s : Str) : Bool :=
  "wayland-".toList.isPrefixOf s && extension s != some "lock".toList && entry.isSocket

/-- The name that `detect_for_user` stops at, `display.rs:25-50`. -/
def waylandSocket (entries : List DirEntry) : Option Str :=
  entries.findSome? fun entry ↦ (fromUtf8 entry.name).filter (isWaylandSocket entry)

/-- The runtime directory of a user, `display.rs:20`. -/
def runtimeDirPath (uid : UInt32) : Str := "/run/user/".toList ++ Nat.toDigits 10 uid.toNat

/-- The environment that `detect_for_user` leaves, `display.rs:12-59`. -/
def displayEnv (w : World) (uid : UInt32) : Vars :=
  if (envVar w.env "WAYLAND_DISPLAY").any (fun v ↦ v ≠ []) then w.env
  else match (w.runtimeDir uid).bind waylandSocket with
    | none => w.env
    | some s =>
      let env := Vars.setVar w.env "WAYLAND_DISPLAY" (toUtf8 s)
      if (env "XDG_RUNTIME_DIR".toList).isNone then
        env.setVar "XDG_RUNTIME_DIR" (toUtf8 (runtimeDirPath uid))
      else env

/-- `FORWARDED_VARS`, `locale.rs:43`. -/
def forwardedVars : List Str := ["LC_ALL".toList, "LC_MESSAGES".toList, "LANG".toList]

/-- `is_safe_locale_value`, `locale.rs:68-75`. -/
def isSafeLocaleValue (value : Str) : Bool :=
  value ≠ [] && (toUtf8 value).length ≤ 32 &&
    value.all fun c ↦ c.isAlphanum || c == '.' || c == '_' || c == '@' || c == '-'

/-- `read_locale_env`, `locale.rs:51-61`, in the order of its loop. -/
def readLocaleEnv (environs : Environs) (pid : Int) : List (Str × Str) :=
  forwardedVars.filterMap fun var ↦
    ((readEnvironVar environs pid var).filter isSafeLocaleValue).map fun value ↦ (var, value)

/-- What `child_exec` takes from the entry of the user. -/
structure User where
  name : Str
  dir : Bytes

/-- The assignments for the user, `helper.rs:93-95`. -/
def ownerEnv (env : Vars) (user : User) : Vars :=
  ((env.setVar "HOME" user.dir).setVar "USER" (toUtf8 user.name)).setVar "LOGNAME"
    (toUtf8 user.name)

/-- The environment behind `child_exec`, `helper.rs:92-112`, for an iteration of the locales. -/
def childEnv (env : Vars) (user : User) (locales : List (Str × Str)) : Vars :=
  assignAll (ownerEnv env user) (locales.map fun kv ↦ (kv.1, toUtf8 kv.2))

/-- The user a run is for. -/
def World.caller (w : World) : UInt32 := callerUid w.host.fs w.ownUid w.ppid

/-- The helper of a request may start with these variables: the locales are a hash map, whose
iteration has no fixed order. -/
def Starts (environs : Environs) (w : World) (req : HelperRequest) (user : User) (env : Vars) :
    Prop :=
  ∃ locales : List (Str × Str), locales.Perm (readLocaleEnv environs req.requestingPid) ∧
    env = childEnv (displayEnv w w.caller) user locales

/-- The variables the module writes. -/
def writtenVars : List Str :=
  ["WAYLAND_DISPLAY".toList, "XDG_RUNTIME_DIR".toList, "HOME".toList, "USER".toList,
    "LOGNAME".toList] ++ forwardedVars

/-- What is forwarded for a variable. -/
def forwarded (environs : Environs) (pid : Int) (var : Str) : Option Str :=
  if forwardedVars.contains var then (readEnvironVar environs pid var).filter isSafeLocaleValue
  else none

/-! ### What is confined -/

/-- The display is the one the run has inherited, or a socket in the runtime directory of its
user. -/
def HasDisplay (w : World) (env : Vars) : Prop :=
  (env "WAYLAND_DISPLAY".toList = w.env "WAYLAND_DISPLAY".toList ∧
      ∃ v, v ≠ [] ∧ envVar w.env "WAYLAND_DISPLAY" = some v) ∨
    ∃ entries entry s, w.runtimeDir w.caller = some entries ∧ entry ∈ entries ∧
      entry.isSocket = true ∧ fromUtf8 entry.name = some s ∧ s ≠ [] ∧
      env "WAYLAND_DISPLAY".toList = some (toUtf8 s)

/-- Everything but three locales is as it was inherited or as the module has set it. -/
structure Confined (environs : Environs) (w : World) (user : User) (env : Vars) : Prop where
  display : HasDisplay w env
  runtimeDir : env "XDG_RUNTIME_DIR".toList = w.env "XDG_RUNTIME_DIR".toList ∨
    w.env "XDG_RUNTIME_DIR".toList = none ∧
      env "XDG_RUNTIME_DIR".toList = some (toUtf8 (runtimeDirPath w.caller))
  home : env "HOME".toList = some user.dir
  username : env "USER".toList = some (toUtf8 user.name)
  logname : env "LOGNAME".toList = some (toUtf8 user.name)
  inherited : ∀ name, name ∉ writtenVars → env name = w.env name
  locale : ∀ name ∈ forwardedVars, env name = w.env name ∨
    ∃ value, env name = some (toUtf8 value) ∧ isSafeLocaleValue value = true ∧
      readEnvironVar environs w.host.pid name = some value

/-- The helper of the call becomes the user of the run, and the environment of the requesting
process decides on its locales alone. -/
def StartsConfined (w : World) : Call → Prop
  | .runHelper req =>
    req.targetUid = w.caller ∧
      ∀ environs user env, Starts environs w req user env → Confined environs w user env ∧
        ∀ environs' env', Starts environs' w req user env' → ∀ name, env name ≠ env' name →
          name ∈ forwardedVars ∧
            readEnvironVar environs w.host.pid name ≠ readEnvironVar environs' w.host.pid name
  | _ => True

@[simp] private theorem setVar_self (env : Vars) (name : String) (value : Bytes) :
    env.setVar name value name.toList = some value := Function.update_self _ _ _

private theorem setVar_of_ne {env : Vars} {name : String} {value : Bytes} {n : Str}
    (h : n ≠ name.toList) : env.setVar name value n = env n := Function.update_of_ne h _ _

/-! ### The display -/

private theorem isSome_waylandSocket (entries : List DirEntry) :
    (waylandSocket entries).isSome = entries.any fun entry ↦
      match fromUtf8 entry.name with
      | none => false
      | some s =>
        "wayland-".toList.isPrefixOf s && extension s != some "lock".toList && entry.isSocket := by
  rw [waylandSocket, List.isSome_findSome?]
  congr 1
  funext entry
  rw [Option.isSome_filter]
  cases fromUtf8 entry.name <;> rfl

private theorem waylandSocket_spec {entries : List DirEntry} {s : Str}
    (h : waylandSocket entries = some s) :
    s ≠ [] ∧ ∃ entry ∈ entries, entry.isSocket = true ∧ fromUtf8 entry.name = some s := by
  obtain ⟨entry, hmem, hentry⟩ := List.exists_of_findSome?_eq_some h
  obtain ⟨hname, htaken⟩ := Option.filter_eq_some_iff.mp hentry
  rw [isWaylandSocket, Bool.and_eq_true, Bool.and_eq_true] at htaken
  refine ⟨?_, entry, hmem, htaken.2, hname⟩
  rintro rfl
  exact absurd htaken.1.1 (by decide)

/-- The display of an environment behind the search: the inherited one, or a socket in the runtime
directory of the user. -/
theorem displayEnv_display {w : World} {uid : UInt32} (h : detectForUser w uid = true) :
    (displayEnv w uid = w.env ∧ ∃ v, v ≠ [] ∧ envVar w.env "WAYLAND_DISPLAY" = some v) ∨
      ∃ entries entry s, w.runtimeDir uid = some entries ∧ entry ∈ entries ∧
        entry.isSocket = true ∧ fromUtf8 entry.name = some s ∧ s ≠ [] ∧
        displayEnv w uid "WAYLAND_DISPLAY".toList = some (toUtf8 s) := by
  unfold detectForUser at h
  unfold displayEnv
  by_cases hset : (envVar w.env "WAYLAND_DISPLAY").any (fun v ↦ v ≠ []) = true
  · obtain ⟨v, hv, hne⟩ := (Option.any_eq_true _ _).mp hset
    exact .inl ⟨if_pos hset, v, of_decide_eq_true hne, hv⟩
  · rw [if_neg hset] at h ⊢
    cases hdir : w.runtimeDir uid with
    | none =>
      rw [hdir] at h
      exact absurd h Bool.false_ne_true
    | some entries =>
      rw [hdir] at h
      obtain ⟨s, hs⟩ := Option.isSome_iff_exists.mp ((isSome_waylandSocket entries).trans h)
      obtain ⟨hne, entry, hmem, hsocket, hname⟩ := waylandSocket_spec hs
      refine .inr ⟨entries, entry, s, rfl, hmem, hsocket, hname, hne, ?_⟩
      rw [Option.bind_some, hs]
      dsimp only
      split
      · rw [setVar_of_ne (by decide), setVar_self]
      · exact setVar_self ..

private theorem displayEnv_of_ne {w : World} {uid : UInt32} {name : Str}
    (hdisplay : name ≠ "WAYLAND_DISPLAY".toList) (hdir : name ≠ "XDG_RUNTIME_DIR".toList) :
    displayEnv w uid name = w.env name := by
  unfold displayEnv
  split
  · rfl
  · cases (w.runtimeDir uid).bind waylandSocket with
    | none => rfl
    | some s =>
      dsimp only
      split
      · rw [setVar_of_ne hdir, setVar_of_ne hdisplay]
      · exact setVar_of_ne hdisplay

private theorem displayEnv_runtimeDir (w : World) (uid : UInt32) :
    displayEnv w uid "XDG_RUNTIME_DIR".toList = w.env "XDG_RUNTIME_DIR".toList ∨
      w.env "XDG_RUNTIME_DIR".toList = none ∧
        displayEnv w uid "XDG_RUNTIME_DIR".toList = some (toUtf8 (runtimeDirPath uid)) := by
  have hkeep (v : Bytes) : Vars.setVar w.env "WAYLAND_DISPLAY" v "XDG_RUNTIME_DIR".toList =
      w.env "XDG_RUNTIME_DIR".toList := setVar_of_ne (by decide)
  unfold displayEnv
  split
  · exact .inl rfl
  · cases (w.runtimeDir uid).bind waylandSocket with
    | none => exact .inl rfl
    | some s =>
      dsimp only
      split
      next hunset =>
        rw [hkeep, Option.isNone_iff_eq_none] at hunset
        exact .inr ⟨hunset, setVar_self ..⟩
      next => exact .inl (hkeep _)

/-! ### The locales -/

private theorem ownerEnv_of_ne {env : Vars} {user : User} {name : Str}
    (hhome : name ≠ "HOME".toList) (huser : name ≠ "USER".toList)
    (hlogname : name ≠ "LOGNAME".toList) : ownerEnv env user name = env name := by
  rw [ownerEnv, setVar_of_ne hlogname, setVar_of_ne huser, setVar_of_ne hhome]

private theorem forwarded_of_mem {environs : Environs} {pid : Int} {name : Str}
    (h : name ∈ forwardedVars) :
    forwarded environs pid name = (readEnvironVar environs pid name).filter isSafeLocaleValue :=
  if_pos (List.contains_iff_mem.mpr h)

private theorem forwarded_eq_none {environs : Environs} {pid : Int} {name : Str}
    (h : name ∉ forwardedVars) : forwarded environs pid name = none :=
  if_neg fun hmem ↦ h (List.contains_iff_mem.mp hmem)

private theorem mem_readLocaleEnv {environs : Environs} {pid : Int} {var value : Str} :
    (var, value) ∈ readLocaleEnv environs pid ↔ forwarded environs pid var = some value := by
  rw [readLocaleEnv, List.mem_filterMap]
  constructor
  · rintro ⟨var', hvar, hread⟩
    obtain ⟨value', hvalue, he⟩ := Option.map_eq_some_iff.mp hread
    cases he
    rw [forwarded_of_mem hvar, hvalue]
  · intro h
    by_cases hvar : var ∈ forwardedVars
    · rw [forwarded_of_mem hvar] at h
      exact ⟨var, hvar, by rw [h, Option.map_some]⟩
    · rw [forwarded_eq_none hvar] at h
      cases h

/-- What a variable of the helper comes to, whatever the order of the locales. -/
theorem Starts.apply {environs : Environs} {w : World} {req : HelperRequest} {user : User}
    {env : Vars} (h : Starts environs w req user env) (name : Str) :
    env name = ((forwarded environs req.requestingPid name).map toUtf8).or
      (ownerEnv (displayEnv w w.caller) user name) := by
  obtain ⟨locales, hperm, rfl⟩ := h
  have hkeys : (locales.map fun kv ↦ (kv.1, toUtf8 kv.2)).map Prod.fst = locales.map Prod.fst := by
    rw [List.map_map]
    rfl
  have hnodup : (locales.map Prod.fst).Nodup :=
    (hperm.map Prod.fst).nodup_iff.mpr ((keys_filterMap_sublist _ _).nodup (by decide))
  rw [childEnv]
  cases hf : forwarded environs req.requestingPid name with
  | none =>
    apply assignAll_of_not_mem
    rw [hkeys]
    intro hmem
    obtain ⟨⟨_, value⟩, hkv, rfl⟩ := List.mem_map.mp hmem
    rw [mem_readLocaleEnv.mp (hperm.mem_iff.mp hkv)] at hf
    cases hf
  | some value =>
    apply assignAll_of_mem (hkeys ▸ hnodup)
    exact List.mem_map_of_mem (hperm.mem_iff.mpr (mem_readLocaleEnv.mpr hf))

/-- A locale of the helper is the one of the requesting process, or else the inherited one. -/
theorem Starts.locale {environs : Environs} {w : World} {req : HelperRequest} {user : User}
    {env : Vars} (h : Starts environs w req user env) {name : Str} (hname : name ∈ forwardedVars) :
    env name = (((readEnvironVar environs req.requestingPid name).filter isSafeLocaleValue).map
      toUtf8).or (w.env name) := by
  have hne {var : Str} (hvar : var ∉ forwardedVars) : name ≠ var := fun he ↦ hvar (he ▸ hname)
  rw [h.apply, forwarded_of_mem hname,
    ownerEnv_of_ne (hne (by decide)) (hne (by decide)) (hne (by decide)),
    displayEnv_of_ne (hne (by decide)) (hne (by decide))]

private theorem Starts.confined {environs : Environs} {w : World} {req : HelperRequest}
    {user : User} {env : Vars} (h : Starts environs w req user env)
    (hpid : req.requestingPid = w.host.pid) (hdisplay : detectForUser w w.caller = true) :
    Confined environs w user env := by
  have hset {name : Str} (hname : name ∉ forwardedVars) :
      env name = ownerEnv (displayEnv w w.caller) user name := by
    rw [h.apply, forwarded_eq_none hname, Option.map_none, Option.none_or]
  have hshown : env "WAYLAND_DISPLAY".toList = displayEnv w w.caller "WAYLAND_DISPLAY".toList :=
    (hset (by decide)).trans (ownerEnv_of_ne (by decide) (by decide) (by decide))
  have hdir : env "XDG_RUNTIME_DIR".toList = displayEnv w w.caller "XDG_RUNTIME_DIR".toList :=
    (hset (by decide)).trans (ownerEnv_of_ne (by decide) (by decide) (by decide))
  constructor
  · rcases displayEnv_display hdisplay with ⟨hsame, hv⟩ | ⟨entries, entry, s, hdir, hs⟩
    · exact .inl ⟨hshown.trans (congrFun hsame _), hv⟩
    · exact .inr ⟨entries, entry, s, hdir, hshown ▸ hs⟩
  · rw [hdir]
    exact displayEnv_runtimeDir w w.caller
  · rw [hset (by decide), ownerEnv, setVar_of_ne (by decide), setVar_of_ne (by decide), setVar_self]
  · rw [hset (by decide), ownerEnv, setVar_of_ne (by decide), setVar_self]
  · rw [hset (by decide), ownerEnv, setVar_self]
  · intro name hname
    simp only [writtenVars, List.cons_append, List.nil_append, List.mem_cons, not_or] at hname
    obtain ⟨hwayland, hdir, hhome, huser, hlogname, hlocale⟩ := hname
    rw [hset hlocale, ownerEnv_of_ne hhome huser hlogname, displayEnv_of_ne hwayland hdir]
  · intro name hname
    rw [h.locale hname, hpid]
    cases hread : (readEnvironVar environs w.host.pid name).filter isSafeLocaleValue with
    | none => exact .inl rfl
    | some value =>
      obtain ⟨hvalue, hsafe⟩ := Option.filter_eq_some_iff.mp hread
      exact .inr ⟨value, rfl, hsafe, hvalue⟩

/-- Every dialog a run starts is run as the user of the run, with a display, and whatever the
requesting process has in its environment reaches it in three variables and in a strict form
only. -/
theorem helper_env_confined (w : World) : (smAuthenticate w).EveryCall (StartsConfined w) := by
  apply smAuthenticate_everyCall (fun _ ↦ trivial)
  intro p hp
  apply rememberStage_everyCall (fun _ _ ↦ trivial)
  obtain ⟨-, hdisplay, -, rfl⟩ := (decideEarly_eq_inr_iff w p).mp hp
  refine ⟨rfl, fun environs user env h ↦ ⟨h.confined rfl hdisplay, ?_⟩⟩
  intro environs' env' h' name hne
  rw [h.apply, h'.apply] at hne
  have hread : forwarded environs w.host.pid name ≠ forwarded environs' w.host.pid name :=
    fun he ↦ hne (congrArg (fun f ↦ (Option.map toUtf8 f).or _) he)
  by_cases hname : name ∈ forwardedVars
  · rw [forwarded_of_mem hname, forwarded_of_mem hname] at hread
    exact ⟨hname, fun he ↦ hread (congrArg _ he)⟩
  · rw [forwarded_eq_none hname, forwarded_eq_none hname] at hread
    exact absurd rfl hread

end Sentinel.Pam
