import Sentinel.Shared.Environ
import Sentinel.System.AuditLog

/-!
# Where the session of an audit line comes from

Crate `sentinel-shared`, `crates/sentinel-shared/src/lib.rs:822-910,1016-1049`. The session id
stands in the environment of the requesting process, which its user controls; what the line says
about the session stands in a file of systemd-logind under that id.
-/

namespace Sentinel.System

open Sentinel.Base Sentinel.Base.KeyValue Sentinel.Shared Sentinel.Shared.LogKv

/-- The files of the machine; absent for every read error. -/
abbrev Files : Type := Str → Option Bytes

/-- `logind::is_safe_session_id`, `lib.rs:858-860`. -/
def isSafeSessionId (s : Str) : Bool :=
  s ≠ [] && (toUtf8 s).length ≤ 16 && s.all fun c ↦ c.isAlphanum || c == '-'

/-- A line without the carriage return in front of its line feed. -/
def stripReturn (l : Str) : Str := if l.getLast? = some '\r' then l.dropLast else l

/-- `str::lines`: behind the last line feed a carriage return stays. -/
def strLines (s : Str) : List Str :=
  let pieces := s.splitOn '\n'
  pieces.dropLast.map stripReturn ++ (pieces.getLast?.filter (· ≠ [])).toList

/-- `logind::parse_kv`, `lib.rs:862-870`. -/
def parseKv (s : Str) : Str → Option Str :=
  collect (((strLines s).filter fun l ↦ l.head? != some '#' && l != []).filterMap (splitOnce '='))

/-- The directory of the sessions. -/
def sessionsDir : Str := "/run/systemd/sessions".toList

/-- `logind::session_info`, `lib.rs:839-853`: the entries that audit lines print. -/
def sessionInfo (files : Files) (sessionId : Str) : Option SessionInfo :=
  if !isSafeSessionId sessionId then none
  else
    ((files (sessionsDir ++ '/' :: sessionId)).bind fromUtf8).map fun raw ↦
      { kind := parseKv raw "TYPE".toList
        sessionClass := parseKv raw "CLASS".toList
        remote := (parseKv raw "REMOTE".toList).map fun v ↦ v == "1".toList }

/-- The session that `logfmt_session_for_pid` prints, `lib.rs:1030-1037`. -/
def sessionForPid (environs : Environs) (files : Files) (pid : Int) : Option SessionInfo :=
  (readEnvironVar environs pid "XDG_SESSION_ID".toList).bind (sessionInfo files)

/-! ### What the user of the process can reach -/

/-- An entry of the directory of the sessions itself: neither a path further down nor one that leads
out of it. -/
def IsSessionFile (path : Str) : Prop :=
  ∃ name, path = sessionsDir ++ '/' :: name ∧ name ≠ [] ∧ '/' ∉ name ∧ '\x00' ∉ name ∧
    name ≠ ".".toList ∧ name ≠ "..".toList

private theorem isSessionFile_of_safe {id : Str} (h : isSafeSessionId id = true) :
    IsSessionFile (sessionsDir ++ '/' :: id) := by
  rw [isSafeSessionId, Bool.and_eq_true, Bool.and_eq_true, List.all_eq_true] at h
  obtain ⟨⟨hne, -⟩, hall⟩ := h
  have hout {c : Char} (hc : (c.isAlphanum || c == '-') = false) : c ∉ id := by
    intro hmem
    rw [hall c hmem] at hc
    cases hc
  refine ⟨id, rfl, by simpa using hne, hout (by decide), hout (by decide), ?_, ?_⟩
  · rintro rfl
    exact hout (c := '.') (by decide) List.mem_cons_self
  · rintro rfl
    exact hout (c := '.') (by decide) List.mem_cons_self

private theorem strLines_cons {l : Str} (h : '\n' ∉ l) (s : Str) :
    strLines (l ++ '\n' :: s) = stripReturn l :: strLines s := by
  have hsplit : (l ++ '\n' :: s).splitOn '\n' = l :: s.splitOn '\n' :=
    List.splitOn_append_cons_self_of_not_mem h s
  have hne : s.splitOn '\n' ≠ [] := List.splitOn_ne_nil '\n' s
  rw [strLines, strLines, hsplit]
  simp only [List.getLast?_cons_of_ne_nil hne, List.dropLast_cons_of_ne_nil hne, List.map_cons,
    List.cons_append]

private theorem newline_not_mem_strLines {s l : Str} (h : l ∈ strLines s) : '\n' ∉ l := by
  rcases List.mem_append.mp h with h | h
  · obtain ⟨piece, hp, rfl⟩ := List.mem_map.mp h
    have hnl := not_mem_piece (List.dropLast_subset _ hp)
    unfold stripReturn
    split
    · exact fun hm ↦ hnl (List.dropLast_subset _ hm)
    · exact hnl
  · obtain ⟨hl, -⟩ := Option.mem_filter_iff.mp (Option.mem_toList.mp h)
    exact not_mem_piece (List.mem_of_getLast? hl)

private theorem newline_not_mem_parseKv {s key v : Str} (h : parseKv s key = some v) :
    '\n' ∉ v := by
  obtain ⟨l, hl, he⟩ := List.mem_filterMap.mp (mem_of_collect h)
  obtain ⟨rfl, -⟩ := splitOnce_eq_some_iff.mp he
  have hnl := newline_not_mem_strLines (List.mem_filter.mp hl).1
  intro hm
  exact hnl (List.mem_append_right _ (List.mem_cons_of_mem _ hm))

private theorem newline_not_mem_quote {v : Str} (h : '\n' ∉ v) : '\n' ∉ quote v := by
  rwa [mem_quote_iff (by decide) (by decide)]

private theorem newline_not_mem_printField {k : Logfmt.Key} {v : Value}
    (hk : '\n' ∉ k.text) (hv : '\n' ∉ v.text) : '\n' ∉ ' ' :: printField (k, v) := by
  intro hm
  rcases List.mem_cons.mp hm with hm | hm
  · cases hm
  · rcases List.mem_append.mp hm with hm | hm
    · exact hk hm
    · rcases List.mem_cons.mp hm with hm | hm
      · cases hm
      · exact hv hm

private theorem newline_not_mem_logfmtSession {info : SessionInfo}
    (hk : ∀ v, info.kind = some v → '\n' ∉ v)
    (hc : ∀ v, info.sessionClass = some v → '\n' ∉ v) :
    '\n' ∉ logfmtSession (some info) := by
  obtain ⟨kind, sessionClass, remote⟩ := info
  intro hm
  obtain ⟨f, hf, hm⟩ := List.mem_flatMap.mp hm
  rcases List.mem_append.mp hf with hf | hf
  · rcases List.mem_append.mp hf with hf | hf
    · obtain ⟨v, hv, rfl⟩ := Option.map_eq_some_iff.mp (Option.mem_toList.mp hf)
      have hq : '\n' ∉ (Value.quoted v).text := newline_not_mem_quote (hk v hv)
      exact newline_not_mem_printField (by decide) hq hm
    · obtain ⟨v, hv, rfl⟩ := Option.map_eq_some_iff.mp (Option.mem_toList.mp hf)
      have hq : '\n' ∉ (Value.quoted v).text := newline_not_mem_quote (hc v hv)
      exact newline_not_mem_printField (by decide) hq hm
  · obtain ⟨r, -, rfl⟩ := Option.map_eq_some_iff.mp (Option.mem_toList.mp hf)
    exact newline_not_mem_printField (by decide) (not_mem_toDigits rfl _) hm

private theorem newline_not_mem_session {files : Files} {id : Str} {info : SessionInfo}
    (h : sessionInfo files id = some info) : '\n' ∉ logfmtSession (some info) := by
  unfold sessionInfo at h
  split at h
  · cases h
  · obtain ⟨raw, -, rfl⟩ := Option.map_eq_some_iff.mp h
    apply newline_not_mem_logfmtSession
    · exact fun v hv ↦ newline_not_mem_parseKv hv
    · exact fun v hv ↦ newline_not_mem_parseKv hv

/-- Whatever a process has in its environment, the session of its lines is read from the directory
of the sessions alone, and what is printed of it has no line feed. -/
theorem sessionForPid_confined (environs : Environs) {files files' : Files} (pid : Int)
    (h : ∀ path, IsSessionFile path → files path = files' path) :
    sessionForPid environs files pid = sessionForPid environs files' pid ∧
      '\n' ∉ logfmtSession (sessionForPid environs files pid) := by
  constructor
  · unfold sessionForPid
    congr 1
    funext id
    unfold sessionInfo
    cases hs : isSafeSessionId id with
    | false => rfl
    | true => rw [h _ (isSessionFile_of_safe hs)]
  · cases hs : sessionForPid environs files pid with
    | none => exact List.not_mem_nil
    | some info =>
      obtain ⟨id, -, hinfo⟩ := Option.bind_eq_some_iff.mp hs
      exact newline_not_mem_session hinfo

/-- The passwords of the machine may change; the lines of a process stay as they are. -/
theorem sessionForPid_confined_shadow :
    let files (path : Str) : Option Bytes :=
      if path = "/etc/shadow".toList then some [114] else none
    let environs (_ : Int) : Option Bytes :=
      some (toUtf8 "XDG_SESSION_ID=../../../etc/shadow".toList)
    sessionForPid environs files 7 = sessionForPid environs (fun _ ↦ none) 7 ∧
      '\n' ∉ logfmtSession (sessionForPid environs files 7) := by
  apply sessionForPid_confined
  rintro path ⟨name, rfl, -⟩
  apply if_neg
  intro h
  have hsecond : some 'r' = some 'e' := congrArg (fun path : Str ↦ path[1]?) h
  exact absurd hsecond (by decide)

/-! ### What logind recorded is what the line says -/

/-- A line of a session file. -/
inductive StateLine where
  | comment (text : Str)
  | assignment (key value : Str)

namespace StateLine

/-- The line as it is written. -/
def text : StateLine → Str
  | .comment t => '#' :: t
  | .assignment k v => KeyValue.assignment (k, v)

/-- What it assigns. -/
def assigns : StateLine → Option (Str × Str)
  | .comment _ => none
  | .assignment k v => some (k, v)

/-- A line that can be written: nothing in it breaks it, and its key is one. -/
def Proper : StateLine → Prop
  | .comment t => '\n' ∉ t
  | .assignment k v =>
    k ≠ [] ∧ k.head? ≠ some '#' ∧ '=' ∉ k ∧ '\n' ∉ k ∧ '\n' ∉ v ∧ v.getLast? ≠ some '\r'

instance : DecidablePred Proper
  | .comment t => inferInstanceAs (Decidable ('\n' ∉ t))
  | .assignment k v => inferInstanceAs (Decidable
      (k ≠ [] ∧ k.head? ≠ some '#' ∧ '=' ∉ k ∧ '\n' ∉ k ∧ '\n' ∉ v ∧ v.getLast? ≠ some '\r'))

private theorem newline_not_mem_text {l : StateLine} (h : l.Proper) : '\n' ∉ l.text := by
  cases l with
  | comment t =>
    rintro (_ | ⟨_, hm⟩)
    exact h hm
  | assignment k v =>
    obtain ⟨-, -, -, hk, hv, -⟩ := h
    intro hm
    rcases List.mem_append.mp hm with hm | hm
    · exact hk hm
    · rcases List.mem_cons.mp hm with hm | hm
      · cases hm
      · exact hv hm

end StateLine

/-- A session file: every line is ended by a line feed. -/
def sessionFile (ls : List StateLine) : Str := ls.flatMap fun l ↦ l.text ++ ['\n']

private theorem strLines_sessionFile {ls : List StateLine} (h : ∀ l ∈ ls, l.Proper) :
    strLines (sessionFile ls) = ls.map fun l ↦ stripReturn l.text := by
  induction ls with
  | nil => rfl
  | cons l ls ih =>
    have hl : '\n' ∉ l.text := StateLine.newline_not_mem_text (h l List.mem_cons_self)
    have hcons : sessionFile (l :: ls) = l.text ++ '\n' :: sessionFile ls := by
      simp [sessionFile]
    rw [hcons, strLines_cons hl, ih fun l' hl' ↦ h l' (List.mem_cons_of_mem _ hl'), List.map_cons]

/-- A comment stays one without its carriage return, and an assignment has none. -/
private theorem parse_stripReturn {l : StateLine} (h : l.Proper) :
    (if (stripReturn l.text).head? != some '#' && stripReturn l.text != [] then
      splitOnce '=' (stripReturn l.text) else none) = l.assigns := by
  cases l with
  | comment t =>
    have hhead : (stripReturn (StateLine.comment t).text).head? = some '#' := by
      cases t with
      | nil => rfl
      | cons c cs =>
        unfold stripReturn
        split
        · rfl
        · rfl
    rw [hhead]
    rfl
  | assignment k v =>
    obtain ⟨hk, hhash, heq, -, -, hv⟩ := h
    obtain ⟨c, cs, rfl⟩ := List.exists_cons_of_ne_nil hk
    have hret : stripReturn (StateLine.assignment (c :: cs) v).text = assignment (c :: cs, v) := by
      apply if_neg
      show (c :: cs ++ '=' :: v).getLast? ≠ some '\r'
      rw [List.getLast?_append]
      cases v with
      | nil => simp
      | cons d ds => simpa using hv
    have hsplit : splitOnce '=' (assignment (c :: cs, v)) = some (c :: cs, v) :=
      splitOnce_assignment heq
    rw [hret, hsplit]
    have hne : c ≠ '#' := by simpa using hhash
    simp [StateLine.assigns, assignment, hne]

private theorem filterMap_filter_map {ls : List StateLine} (h : ∀ l ∈ ls, l.Proper) :
    (((ls.map fun l ↦ stripReturn l.text).filter fun l ↦ l.head? != some '#' && l != []).filterMap
      (splitOnce '=')) = ls.filterMap StateLine.assigns := by
  rw [List.filterMap_filter, List.filterMap_map]
  apply List.filterMap_congr
  intro l hl
  exact parse_stripReturn (h l hl)

private theorem parseKv_sessionFile {ls : List StateLine} (h : ∀ l ∈ ls, l.Proper) (key : Str) :
    parseKv (sessionFile ls) key = firstValue key (ls.filterMap StateLine.assigns).reverse := by
  rw [parseKv, strLines_sessionFile h, filterMap_filter_map h, collect_eq_firstValue]

/-- What the line says about a session is what logind wrote last for the session that comes first
in the environment. -/
theorem sessionForPid_eq {environs : Environs} {files : Files} {pid : Int}
    {env : List (Str × Str)} {id : Str} {ls : List StateLine} (hpid : 0 < pid)
    (henv : environs pid = some (cmdlineBytes (env.map fun kv ↦ toUtf8 (assignment kv))))
    (hproper : ∀ kv ∈ env, 0 ∉ toUtf8 (assignment kv) ∧ '=' ∉ kv.1)
    (hid : firstValue "XDG_SESSION_ID".toList env = some id) (hsafe : isSafeSessionId id = true)
    (hfile : files (sessionsDir ++ '/' :: id) = some (toUtf8 (sessionFile ls)))
    (hls : ∀ l ∈ ls, l.Proper) :
    sessionForPid environs files pid = some
      (let said key := firstValue key (ls.filterMap StateLine.assigns).reverse
       { kind := said "TYPE".toList
         sessionClass := said "CLASS".toList
         remote := (said "REMOTE".toList).map fun v ↦ v == "1".toList }) := by
  rw [sessionForPid, readEnvironVar_eq hpid henv hproper, hid, Option.bind_some, sessionInfo, hsafe,
    hfile, Option.bind_some, fromUtf8_toUtf8]
  simp only [Bool.not_true, Bool.false_eq_true, if_false, Option.map_some, parseKv_sessionFile hls]

/-- A terminal session whose type was written anew. -/
theorem sessionForPid_eq_tty :
    let env : List (Str × Str) :=
      [("HOME".toList, "/root".toList), ("XDG_SESSION_ID".toList, "c1".toList)]
    let ls : List StateLine :=
      [.comment " private".toList, .assignment "TYPE".toList "wayland".toList,
        .assignment "REMOTE".toList "1".toList, .assignment "TYPE".toList "tty".toList]
    sessionForPid (fun _ ↦ some (cmdlineBytes (env.map fun kv ↦ toUtf8 (assignment kv))))
        (fun path ↦ if path = sessionsDir ++ '/' :: "c1".toList then
          some (toUtf8 (sessionFile ls)) else none) 7 =
      some { kind := some "tty".toList, sessionClass := none, remote := some true } := by
  intro env ls
  have henv : ∀ kv ∈ env, 0 ∉ toUtf8 (assignment kv) ∧ '=' ∉ kv.1 := by decide
  have hls : ∀ l ∈ ls, l.Proper := by decide
  have hid : firstValue "XDG_SESSION_ID".toList env = some "c1".toList := by decide
  exact sessionForPid_eq (by decide) rfl henv hid (by decide) (if_pos rfl) hls

end Sentinel.System
