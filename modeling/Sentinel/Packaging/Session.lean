import Sentinel.Packaging.Install

/-!
# What the records of a run are good for

Records of paths without tabs and newlines are read back as they were written, no path of the
installer is a backup name, and at every moment of a run the records undo all of it.
-/

namespace Sentinel.Packaging

open Sentinel.Base Sentinel.Base.Shell Sentinel.Base.Undo

/-! ### Reading records back -/

/-- A path that a record can hold: one without a tab or a newline. -/
def Plain (p : Path) : Prop := '\t' ∉ p ∧ '\n' ∉ p

instance (p : Path) : Decidable (Plain p) := inferInstanceAs (Decidable (_ ∧ _))

/-- Different paths have different backup names. -/
theorem backupOf_injective : Function.Injective backupOf := by
  intro p q h
  exact List.append_cancel_right h

/-- The backup name of a plain path is plain. -/
theorem Plain.backupOf {p : Path} (h : Plain p) : Plain (backupOf p) := by
  constructor
  · rw [Packaging.backupOf, List.mem_append, not_or]
    exact ⟨h.1, by decide⟩
  · rw [Packaging.backupOf, List.mem_append, not_or]
    exact ⟨h.2, by decide⟩

/-- A backup name is not empty. -/
theorem backupOf_ne_nil (p : Path) : backupOf p ≠ [] := by
  rw [backupOf]
  exact List.append_ne_nil_of_right_ne_nil p (by decide)

/-- The line of a created path. -/
theorem record_created (p : Path) :
    record (.created p) = "CREATED".toList ++ '\t' :: p ++ ['\t'] := rfl

/-- The line of a replaced path. -/
theorem record_replaced (p b : Path) :
    record (.replaced p b) = "REPLACED".toList ++ '\t' :: p ++ '\t' :: b := rfl

/-- A line is read by its three fields. -/
theorem parseRecord_of_fields {line action path backup : Str}
    (h : readFields 2 line = [action, path, backup]) :
    parseRecord line =
      if path = [] then none
      else if action = "CREATED".toList then some (.created path)
      else if action = "REPLACED".toList ∧ backup ≠ [] then some (.replaced path backup)
      else none := by
  rw [parseRecord, h]

/-- The record of a plain path is one line. -/
theorem newline_not_mem_record {p : Path} (h : Plain p) {e : Entry Path}
    (he : IsFor backupOf p e) : '\n' ∉ record e := by
  rcases he with rfl | rfl
  · rw [record_created]
    simp [h.2]
  · rw [record_replaced]
    simp [h.2, h.backupOf.2]

/-- The record of a plain path is read back. -/
theorem parseRecord_record {p : Path} (hne : p ≠ []) (h : Plain p) {e : Entry Path}
    (he : IsFor backupOf p e) : parseRecord (record e) = some e := by
  rcases he with rfl | rfl
  · rw [record_created, parseRecord_of_fields (readFields_three (by decide) (by decide) hne h.1
      List.not_mem_nil), if_neg hne, if_pos rfl]
  · rw [record_replaced, parseRecord_of_fields (readFields_three (by decide) (by decide) hne h.1
      h.backupOf.1), if_neg hne, if_neg (by decide), if_pos ⟨rfl, backupOf_ne_nil p⟩]

/-- The records of plain paths are read back, whatever lines without an effect stand around
them. -/
theorem replayFile_records {log : List (Entry Path)} {before after : List Str}
    (hfor : ∀ e ∈ log, IsFor backupOf e.path e) (hne : ∀ e ∈ log, e.path ≠ [])
    (hplain : ∀ e ∈ log, Plain e.path)
    (hbefore : ∀ l ∈ before, '\n' ∉ l ∧ parseRecord l = none)
    (hafter : ∀ l ∈ after, '\n' ∉ l ∧ parseRecord l = none) (t : Tree) :
    replayFile (unlines (before ++ log.map record ++ after)) t = replay log t := by
  have hlines : ∀ l ∈ before ++ log.map record ++ after, '\n' ∉ l := by
    intro l hl
    rcases List.mem_append.mp hl with hl | hl
    · rcases List.mem_append.mp hl with hl | hl
      · exact (hbefore l hl).1
      · obtain ⟨e, he, rfl⟩ := List.mem_map.mp hl
        exact newline_not_mem_record (hplain e he) (hfor e he)
    · exact (hafter l hl).1
  have hlog : (log.map record).filterMap parseRecord = log := by
    rw [List.filterMap_map]
    conv_rhs => rw [← List.filterMap_some (l := log)]
    apply List.filterMap_congr
    intro e he
    exact parseRecord_record (hne e he) (hplain e he) (hfor e he)
  have hnone : ∀ ls : List Str, (∀ l ∈ ls, '\n' ∉ l ∧ parseRecord l = none) →
      ls.filterMap parseRecord = [] := by
    intro ls h
    rw [List.filterMap_eq_nil_iff]
    exact fun l hl ↦ (h l hl).2
  rw [replayFile, lines_unlines hlines, List.filterMap_append, List.filterMap_append,
    hnone before hbefore, hnone after hafter, hlog, List.nil_append, List.append_nil]

/-- A line with another action has no effect. -/
theorem parseRecord_other {action rest : Str} (hne : action ≠ []) (htab : '\t' ∉ action)
    (hcreated : action ≠ "CREATED".toList) (hreplaced : action ≠ "REPLACED".toList) :
    parseRecord (action ++ '\t' :: rest) = none := by
  have hread : ∃ path backup, readFields 2 (action ++ '\t' :: rest) = [action, path, backup] :=
    ⟨_, _, readFields_succ hne htab 1 rest⟩
  obtain ⟨path, backup, hread⟩ := hread
  have hother : ¬ (action = "REPLACED".toList ∧ backup ≠ []) := fun h ↦ hreplaced h.1
  rw [parseRecord_of_fields hread, if_neg hcreated, if_neg hother, ite_self]

namespace Env

variable (env : Env)

/-- The version record, with its action in front. -/
theorem versionRecord_eq : env.versionRecord =
    "VERSION".toList ++ '\t' :: (env.versions.takeWhile (· ≠ '\n') ++ ['\t']) := rfl

/-- The version record has no effect. -/
theorem versionRecord_inert : '\n' ∉ env.versionRecord ∧ parseRecord env.versionRecord = none := by
  rw [versionRecord_eq]
  constructor
  · have hversion : '\n' ∉ env.versions.takeWhile (· ≠ '\n') := by
      intro h
      simpa using List.mem_takeWhile_imp h
    simp only [List.mem_append, List.mem_cons, hversion, List.not_mem_nil, or_false, false_or]
    decide
  · exact parseRecord_other (by decide) (by decide) (by decide) (by decide)

/-- The record of a user unit has no effect on the files. -/
theorem unitRecord_inert {action unit : Str} (hne : action ≠ []) (htab : '\t' ∉ action)
    (hcreated : action ≠ "CREATED".toList) (hreplaced : action ≠ "REPLACED".toList)
    (hline : '\n' ∉ action ++ unit) (uid : Nat) :
    '\n' ∉ unitRecord action unit uid ∧ parseRecord (unitRecord action unit uid) = none := by
  rw [List.mem_append, not_or] at hline
  have hdigits := not_mem_toDigits (c := '\n') rfl uid
  constructor
  · simp [unitRecord, hline, hdigits]
  · rw [unitRecord, List.append_assoc, List.cons_append]
    exact parseRecord_other hne htab hcreated hreplaced

/-- The activation records have no effect on the files. -/
theorem activationRecords_inert :
    ∀ l ∈ env.activationRecords, '\n' ∉ l ∧ parseRecord l = none := by
  intro l hl
  cases hu : env.buildUid with
  | none =>
    rw [activationRecords, hu] at hl
    cases hl
  | some uid =>
    rw [activationRecords, hu, List.mem_append] at hl
    rcases hl with hl | hl
    · split at hl
      · rw [List.mem_singleton.mp hl]
        exact unitRecord_inert (by decide) (by decide) (by decide) (by decide) (by decide) uid
      · cases hl
    · split at hl
      · rw [List.mem_singleton.mp hl]
        exact unitRecord_inert (by decide) (by decide) (by decide) (by decide) (by decide) uid
      · cases hl

/-- Replaying the state file is replaying the log of the run. -/
theorem replayFile_stateText {log : List (Entry Path)}
    (hfor : ∀ e ∈ log, IsFor backupOf e.path e) (hne : ∀ e ∈ log, e.path ≠ [])
    (hplain : ∀ e ∈ log, Plain e.path) (t : Tree) :
    replayFile (env.stateText log) t = replay log t := by
  rw [stateText, ← List.singleton_append]
  apply replayFile_records hfor hne hplain
  · intro l hl
    rw [List.mem_singleton.mp hl]
    exact env.versionRecord_inert
  · exact env.activationRecords_inert

end Env

/-! ### The paths of the installer -/

/-- A file name that is no end of a backup name. -/
def Proper (name : Str) : Prop := name ≠ [] ∧ name.getLast? ≠ some 'k'

instance (name : Str) : Decidable (Proper name) := inferInstanceAs (Decidable (_ ∧ _))

/-- A path with such a file name. -/
def ProperPath (p : Path) : Prop := ∃ dir name, p = inDir dir name ∧ Proper name

/-- A proper path is no backup name. -/
theorem ProperPath.ne_backupOf {p : Path} (h : ProperPath p) (q : Path) : p ≠ backupOf q := by
  obtain ⟨dir, name, rfl, hname⟩ := h
  intro heq
  have hlast := congrArg List.getLast? heq
  have hk : (backupOf q).getLast? = some 'k' := by
    rw [backupOf, List.getLast?_append_of_ne_nil _ (by decide)]
    decide
  rw [hk, inDir, List.getLast?_append_of_ne_nil _ (List.cons_ne_nil _ _),
    List.getLast?_cons_of_ne_nil hname.1] at hlast
  exact hname.2 hlast

/-- A proper path is not empty. -/
theorem ProperPath.ne_nil {p : Path} (h : ProperPath p) : p ≠ [] := by
  obtain ⟨dir, name, rfl, -⟩ := h
  exact List.append_ne_nil_of_right_ne_nil dir (List.cons_ne_nil _ _)

/-- The sample machines have no backups. -/
theorem sampleMachine_fresh (polkit : Option Str) (sudoers : Str) (p : Path) :
    (sampleMachine polkit sudoers).tree (backupOf p) = none := by
  have hpolkit : ProperPath "/etc/pam.d/polkit-1".toList :=
    ⟨"/etc/pam.d".toList, "polkit-1".toList, by decide, by decide⟩
  have hsudoers : ProperPath "/etc/sudoers".toList :=
    ⟨"/etc".toList, "sudoers".toList, by decide, by decide⟩
  show (if backupOf p = "/etc/pam.d/polkit-1".toList then polkit
    else if backupOf p = "/etc/sudoers".toList then some sudoers else none) = none
  rw [if_neg (Ne.symm (hpolkit.ne_backupOf p)), if_neg (Ne.symm (hsudoers.ne_backupOf p))]

/-- An action that writes proper paths only. -/
def Action.Safe : Action → Prop
  | .file _ dst => ProperPath dst
  | .wire svc => Proper svc
  | .timestamp => True

namespace Env

variable {env : Env}

/-- The actions of the installer write proper paths only. -/
theorem actions_safe : ∀ a ∈ env.actions, a.Safe := by
  have hfile : ∀ (content dir name : Str), Proper name →
      (Action.file content (inDir dir name)).Safe := fun _ dir name h ↦ ⟨dir, name, rfl, h⟩
  intro a ha
  simp only [actions, List.mem_append, List.mem_cons, List.not_mem_nil, or_false] at ha
  rcases ha with ((ha | ha) | ha) | ha
  · rcases ha with rfl | rfl | rfl | rfl | rfl | rfl | rfl | rfl | rfl
    all_goals first | exact hfile _ _ _ (by decide) | (show Proper _; decide)
  · split at ha
    · rw [List.mem_singleton.mp ha]
      exact hfile _ _ _ (by decide)
    · cases ha
  · split at ha
    · simp only [List.mem_cons, List.not_mem_nil, or_false] at ha
      rcases ha with rfl | rfl | rfl | rfl
      all_goals trivial
    · cases ha
  · rcases ha with rfl | rfl | rfl | rfl | rfl | rfl
    all_goals exact hfile _ _ _ (by decide)

/-- What a safe action installs is a proper path. -/
theorem call_proper {t : Tree} {a : Action} (ha : a.Safe) {dst : Path} {content : Str}
    (h : env.call t a = .install dst content) : ProperPath dst := by
  cases a with
  | file content' dst' =>
    cases h
    exact ha
  | wire svc =>
    simp only [call, wirePamService] at h
    split at h
    · cases h
    · split at h
      · cases h
      · split at h
        · cases h
        · cases h
          exact ⟨_, svc, rfl, ha⟩
  | timestamp =>
    simp only [call, timestampOverride] at h
    split at h
    · cases h
      exact ⟨_, _, rfl, by decide⟩
    · cases h

end Env

/-! ### The records undo the run -/

/-- A run between two actions: its records undo it, and everything it has written or kept is
there. -/
structure Session.Live (t₀ : Tree) (s : Session) : Prop where
  undoable : Undoable backupOf t₀ s.tree s.log
  named : ∀ e ∈ s.log, e.path ≠ []
  written : ∀ e ∈ s.log, s.tree e.path ≠ none
  kept : ∀ p b, Entry.replaced p b ∈ s.log → s.tree b ≠ none

namespace Session

variable {t₀ : Tree} {s : Session}

/-- A run starts without records. -/
theorem live_init (t₀ : Tree) : Live t₀ ⟨t₀, []⟩ :=
  ⟨undoable_nil t₀, by simp, by simp, by simp⟩

/-- The recorded paths are those of the entries. -/
@[simp] theorem mem_paths {p : Path} : p ∈ s.paths ↔ ∃ e ∈ s.log, e.path = p := by
  simp [paths]

/-- The records undo a path that is being written, whatever it holds. -/
theorem Live.undoable_write (h : Live t₀ s) {dst : Path} (hdst : ProperPath dst)
    (hfresh : t₀ (backupOf dst) = none) (x : Option Str) :
    Undoable backupOf t₀ (Function.update (s.recordFile dst).tree dst x)
      (s.recordFile dst).log := by
  apply h.undoable.write backupOf_injective hdst.ne_backupOf hfresh
  rintro ⟨e, he, rfl⟩
  exact h.written e he

/-- `install_file` keeps a run undoable. -/
theorem Live.installFile (h : Live t₀ s) {dst : Path} (hdst : ProperPath dst)
    (hfresh : t₀ (backupOf dst) = none) (content : Str) : Live t₀ (s.installFile dst content) := by
  have hsame : ∀ q, q ≠ dst → s.tree q ≠ none → (s.installFile dst content).tree q ≠ none := by
    intro q hq hs
    show Function.update (keep backupOf s.tree dst) dst (some content) q ≠ none
    rw [Function.update_of_ne hq]
    exact keep_ne_none hs dst
  have hself : (s.installFile dst content).tree dst = some content := by
    show Function.update (s.recordFile dst).tree dst (some content) dst = some content
    rw [Function.update_self]
  refine ⟨h.undoable_write hdst hfresh (some content), ?_, ?_, ?_⟩
  · intro e he
    rcases List.mem_append.mp he with he | he
    · exact h.named e he
    · rw [List.mem_singleton.mp he, entryFor_path]
      exact hdst.ne_nil
  · intro e he
    rcases List.mem_append.mp he with he | he
    · by_cases hp : e.path = dst
      · rw [hp, hself]
        exact Option.some_ne_none content
      · exact hsame e.path hp (h.written e he)
    · rw [List.mem_singleton.mp he, entryFor_path, hself]
      exact Option.some_ne_none content
  · intro p b hb
    rcases List.mem_append.mp hb with hb | hb
    · -- An older backup is not the path that is written now.
      apply hsame b
      · intro hbd
        rcases h.undoable.shape _ hb with hshape | hshape
        · cases hshape
        · injection hshape with _ hname
          exact hdst.ne_backupOf p (hbd.symm.trans hname)
      · exact h.kept p b hb
    · rw [List.mem_singleton, entryFor] at hb
      split at hb
      next hsome =>
        cases hb
        obtain ⟨c, hc⟩ := Option.isSome_iff_exists.mp hsome
        show Function.update (keep backupOf s.tree dst) dst (some content) (backupOf dst) ≠ none
        rw [Function.update_of_ne (Ne.symm (hdst.ne_backupOf dst)), keep_backup hc]
        exact Option.some_ne_none _
      next => cases hb

end Session

namespace Env

variable {env : Env} {t₀ : Tree} {s s' : Session}

/-- An action that goes through does nothing or installs one file. -/
theorem perform_cases {a : Action} (h : env.perform s a = some s') :
    s' = s ∨ ∃ dst content, env.call s.tree a = .install dst content ∧
      s' = s.installFile dst content := by
  rw [perform] at h
  split at h
  next => exact Or.inl (Option.some.inj h).symm
  next dst content hcall => exact Or.inr ⟨dst, content, hcall, (Option.some.inj h).symm⟩
  next => cases h

/-- An action only appends records. -/
theorem log_perform {a : Action} (h : env.perform s a = some s') : s.log <+: s'.log := by
  rcases perform_cases h with rfl | ⟨dst, content, -, rfl⟩
  · exact List.prefix_rfl
  · exact List.prefix_append _ _

/-- The first of several actions comes before the others. -/
theorem performs_cons {a : Action} {as : List Action} (h : env.performs (a :: as) s = some s') :
    ∃ s₁, env.perform s a = some s₁ ∧ env.performs as s₁ = some s' := by
  rw [performs, List.foldlM_cons] at h
  exact Option.bind_eq_some_iff.mp h

/-- Actions only append records. -/
theorem log_performs {as : List Action} (h : env.performs as s = some s') : s.log <+: s'.log := by
  induction as generalizing s with
  | nil =>
    cases h
    exact List.prefix_rfl
  | cons a as ih =>
    obtain ⟨s₁, hstep, hrest⟩ := performs_cons h
    exact (log_perform hstep).trans (ih hrest)

/-- Safe actions keep a run undoable when the backup names of its paths were free. -/
theorem live_performs {as : List Action} (hsafe : ∀ a ∈ as, a.Safe) (hlive : s.Live t₀)
    (h : env.performs as s = some s') (hfresh : ∀ p ∈ s'.paths, t₀ (backupOf p) = none) :
    s'.Live t₀ := by
  induction as generalizing s with
  | nil =>
    cases h
    exact hlive
  | cons a as ih =>
    obtain ⟨s₁, hstep, hrest⟩ := performs_cons h
    refine ih (fun a' ha' ↦ hsafe a' (List.mem_cons_of_mem _ ha')) ?_ hrest
    rcases perform_cases hstep with rfl | ⟨dst, content, hcall, rfl⟩
    · exact hlive
    · apply hlive.installFile
      · exact call_proper (hsafe a List.mem_cons_self) hcall
      · apply hfresh
        rw [Session.mem_paths]
        refine ⟨entryFor backupOf s.tree dst, ?_, entryFor_path _ _ _⟩
        apply (log_performs hrest).subset
        exact List.mem_append_right _ (List.mem_singleton_self _)

end Env

end Sentinel.Packaging
