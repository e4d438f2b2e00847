import Sentinel.Packaging.Session

/-!
# Aborted installs

Script `packaging-kde/install.sh:103-132,411-456`. A failing command, INT and TERM run `rollback`,
which replays the log of the run. The function `error` leaves the script through `exit`, which the
ERR trap does not see, and a signal behind the removal of the log finds nothing to replay. A record
is one short write: it is in the log or it is not. The copy of an original comes before its record,
so a copy that is interrupted stays under the backup name.
-/

namespace Sentinel.Packaging

open Sentinel.Base Sentinel.Base.Shell Sentinel.Base.Undo

/-- How far `install_file` has come when it is interrupted; an interrupted copy leaves anything
behind. -/
inductive Stage where
  | before
  | copying (saved : Option Str)
  | recorded
  | writing (left : Option Str)

/-- A point at which the script aborts: a failing command or a signal in an action, with some
actions behind it; the same between two checks; a check that calls `error`; a failing command or a
signal in the commit; a signal between the removal of the log and `INSTALL_OK=1`. -/
inductive Abort where
  | action (behind : Nat) (stage : Stage)
  | verifying (passed : Nat)
  | error (passed : Nat)
  | committing
  | committed

/-- Whether `rollback` runs and finds its log. -/
def Abort.rollsBack : Abort → Bool
  | .action _ _ | .verifying _ | .committing => true
  | .error _ | .committed => false

namespace Session

/-- `install_file` up to a stage. -/
def interrupted (s : Session) (dst : Path) : Stage → Session
  | .before => s
  | .copying saved =>
    if (s.tree dst).isSome && (s.tree (backupOf dst)).isNone then
      { s with tree := Function.update s.tree (backupOf dst) saved }
    else s
  | .recorded => s.recordFile dst
  | .writing left =>
    { s.recordFile dst with tree := Function.update (s.recordFile dst).tree dst left }

/-- `rollback`, `install.sh:103-117`. -/
def rollback (s : Session) : Tree := replayFile (unlines (s.log.map record)) s.tree

end Session

/-- The files behind an abort. -/
def Abort.ended (abort : Abort) (s : Session) : Tree :=
  if abort.rollsBack then s.rollback else s.tree

namespace Env

variable (env : Env)

/-- The whole install section. -/
def complete (t : Tree) : Option Session := env.performs env.actions ⟨t, []⟩

end Env

/-- A run whose records undo it. -/
structure Session.Recoverable (t : Tree) (s : Session) : Prop where
  undoable : Undoable backupOf t s.tree s.log
  named : ∀ e ∈ s.log, e.path ≠ []

namespace Session

variable {t : Tree} {s : Session} {dst : Path}

/-- Rolling back replays the records if they can hold the paths. -/
private theorem rollback_eq_replay (hshape : ∀ e ∈ s.log, IsFor backupOf e.path e)
    (hnamed : ∀ e ∈ s.log, e.path ≠ []) (hplain : ∀ p ∈ s.paths, Plain p) :
    s.rollback = replay s.log s.tree := by
  have hrecords : replayFile (unlines ([] ++ s.log.map record ++ [])) s.tree =
      replay s.log s.tree := by
    apply replayFile_records hshape hnamed
    · exact fun e he ↦ hplain e.path (mem_paths.mpr ⟨e, he, rfl⟩)
    · simp
    · simp
  rwa [List.nil_append, List.append_nil] at hrecords

/-- Rolling back brings the whole tree back if the records can hold the paths. -/
theorem Recoverable.rollback (h : s.Recoverable t) (hplain : ∀ p ∈ s.paths, Plain p) :
    s.rollback = t := by
  rw [rollback_eq_replay h.undoable.shape h.named hplain, h.undoable.replay backupOf_injective]

end Session

namespace Env

variable {env : Env} {t : Tree} {abort : Abort} {s : Session} {called : List Path}

end Env

end Sentinel.Packaging
