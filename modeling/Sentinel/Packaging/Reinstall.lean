import Sentinel.Packaging.Session

/-!
# Uninstalling after any number of installs

A run leaves a state file whose replay is the machine in front of the run. The next run reverts it
first, so every run starts from the same files, and the uninstaller brings these files back. Paths
with a tab or a newline are the exception: a record of such a path is read back as another one.
-/

namespace Sentinel.Packaging

open Sentinel.Base Sentinel.Base.Undo

namespace Machine

variable {m m' : Machine} {env : Env} {written : List Path}

/-- A reverted machine has no state file. -/
theorem revert_state (m : Machine) : m.revert.state = none := by
  cases h : m.state <;> simp [revert, h]

/-- Without a state file there is nothing to revert. -/
theorem revert_of_none (h : m.state = none) : m.revert = m := by
  simp [revert, h]

/-- With a state file its records are replayed. -/
theorem revert_of_some {text : Str} (h : m.state = some text) :
    m.revert = ⟨replayFile text m.tree, none⟩ := by
  simp [revert, h]

/-- A successful run performs all its actions and commits its records. -/
theorem install_cases (h : m.install env = some (m', written)) :
    ∃ s, env.performs env.actions ⟨m.revert.tree, []⟩ = some s ∧ written = s.paths ∧
      m' = ⟨s.tree, some (env.stateText s.log)⟩ := by
  rw [install] at h
  split at h
  next => cases h
  next s hs =>
    split at h
    next => cases h; exact ⟨s, hs, rfl, rfl⟩
    next => cases h

/-- Reverting a run leaves the machine the run has started from. -/
theorem revert_install (h : m.install env = some (m', written))
    (hfresh : ∀ p ∈ written, m.revert.tree (backupOf p) = none) (hplain : ∀ p ∈ written, Plain p) :
    m'.revert = m.revert := by
  obtain ⟨s, hs, rfl, rfl⟩ := install_cases h
  have hlive := Env.live_performs Env.actions_safe (Session.live_init _) hs hfresh
  have hreplay : replayFile (env.stateText s.log) s.tree = m.revert.tree := by
    rw [env.replayFile_stateText hlive.undoable.shape hlive.named]
    · exact hlive.undoable.replay backupOf_injective
    · exact fun e he ↦ hplain e.path (Session.mem_paths.mpr ⟨e, he, rfl⟩)
  rw [revert_of_some rfl, hreplay, ← m.revert_state]

/-- A successful run leaves a state file. -/
theorem install_state (h : m.install env = some (m', written)) : m'.state ≠ none := by
  obtain ⟨s, -, -, rfl⟩ := install_cases h
  exact Option.some_ne_none _

/-- Several runs are a first one and the others. -/
theorem installs_cons {envs : List Env} (h : m.installs (env :: envs) = some (m', written)) :
    ∃ m₁ w₁ w₂, m.install env = some (m₁, w₁) ∧ m₁.installs envs = some (m', w₂) ∧
      written = w₁ ++ w₂ := by
  rw [installs] at h
  split at h
  next => cases h
  next m₁ w₁ h₁ =>
    split at h
    next => cases h
    next m₂ w₂ h₂ => cases h; exact ⟨m₁, w₁, w₂, h₁, h₂, rfl⟩

/-- Reverting behind any number of runs leaves the machine they have started from. -/
theorem revert_installs {envs : List Env} (h : m.installs envs = some (m', written))
    (hfresh : ∀ p ∈ written, m.revert.tree (backupOf p) = none) (hplain : ∀ p ∈ written, Plain p) :
    m'.revert = m.revert := by
  induction envs generalizing m written with
  | nil => cases h; rfl
  | cons env envs ih =>
    obtain ⟨m₁, w₁, w₂, h₁, h₂, rfl⟩ := installs_cons h
    have hfirst : m₁.revert = m.revert := revert_install h₁
      (fun p hp ↦ hfresh p (List.mem_append_left _ hp))
      (fun p hp ↦ hplain p (List.mem_append_left _ hp))
    -- The other runs start from the files of the first one, once it is reverted.
    rw [← hfirst]
    apply ih h₂
    · intro p hp
      rw [hfirst]
      exact hfresh p (List.mem_append_right _ hp)
    · exact fun p hp ↦ hplain p (List.mem_append_right _ hp)

/-- Behind at least one run there is a state file. -/
theorem installs_state {envs : List Env} (hne : envs ≠ [])
    (h : m.installs envs = some (m', written)) : m'.state ≠ none := by
  induction envs generalizing m written with
  | nil => exact absurd rfl hne
  | cons env envs ih =>
    obtain ⟨m₁, w₁, w₂, h₁, h₂, -⟩ := installs_cons h
    cases envs with
    | nil => cases h₂; exact install_state h₁
    | cons env' envs' => exact ih (List.cons_ne_nil _ _) h₂

/-- The uninstaller reverts the install on record and removes the runtime directory. -/
theorem uninstall_eq (h : m.state ≠ none) :
    m.uninstall = some ⟨fun p ↦ if underRuntime p then none else m.revert.tree p, none⟩ := by
  obtain ⟨text, ht⟩ := Option.ne_none_iff_exists'.mp h
  rw [uninstall, revert_of_some ht]
  simp only [ht]

/-- Uninstalling behind any number of runs restores every path that was written and leaves no
backup, as long as the records can hold the paths and none of the originals is in the runtime
directory. -/
theorem uninstall_undoes_installs {m₀ m : Machine} {envs : List Env} {written : List Path}
    (hne : envs ≠ []) (hstate : m₀.state = none) (hrun : m₀.installs envs = some (m, written))
    (hfresh : ∀ p ∈ written, m₀.tree (backupOf p) = none) (hplain : ∀ p ∈ written, Plain p)
    (hruntime : ∀ p ∈ written, underRuntime p = true → m₀.tree p = none) :
    ∃ m', m.uninstall = some m' ∧
      ∀ p ∈ written, m'.tree p = m₀.tree p ∧ m'.tree (backupOf p) = none := by
  have hback : m.revert = m₀ := by
    rw [← revert_of_none hstate]
    apply revert_installs hrun _ hplain
    rwa [revert_of_none hstate]
  refine ⟨_, uninstall_eq (installs_state hne hrun), ?_⟩
  intro p hp
  show (if underRuntime p then none else m.revert.tree p) = m₀.tree p ∧
    (if underRuntime (backupOf p) then none else m.revert.tree (backupOf p)) = none
  rw [hback, hfresh p hp, ite_self]
  refine ⟨?_, rfl⟩
  split
  next h => exact (hruntime p hp h).symm
  next => rfl

/-- Two runs with different flags on the standard machine are undone. -/
theorem standardMachine_undone :
    ∃ m written m', standardMachine.installs [sampleEnv false, sampleEnv true] = some (m, written) ∧
      m.uninstall = some m' ∧
      ∀ p ∈ written, m'.tree p = standardMachine.tree p ∧ m'.tree (backupOf p) = none := by
  have hrun : (standardMachine.installs [sampleEnv false, sampleEnv true]).any (fun r ↦
      r.2.all fun p ↦ decide (Plain p) && !underRuntime p) = true := by
    decide +kernel
  obtain ⟨⟨m, written⟩, hsome, hgood⟩ := (Option.any_eq_true _ _).mp hrun
  have hpath : ∀ p ∈ written, Plain p ∧ underRuntime p = false := by
    intro p hp
    simpa using List.all_eq_true.mp hgood p hp
  obtain ⟨m', hm', hrestored⟩ := uninstall_undoes_installs (List.cons_ne_nil _ _) rfl hsome
    (fun p _ ↦ sampleMachine_fresh _ _ p) (fun p hp ↦ (hpath p hp).1)
    (fun p hp h ↦ absurd h (by rw [(hpath p hp).2]; decide))
  exact ⟨m, written, m', hsome, hm', hrestored⟩

/-- A machine whose sudoers file includes a directory with a tab in its name. -/
def tabbedMachine : Machine :=
  sampleMachine (some "auth include system-auth\n".toList) "@includedir \"/etc/a\tb\"\n".toList

/-- The record of the drop-in is read back as another path, so the drop-in outlives the
uninstall. -/
theorem tabbedMachine_not_undone :
    ∃ m written m', tabbedMachine.state = none ∧
      tabbedMachine.installs [sampleEnv true] = some (m, written) ∧
      (∀ p ∈ written, tabbedMachine.tree (backupOf p) = none) ∧ m.uninstall = some m' ∧
      ∃ p ∈ written, tabbedMachine.tree p = none ∧ m'.tree p ≠ none := by
  have hrun : (tabbedMachine.installs [sampleEnv true]).any (fun r ↦ r.1.uninstall.any fun m ↦
      r.2.any fun p ↦ (tabbedMachine.tree p).isNone && (m.tree p).isSome) = true := by
    decide +kernel
  obtain ⟨⟨m, written⟩, hsome, hany⟩ := (Option.any_eq_true _ _).mp hrun
  obtain ⟨m', hm', hleft⟩ := (Option.any_eq_true _ _).mp hany
  obtain ⟨p, hp, hgood⟩ := List.any_eq_true.mp hleft
  rw [Bool.and_eq_true, Option.isNone_iff_eq_none, Option.isSome_iff_ne_none] at hgood
  exact ⟨m, written, m', rfl, hsome, fun p _ ↦ sampleMachine_fresh _ _ p, hm', p, hp, hgood⟩

end Machine

end Sentinel.Packaging
