import Sentinel.Base.Undo

/-!
# Sweeps over the paths of a store

A loop over path names that settles each of them on its own: what becomes of a path and of its
backup name depends on what these two hold and on nothing else. When no path is listed twice and
none is a backup name, the turns of such a loop do not see one another.
-/

namespace Sentinel.Base.Undo

universe u v

variable {P : Type u} {C : Type v} [DecidableEq P]

/-- What is left of the contents of a path and of its backup name. -/
abbrev Cell (C : Type v) : Type v := Option C → Option C → Option C × Option C

section Sweep

variable (backup : P → P) (cell : Cell C)

/-- One turn of the loop. -/
def settle (t : Tree P C) (p : P) : Tree P C :=
  let left := cell (t p) (t (backup p))
  Function.update (Function.update t (backup p) left.2) p left.1

/-- The whole loop. -/
def sweep (ps : List P) (t : Tree P C) : Tree P C := ps.foldl (settle backup cell) t

variable {backup cell}

/-- A turn changes its path and the backup name only. -/
theorem settle_of_ne {p q : P} (hp : q ≠ p) (hb : q ≠ backup p) (t : Tree P C) :
    settle backup cell t p q = t q := by
  rw [settle, Function.update_of_ne hp, Function.update_of_ne hb]

/-- What a turn leaves of its path. -/
theorem settle_self (t : Tree P C) (p : P) :
    settle backup cell t p p = (cell (t p) (t (backup p))).1 := by
  rw [settle, Function.update_self]

/-- What a turn leaves of the backup. -/
theorem settle_backup {p : P} (h : backup p ≠ p) (t : Tree P C) :
    settle backup cell t p (backup p) = (cell (t p) (t (backup p))).2 := by
  rw [settle, Function.update_of_ne h, Function.update_self]

/-- A path that is not listed and no backup of a listed one is not touched. -/
theorem sweep_of_ne {ps : List P} {q : P} (h : ∀ p ∈ ps, q ≠ p ∧ q ≠ backup p) (t : Tree P C) :
    sweep backup cell ps t q = t q := by
  induction ps generalizing t with
  | nil => rfl
  | cons p ps ih =>
    have hp := h p List.mem_cons_self
    rw [sweep, List.foldl_cons, ← sweep, ih fun p' hp' ↦ h p' (List.mem_cons_of_mem _ hp'),
      settle_of_ne hp.1 hp.2]

/-- A listed path is settled once, as if the others were not there. -/
theorem sweep_self (cell : Cell C) (hinj : Function.Injective backup) {ps : List P}
    (hnodup : ps.Nodup) (hapart : ∀ p ∈ ps, ∀ q, p ≠ backup q) {p : P} (hp : p ∈ ps)
    (t : Tree P C) :
    sweep backup cell ps t p = (cell (t p) (t (backup p))).1 ∧
      sweep backup cell ps t (backup p) = (cell (t p) (t (backup p))).2 := by
  induction ps generalizing t with
  | nil => cases hp
  | cons q qs ih =>
    obtain ⟨hq, hqs⟩ := List.nodup_cons.mp hnodup
    have hrest := ih hqs fun p' hp' ↦ hapart p' (List.mem_cons_of_mem _ hp')
    rw [sweep, List.foldl_cons, ← sweep]
    rcases List.mem_cons.mp hp with rfl | hp
    · -- The path is settled now, and no later turn touches it.
      have hlater : ∀ q ∈ qs, p ≠ q ∧ p ≠ backup q := by
        intro q hmem
        exact ⟨fun he ↦ hq (he ▸ hmem), hapart p List.mem_cons_self q⟩
      have hbackup : ∀ q ∈ qs, backup p ≠ q ∧ backup p ≠ backup q := by
        intro q hmem
        refine ⟨Ne.symm (hapart q (List.mem_cons_of_mem _ hmem) p), fun he ↦ hq ?_⟩
        rwa [hinj he]
      rw [sweep_of_ne hlater, sweep_of_ne hbackup, settle_self,
        settle_backup (Ne.symm (hapart p List.mem_cons_self p))]
      exact ⟨rfl, rfl⟩
    · have hpq : p ≠ q := fun he ↦ hq (he ▸ hp)
      have hkept : settle backup cell t q p = t p :=
        settle_of_ne hpq (hapart p (List.mem_cons_of_mem _ hp) q) t
      have hsaved : settle backup cell t q (backup p) = t (backup p) :=
        settle_of_ne (Ne.symm (hapart q List.mem_cons_self p)) (fun he ↦ hpq (hinj he)) t
      rw [← hkept, ← hsaved]
      exact hrest hp _

end Sweep

end Sentinel.Base.Undo
