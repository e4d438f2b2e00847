import Mathlib.Data.List.Basic
import Mathlib.Data.List.Induction
import Mathlib.Logic.Function.Basic

/-!
# Undo logs over a store of files

A log says of every path that was written whether the path was created or replaced, and a replaced
path has its original under a backup name of its own. Replaying the log from its newest entry to its
oldest removes what was created and moves the backups to where they belong. A path may be written
any number of times: only the first write keeps the original.
-/

namespace Sentinel.Base.Undo

universe u v

variable {P : Type u} {C : Type v} [DecidableEq P]

/-- The files of a store: the content of every path that has one. -/
abbrev Tree (P : Type u) (C : Type v) := P → Option C

/-- One entry of the log. -/
inductive Entry (P : Type u) where
  | created (path : P)
  | replaced (path backup : P)
  deriving DecidableEq, Repr

namespace Entry

/-- The path that was written. -/
def path : Entry P → P
  | .created p => p
  | .replaced p _ => p

end Entry

/-- Undo one entry: a created path is removed, a replaced one gets its backup if there is one. -/
def undo (t : Tree P C) : Entry P → Tree P C
  | .created p => Function.update t p none
  | .replaced p b =>
    match t b with
    | some c => Function.update (Function.update t b none) p (some c)
    | none => t

/-- Undo a whole log, whose oldest entry comes first. -/
def replay (log : List (Entry P)) (t : Tree P C) : Tree P C := log.foldr (fun e t ↦ undo t e) t

/-- The newest entry is undone first. -/
theorem replay_concat (log : List (Entry P)) (e : Entry P) (t : Tree P C) :
    replay (log ++ [e]) t = replay log (undo t e) := by
  simp [replay]

/-- Undoing an entry changes its path and its backup only. -/
theorem undo_of_ne {e : Entry P} {q : P} (hpath : q ≠ e.path)
    (hbackup : ∀ p b, e = .replaced p b → q ≠ b) (t : Tree P C) : undo t e q = t q := by
  cases e with
  | created p => exact Function.update_of_ne hpath none t
  | replaced p b =>
    cases hb : t b with
    | none => simp only [undo, hb]
    | some c =>
      simp only [undo, hb]
      rw [Function.update_of_ne (show q ≠ p from hpath), Function.update_of_ne (hbackup p b rfl)]

section Writing

variable (backup : P → P)

/-- Keep a copy of what a path holds under its backup name, unless that name is taken. -/
def keep (t : Tree P C) (p : P) : Tree P C :=
  if (t p).isSome && (t (backup p)).isNone then Function.update t (backup p) (t p) else t

/-- The entry that a write of this path logs. -/
def entryFor (t : Tree P C) (p : P) : Entry P :=
  if (t p).isSome then .replaced p (backup p) else .created p

omit [DecidableEq P] in
/-- The entry names the path that is written. -/
@[simp] theorem entryFor_path (t : Tree P C) (p : P) : (entryFor backup t p).path = p := by
  rw [entryFor]
  split <;> rfl

variable {backup}

/-- Keeping a copy changes the backup name only. -/
theorem keep_of_ne {p q : P} (h : q ≠ backup p) (t : Tree P C) : keep backup t p q = t q := by
  rw [keep]
  split
  · exact Function.update_of_ne h _ t
  · rfl

/-- After the copy the backup of a path that holds something is taken. -/
theorem keep_backup {t : Tree P C} {p : P} {c : C} (h : t p = some c) :
    keep backup t p (backup p) = some ((t (backup p)).getD c) := by
  cases hb : t (backup p) with
  | none => simp [keep, h, hb]
  | some d => simp [keep, h, hb]

/-- Keeping a copy removes nothing. -/
theorem keep_ne_none {t : Tree P C} {q : P} (h : t q ≠ none) (p : P) :
    keep backup t p q ≠ none := by
  by_cases hq : q = backup p
  · rw [hq] at h ⊢
    rw [keep]
    split
    next hcopy => simp [h] at hcopy
    next => exact h
  · rwa [keep_of_ne hq]

/-- A path that holds nothing leaves no copy. -/
theorem keep_of_none {t : Tree P C} {p : P} (h : t p = none) : keep backup t p = t := by
  simp [keep, h]

/-- What one path of the log has to satisfy to be restored: its original is under the backup name
or back in place if there was one, else the oldest entry of the path says that there was none. -/
def Restorable (p : P) (original current saved : Option C) (entries : List (Entry P)) : Prop :=
  match original with
  | some c => Entry.created p ∉ entries ∧ (saved = some c ∨ saved = none ∧ current = some c)
  | none => entries.head? = some (.created p) ∧ (saved ≠ none → ∃ b, Entry.replaced p b ∈ entries)

/-- The entries of one path. -/
def entriesOf (log : List (Entry P)) (p : P) : List (Entry P) := log.filter fun e ↦ e.path = p

/-- A newest entry of the path is the last of its entries. -/
theorem entriesOf_concat_self (log : List (Entry P)) (e : Entry P) :
    entriesOf (log ++ [e]) e.path = entriesOf log e.path ++ [e] := by
  simp [entriesOf]

/-- An entry of another path is not among them. -/
theorem entriesOf_concat_of_ne {e : Entry P} {p : P} (h : e.path ≠ p) (log : List (Entry P)) :
    entriesOf (log ++ [e]) p = entriesOf log p := by
  simp [entriesOf, h]

/-- A path without an entry. -/
theorem entriesOf_eq_nil {log : List (Entry P)} {p : P} :
    entriesOf log p = [] ↔ ∀ e ∈ log, e.path ≠ p := by
  simp [entriesOf]

/-- An entry of this path, with the backup name of the path. -/
def IsFor (backup : P → P) (p : P) (e : Entry P) : Prop :=
  e = .created p ∨ e = .replaced p (backup p)

omit [DecidableEq P] in
/-- Such an entry names the path. -/
theorem IsFor.path {p : P} {e : Entry P} (h : IsFor backup p e) : e.path = p := by
  rcases h with rfl | rfl <;> rfl

omit [DecidableEq P] in
/-- A write logs an entry of its path. -/
theorem isFor_entryFor (t : Tree P C) (p : P) : IsFor backup p (entryFor backup t p) := by
  rw [IsFor, entryFor]
  split
  · exact Or.inr rfl
  · exact Or.inl rfl

/-- Undoing the only entry of a path restores the path and frees the backup name. -/
theorem Restorable.undo_last {t : Tree P C} {original : Option C} {p : P} {e : Entry P}
    (hne : p ≠ backup p) (he : IsFor backup p e)
    (h : Restorable p original (t p) (t (backup p)) [e]) :
    undo t e p = original ∧ undo t e (backup p) = none := by
  rcases he with rfl | rfl
  · cases original with
    | some c => exact absurd (List.mem_singleton_self _) h.1
    | none =>
      refine ⟨by rw [undo, Function.update_self], ?_⟩
      rw [undo, Function.update_of_ne (Ne.symm hne)]
      cases hb : t (backup p) with
      | none => rfl
      | some d =>
        obtain ⟨b, hmem⟩ := h.2 (by simp [hb])
        simp at hmem
  · cases original with
    | none => simp [Restorable] at h
    | some c =>
      rcases h.2 with hsaved | ⟨hsaved, hcurrent⟩
      · simp [undo, hsaved, Function.update_of_ne (Ne.symm hne)]
      · simp [undo, hsaved, hcurrent]

/-- Undoing the newest of several entries of a path leaves the others to restore it. -/
theorem Restorable.undo_newest {t : Tree P C} {original : Option C} {p : P} {e : Entry P}
    {entries : List (Entry P)} (hne : p ≠ backup p) (he : IsFor backup p e)
    (hentries : entries ≠ [])
    (h : Restorable p original (t p) (t (backup p)) (entries ++ [e])) :
    Restorable p original (undo t e p) (undo t e (backup p)) entries := by
  cases original with
  | some c =>
    obtain ⟨hcreated, hsaved⟩ := h
    refine ⟨fun hmem ↦ hcreated (List.mem_append_left _ hmem), ?_⟩
    rcases he with rfl | rfl
    · exact absurd (List.mem_append_right _ (List.mem_singleton_self _)) hcreated
    · rcases hsaved with hsaved | ⟨hsaved, hcurrent⟩
      · right
        simp [undo, hsaved, Function.update_of_ne (Ne.symm hne)]
      · right
        simp [undo, hsaved, hcurrent]
  | none =>
    obtain ⟨hhead, hsaved⟩ := h
    refine ⟨?_, ?_⟩
    · rwa [List.head?_append_of_ne_nil _ hentries] at hhead
    · intro hb
      rcases he with rfl | rfl
      · rw [undo, Function.update_of_ne (Ne.symm hne)] at hb
        obtain ⟨b, hmem⟩ := hsaved hb
        simp only [List.mem_append, List.mem_singleton, reduceCtorEq, or_false] at hmem
        exact ⟨b, hmem⟩
      · exfalso
        apply hb
        cases hd : t (backup p) with
        | none => simp [undo, hd]
        | some d => simp [undo, hd, Function.update_of_ne (Ne.symm hne)]

/-- The first write of a path that is still as it was makes it restorable. -/
theorem restorable_first {t : Tree P C} {p : P} (hb : t (backup p) = none) (x : Option C) :
    Restorable p (t p) x (keep backup t p (backup p)) [entryFor backup t p] := by
  cases hp : t p with
  | none => simp [Restorable, entryFor, hp, keep_of_none hp, hb]
  | some c => simp [Restorable, entryFor, hp, keep_backup hp, hb]

/-- A further write of a path keeps it restorable: its original is not copied over. -/
theorem Restorable.again {t : Tree P C} {original : Option C} {p : P} {entries : List (Entry P)}
    (hp : t p ≠ none) (h : Restorable p original (t p) (t (backup p)) entries)
    (x : Option C) :
    Restorable p original x (keep backup t p (backup p)) (entries ++ [entryFor backup t p]) := by
  obtain ⟨d, hd⟩ := Option.ne_none_iff_exists'.mp hp
  have hentry : entryFor backup t p = .replaced p (backup p) := by simp [entryFor, hd]
  rw [hentry, keep_backup hd]
  cases original with
  | some c =>
    refine ⟨?_, Or.inl ?_⟩
    · simpa using h.1
    · rcases h.2 with hsaved | ⟨hsaved, hcurrent⟩
      · rw [hsaved, Option.getD_some]
      · rw [hsaved, Option.getD_none, ← hcurrent, hd]
  | none =>
    refine ⟨?_, fun _ ↦ ⟨backup p, by simp⟩⟩
    rw [List.head?_append, h.1, Option.some_or]

/-! ### Logs that undo what happened -/

variable (backup) in
/-- A log that undoes what happened to the tree since `t₀`. -/
structure Undoable (t₀ t : Tree P C) (log : List (Entry P)) : Prop where
  /-- The entries have the backup name of their path. -/
  shape : ∀ e ∈ log, IsFor backup e.path e
  /-- No written path is a backup name. -/
  apart : ∀ e ∈ log, ∀ q, e.path ≠ backup q
  /-- The backup names were free. -/
  fresh : ∀ e ∈ log, t₀ (backup e.path) = none
  /-- Everything else is as it was. -/
  frame : ∀ q, (∀ e ∈ log, q ≠ e.path ∧ q ≠ backup e.path) → t q = t₀ q
  /-- Every written path can be restored. -/
  restorable : ∀ e ∈ log,
    Restorable e.path (t₀ e.path) (t e.path) (t (backup e.path)) (entriesOf log e.path)

/-- Nothing happened and nothing is logged. -/
theorem undoable_nil (t₀ : Tree P C) : Undoable backup t₀ t₀ [] := by
  constructor <;> simp

variable {t₀ t : Tree P C} {log : List (Entry P)} {e : Entry P}

/-- Undoing an entry of a path changes the path and its backup only. -/
theorem IsFor.undo_of_ne {p q : P} (he : IsFor backup p e) (hp : q ≠ p) (hb : q ≠ backup p)
    (t : Tree P C) : undo t e q = t q := by
  apply Undo.undo_of_ne
  · rwa [he.path]
  · rintro p' b rfl
    rcases he with h | h
    · cases h
    · cases h
      exact hb

/-- Undoing the newest entry leaves a log that undoes the rest. -/
theorem Undoable.undo_newest (hinj : Function.Injective backup)
    (h : Undoable backup t₀ t (log ++ [e])) : Undoable backup t₀ (undo t e) log := by
  have hmem : e ∈ log ++ [e] := List.mem_append_right _ (List.mem_singleton_self e)
  have hold : ∀ e' ∈ log, e' ∈ log ++ [e] := fun e' he' ↦ List.mem_append_left _ he'
  have he : IsFor backup e.path e := h.shape e hmem
  have hne : e.path ≠ backup e.path := h.apart e hmem e.path
  have hcell := h.restorable e hmem
  rw [entriesOf_concat_self] at hcell
  refine ⟨fun e' he' ↦ h.shape e' (hold e' he'), fun e' he' ↦ h.apart e' (hold e' he'),
    fun e' he' ↦ h.fresh e' (hold e' he'), ?_, ?_⟩
  · intro q hq
    -- A path without an older entry is where the undone entry puts it back.
    by_cases hqp : q = e.path
    · rw [hqp] at hq ⊢
      rw [entriesOf_eq_nil.mpr fun e' he' ↦ (hq e' he').1.symm] at hcell
      exact (hcell.undo_last hne he).1
    · by_cases hqb : q = backup e.path
      · rw [hqb, h.fresh e hmem]
        rw [entriesOf_eq_nil.mpr fun e' he' hp ↦ (hq e' he').2 (by rw [hqb, hp])] at hcell
        exact (hcell.undo_last hne he).2
      · rw [he.undo_of_ne hqp hqb]
        apply h.frame
        intro e' he'
        rcases List.mem_append.mp he' with he' | he'
        · exact hq e' he'
        · rw [List.mem_singleton.mp he']
          exact ⟨hqp, hqb⟩
  · intro e' he'
    by_cases hp : e'.path = e.path
    · rw [hp]
      apply hcell.undo_newest hne he
      intro hnil
      exact entriesOf_eq_nil.mp hnil e' he' hp
    · have hcell' := h.restorable e' (hold e' he')
      rw [entriesOf_concat_of_ne (Ne.symm hp)] at hcell'
      rw [he.undo_of_ne hp (h.apart e' (hold e' he') _),
        he.undo_of_ne (Ne.symm (h.apart e hmem _)) (fun hb ↦ hp (hinj hb))]
      exact hcell'

/-- Replaying the log brings the tree back. -/
theorem Undoable.replay (hinj : Function.Injective backup) (h : Undoable backup t₀ t log) :
    replay log t = t₀ := by
  induction log using List.reverseRecOn generalizing t with
  | nil =>
    funext q
    exact h.frame q (by simp)
  | append_singleton log e ih =>
    rw [replay_concat]
    exact ih (h.undo_newest hinj)

/-- A path that is logged and written is restorable, whether or not it was written before. -/
theorem Undoable.restorable_write (hinj : Function.Injective backup)
    (h : Undoable backup t₀ t log) {p : P} (hapart : ∀ q, p ≠ backup q)
    (hfresh : t₀ (backup p) = none) (hlive : (∃ e ∈ log, e.path = p) → t p ≠ none)
    (x : Option C) :
    Restorable p (t₀ p) x (keep backup t p (backup p))
      (entriesOf (log ++ [entryFor backup t p]) p) := by
  have hself := entriesOf_concat_self log (entryFor backup t p)
  rw [entryFor_path] at hself
  rw [hself]
  by_cases hlog : ∃ e ∈ log, e.path = p
  · obtain ⟨e, he, rfl⟩ := hlog
    exact (h.restorable e he).again (hlive ⟨e, he, rfl⟩) x
  · have hnil : entriesOf log p = [] :=
      entriesOf_eq_nil.mpr fun e he hp ↦ hlog ⟨e, he, hp⟩
    have hp : t p = t₀ p := h.frame p fun e he ↦ ⟨fun hp ↦ hlog ⟨e, he, hp.symm⟩, hapart _⟩
    have hb : t (backup p) = none := by
      rw [← hfresh]
      apply h.frame
      intro e he
      exact ⟨Ne.symm (h.apart e he p), fun hb ↦ hlog ⟨e, he, (hinj hb).symm⟩⟩
    rw [hnil, List.nil_append, ← hp]
    exact restorable_first hb x

/-- Logging and writing a path keeps the log able to undo everything, whatever is written. -/
theorem Undoable.write (hinj : Function.Injective backup) (h : Undoable backup t₀ t log) {p : P}
    (hapart : ∀ q, p ≠ backup q) (hfresh : t₀ (backup p) = none)
    (hlive : (∃ e ∈ log, e.path = p) → t p ≠ none) (x : Option C) :
    Undoable backup t₀ (Function.update (keep backup t p) p x) (log ++ [entryFor backup t p]) := by
  have hother : ∀ q, q ≠ p → q ≠ backup p → Function.update (keep backup t p) p x q = t q := by
    intro q hp hb
    rw [Function.update_of_ne hp, keep_of_ne hb]
  have hsaved : Function.update (keep backup t p) p x (backup p) = keep backup t p (backup p) := by
    rw [Function.update_of_ne (Ne.symm (hapart p))]
  have hcases : ∀ e ∈ log ++ [entryFor backup t p], e ∈ log ∨ e = entryFor backup t p := by
    intro e he
    rwa [List.mem_append, List.mem_singleton] at he
  refine ⟨?_, ?_, ?_, ?_, ?_⟩
  · intro e he
    rcases hcases e he with he | rfl
    · exact h.shape e he
    · rw [entryFor_path]
      exact isFor_entryFor t p
  · intro e he
    rcases hcases e he with he | rfl
    · exact h.apart e he
    · rwa [entryFor_path]
  · intro e he
    rcases hcases e he with he | rfl
    · exact h.fresh e he
    · rwa [entryFor_path]
  · intro q hq
    have hqp := hq _ (List.mem_append_right _ (List.mem_singleton_self _))
    rw [entryFor_path] at hqp
    rw [hother q hqp.1 hqp.2]
    exact h.frame q fun e he ↦ hq e (List.mem_append_left _ he)
  · intro e he
    by_cases hp : e.path = p
    · rw [hp, hsaved, Function.update_self]
      exact h.restorable_write hinj hapart hfresh hlive x
    · rcases hcases e he with he | rfl
      · rw [entriesOf_concat_of_ne (by rw [entryFor_path]; exact Ne.symm hp),
          hother _ hp (h.apart e he _), hother _ (Ne.symm (hapart _)) (fun hb ↦ hp (hinj hb))]
        exact h.restorable e he
      · exact absurd (entryFor_path backup t p) hp

end Writing

end Sentinel.Base.Undo
