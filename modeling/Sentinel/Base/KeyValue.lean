import Mathlib.Data.List.Induction
import Sentinel.Base.Str

/-!
# Assignments

Texts of the form `KEY=value`. Such a text is cut at its first separator, and of several
assignments to one key either the first or the last one counts.
-/

namespace Sentinel.Base.KeyValue

/-- `str::split_once` at a character. -/
def splitOnce (sep : Char) : Str → Option (Str × Str)
  | [] => none
  | c :: cs => if c = sep then some ([], cs) else (splitOnce sep cs).map fun p ↦ (c :: p.1, p.2)

/-- An assignment as it is written. -/
def assignment (kv : Str × Str) : Str := kv.1 ++ '=' :: kv.2

/-- The value of the first assignment to a key. -/
def firstValue (key : Str) (kvs : List (Str × Str)) : Option Str :=
  kvs.findSome? fun kv ↦ if kv.1 = key then some kv.2 else none

/-- A map that is collected from assignments: a later one replaces an earlier one. -/
def collect (kvs : List (Str × Str)) : Str → Option Str :=
  kvs.foldl (fun m kv key ↦ if kv.1 = key then some kv.2 else m key) fun _ ↦ none

/-- A map behind assignments, one after the other. -/
def assignAll {α : Type} (m : Str → Option α) (kvs : List (Str × α)) : Str → Option α :=
  kvs.foldl (fun m kv ↦ Function.update m kv.1 (some kv.2)) m

/-- The pieces between separators hold none. -/
theorem not_mem_piece {α : Type} [BEq α] [LawfulBEq α] {sep : α} {xs l : List α}
    (h : l ∈ xs.splitOn sep) : sep ∉ l := by
  induction xs generalizing l with
  | nil =>
    rw [List.splitOn_nil, List.mem_singleton] at h
    rw [h]
    exact List.not_mem_nil
  | cons x xs ih =>
    obtain ⟨piece, pieces, hp⟩ := List.exists_cons_of_ne_nil (List.splitOn_ne_nil sep xs)
    rw [List.splitOn_cons_eq_if_modifyHead, hp] at h
    split at h
    next =>
      rcases List.mem_cons.mp h with rfl | h
      · exact List.not_mem_nil
      · exact ih (hp ▸ h)
    next hx =>
      rcases List.mem_cons.mp h with rfl | h
      · rintro (_ | ⟨_, hmem⟩)
        · exact hx (beq_self_eq_true _)
        · exact ih (hp ▸ List.mem_cons_self) hmem
      · exact ih (hp ▸ List.mem_cons_of_mem _ h)

/-- A text is cut at the first separator. -/
theorem splitOnce_eq_some_iff {sep : Char} {s k v : Str} :
    splitOnce sep s = some (k, v) ↔ s = k ++ sep :: v ∧ sep ∉ k := by
  induction s generalizing k with
  | nil => simp [splitOnce]
  | cons c cs ih =>
    rw [splitOnce]
    split
    next hc =>
      subst hc
      constructor
      · intro h
        cases h
        exact ⟨rfl, List.not_mem_nil⟩
      · rintro ⟨h, hk⟩
        cases k with
        | nil =>
          cases h
          rfl
        | cons d ds =>
          obtain ⟨rfl, -⟩ := List.cons.inj h
          exact absurd List.mem_cons_self hk
    next hc =>
      rw [Option.map_eq_some_iff]
      constructor
      · rintro ⟨⟨k', v'⟩, hs, he⟩
        cases he
        obtain ⟨rfl, hk⟩ := ih.mp hs
        refine ⟨rfl, ?_⟩
        rintro (_ | ⟨_, hmem⟩)
        · exact hc rfl
        · exact hk hmem
      · rintro ⟨h, hk⟩
        cases k with
        | nil => exact absurd (List.cons.inj h).1 hc
        | cons d ds =>
          obtain ⟨rfl, rfl⟩ := List.cons.inj h
          exact ⟨(ds, v), ih.mpr ⟨rfl, fun hm ↦ hk (List.mem_cons_of_mem _ hm)⟩, rfl⟩

/-- A written assignment is read back. -/
theorem splitOnce_assignment {kv : Str × Str} (h : '=' ∉ kv.1) :
    splitOnce '=' (assignment kv) = some kv := splitOnce_eq_some_iff.mpr ⟨rfl, h⟩

/-- In a collected map the last assignment counts. -/
theorem collect_eq_firstValue (kvs : List (Str × Str)) (key : Str) :
    collect kvs key = firstValue key kvs.reverse := by
  induction kvs using List.reverseRecOn with
  | nil => rfl
  | append_singleton kvs kv ih =>
    rw [collect, firstValue] at ih ⊢
    rw [List.foldl_append, List.reverse_append]
    by_cases hk : kv.1 = key
    · simp [hk]
    · simpa [hk] using ih

/-- A collected value was assigned. -/
theorem mem_of_collect {kvs : List (Str × Str)} {key v : Str} (h : collect kvs key = some v) :
    (key, v) ∈ kvs := by
  rw [collect_eq_firstValue] at h
  obtain ⟨kv, hkv, he⟩ := List.exists_of_findSome?_eq_some h
  split at he
  next hk =>
    cases he
    rw [← hk]
    exact List.mem_reverse.mp hkv
  next => cases he

section

variable {α : Type} {m : Str → Option α} {kvs : List (Str × α)} {key : Str}

/-- What is not assigned stays. -/
theorem assignAll_of_not_mem (h : key ∉ kvs.map Prod.fst) : assignAll m kvs key = m key := by
  induction kvs generalizing m with
  | nil => rfl
  | cons kv kvs ih =>
    rw [List.map_cons, List.mem_cons, not_or] at h
    rw [assignAll, List.foldl_cons, ← assignAll, ih h.2]
    exact Function.update_of_ne h.1 _ _

/-- What is assigned once is assigned. -/
theorem assignAll_of_mem {v : α} (hnodup : (kvs.map Prod.fst).Nodup) (h : (key, v) ∈ kvs) :
    assignAll m kvs key = some v := by
  induction kvs generalizing m with
  | nil => cases h
  | cons kv kvs ih =>
    rw [List.map_cons, List.nodup_cons] at hnodup
    rw [assignAll, List.foldl_cons, ← assignAll]
    rcases List.mem_cons.mp h with rfl | h
    · rw [assignAll_of_not_mem hnodup.1]
      exact Function.update_self _ _ _
    · exact ih hnodup.2 h

/-- The keys that are looked up and found, in their order. -/
theorem keys_filterMap_sublist (g : Str → Option α) (keys : List Str) :
    ((keys.filterMap fun k ↦ (g k).map fun v ↦ (k, v)).map Prod.fst).Sublist keys := by
  induction keys with
  | nil => exact List.Sublist.refl []
  | cons k keys ih =>
    cases hg : g k with
    | none =>
      rw [List.filterMap_cons_none (by rw [hg]; rfl)]
      exact ih.cons k
    | some v =>
      rw [List.filterMap_cons_some (b := (k, v)) (by rw [hg]; rfl)]
      exact ih.cons_cons k

end

end Sentinel.Base.KeyValue
