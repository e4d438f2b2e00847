import Mathlib.Data.List.Induction

/-!
# Monotonic time and freshness windows

Instants are natural numbers, the nanoseconds of a monotonic clock. A window store
remembers when a key was last recorded and answers whether that was recent enough. The
specification keeps the whole history; the table keeps one stamp per key string, drops
stamps past a cap on every write, and answers from what is left. Both give the same
answers at every time at or behind the last operation, as long as distinct keys have
distinct key strings.
-/

namespace Sentinel.Base

/-- A span of whole seconds, in nanoseconds. -/
def fromSecs (n : Nat) : Nat := n * 1000000000

/-- Only no second is no time. -/
theorem fromSecs_eq_zero_iff (n : Nat) : fromSecs n = 0 ↔ n = 0 := by
  unfold fromSecs
  omega

namespace Window

/-- An operation on a window store. -/
inductive Op (K : Type) where
  | record (k : K)
  | isFresh (k : K) (ttl : Nat)

/-- An operation with its clock reading. -/
structure Event (K : Type) where
  time : Nat
  op : Op K

variable {K S : Type}

/-- Clock readings never go back along a history, oldest operation first. -/
def Ordered (hist : List (Event K)) : Prop := hist.Pairwise (fun a b ↦ a.time ≤ b.time)

/-- The stamp an operation leaves for a key. -/
def stampOf [DecidableEq K] (k : K) (e : Event K) : Option Nat :=
  match e.op with
  | .record k' => if k' = k then some e.time else none
  | .isFresh _ _ => none

/-- Specification: when the key was last recorded. -/
def lastRecord [DecidableEq K] (k : K) (hist : List (Event K)) : Option Nat :=
  hist.reverse.findSome? (stampOf k)

/-- Specification: a positive window, and a last record inside it. -/
def Fresh [DecidableEq K] (cap : Nat) (hist : List (Event K)) (k : K) (ttl : Nat)
    (now : Nat) : Prop :=
  0 < ttl ∧ ∃ t, lastRecord k hist = some t ∧ now - t < min ttl cap

/-- The last operation decides when it stamps the key. -/
theorem lastRecord_concat [DecidableEq K] (k : K) (hist : List (Event K)) (e : Event K) :
    lastRecord k (hist ++ [e]) = (stampOf k e).or (lastRecord k hist) := by
  rw [lastRecord, List.reverse_append, List.reverse_singleton, List.singleton_append,
    List.findSome?_cons]
  cases stampOf k e <;> rfl

/-! ### Tables of stamps -/

/-- A hash map from key strings to stamps, observed by lookup. -/
def Table (S : Type) : Type := S → Option Nat

namespace Table

/-- No entry. -/
def empty : Table S := fun _ ↦ none

/-- Keep the entries younger than `cap`. -/
def retain (cap : Nat) (now : Nat) (m : Table S) : Table S :=
  fun s ↦ (m s).filter (fun t ↦ now - t < cap)

/-- Set one entry. -/
def insert [DecidableEq S] (s : S) (now : Nat) (m : Table S) : Table S :=
  fun s' ↦ if s' = s then some now else m s'

/-- Look an entry up and compare its age with the window cut at `cap`; an empty window
never matches. -/
def isFresh (cap : Nat) (m : Table S) (s : S) (ttl : Nat) (now : Nat) : Bool :=
  if ttl = 0 then false else (m s).any (fun t ↦ now - t < min ttl cap)

/-- Drop what is past the cap, then set the entry. -/
def record [DecidableEq S] (cap : Nat) (m : Table S) (s : S) (now : Nat) : Table S :=
  insert s now (retain cap now m)

/-- Right behind a write every entry is younger than the cap. -/
theorem record_young [DecidableEq S] {cap : Nat} (hc : 0 < cap) (m : Table S) (s : S)
    (now : Nat) {s' : S} {t : Nat} (h : record cap m s now s' = some t) :
    now - t < cap := by
  unfold record insert at h
  split at h
  · cases h
    simpa using hc
  · simp only [retain, Option.filter_eq_some_iff, decide_eq_true_eq] at h
    exact h.2

/-- A fresh answer comes from an entry inside the cut window. -/
theorem exists_of_isFresh {cap : Nat} {m : Table S} {s : S} {ttl now : Nat}
    (h : isFresh cap m s ttl now = true) : ∃ t, m s = some t ∧ now - t < min ttl cap := by
  unfold isFresh at h
  split at h
  · cases h
  · obtain ⟨t, ht, hlt⟩ := (Option.any_eq_true _ _).mp h
    exact ⟨t, ht, by simpa using hlt⟩

/-- An entry behind a write is the written one or was there before. -/
theorem record_cases [DecidableEq S] {cap : Nat} {m : Table S} {s s' : S} {now t : Nat}
    (h : record cap m s now s' = some t) : (s' = s ∧ t = now) ∨ m s' = some t := by
  unfold record insert at h
  split at h
  next hs =>
    cases h
    exact Or.inl ⟨hs, rfl⟩
  next =>
    rw [retain, Option.filter_eq_some_iff] at h
    exact Or.inr h.1

/-- An entry inside the cap survives a write, as it is or with a newer stamp. -/
theorem record_keeps [DecidableEq S] {cap : Nat} {m : Table S} {s : S} {t : Nat}
    (h : m s = some t) {s' : S} {now : Nat} (hcap : now - t < cap) (hle : t ≤ now) :
    ∃ t', record cap m s' now s = some t' ∧ t ≤ t' ∧ t' ≤ now := by
  unfold record insert
  by_cases hs : s = s'
  · exact ⟨now, if_pos hs, hle, Nat.le_refl now⟩
  · refine ⟨t, ?_, Nat.le_refl t, hle⟩
    rw [if_neg hs, retain, h]
    simp [hcap]

/-- An entry inside the cut window is a fresh answer. -/
theorem isFresh_of_lookup {cap : Nat} {m : Table S} {s : S} {ttl now t : Nat}
    (h : m s = some t) (hlt : now - t < min ttl cap) : isFresh cap m s ttl now = true := by
  rw [isFresh, if_neg (by omega), h]
  simpa using hlt

end Table

/-! ### Histories against tables -/

/-- A store behind one operation: only records change it. -/
def apply {M : Type} (record : M → K → Nat → M) (m : M) (e : Event K) : M :=
  match e.op with
  | .record k => record m k e.time
  | .isFresh _ _ => m

section Refinement

variable [DecidableEq K] [DecidableEq S] (cap : Nat) (f : K → S)

/-- The table behind one operation. -/
def step : Table S → Event K → Table S := apply (fun m k now ↦ Table.record cap m (f k) now)

/-- The table behind one operation of a store that never drops an entry. -/
def stepUnpruned : Table S → Event K → Table S :=
  apply (fun m k now ↦ Table.insert (f k) now m)

/-- The table behind a history. -/
def after (hist : List (Event K)) : Table S := hist.foldl (step cap f) Table.empty

/-- The table behind a history of a store that never drops an entry. -/
def afterUnpruned (hist : List (Event K)) : Table S := hist.foldl (stepUnpruned f) Table.empty

/-- The unpruned table is exactly the specification's last records. -/
theorem afterUnpruned_eq_lastRecord (hf : Function.Injective f) (hist : List (Event K)) (k : K) :
    afterUnpruned f hist (f k) = lastRecord k hist := by
  induction hist using List.reverseRecOn with
  | nil => rfl
  | append_singleton hist e ih =>
    rw [lastRecord_concat, afterUnpruned, List.foldl_append, List.foldl_cons, List.foldl_nil,
      ← afterUnpruned]
    cases hop : e.op with
    | record k' =>
      simp only [stepUnpruned, apply, hop, stampOf, Table.insert, hf.eq_iff, ih]
      by_cases hk : k = k'
      · simp [hk]
      · simp [hk, Ne.symm hk]
    | isFresh k' ttl => simp [stepUnpruned, apply, hop, stampOf, ih]

/-- Invariant of the pruned table at every time at or behind the history: its entries are
last records, and a last record inside the cap is still there. -/
def Agrees (hist : List (Event K)) (m : Table S) : Prop :=
  (∀ k t, m (f k) = some t → lastRecord k hist = some t) ∧
  (∀ k t now, (∀ e ∈ hist, e.time ≤ now) → lastRecord k hist = some t → now - t < cap →
    m (f k) = some t)

private theorem agrees_step (hf : Function.Injective f) {hist : List (Event K)} {m : Table S}
    {e : Event K} (h : Agrees cap f hist m) (ho : ∀ d ∈ hist, d.time ≤ e.time) :
    Agrees cap f (hist ++ [e]) (step cap f m e) := by
  obtain ⟨hs, hc⟩ := h
  cases hop : e.op with
  | isFresh k' ttl =>
    have hl (k : K) : lastRecord k (hist ++ [e]) = lastRecord k hist := by
      simp [lastRecord_concat, stampOf, hop]
    simp only [Agrees, hl, step, apply, hop]
    exact ⟨hs, fun k t now hn ↦ hc k t now (fun d hd ↦ hn d (by simp [hd]))⟩
  | record k' =>
    have hl (k : K) : lastRecord k (hist ++ [e]) =
        if k' = k then some e.time else lastRecord k hist := by
      rw [lastRecord_concat]
      by_cases hk : k' = k <;> simp [stampOf, hop, hk]
    have hm (k : K) : step cap f m e (f k) =
        if k' = k then some e.time else (m (f k)).filter (fun t ↦ e.time - t < cap) := by
      by_cases hk : k' = k
      · simp [step, apply, hop, Table.record, Table.insert, hk]
      · simp [step, apply, hop, Table.record, Table.insert, Table.retain, hf.eq_iff, hk, Ne.symm hk]
    constructor
    · intro k t ht
      rw [hm] at ht
      rw [hl]
      by_cases hk : k' = k
      · simpa [hk] using ht
      · simp only [hk, if_false, Option.filter_eq_some_iff] at ht ⊢
        exact hs k t ht.1
    · intro k t now hn ht hnow
      rw [hl] at ht
      rw [hm]
      by_cases hk : k' = k
      · simpa [hk] using ht
      · simp only [hk, if_false, Option.filter_eq_some_iff, decide_eq_true_eq] at ht ⊢
        -- A stamp still inside the cap now was inside it at the earlier write.
        have he : e.time ≤ now := hn e (by simp)
        have hk' : m (f k) = some t := hc k t e.time ho ht (by omega)
        exact ⟨hk', by omega⟩

/-- The table agrees with the history of every ordered run. -/
theorem agrees_after (hf : Function.Injective f) {hist : List (Event K)} (ho : Ordered hist) :
    Agrees cap f hist (after cap f hist) := by
  induction hist using List.reverseRecOn with
  | nil =>
    constructor
    · intro k t h
      cases h
    · intro k t now _ h
      cases h
  | append_singleton hist e ih =>
    obtain ⟨hh, -, hle⟩ := List.pairwise_append.mp ho
    rw [after, List.foldl_append, List.foldl_cons, List.foldl_nil, ← after]
    exact agrees_step cap f hf (ih hh) (fun d hd ↦ hle d hd e (by simp))

omit [DecidableEq K] [DecidableEq S] in
private theorem fresh_of_lookup {m : Table S} {o : Option Nat} (k : K) (ttl : Nat)
    (now : Nat) (h : ∀ t, now - t < cap → (m (f k) = some t ↔ o = some t)) :
    Table.isFresh cap m (f k) ttl now = true ↔
      0 < ttl ∧ ∃ t, o = some t ∧ now - t < min ttl cap := by
  unfold Table.isFresh
  by_cases hz : ttl = 0
  · simp [hz]
  · rw [if_neg hz, Option.any_eq_true]
    constructor
    · rintro ⟨t, ht, hlt⟩
      have hlt' : now - t < min ttl cap := by simpa using hlt
      exact ⟨by omega, t, (h t (by omega)).mp ht, hlt'⟩
    · rintro ⟨-, t, ht, hlt⟩
      exact ⟨t, (h t (by omega)).mpr ht, by simpa using hlt⟩

/-- A table answers exactly what the history says, at every time at or behind it. -/
theorem isFresh_after_iff (hf : Function.Injective f) {hist : List (Event K)} (ho : Ordered hist)
    (k : K) (ttl : Nat) {now : Nat} (hn : ∀ e ∈ hist, e.time ≤ now) :
    Table.isFresh cap (after cap f hist) (f k) ttl now = true ↔ Fresh cap hist k ttl now := by
  obtain ⟨hs, hc⟩ := agrees_after cap f hf ho
  exact fresh_of_lookup cap f k ttl now
    (fun t hlt ↦ ⟨hs k t, fun h ↦ hc k t now hn h hlt⟩)

/-- Dropping entries never changes an answer. -/
theorem isFresh_after_eq_unpruned (hf : Function.Injective f) {hist : List (Event K)}
    (ho : Ordered hist) (k : K) (ttl : Nat) {now : Nat} (hn : ∀ e ∈ hist, e.time ≤ now) :
    Table.isFresh cap (after cap f hist) (f k) ttl now =
      Table.isFresh cap (afterUnpruned f hist) (f k) ttl now := by
  rw [Bool.eq_iff_iff, isFresh_after_iff cap f hf ho k ttl hn]
  exact (fresh_of_lookup cap f k ttl now
    (fun t _ ↦ by rw [afterUnpruned_eq_lastRecord f hf])).symm

end Refinement

end Window

end Sentinel.Base
