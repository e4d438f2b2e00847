import Sentinel.Broker.Store

/-!
# Fields of keys in runs of the broker

Crate `sentinel-broker`, `crates/sentinel-broker/src/store.rs:39-46` and `server.rs:65-88`. A key is
stored under its fields with NULs between them. The two numbers have none, so the only boundary
that can move is the one between service and command, and a run reports a key that was not
recorded only where it has moved.
-/

namespace Sentinel.Broker

open Sentinel.Base

/-- A spoofed key is another key. -/
theorem ne_of_spoofs {j k : RememberKey} (h : Spoofs j k) : j ≠ k := by
  rintro rfl
  obtain ⟨-, -, x, hs, -⟩ := h
  have hl := congrArg List.length hs
  rw [List.length_append, List.length_cons] at hl
  omega

/-! ### Runs of the broker -/

/-- The store behind a row of requests, each with its clock reading. -/
def serveAll (trace : List (Request × Nat)) : RememberStore :=
  trace.foldl (fun store e ↦ (dispatch e.1 store e.2).2) RememberStore.new

/-- The keys that a row of requests has recorded. -/
def recordedKeys (trace : List (Request × Nat)) : List RememberKey :=
  trace.filterMap fun e ↦
    match e.1 with
    | .recordRemember key => if key.isBindable = true then some key else none
    | .checkRemember _ | .ping => none

/-- Every entry of the store is a recorded key's. -/
theorem recorded_of_serveAll {trace : List (Request × Nat)} {s : Str} {t : Nat}
    (h : serveAll trace s = some t) : ∃ k ∈ recordedKeys trace, keystr k = s := by
  induction trace using List.reverseRecOn with
  | nil => cases h
  | append_singleton trace e ih =>
    rw [serveAll, List.foldl_append, ← serveAll] at h
    rw [recordedKeys, List.filterMap_append, ← recordedKeys]
    rcases dispatch_store h with hold | ⟨key, hreq, hbind, hs, -⟩
    · obtain ⟨k, hk, hs⟩ := ih hold
      exact ⟨k, List.mem_append_left _ hk, hs⟩
    · refine ⟨key, List.mem_append_right _ ?_, hs⟩
      simp [hreq, hbind]

/-- A fresh answer is about a recorded key, or about one that spoofs a recorded key or is spoofed
by one. -/
theorem recorded_or_spoofed_of_fresh {trace : List (Request × Nat)} {q : RememberQuery} {now : Nat}
    (h : (dispatch (.checkRemember q) (serveAll trace) now).1 = .remember true) :
    ∃ k ∈ recordedKeys trace, k = q.key ∨ Spoofs k q.key ∨ Spoofs q.key k := by
  obtain ⟨q', b, hq, hb, hfresh⟩ := dispatch_remember h
  obtain rfl : q = q' := Request.checkRemember.inj hq
  obtain ⟨t, ht, -⟩ := Window.Table.exists_of_isFresh hfresh
  obtain ⟨k, hk, hs⟩ := recorded_of_serveAll ht
  refine ⟨k, hk, ?_⟩
  rw [← keystr_eq_iff, hs, hb]

/-- Of two keys that pass the broker's check, key strings tell the fields apart exactly when
neither key spoofs the other; and in every run in which no recorded key spoofs the queried one or
is spoofed by it, only a recorded key is reported as fresh. -/
theorem keystr_boundaries_iff (j k : BoundKey) (trace : List (Request × Nat)) (q : RememberQuery)
    (now : Nat) :
    ((keystr j.key = keystr k.key → j.key = k.key) ↔
        ¬ Spoofs j.key k.key ∧ ¬ Spoofs k.key j.key) ∧
      ((∀ r ∈ recordedKeys trace, ¬ Spoofs r q.key ∧ ¬ Spoofs q.key r) →
        (dispatch (.checkRemember q) (serveAll trace) now).1 = .remember true →
          q.key ∈ recordedKeys trace) := by
  constructor
  · rw [keystr_eq_iff]
    constructor
    · intro h
      constructor
      · intro hs
        exact ne_of_spoofs hs (h (.inr (.inl hs)))
      · intro hs
        exact ne_of_spoofs hs (h (.inr (.inr hs))).symm
    · rintro ⟨hjk, hkj⟩ (h | h | h)
      · exact h
      · exact absurd h hjk
      · exact absurd h hkj
  · intro hnone hfresh
    obtain ⟨r, hr, rfl | h | h⟩ := recorded_or_spoofed_of_fresh hfresh
    · exact hr
    · exact absurd h (hnone r hr).1
    · exact absurd h (hnone r hr).2

/-- A grant for the command `id` of a service with a NUL in its name is reported as fresh for
another command of another service. -/
theorem keystr_boundary_spoofed :
    let j : RememberKey := ⟨1000, 3, "sudo\x00env".toList, "id".toList⟩
    let k : RememberKey := ⟨1000, 3, "sudo".toList, "env\x00id".toList⟩
    let trace := [(Request.recordRemember j, 0)]
    (j.bind ≠ none ∧ k.bind ≠ none) ∧ (keystr j = keystr k ∧ j ≠ k) ∧
      (dispatch (.checkRemember ⟨k, 60⟩) (serveAll trace) 1).1 = .remember true ∧
      k ∉ recordedKeys trace := by
  decide +kernel

end Sentinel.Broker
