import Sentinel.Agent.Cancel

/-!
# Sessions side by side

The `inflight` guard keeps the sessions of an agent apart: one task is live at a time, the handle
map knows that task and no other, and only it pushes. A cancel is meant for one cookie. Its abort
is local; its drain empties the queue of every session.
-/

namespace Sentinel.Agent

open Sentinel.Base Sentinel.Shared

/-! ### One task at a time -/

/-- The task of a call is spawned, not finished and not aborted. -/
def Live (s : State) (i : Nat) : Prop :=
  ∃ c t, s.calls i = some c ∧ c.stage = .spawned t ∧ t.ended = false

/-- At most one task is live, it belongs to the holder of the guard and its handle is stored; a
stored handle is that of the holder, under its cookie. -/
structure Serialized (s : State) : Prop where
  one : ∀ i j, Live s i → Live s j → i = j
  live : ∀ i, Live s i → s.inflight = some i ∧ ∃ k, s.cookie i = some k ∧ s.sessions k = some i
  entry : ∀ k i, s.sessions k = some i → s.inflight = some i ∧ s.cookie i = some k
  single : ∀ k k', s.sessions k ≠ none → s.sessions k' ≠ none → k = k'

private theorem holder_of_spawned {s : State} (h : Control s) {i : Nat} {c : Call} {t : Task}
    (hc : s.calls i = some c) (hg : c.stage = .spawned t) : s.inflight = some i :=
  (h.holds i c hc).mp (by rw [hg]; rfl)

private theorem aborted_of_not_ended {t : Task} (h : t.ended = false) : t.aborted = false := by
  by_contra ha
  rw [ended_of_aborted (by simpa using ha)] at h
  cases h

/-- The guard and the handles in order are all that serialization needs. -/
theorem Control.serialized {s : State} (h : Control s) : Serialized s := by
  have hlive (i : Nat) (hi : Live s i) :
      s.inflight = some i ∧ ∃ k, s.cookie i = some k ∧ s.sessions k = some i := by
    obtain ⟨c, t, hc, hg, he⟩ := hi
    refine ⟨holder_of_spawned h hc hg, c.request.cookie, by simp [State.cookie, hc], ?_⟩
    exact h.stored i c t hc hg (aborted_of_not_ended he)
  have hentry (k : Str) (i : Nat) (hk : s.sessions k = some i) :
      s.inflight = some i ∧ s.cookie i = some k := by
    obtain ⟨c, t, hc, hg, hck⟩ := h.handle k i hk
    exact ⟨holder_of_spawned h hc hg, by simp [State.cookie, hc, hck]⟩
  constructor
  case one =>
    intro i j hi hj
    have hi := (hlive i hi).1
    have hj := (hlive j hj).1
    rw [hi] at hj
    exact Option.some.inj hj
  case live => exact hlive
  case entry => exact hentry
  case single =>
    intro k k' hk hk'
    obtain ⟨i, hi⟩ := Option.ne_none_iff_exists'.mp hk
    obtain ⟨j, hj⟩ := Option.ne_none_iff_exists'.mp hk'
    obtain ⟨hfi, hci⟩ := hentry k i hi
    obtain ⟨hfj, hcj⟩ := hentry k' j hj
    rw [hfi] at hfj
    cases hfj
    rw [hci] at hcj
    exact Option.some.inj hcj

/-- Only a move of a live task changes the pushes, by a push of its own. -/
theorem push_step {ownUid : UInt32} {s s' : State} {l : Label} (hd : Decided s.task s.shared)
    (hl : Step ownUid s l s') (hp : s'.shared.ledger.pushes ≠ s.shared.ledger.pushes) :
    ∃ i m, l = .task i m ∧ Live s i ∧
      s'.shared.ledger.pushes = s.shared.ledger.pushes ++ [⟨i, s.shared.now⟩] := by
  cases hl with
  | @task i c t t' m sh hc hg ha hm =>
    have ht : s.task i = some t := by simp [State.task, hc, hg, Stage.task]
    refine ⟨i, m, rfl, ⟨c, t, hc, hg, ?_⟩, ?_⟩
    · by_contra he
      rw [move_of_ended (by simpa using he) ha] at hm
      cases hm
    · have hplace := hd.place i t ht
      generalize decide (i ∈ s.shared.ledger.pushers) = b at hplace
      obtain ⟨b', hmoved, -⟩ := moved_of_move hplace hm
      cases hmoved with
      | push => rfl
      | _ => exact absurd rfl hp
  | takeApproval => exact absurd (pushes_takeApproval _ _) hp
  | _ => exact absurd rfl hp

/-- The guard is kept or dropped, never handed on. -/
theorem inflight_step {ownUid : UInt32} {s s' : State} {l : Label} (hl : Step ownUid s l s')
    {i : Nat} (hi : s.inflight = some i) : s'.inflight = some i ∨ s'.inflight = none := by
  cases hl with
  | acquire _ _ hf _ => rw [hi] at hf; cases hf
  | finish => exact Or.inr rfl
  | _ => exact Or.inl hi

/-- Over every run: one task is live at a time, and the handle map is empty or holds exactly the
handle of the guard's holder under its cookie; a step that pushes is a move of that live task; and
a step that drops the guard leaves no live task and no handle behind. -/
theorem agent_serialized {ownUid : UInt32} {ls : List Label} {s : State}
    (h : (system ownUid).Run ls s) :
    Serialized s ∧
      ∀ l s', (system ownUid).next s l = some s' →
        (s'.shared.ledger.pushes ≠ s.shared.ledger.pushes →
          ∃ i m, l = .task i m ∧ Live s i ∧ s.inflight = some i ∧
            s'.shared.ledger.pushes = s.shared.ledger.pushes ++ [⟨i, s.shared.now⟩]) ∧
        (∀ i, s.inflight = some i → s'.inflight ≠ some i →
          (∀ j, ¬ Live s' j) ∧ ∀ k, s'.sessions k = none) := by
  have hc := control_run h
  refine ⟨hc.serialized, fun l s' hn ↦ ?_⟩
  have hl := step_of_next hn
  refine ⟨fun hp ↦ ?_, fun i hi hi' ↦ ?_⟩
  · obtain ⟨i, m, rfl, hlive, hpush⟩ := push_step (decided_run h) hl hp
    exact ⟨i, m, rfl, hlive, (hc.serialized.live i hlive).1, hpush⟩
  · have hs' := (control_step hc hl).serialized
    have hnone : s'.inflight = none := (inflight_step hl hi).resolve_left hi'
    refine ⟨fun j hj ↦ ?_, fun k ↦ ?_⟩
    · have := (hs'.live j hj).1
      rw [hnone] at this
      cases this
    · by_contra hk
      obtain ⟨j, hj⟩ := Option.ne_none_iff_exists'.mp hk
      have := (hs'.entry k j hj).1
      rw [hnone] at this
      cases this

/-- A call with an open dialog, and a second call with the same cookie that waits behind it. -/
def sameCookieWaits : List Label :=
  untilDialog "cookie" ++ [.beginAuthentication (plainRequest "cookie")]

/-- The state behind it. -/
def sameCookieState : State := ((system 1000).exec {} sameCookieWaits).getD {}

/-- The first call is live and its handle is the only one. -/
theorem sameCookieWaits_serialized :
    (system 1000).Run sameCookieWaits sameCookieState ∧ Live sameCookieState 0 ∧
      Serialized sameCookieState := by
  have hrun : (system 1000).Run sameCookieWaits sameCookieState := rfl
  exact ⟨hrun, ⟨_, _, rfl, rfl, rfl⟩, (agent_serialized hrun).1⟩

/-! ### What a cancel leaves alone -/

/-- Between two states every session of another cookie was left alone: its handle, its call with
the task, and every approval it pushed that has not expired. -/
def Untouched (cookie : Str) (s s' : State) : Prop :=
  ∀ k, k ≠ cookie →
    s'.sessions k = s.sessions k ∧
      ∀ i, s.cookie i = some k →
        s'.calls i = s.calls i ∧
          ∀ a ∈ s.shared.ledger.queue, s.shared.now < a.expiresAt →
            s.shared.ledger.pusher a.serial = some i → a ∈ s'.shared.ledger.queue

/-- The abort of a cancel is local. -/
theorem untouched_abort {s : State} (h : Control s) (cancels : List Str) (cookie : Str) :
    Untouched cookie s ({ s with cancels }.abort cookie) := by
  intro k hk
  refine ⟨by simp [State.abort, hk], fun i hi ↦ ⟨?_, fun a ha _ _ ↦ ha⟩⟩
  simp only [State.abort]
  rw [if_neg]
  -- The handle under the cancelled cookie is that of a call with this cookie.
  intro hs
  rw [(h.serialized.entry cookie i hs).2] at hi
  exact hk (Option.some.inj hi).symm

/-- A cancel leaves the sessions of other cookies alone exactly when no approval of theirs that
could still be taken is queued in front of its drain. -/
theorem cancel_local_iff {ownUid : UInt32} {pre : List Label} {s : State}
    (hs : (system ownUid).Run pre s) (cookie : Str) :
    (∀ t, (system ownUid).next s (.cancelDrain cookie) = some t →
      Untouched cookie s t ∧
        ∀ mid u n u', (system ownUid).exec t mid = some u → u.cancels[n]? = some cookie →
          (system ownUid).next u (.cancelAbort n) = some u' → Untouched cookie u u') ↔
      ∀ a ∈ s.shared.ledger.queue, s.shared.now < a.expiresAt →
        ∀ i, s.shared.ledger.pusher a.serial = some i → s.cookie i = some cookie := by
  constructor
  · intro hall a ha hlive i hi
    obtain ⟨hun, -⟩ := hall _ rfl
    -- The session that pushed is that of a call.
    have hm : i ∈ s.shared.ledger.pushers := by
      obtain ⟨p, hp, rfl⟩ := Option.map_eq_some_iff.mp hi
      exact List.mem_map.mpr ⟨p, List.mem_of_getElem? hp, rfl⟩
    obtain ⟨t, ht⟩ := (decided_run hs).pusher i hm
    obtain ⟨c, hc, -⟩ := Option.bind_eq_some_iff.mp ht
    have hk : s.cookie i = some c.request.cookie := by simp [State.cookie, hc]
    by_contra hne
    have hck : c.request.cookie ≠ cookie := by
      intro he
      rw [hk, he] at hne
      exact hne rfl
    cases ((hun _ hck).2 i hk).2 a ha hlive hi
  · intro hq t ht
    cases ht
    refine ⟨fun k hk ↦ ⟨rfl, fun i hi ↦ ⟨rfl, fun a ha hlive hpa ↦ ?_⟩⟩, ?_⟩
    · rw [hq a ha hlive i hpa] at hi
      exact absurd (Option.some.inj hi).symm hk
    · intro mid u n u' hu hn hu'
      have hdrain : (system ownUid).Run (pre ++ [.cancelDrain cookie]) _ :=
        (system ownUid).exec_concat_eq_some.mpr ⟨s, hs, rfl⟩
      have hrun : (system ownUid).Run ((pre ++ [.cancelDrain cookie]) ++ mid) u := by
        rw [Transition.Run, Transition.exec_append]
        exact Option.bind_eq_some_iff.mpr ⟨_, hdrain, hu⟩
      have he : u' = { u with cancels := u.cancels.eraseIdx n }.abort cookie := by
        have hnext : next ownUid u (.cancelAbort n) = some u' := hu'
        simpa [next, hn] using hnext.symm
      rw [he]
      exact untouched_abort (control_run hrun) _ cookie

/-- A dialog is allowed and its approval pushed. -/
def pushedState : State := ((system 1000).exec {} (untilPush "cookie")).getD {}

/-- The cancel of a cookie that only its own session has an approval for leaves others alone. -/
theorem pushedState_cancel_local :
    (system 1000).Run (untilPush "cookie") pushedState ∧ pushedState.shared.ledger.queue ≠ [] ∧
      ∀ t, (system 1000).next pushedState (.cancelDrain "cookie".toList) = some t →
        Untouched "cookie".toList pushedState t := by
  have hrun : (system 1000).Run (untilPush "cookie") pushedState := rfl
  have hown : ∀ a ∈ pushedState.shared.ledger.queue, pushedState.shared.now < a.expiresAt →
      ∀ i, pushedState.shared.ledger.pusher a.serial = some i →
        pushedState.cookie i = some "cookie".toList := by
    intro a ha _ i hi
    cases List.mem_singleton.mp ha
    cases hi
    rfl
  refine ⟨hrun, by decide, fun t ht ↦ ?_⟩
  exact ((cancel_local_iff hrun "cookie".toList).mpr hown t ht).1

/-- A cancel of a cookie that no call has drops the approval that another session has pushed for
its helper-1. -/
theorem unknown_cancel_drops_approval :
    ∃ t a, (system 1000).Run (untilPush "cookie") pushedState ∧
      (system 1000).next pushedState (.cancelDrain "other".toList) = some t ∧
      a ∈ pushedState.shared.ledger.queue ∧ pushedState.shared.now < a.expiresAt ∧
      pushedState.shared.ledger.pusher a.serial = some 0 ∧
      pushedState.cookie 0 = some "cookie".toList ∧ t.shared.ledger.queue = [] ∧
      ¬ Untouched "other".toList pushedState t := by
  refine ⟨_, _, rfl, rfl, List.mem_singleton.mpr rfl, by decide, rfl, rfl, rfl, ?_⟩
  intro h
  cases ((h "cookie".toList (by decide)).2 0 rfl).2 _ (List.mem_singleton.mpr rfl) (by decide) rfl

end Sentinel.Agent
