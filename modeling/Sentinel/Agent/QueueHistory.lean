import Mathlib.Data.List.Induction
import Sentinel.Agent.ApprovalQueue
import Sentinel.Base.Expiry

/-!
# The queue of pre-approvals against its history

Crate `sentinel-polkit-agent`, `crates/sentinel-polkit-agent/src/approval_queue.rs:42-80`. Callers
push, take and drain in any order, each operation under the lock with its own reading of a clock
that does not go back. The record of what was pushed, returned and drained says what a take has
to return; the queue agrees with it although a take walks past entries and drops them.
-/

namespace Sentinel.Agent.QueueHistory

open Sentinel.Base Sentinel.Base.Expiry

/-- An operation on the queue. -/
inductive Op where
  | push (actionId : Str)
  | takeOne
  | drain
  deriving DecidableEq, Repr

/-- An operation with its clock reading. -/
structure Event where
  now : Nat
  op : Op
  deriving DecidableEq, Repr

/-- Clock readings never go back along a sequence of operations. -/
def Timed (es : List Event) : Prop := es.Pairwise fun a b ↦ a.now ≤ b.now

/-- A push: what it approves, when it was made, and its number. -/
structure Pushed where
  actionId : Str
  time : Nat
  serial : Nat
  deriving DecidableEq, Repr

/-- The approval of a push. -/
def Pushed.approval (p : Pushed) : Approval := ⟨p.actionId, p.time + defaultTtl, p.serial⟩

/-- What an operation did. -/
inductive Record where
  | pushed (p : Pushed)
  | returned (a : Option Approval)
  | drained
  deriving DecidableEq, Repr

/-- The queue, the number of pushes, and the record. -/
structure State where
  queue : ApprovalQueue := []
  pushes : Nat := 0
  log : List Record := []

/-- An operation of the code, recorded. -/
def State.step (s : State) (e : Event) : State :=
  match e.op with
  | .push actionId =>
    { queue := s.queue.push actionId s.pushes e.now
      pushes := s.pushes + 1
      log := s.log ++ [.pushed ⟨actionId, e.now, s.pushes⟩] }
  | .takeOne =>
    { s with
      queue := (s.queue.takeOne e.now).2
      log := s.log ++ [.returned (s.queue.takeOne e.now).1] }
  | .drain =>
    { s with
      queue := s.queue.drain
      log := s.log ++ [.drained] }

/-- A sequence of operations. -/
def run (es : List Event) : State := es.foldl State.step {}

/-- The operations one after another. -/
theorem run_concat (es : List Event) (e : Event) : run (es ++ [e]) = (run es).step e := by
  rw [run, List.foldl_append]
  rfl

/-! ### What has been neither returned nor drained -/

/-- The pushes that have been neither returned nor drained, in the order of their pushes. -/
def outstanding : List Record → List Pushed
  | [] => []
  | .pushed p :: log =>
    if .drained ∈ log ∨ .returned (some p.approval) ∈ log then outstanding log
    else p :: outstanding log
  | .returned _ :: log => outstanding log
  | .drained :: log => outstanding log

/-- A push stands behind what was outstanding. -/
theorem outstanding_pushed (log : List Record) (p : Pushed) :
    outstanding (log ++ [.pushed p]) = outstanding log ++ [p] := by
  induction log with
  | nil => rfl
  | cons r log ih =>
    cases r with
    | pushed p' =>
      simp only [List.cons_append, outstanding, List.mem_append, List.mem_singleton, reduceCtorEq,
        or_false, ih]
      split
      · rfl
      · rfl
    | returned a => exact ih
    | drained => exact ih

/-- A drain leaves nothing outstanding. -/
theorem outstanding_drained (log : List Record) : outstanding (log ++ [.drained]) = [] := by
  induction log with
  | nil => rfl
  | cons r log ih =>
    cases r with
    | pushed p =>
      rw [List.cons_append, outstanding, if_pos (Or.inl (by simp)), ih]
    | returned a => exact ih
    | drained => exact ih

/-- What is returned is not outstanding any more. -/
theorem outstanding_returned (log : List Record) (r : Option Approval) :
    outstanding (log ++ [.returned r]) =
      (outstanding log).filter fun p ↦ some p.approval ≠ r := by
  induction log with
  | nil => rfl
  | cons x log ih =>
    cases x with
    | pushed p =>
      by_cases hgone : .drained ∈ log ∨ .returned (some p.approval) ∈ log
      · rw [List.cons_append, outstanding, outstanding, if_pos hgone, if_pos, ih]
        rcases hgone with h | h
        · exact Or.inl (List.mem_append_left _ h)
        · exact Or.inr (List.mem_append_left _ h)
      · by_cases hr : some p.approval = r
        · rw [List.cons_append, outstanding, outstanding, if_neg hgone, if_pos, ih,
            List.filter_cons_of_neg (by simp [hr])]
          exact Or.inr (by simp [hr])
        · rw [List.cons_append, outstanding, outstanding, if_neg hgone, if_neg, ih,
            List.filter_cons_of_pos (by simp [hr])]
          rintro (h | h)
          · exact hgone (Or.inl (by simpa using h))
          · rcases List.mem_append.mp h with h | h
            · exact hgone (Or.inr h)
            · exact hr (Record.returned.inj (List.mem_singleton.mp h))
    | returned a => exact ih
    | drained => exact ih

/-! ### The queue agrees -/

/-- The entries that are live at some time. -/
abbrev liveAt (now : Nat) : Approval → Bool := live Approval.expiresAt now

/-- A take of an ordered queue returns the first live entry and keeps the others. -/
theorem takeOne_of_ordered {now : Nat} {q : ApprovalQueue} (h : Ordered Approval.expiresAt q) :
    q.takeOne now = ((q.filter (liveAt now)).head?, (q.filter (liveAt now)).tail) := by
  induction q with
  | nil => rfl
  | cons front q ih =>
    rw [ApprovalQueue.takeOne]
    by_cases hlive : front.expiresAt > now
    · rw [if_pos hlive, h.filter_cons (decide_eq_true hlive)]
      rfl
    · rw [if_neg hlive, List.filter_cons_of_neg (by simpa [liveAt, live] using hlive)]
      exact ih (List.pairwise_cons.mp h).2

/-- The queue is ordered, and its live entries are the live ones of what is outstanding. -/
structure Refines (now : Nat) (s : State) : Prop where
  ordered : Ordered Approval.expiresAt s.queue
  bounded : ∀ a ∈ s.queue, a.expiresAt ≤ now + defaultTtl
  agree : s.queue.filter (liveAt now) =
    ((outstanding s.log).map Pushed.approval).filter (liveAt now)
  known : ∀ p ∈ outstanding s.log, p.serial < s.pushes
  distinct : ((outstanding s.log).map Pushed.approval).Nodup

section Steps

variable {now later : Nat} {s : State}

/-- Time passes. -/
theorem Refines.mono (h : Refines now s) (hle : now ≤ later) : Refines later s where
  ordered := h.ordered
  bounded := by
    intro a ha
    have hb := h.bounded a ha
    omega
  agree := by
    rw [← filter_live_of_le hle, h.agree, filter_live_of_le hle]
  known := h.known
  distinct := h.distinct

/-- A push has the last deadline and a number of its own. -/
theorem Refines.push (h : Refines now s) (actionId : Str) :
    Refines now (s.step ⟨now, .push actionId⟩) := by
  have hout : outstanding (s.step ⟨now, .push actionId⟩).log =
      outstanding s.log ++ [⟨actionId, now, s.pushes⟩] := outstanding_pushed _ _
  constructor
  case ordered =>
    apply h.ordered.concat
    intro a ha
    exact h.bounded a ha
  case bounded =>
    intro a ha
    rcases List.mem_append.mp ha with ha | ha
    · exact h.bounded a ha
    · rw [List.mem_singleton.mp ha]
  case agree =>
    rw [hout, List.map_append, List.filter_append, ← h.agree, ← List.filter_append]
    rfl
  case known =>
    intro p hp
    rw [hout] at hp
    change p.serial < s.pushes + 1
    rcases List.mem_append.mp hp with hp | hp
    · have hlt := h.known p hp
      omega
    · rw [List.mem_singleton.mp hp]
      exact Nat.lt_succ_self _
  case distinct =>
    rw [hout, List.map_append]
    apply List.nodup_append.mpr
    refine ⟨h.distinct, by simp, ?_⟩
    intro a ha b hb he
    obtain ⟨p, hp, rfl⟩ := List.mem_map.mp ha
    rw [List.map_singleton, List.mem_singleton] at hb
    have hlt := h.known p hp
    have hserial : p.serial = s.pushes := by
      rw [hb] at he
      exact congrArg Approval.serial he
    omega

/-- A drain leaves neither. -/
theorem refines_drain (now : Nat) (s : State) : Refines now (s.step ⟨now, .drain⟩) := by
  have hout : outstanding (s.step ⟨now, .drain⟩).log = [] := outstanding_drained _
  constructor
  case ordered => exact List.Pairwise.nil
  case bounded =>
    intro a ha
    cases ha
  case agree =>
    rw [hout]
    rfl
  case known =>
    rw [hout]
    intro p hp
    cases hp
  case distinct =>
    rw [hout]
    exact List.nodup_nil

/-- Without its first element a list of distinct elements is its tail. -/
theorem filter_ne_head {α : Type} [DecidableEq α] {l : List α} (h : l.Nodup) :
    (l.filter fun a ↦ some a ≠ l.head?) = l.tail := by
  cases l with
  | nil => rfl
  | cons a l =>
    rw [List.filter_cons_of_neg (by simp)]
    apply List.filter_eq_self.mpr
    intro b hb
    simp only [List.head?_cons, ne_eq, Option.some.injEq, decide_eq_true_eq]
    rintro rfl
    exact (List.nodup_cons.mp h).1 hb

/-- What a take returns and what it keeps, by what is outstanding. -/
theorem Refines.takeOne_eq (h : Refines now s) :
    s.queue.takeOne now =
      ((((outstanding s.log).map Pushed.approval).filter (liveAt now)).head?,
        (((outstanding s.log).map Pushed.approval).filter (liveAt now)).tail) := by
  rw [takeOne_of_ordered h.ordered, h.agree]

/-- A take returns the first live entry of both. -/
theorem Refines.take (h : Refines now s) : Refines now (s.step ⟨now, .takeOne⟩) := by
  have hout : outstanding (s.step ⟨now, .takeOne⟩).log =
      (outstanding s.log).filter fun p ↦ some p.approval ≠ (s.queue.takeOne now).1 :=
    outstanding_returned _ _
  have hsub : (s.queue.takeOne now).2.Sublist s.queue := by
    rw [takeOne_of_ordered h.ordered]
    exact (List.tail_sublist _).trans List.filter_sublist
  constructor
  case ordered => exact h.ordered.sublist hsub
  case bounded =>
    intro a ha
    exact h.bounded a (hsub.mem ha)
  case agree =>
    rw [hout]
    change (s.queue.takeOne now).2.filter (liveAt now) = _
    have hmap : ((outstanding s.log).filter fun p ↦
          some p.approval ≠ (s.queue.takeOne now).1).map Pushed.approval =
        ((outstanding s.log).map Pushed.approval).filter fun a ↦
          some a ≠ (s.queue.takeOne now).1 := by
      rw [List.filter_map]
      rfl
    rw [hmap, h.takeOne_eq, List.filter_comm, filter_ne_head (h.distinct.filter _)]
    -- What is left of the live entries is live.
    apply List.filter_eq_self.mpr
    intro a ha
    exact (List.mem_filter.mp (List.mem_of_mem_tail ha)).2
  case known =>
    intro p hp
    rw [hout] at hp
    exact h.known p (List.mem_of_mem_filter hp)
  case distinct =>
    rw [hout]
    exact h.distinct.sublist (List.filter_sublist.map _)

/-- Every operation keeps the agreement. -/
theorem Refines.step (h : Refines now s) {e : Event} (hle : now ≤ e.now) :
    Refines e.now (s.step e) := by
  obtain ⟨t, op⟩ := e
  cases op with
  | push actionId => exact (h.mono hle).push actionId
  | takeOne => exact (h.mono hle).take
  | drain => exact refines_drain t s

end Steps

/-- Behind a sequence of operations the queue agrees with its history from the last reading on. -/
theorem refines_run {es : List Event} (h : Timed es) {now : Nat} (hnow : ∀ e ∈ es, e.now ≤ now) :
    Refines now (run es) := by
  induction es using List.reverseRecOn generalizing now with
  | nil =>
    constructor
    case ordered => exact List.Pairwise.nil
    case bounded =>
      intro a ha
      cases ha
    case agree => rfl
    case known =>
      intro p hp
      cases hp
    case distinct => exact List.nodup_nil
  | append_singleton es e ih =>
    obtain ⟨hes, -, hlast⟩ := List.pairwise_append.mp h
    rw [run_concat]
    have hstep : Refines e.now ((run es).step e) := by
      apply (ih hes _).step (Nat.le_refl _)
      intro a ha
      exact hlast a ha e (List.mem_singleton_self e)
    exact hstep.mono (hnow e (by simp))

/-- The queue stays ordered. -/
theorem ordered_run {es : List Event} (h : Timed es) :
    Ordered Approval.expiresAt (run es).queue := by
  rcases List.eq_nil_or_concat' es with rfl | ⟨es', e, rfl⟩
  · exact List.Pairwise.nil
  · have hlast : Refines e.now (run (es' ++ [e])) := by
      apply refines_run h
      intro a ha
      rcases List.mem_append.mp ha with ha | ha
      · exact (List.pairwise_append.mp h).2.2 a ha e (List.mem_singleton_self e)
      · rw [List.mem_singleton.mp ha]
    exact hlast.ordered

section Take

variable {now : Nat} {s : State}

/-- The first push that is outstanding and live is returned. -/
theorem Refines.returned (h : Refines now s) :
    (s.queue.takeOne now).1 =
      ((outstanding s.log).find? fun p ↦ now < p.time + defaultTtl).map Pushed.approval := by
  rw [h.takeOne_eq]
  dsimp only
  rw [List.filter_map, List.head?_map, List.head?_filter]
  rfl

/-- Every push that is outstanding and live is returned or kept. -/
theorem Refines.kept (h : Refines now s) {p : Pushed} (hp : p ∈ outstanding s.log)
    (hlive : now < p.time + defaultTtl) :
    p.approval ∈ (s.queue.takeOne now).1.toList ++ (s.queue.takeOne now).2 := by
  have hsplit (l : List Approval) : l.head?.toList ++ l.tail = l := by
    cases l with
    | nil => rfl
    | cons a l => rfl
  rw [h.takeOne_eq]
  dsimp only
  rw [hsplit]
  apply List.mem_filter.mpr
  exact ⟨List.mem_map_of_mem hp, decide_eq_true hlive⟩

/-- What a take drops has expired. -/
theorem takeOne_dropped (now : Nat) (q : ApprovalQueue) :
    ∃ dropped, q = dropped ++ ((q.takeOne now).1.toList ++ (q.takeOne now).2) ∧
      ∀ d ∈ dropped, d.expiresAt ≤ now := by
  cases ht : q.takeOne now with
  | mk r rest =>
    cases r with
    | none =>
      obtain ⟨rfl, hdead⟩ := ApprovalQueue.takeOne_none ht
      exact ⟨q, by simp, hdead⟩
    | some a =>
      obtain ⟨dropped, hq, hdead, -⟩ := ApprovalQueue.takeOne_some ht
      exact ⟨dropped, hq, hdead⟩

end Take

/-- Along operations by any callers the queue is ordered by its deadlines, a take returns the
earliest push that has been neither returned nor drained and was made less than a second before,
nothing exactly when there is none, and what it drops has expired. -/
theorem queue_refines_history {es : List Event} (h : Timed es) {pre post : List Event}
    (he : es = pre ++ post) :
    (run pre).queue.Pairwise (fun a b ↦ a.expiresAt ≤ b.expiresAt) ∧
    ∀ now rest, post = ⟨now, .takeOne⟩ :: rest →
      ((run pre).queue.takeOne now).1 =
          ((outstanding (run pre).log).find? fun p ↦ now < p.time + defaultTtl).map
            Pushed.approval ∧
      (((run pre).queue.takeOne now).1 = none ↔
        ∀ p ∈ outstanding (run pre).log, p.time + defaultTtl ≤ now) ∧
      (∃ dropped, (run pre).queue =
          dropped ++ (((run pre).queue.takeOne now).1.toList ++
            ((run pre).queue.takeOne now).2) ∧
        ∀ d ∈ dropped, d.expiresAt ≤ now) ∧
      ∀ p ∈ outstanding (run pre).log, now < p.time + defaultTtl →
        p.approval ∈ ((run pre).queue.takeOne now).1.toList ++
          ((run pre).queue.takeOne now).2 := by
  rw [he] at h
  obtain ⟨hpre, -, hcross⟩ := List.pairwise_append.mp h
  refine ⟨ordered_run hpre, ?_⟩
  rintro now rest rfl
  have hr : Refines now (run pre) :=
    refines_run hpre fun e hmem ↦ hcross e hmem _ List.mem_cons_self
  refine ⟨hr.returned, ?_, takeOne_dropped now _, fun p hp ↦ hr.kept hp⟩
  rw [hr.returned, Option.map_eq_none_iff, List.find?_eq_none]
  simp only [decide_eq_true_eq, Nat.not_lt]

/-- Two pushes, a take when the first one has expired, and a drain. -/
def lateTake : List Event :=
  [⟨0, .push "a".toList⟩, ⟨600000000, .push "b".toList⟩, ⟨1000000000, .takeOne⟩,
    ⟨1000000001, .push "c".toList⟩, ⟨1000000002, .drain⟩, ⟨1000000003, .takeOne⟩]

/-- The take returns the second push, and behind the drain there is nothing to take. -/
theorem lateTake_refines :
    ((run (lateTake.take 2)).queue.takeOne 1000000000).1 =
        some (Pushed.approval ⟨"b".toList, 600000000, 1⟩) ∧
      ((run (lateTake.take 5)).queue.takeOne 1000000003).1 = none := by
  have htimed : Timed lateTake := by
    unfold Timed
    decide
  constructor
  · have hret := ((queue_refines_history htimed (List.take_append_drop 2 lateTake).symm).2
      1000000000 _ rfl).1
    rw [hret]
    decide
  · have hret := ((queue_refines_history htimed (List.take_append_drop 5 lateTake).symm).2
      1000000003 _ rfl).2.1
    rw [hret]
    decide

end Sentinel.Agent.QueueHistory
