import Mathlib.Data.List.Basic
import Sentinel.Base.Str
import Sentinel.Base.Window

/-!
# The queue of pre-approvals

Crate `sentinel-polkit-agent`, `crates/sentinel-polkit-agent/src/approval_queue.rs`. Every
operation holds the queue's lock and reads the clock once. An approval here also carries the
number of its push, so that a taken approval can be traced back; no operation reads it.
-/

namespace Sentinel.Agent

open Sentinel.Base

/-- `DEFAULT_TTL`, `approval_queue.rs:24`. -/
def defaultTtl : Nat := fromSecs 1

/-- `Approval`, `approval_queue.rs:26-30`, with the number of its push. -/
structure Approval where
  actionId : Str
  expiresAt : Nat
  serial : Nat
  deriving DecidableEq, Repr

/-- `ApprovalQueue`, `approval_queue.rs:32-35`, front first. -/
abbrev ApprovalQueue : Type := List Approval

namespace ApprovalQueue

/-- `ApprovalQueue::push`, `approval_queue.rs:43-49`. -/
def push (q : ApprovalQueue) (actionId : Str) (serial now : Nat) : ApprovalQueue :=
  q ++ [⟨actionId, now + defaultTtl, serial⟩]

/-- `ApprovalQueue::take_one`, `approval_queue.rs:53-63`: expired entries in front are
dropped on the way. -/
def takeOne (now : Nat) : ApprovalQueue → Option Approval × ApprovalQueue
  | [] => (none, [])
  | front :: q => if front.expiresAt > now then (some front, q) else takeOne now q

/-- `ApprovalQueue::drain`, `approval_queue.rs:77-80`. -/
def drain (_ : ApprovalQueue) : ApprovalQueue := []

/-- A taken approval is live, and only expired ones stood in front of it. -/
theorem takeOne_some {now : Nat} {q rest : ApprovalQueue} {a : Approval}
    (h : takeOne now q = (some a, rest)) :
    ∃ dropped, q = dropped ++ a :: rest ∧ (∀ d ∈ dropped, d.expiresAt ≤ now) ∧
      now < a.expiresAt := by
  induction q with
  | nil => cases h
  | cons front q ih =>
    rw [takeOne] at h
    split at h
    next hlive =>
      cases h
      exact ⟨[], rfl, by simp, hlive⟩
    next hdead =>
      obtain ⟨dropped, rfl, hd, ha⟩ := ih h
      refine ⟨front :: dropped, rfl, ?_, ha⟩
      intro d hmem
      cases List.mem_cons.mp hmem with
      | inl he => rw [he]; omega
      | inr hm => exact hd d hm

/-- Nothing is taken exactly when everything is expired, and then nothing is left. -/
theorem takeOne_none {now : Nat} {q rest : ApprovalQueue} (h : takeOne now q = (none, rest)) :
    rest = [] ∧ ∀ d ∈ q, d.expiresAt ≤ now := by
  induction q with
  | nil => cases h; exact ⟨rfl, by simp⟩
  | cons front q ih =>
    rw [takeOne] at h
    split at h
    next => cases h
    next hdead =>
      obtain ⟨hr, hd⟩ := ih h
      refine ⟨hr, ?_⟩
      intro d hmem
      cases List.mem_cons.mp hmem with
      | inl he => rw [he]; omega
      | inr hm => exact hd d hm

end ApprovalQueue

/-! ### The queue with its history -/

/-- A push: the call whose session made it and the time. -/
structure Push where
  call : Nat
  time : Nat
  deriving DecidableEq, Repr

/-- A processed `TakeApproval`: the time, the reply and the number of the approval it consumed. -/
structure Take where
  time : Nat
  reply : Bool
  serial : Option Nat
  deriving DecidableEq, Repr

/-- The queue, every push in its order, every take and the numbers of what was drained. -/
structure Ledger where
  queue : ApprovalQueue := []
  pushes : List Push := []
  takes : List Take := []
  drained : List Nat := []

namespace Ledger

/-- A session pushes. -/
def push (l : Ledger) (call : Nat) (actionId : Str) (now : Nat) : Ledger :=
  { l with
    queue := l.queue.push actionId l.pushes.length now
    pushes := l.pushes ++ [⟨call, now⟩] }

/-- A take replies: what the caller gets is what is logged. -/
def replied (l : Ledger) (now : Nat) (queue : ApprovalQueue) (serial : Option Nat) (reply : Bool) :
    Bool × Ledger :=
  (reply, { l with queue, takes := l.takes ++ [⟨now, reply, serial⟩] })

/-- `BypassService::take_approval`, `bypass_service.rs:38-52`: the reply, with the queue and the
log behind it. -/
def takeApproval (l : Ledger) (now : Nat) : Bool × Ledger :=
  match l.queue.takeOne now with
  | (some a, queue) => l.replied now queue (some a.serial) true
  | (none, queue) => l.replied now queue none false

/-- A drain. -/
def drain (l : Ledger) : Ledger :=
  { l with
    queue := l.queue.drain
    drained := l.drained ++ l.queue.map Approval.serial }

/-- The numbers of the consumed approvals. -/
def taken (l : Ledger) : List Nat := l.takes.filterMap Take.serial

/-- The takes that were answered with true. -/
def allowed (l : Ledger) : List Take := l.takes.filter Take.reply

/-- The calls whose sessions have pushed. -/
def pushers (l : Ledger) : List Nat := l.pushes.map Push.call

/-- The call whose session made a push. -/
def pusher (l : Ledger) (serial : Nat) : Option Nat := l.pushes[serial]?.map Push.call

/-- An approval that a take could still return is in the queue. -/
def Live (l : Ledger) (now : Nat) : Prop := ∃ a ∈ l.queue, now < a.expiresAt

/-- Liveness is decided by a scan. -/
instance (l : Ledger) (now : Nat) : Decidable (l.Live now) :=
  inferInstanceAs (Decidable (∃ a ∈ l.queue, now < a.expiresAt))

/-- What the history says about the queue: every queued approval was pushed and expires with
its push, a number is queued, consumed or drained at most once, a take replies true exactly when
it has consumed an approval, and what was consumed had not expired. -/
structure Sound (l : Ledger) (now : Nat) : Prop where
  queued : ∀ a ∈ l.queue, ∃ p, l.pushes[a.serial]? = some p ∧ a.expiresAt = p.time + defaultTtl
  past : ∀ p ∈ l.pushes, p.time ≤ now
  once : (l.queue.map Approval.serial ++ (l.taken ++ l.drained)).Nodup
  known : ∀ n ∈ l.taken ++ l.drained, n < l.pushes.length
  backed : ∀ x ∈ l.takes, x.reply = x.serial.isSome
  intime : ∀ x ∈ l.takes, ∀ n, x.serial = some n →
    ∃ p, l.pushes[n]? = some p ∧ p.time ≤ x.time ∧ x.time < p.time + defaultTtl

/-- The empty history. -/
theorem sound_empty (now : Nat) : Sound {} now := by
  constructor <;> simp [taken]

/-- The true replies are those that have consumed an approval. -/
theorem Sound.serials_allowed {l : Ledger} {now : Nat} (h : Sound l now) :
    l.allowed.map Take.serial = l.taken.map some := by
  have hbacked := h.backed
  rw [allowed, taken]
  generalize l.takes = takes at hbacked
  induction takes with
  | nil => rfl
  | cons x xs ih =>
    have htail := ih fun y hy ↦ hbacked y (List.mem_cons_of_mem _ hy)
    have hreply := hbacked x List.mem_cons_self
    cases hserial : x.serial with
    | none => simpa [List.filter_cons, hreply, hserial] using htail
    | some n => simpa [List.filter_cons, hreply, hserial] using htail

/-- Time passes. -/
theorem Sound.later {l : Ledger} {now later : Nat} (h : Sound l now) (hle : now ≤ later) :
    Sound l later :=
  { h with past := fun p hp ↦ (h.past p hp).trans hle }

private theorem getElem?_push {l : Ledger} {n : Nat} {p : Push} (h : l.pushes[n]? = some p)
    (call : Nat) (actionId : Str) (now : Nat) :
    (l.push call actionId now).pushes[n]? = some p := by
  obtain ⟨hlt, -⟩ := List.getElem?_eq_some_iff.mp h
  rw [push, List.getElem?_append_left hlt, h]

/-- A push keeps the history sound: its number is new. -/
theorem Sound.push {l : Ledger} {now : Nat} (h : Sound l now) (call : Nat) (actionId : Str) :
    Sound (l.push call actionId now) now := by
  have hnew : l.pushes.length ∉ l.queue.map Approval.serial ++ (l.taken ++ l.drained) := by
    intro hmem
    rcases List.mem_append.mp hmem with hq | hk
    · obtain ⟨a, ha, hs⟩ := List.mem_map.mp hq
      obtain ⟨p, hp, -⟩ := h.queued a ha
      rw [hs] at hp
      simp at hp
    · exact absurd (h.known _ hk) (Nat.lt_irrefl _)
  constructor
  case queued =>
    intro a ha
    rcases List.mem_append.mp ha with ha | ha
    · obtain ⟨p, hp, he⟩ := h.queued a ha
      exact ⟨p, getElem?_push hp call actionId now, he⟩
    · rw [List.mem_singleton.mp ha]
      exact ⟨⟨call, now⟩, by simp [Ledger.push], rfl⟩
  case past =>
    intro p hp
    rcases List.mem_append.mp hp with hp | hp
    · exact h.past p hp
    · rw [List.mem_singleton.mp hp]
  case once =>
    have hp : ((l.push call actionId now).queue.map Approval.serial ++
        (l.taken ++ l.drained)).Perm
          (l.pushes.length :: (l.queue.map Approval.serial ++ (l.taken ++ l.drained))) := by
      simp only [Ledger.push, ApprovalQueue.push, List.map_append, List.map_cons, List.map_nil,
        List.append_assoc, List.singleton_append]
      exact List.perm_middle
    exact hp.nodup_iff.mpr (List.nodup_cons.mpr ⟨hnew, h.once⟩)
  case known =>
    intro n hn
    have hlt := h.known n hn
    simp only [Ledger.push, List.length_append, List.length_singleton]
    omega
  case backed => exact h.backed
  case intime =>
    intro x hx n hn
    obtain ⟨p, hp, hrest⟩ := h.intime x hx n hn
    exact ⟨p, getElem?_push hp call actionId now, hrest⟩

/-- A drain keeps the history sound: the numbers move. -/
theorem Sound.drain {l : Ledger} {now : Nat} (h : Sound l now) : Sound l.drain now := by
  constructor
  case queued => simp [Ledger.drain, ApprovalQueue.drain]
  case past => exact h.past
  case once =>
    have hp : (l.taken ++ (l.drained ++ l.queue.map Approval.serial)).Perm
        (l.queue.map Approval.serial ++ (l.taken ++ l.drained)) := by
      rw [← List.append_assoc]
      exact List.perm_append_comm
    simpa [Ledger.drain, ApprovalQueue.drain, taken] using hp.nodup_iff.mpr h.once
  case known =>
    intro n hn
    simp only [Ledger.drain, taken, List.mem_append, List.mem_map] at hn
    rcases hn with hn | hn | ⟨a, ha, rfl⟩
    · exact h.known n (List.mem_append_left _ hn)
    · exact h.known n (List.mem_append_right _ hn)
    · obtain ⟨p, hp, -⟩ := h.queued a ha
      exact (List.getElem?_eq_some_iff.mp hp).1
  case backed => exact h.backed
  case intime => exact h.intime

/-- What a take does: nothing is live and the queue is empty, or the first live approval is
returned. -/
theorem takeApproval_cases (l : Ledger) (now : Nat) :
    (¬ l.Live now ∧ l.takeApproval now =
      (false, { l with queue := [], takes := l.takes ++ [⟨now, false, none⟩] })) ∨
    (∃ dropped a rest, l.queue = dropped ++ a :: rest ∧ now < a.expiresAt ∧
      (∀ d ∈ dropped, d.expiresAt ≤ now) ∧ l.takeApproval now =
        (true, { l with queue := rest, takes := l.takes ++ [⟨now, true, some a.serial⟩] })) := by
  cases ht : l.queue.takeOne now with
  | mk x rest =>
    cases x with
    | none =>
      obtain ⟨rfl, hdead⟩ := ApprovalQueue.takeOne_none ht
      refine Or.inl ⟨?_, by simp [takeApproval, replied, ht]⟩
      rintro ⟨a, ha, hlive⟩
      have := hdead a ha
      omega
    | some a =>
      obtain ⟨dropped, hq, hd, hlive⟩ := ApprovalQueue.takeOne_some ht
      exact Or.inr ⟨dropped, a, rest, hq, hlive, hd, by simp [takeApproval, replied, ht]⟩

/-- The logged reply is the one the caller gets. -/
theorem takes_takeApproval (l : Ledger) (now : Nat) : ∃ serial,
    (l.takeApproval now).2.takes = l.takes ++ [⟨now, (l.takeApproval now).1, serial⟩] := by
  rcases takeApproval_cases l now with ⟨-, he⟩ | ⟨_, a, _, -, -, -, he⟩
  · exact ⟨none, by rw [he]⟩
  · exact ⟨some a.serial, by rw [he]⟩

/-- A take keeps the history sound: a consumed number moves and had not expired. -/
theorem Sound.takeApproval {l : Ledger} {now : Nat} (h : Sound l now) :
    Sound (l.takeApproval now).2 now := by
  rcases takeApproval_cases l now with ⟨-, he⟩ | ⟨dropped, a, rest, hq, hlive, -, he⟩
  · rw [he]
    constructor
    case queued => simp
    case past => exact h.past
    case once =>
      have := (List.nodup_append.mp h.once).2.1
      simpa [taken] using this
    case known => simpa [taken] using h.known
    case backed =>
      intro x hx
      rcases List.mem_append.mp hx with hx | hx
      · exact h.backed x hx
      · rw [List.mem_singleton.mp hx]
        rfl
    case intime =>
      intro x hx n hn
      rcases List.mem_append.mp hx with hx | hx
      · exact h.intime x hx n hn
      · rw [List.mem_singleton.mp hx] at hn
        cases hn
  · have hmem : a ∈ l.queue := by simp [hq]
    obtain ⟨p, hp, hexp⟩ := h.queued a hmem
    rw [he]
    constructor
    case queued =>
      intro b hb
      exact h.queued b (by simp [hq, show b ∈ rest from hb])
    case past => exact h.past
    case once =>
      have hperm : (rest.map Approval.serial ++ (l.taken ++ [a.serial] ++ l.drained)).Perm
          ((a :: rest).map Approval.serial ++ (l.taken ++ l.drained)) := by
        simp only [List.append_assoc, List.map_cons, List.cons_append]
        rw [← List.append_assoc, ← List.append_assoc]
        exact List.perm_middle
      have hsub : List.Sublist ((a :: rest).map Approval.serial ++ (l.taken ++ l.drained))
          (l.queue.map Approval.serial ++ (l.taken ++ l.drained)) := by
        rw [hq, List.map_append, List.append_assoc]
        exact List.sublist_append_right _ _
      simpa [taken] using hperm.nodup_iff.mpr (h.once.sublist hsub)
    case known =>
      intro n hn
      simp only [taken, List.filterMap_append, List.filterMap_cons, List.filterMap_nil,
        List.mem_append, List.mem_singleton] at hn
      rcases hn with (hn | rfl) | hn
      · exact h.known n (List.mem_append_left _ hn)
      · exact (List.getElem?_eq_some_iff.mp hp).1
      · exact h.known n (List.mem_append_right _ hn)
    case backed =>
      intro x hx
      rcases List.mem_append.mp hx with hx | hx
      · exact h.backed x hx
      · rw [List.mem_singleton.mp hx]
        rfl
    case intime =>
      intro x hx n hn
      rcases List.mem_append.mp hx with hx | hx
      · exact h.intime x hx n hn
      · rw [List.mem_singleton.mp hx] at hn ⊢
        cases hn
        have hpast := h.past p (List.mem_of_getElem? hp)
        exact ⟨p, hp, hpast, by simp only; omega⟩

end Ledger

end Sentinel.Agent
