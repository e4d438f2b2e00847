import Sentinel.Agent.Decisions
import Sentinel.Pam.Environment

/-!
# The polkit path: an agent and its PAM clients

One user's agent together with any number of `sm_authenticate` runs. A run inside helper-1
belongs to the call whose session started that helper-1; any other run belongs to no call. The
first thing a run does is to ask the agent, with nothing in the question but the uid; the agent
answers from the front of its queue. The system logs which run consumed which approval.
-/

namespace Sentinel.System.Bypass

open Sentinel.Base Sentinel.Shared Sentinel.Pam Sentinel.Agent

/-- Where a run of the module was started. -/
inductive Origin where
  | helper1 (call : Nat)
  | service
  deriving DecidableEq, Repr

/-- A run: its world, where it was started and what it still has to do. -/
structure Client where
  world : World
  origin : Origin
  prog : Run PamReturn

/-- An approval that was returned to a run. -/
structure Consumed where
  client : Nat
  serial : Nat
  deriving DecidableEq, Repr

/-- The agent and the runs. -/
structure State where
  agent : Agent.State := {}
  clients : Nat → Option Client := fun _ ↦ none
  nextClient : Nat := 0
  consumed : List Consumed := []

/-- The steps. Of a query the agent's reply may be lost; a query that fails never reaches it. -/
inductive Label where
  | agent (l : Agent.Label)
  | start (w : World) (origin : Origin)
  | query (j : Nat) (delivered : Bool)
  | queryFails (j : Nat)
  | broker (j : Nat) (resp : Option Broker.Response)
  | helper (j : Nat) (v : Option Verdict)

namespace State

/-- Replace a run. -/
def setClient (s : State) (j : Nat) (c : Client) : State :=
  { s with clients := Function.update s.clients j (some c) }

/-- A run starts. -/
def addClient (s : State) (w : World) (origin : Origin) : State :=
  { s.setClient s.nextClient { world := w, origin, prog := smAuthenticate w } with
    nextClient := s.nextClient + 1 }

/-- The session of a call has connected to helper-1. -/
def connected (s : State) (i : Nat) : Bool :=
  match s.agent.task i with
  | some t =>
    match t.prog with
    | .call (.helper1 _ _) _ => t.outside
    | _ => false
  | none => false

/-- The agent processes the `TakeApproval` of a run; the last entry of its log says which
approval was returned. -/
def serve (s : State) (j : Nat) : State :=
  let shared := s.agent.shared.takeApproval.2
  { s with
    agent := { s.agent with shared }
    consumed := s.consumed ++
      (shared.ledger.takes.getLast?.bind Take.serial).toList.map (fun n ↦ ⟨j, n⟩) }

end State

/-- One step. A run is started for a call only once its session has connected to helper-1; the
agent's `TakeApproval` is processed for runs only. A run that authenticates another uid finds
the bus name owned by somebody else and asks nothing. -/
def next (ownUid : UInt32) (s : State) : Label → Option State
  | .agent .takeApproval => none
  | .agent l => (Agent.next ownUid s.agent l).map (fun agent ↦ { s with agent })
  | .start w .service => some (s.addClient w .service)
  | .start w (.helper1 i) => if s.connected i then some (s.addClient w (.helper1 i)) else none
  | .query j delivered =>
    match s.clients j with
    | some c =>
      match c.prog with
      | .call (.queryAgent uid) k =>
        if uid = ownUid then
          let approved := s.agent.shared.takeApproval.1
          some ((s.serve j).setClient j
            { c with prog := k (if delivered then some approved else none) })
        else some (s.setClient j { c with prog := k (some false) })
      | _ => none
    | none => none
  | .queryFails j =>
    match s.clients j with
    | some c =>
      match c.prog with
      | .call (.queryAgent _) k => some (s.setClient j { c with prog := k none })
      | _ => none
    | none => none
  | .broker j resp =>
    match s.clients j with
    | some c =>
      match c.prog with
      | .call (.roundtrip _ _) k => some (s.setClient j { c with prog := k resp })
      | _ => none
    | none => none
  | .helper j v =>
    match s.clients j with
    | some c =>
      match c.prog with
      | .call (.runHelper _) k => some (s.setClient j { c with prog := k v })
      | _ => none
    | none => none

/-- The agent and its clients as a transition system. -/
def system (ownUid : UInt32) : Transition State Label := ⟨{}, next ownUid⟩

/-- Every approval was consumed by a run inside the helper-1 of the session that pushed it, and
every run let in by the agent has consumed one. -/
def Paired (s : State) : Prop :=
  (∀ x ∈ s.consumed, ∃ c i, s.clients x.client = some c ∧ c.origin = .helper1 i ∧
    s.agent.shared.ledger.pusher x.serial = some i) ∧
  (∀ j c, s.clients j = some c → c.prog = .pure ⟨.success, .bypass⟩ →
    ∃ i n, c.origin = .helper1 i ∧ ⟨j, n⟩ ∈ s.consumed ∧
      s.agent.shared.ledger.pusher n = some i)

/-- The next move of a task is a push. -/
def aboutToPush (t : Task) : Bool :=
  match t.prog with
  | .call (.push _) _ => true
  | _ => false

/-- While an approval can be returned, the agent is asked only by runs inside the helper-1 of the
session in flight, and no session pushes. -/
def Undisturbed (ownUid : UInt32) (s : State) : Label → Prop
  | .query j _ => s.agent.shared.ledger.Live s.agent.shared.now →
      ∀ c k, s.clients j = some c → c.prog = .call (.queryAgent ownUid) k →
        ∃ i, c.origin = .helper1 i ∧ s.agent.inflight = some i
  | .agent (.task i _) => s.agent.shared.ledger.Live s.agent.shared.now →
      ∀ t, s.agent.task i = some t → aboutToPush t = false
  | _ => True

/-! ### Whose approvals are queued -/

/-- When the session in flight has pushed, every approval that can be returned is its own. -/
def Owned (s : Agent.State) : Prop :=
  ∀ i, s.inflight = some i → i ∈ s.shared.ledger.pushers →
    ∀ a ∈ s.shared.ledger.queue, s.shared.now < a.expiresAt →
      s.shared.ledger.pusher a.serial = some i

/-- A queue that lost entries is owned as before. -/
private theorem Owned.shrink {s s' : Agent.State} (h : Owned s) (hi : s'.inflight = s.inflight)
    (hn : s.shared.now ≤ s'.shared.now)
    (hp : s'.shared.ledger.pushes = s.shared.ledger.pushes)
    (hq : s'.shared.ledger.queue ⊆ s.shared.ledger.queue) : Owned s' := by
  intro i hin hmem a ha hlive
  rw [Ledger.pusher, hp]
  rw [Ledger.pushers, hp] at hmem
  exact h i (hi ▸ hin) hmem a (hq ha) (hn.trans_lt hlive)

/-- One step of the agent keeps the queue owned, when no session pushes while an approval can be
returned. -/
private theorem owned_step {ownUid : UInt32} {s s' : Agent.State} {l : Agent.Label}
    (hc : Control s) (hd : Decided s.task s.shared) (hl : Step ownUid s l s')
    (hu : ∀ i m, l = .task i m → s.shared.ledger.Live s.shared.now →
      ∀ t, s.task i = some t → aboutToPush t = false)
    (h : Owned s) : Owned s' := by
  cases hl with
  | @acquire i c env inputs hi hg hf hb =>
    intro j hj hmem
    cases hj
    -- A call that waited for the guard has no task, so it has not pushed.
    obtain ⟨t, ht⟩ := hd.pusher i hmem
    simp [State.task, hi, hg, Stage.task] at ht
  | finish => exact fun i hi ↦ by cases hi
  | @task i c t t' m sh hi hg ha hm =>
    have ht : s.task i = some t := by simp [State.task, hi, hg, Stage.task]
    have hin : s.inflight = some i := (hc.holds i c hi).mp (by simp [hg, Stage.holds])
    obtain ⟨b', hmoved, -⟩ := moved_of_move (hd.place i t ht) hm
    generalize decide (i ∈ s.shared.ledger.pushers) = b at hmoved
    cases hmoved with
    | push hp =>
      intro j hj _ a hmem hlive
      have hji : j = i := Option.some.inj (hj.symm.trans hin)
      subst hji
      rcases List.mem_append.mp hmem with hold | hnew
      · have hpush : aboutToPush t = true := by
          obtain ⟨k, hk⟩ := hp
          simp [aboutToPush, hk]
        rw [hu j m rfl ⟨a, hold, hlive⟩ t ht] at hpush
        cases hpush
      · rw [List.mem_singleton.mp hnew]
        simp [Shared.push, Ledger.push, Ledger.pusher]
    | drain => exact h.shrink rfl (Nat.le_refl _) rfl (List.nil_subset _)
    | _ => exact h
  | cancelDrain => exact h.shrink rfl (Nat.le_refl _) rfl (List.nil_subset _)
  | takeApproval =>
    refine h.shrink rfl (Nat.le_refl _) (pushes_takeApproval _ _) ?_
    rcases Ledger.takeApproval_cases s.shared.ledger s.shared.now with
      ⟨-, he⟩ | ⟨dropped, a, rest, hq, -, -, he⟩
    · simp [Shared.takeApproval, he]
    · simp [Shared.takeApproval, he, hq]
  | tick d => exact h.shrink rfl (Nat.le_add_right _ _) rfl (List.Subset.refl _)
  | _ => exact h

/-! ### What the system keeps true -/

/-- Where a run can stand: in front of its query, behind it, or let in by the agent. -/
def Standing (consumed : List Consumed) (j : Nat) (c : Client) : Prop :=
  (∃ uid, c.prog = .call (.queryAgent uid) (queriedStage c.world)) ∨
    c.prog.Always (fun ret ↦ ret.source ≠ .bypass) ∨
    (c.prog = .pure ⟨.success, .bypass⟩ ∧ ∃ n, ⟨j, n⟩ ∈ consumed)

/-- The invariant. -/
structure Inv (s : State) : Prop where
  control : Control s.agent
  decided : Decided s.agent.task s.agent.shared
  owned : Owned s.agent
  unused : ∀ j, s.nextClient ≤ j → s.clients j = none
  served : s.consumed.map Consumed.serial = s.agent.shared.ledger.taken
  origin : ∀ j c i, s.clients j = some c → c.origin = .helper1 i →
    i ∈ s.agent.shared.ledger.pushers
  standing : ∀ j c, s.clients j = some c → Standing s.consumed j c
  paired : ∀ x ∈ s.consumed, ∃ c i, s.clients x.client = some c ∧ c.origin = .helper1 i ∧
    s.agent.shared.ledger.pusher x.serial = some i

section Steps

variable {ownUid : UInt32} {s : State}

private theorem clients_setClient {j k : Nat} {c d : Client}
    (h : (s.setClient j c).clients k = some d) :
    (k = j ∧ d = c) ∨ (k ≠ j ∧ s.clients k = some d) :=
  slot_update_cases h

/-- A run moves on. -/
private theorem inv_setClient {j : Nat} {c : Client} {prog : Run PamReturn} (h : Inv s)
    (hj : s.clients j = some c) (hst : Standing s.consumed j { c with prog }) :
    Inv (s.setClient j { c with prog }) := by
  constructor
  case control => exact h.control
  case decided => exact h.decided
  case owned => exact h.owned
  case unused =>
    intro k hk
    have hkj : k ≠ j := by
      rintro rfl
      rw [h.unused k hk] at hj
      cases hj
    simp only [State.setClient, ne_eq, hkj, not_false_eq_true, Function.update_of_ne]
    exact h.unused k hk
  case served => exact h.served
  case origin =>
    intro k d i hd ho
    obtain ⟨rfl, rfl⟩ | ⟨-, hd⟩ := clients_setClient hd
    · exact h.origin k c i hj ho
    · exact h.origin k d i hd ho
  case standing =>
    intro k d hd
    obtain ⟨rfl, rfl⟩ | ⟨-, hd⟩ := clients_setClient hd
    · exact hst
    · exact h.standing k d hd
  case paired =>
    intro x hx
    obtain ⟨d, i, hd, ho, hp⟩ := h.paired x hx
    by_cases hxj : x.client = j
    · rw [hxj, hj] at hd
      cases hd
      exact ⟨{ c with prog }, i, by simp [State.setClient, hxj], ho, hp⟩
    · exact ⟨d, i, by simp [State.setClient, hxj, hd], ho, hp⟩

/-- A run inside helper-1 belongs to a session that has pushed. -/
private theorem pushed_of_connected (h : Inv s) {i : Nat} (hc : s.connected i = true) :
    i ∈ s.agent.shared.ledger.pushers := by
  unfold State.connected at hc
  split at hc
  next t ht =>
    have hp := h.decided.place i t ht
    by_contra hn
    rw [decide_eq_false hn] at hp
    generalize t.prog = prog, t.learned = learned at hp hc
    cases hp <;> cases hc
  next => cases hc

/-- A run starts in front of its query, or behind it when its user is unknown. -/
private theorem standing_start (consumed : List Consumed) (j : Nat) (w : World) (o : Origin) :
    Standing consumed j ⟨w, o, smAuthenticate w⟩ := by
  unfold Standing
  rw [smAuthenticate_eq]
  cases (bypassUser w).bind w.passwdByName with
  | none => exact Or.inr (Or.inl (always_afterBypass w))
  | some uid => exact Or.inl ⟨uid, rfl⟩

/-- A run starts. -/
private theorem inv_addClient (h : Inv s) (w : World) (o : Origin)
    (ho : ∀ i, o = .helper1 i → i ∈ s.agent.shared.ledger.pushers) : Inv (s.addClient w o) := by
  have hnew : s.clients s.nextClient = none := h.unused _ (Nat.le_refl _)
  constructor
  case control => exact h.control
  case decided => exact h.decided
  case owned => exact h.owned
  case unused =>
    intro k hk
    simp only [State.addClient, State.setClient] at hk ⊢
    rw [Function.update_of_ne (by omega)]
    exact h.unused k (by omega)
  case served => exact h.served
  case origin =>
    intro k d i hd hoi
    obtain ⟨rfl, rfl⟩ | ⟨-, hd⟩ := clients_setClient hd
    · exact ho i hoi
    · exact h.origin k d i hd hoi
  case standing =>
    intro k d hd
    obtain ⟨rfl, rfl⟩ | ⟨-, hd⟩ := clients_setClient hd
    · exact standing_start _ _ w o
    · exact h.standing k d hd
  case paired =>
    intro x hx
    obtain ⟨d, i, hd, hoi, hp⟩ := h.paired x hx
    have hxn : x.client ≠ s.nextClient := by
      intro he
      rw [he, hnew] at hd
      cases hd
    exact ⟨d, i, by simp [State.addClient, State.setClient, hxn, hd], hoi, hp⟩

private theorem pusher_of_prefix {l l' : Ledger} (h : l.pushes <+: l'.pushes) {n i : Nat}
    (hp : l.pusher n = some i) : l'.pusher n = some i := by
  obtain ⟨p, hn, hi⟩ := Option.map_eq_some_iff.mp hp
  obtain ⟨rest, hr⟩ := h
  obtain ⟨hlt, -⟩ := List.getElem?_eq_some_iff.mp hn
  rw [Ledger.pusher, ← hr, List.getElem?_append_left hlt, hn, Option.map_some, hi]

/-- The agent takes a step of its own. -/
private theorem inv_agent {l : Agent.Label} {agent : Agent.State} (h : Inv s)
    (hl : Step ownUid s.agent l agent) (hne : l ≠ .takeApproval)
    (hu : ∀ i m, l = .task i m → s.agent.shared.ledger.Live s.agent.shared.now →
      ∀ t, s.agent.task i = some t → aboutToPush t = false) : Inv { s with agent } := by
  obtain ⟨hpre, htakes⟩ := ledger_step h.decided hl
  constructor
  case control => exact control_step h.control hl
  case decided => exact decided_change h.decided (change_of_step h.control hl)
  case owned => exact owned_step h.control h.decided hl hu h.owned
  case unused => exact h.unused
  case served =>
    simp only [Ledger.taken, htakes hne]
    exact h.served
  case origin =>
    intro j c i hj ho
    exact (hpre.map Push.call).subset (h.origin j c i hj ho)
  case standing => exact h.standing
  case paired =>
    intro x hx
    obtain ⟨c, i, hc, ho, hp⟩ := h.paired x hx
    exact ⟨c, i, hc, ho, pusher_of_prefix hpre hp⟩

private theorem Standing.mono {consumed consumed' : List Consumed} {j : Nat} {c : Client}
    (h : Standing consumed j c) (hsub : consumed ⊆ consumed') : Standing consumed' j c := by
  rcases h with h | h | ⟨h, n, hn⟩
  · exact Or.inl h
  · exact Or.inr (Or.inl h)
  · exact Or.inr (Or.inr ⟨h, n, hsub hn⟩)

/-- The agent answers a run: what it returns was pushed by the session in flight, and the run is
inside the helper-1 of that session. -/
private theorem inv_serve (ownUid : UInt32) (h : Inv s) {j : Nat} {c : Client}
    (hj : s.clients j = some c)
    (hu : s.agent.shared.ledger.Live s.agent.shared.now →
      ∃ i, c.origin = .helper1 i ∧ s.agent.inflight = some i) :
    Inv (s.serve j) ∧
      (s.agent.shared.takeApproval.1 = true → ∃ n, ⟨j, n⟩ ∈ (s.serve j).consumed) := by
  have hl : Step ownUid s.agent .takeApproval (s.serve j).agent := .takeApproval
  have hpushes : (s.serve j).agent.shared.ledger.pushes = s.agent.shared.ledger.pushes :=
    pushes_takeApproval _ _
  have hsub : s.consumed ⊆ (s.serve j).consumed := List.subset_append_left _ _
  have hcontrol := control_step h.control hl
  have hdecided := decided_change h.decided (change_of_step h.control hl)
  have howned := owned_step h.control h.decided hl (by simp) h.owned
  have horigin (k : Nat) (d : Client) (i : Nat) (hd : s.clients k = some d)
      (ho : d.origin = .helper1 i) : i ∈ (s.serve j).agent.shared.ledger.pushers := by
    rw [Ledger.pushers, hpushes]
    exact h.origin k d i hd ho
  have hpaired (x : Consumed) (hx : x ∈ s.consumed) : ∃ d i, s.clients x.client = some d ∧
      d.origin = .helper1 i ∧ (s.serve j).agent.shared.ledger.pusher x.serial = some i := by
    rw [Ledger.pusher, hpushes]
    exact h.paired x hx
  rcases Ledger.takeApproval_cases s.agent.shared.ledger s.agent.shared.now with
    ⟨-, he⟩ | ⟨dropped, a, rest, hq, hlive, -, he⟩
  · have hcons : (s.serve j).consumed = s.consumed := by
      simp [State.serve, Shared.takeApproval, he]
    refine ⟨⟨hcontrol, hdecided, howned, h.unused, ?_, horigin, ?_, ?_⟩, ?_⟩
    · rw [hcons, h.served]
      simp [State.serve, Shared.takeApproval, he, Ledger.taken]
    · rw [hcons]
      exact h.standing
    · rw [hcons]
      exact hpaired
    · intro ht
      simp [Shared.takeApproval, he] at ht
  · have hcons : (s.serve j).consumed = s.consumed ++ [⟨j, a.serial⟩] := by
      simp [State.serve, Shared.takeApproval, he]
    have hmem : a ∈ s.agent.shared.ledger.queue := by simp [hq]
    obtain ⟨i, ho, hin⟩ := hu ⟨a, hmem, hlive⟩
    have hown := h.owned i hin (h.origin j c i hj ho) a hmem hlive
    refine ⟨⟨hcontrol, hdecided, howned, h.unused, ?_, horigin, ?_, ?_⟩, ?_⟩
    · rw [hcons, List.map_append, h.served]
      simp [State.serve, Shared.takeApproval, he, Ledger.taken]
    · exact fun k d hd ↦ (h.standing k d hd).mono hsub
    · intro x hx
      rw [hcons] at hx
      rcases List.mem_append.mp hx with hx | hx
      · exact hpaired x hx
      · rw [List.mem_singleton.mp hx]
        exact ⟨c, i, hj, ho, by rw [Ledger.pusher, hpushes]; exact hown⟩
    · intro _
      exact ⟨a.serial, by rw [hcons]; simp⟩

/-- A run that got an answer other than a reply of the agent is behind its query. -/
private theorem standing_behind {consumed : List Consumed} {j : Nat} {c : Client}
    {e : Pam.Call} {k : Pam.Answer e → Run PamReturn} (h : Standing consumed j c)
    (hp : c.prog = .call e k) (he : ∀ uid, e ≠ .queryAgent uid) (r : Pam.Answer e) :
    Standing consumed j { c with prog := k r } := by
  rcases h with ⟨uid, hq⟩ | ha | ⟨hd, -⟩
  · rw [hp] at hq
    cases hq
    exact absurd rfl (he uid)
  · rw [hp] at ha
    exact Or.inr (Or.inl (ha r))
  · rw [hp] at hd
    cases hd

/-- A run that got a reply of the agent is let in by it or behind its query. -/
private theorem standing_answered {consumed : List Consumed} {j : Nat} {c : Client}
    {uid : UInt32} {k : Option Bool → Run PamReturn} (h : Standing consumed j c)
    (hp : c.prog = .call (.queryAgent uid) k) (approved : Option Bool)
    (ht : approved = some true → ∃ n, ⟨j, n⟩ ∈ consumed) :
    Standing consumed j { c with prog := k approved } := by
  rcases h with ⟨uid', hq⟩ | ha | ⟨hd, -⟩
  · rw [hp] at hq
    cases hq
    by_cases ha : approved = some true
    · exact Or.inr (Or.inr ⟨by simp [queriedStage, ha], ht ha⟩)
    · refine Or.inr (Or.inl ?_)
      simp only [queriedStage, ha, if_false]
      exact always_afterBypass c.world
  · rw [hp] at ha
    exact Or.inr (Or.inl (ha approved))
  · rw [hp] at hd
    cases hd

/-- One undisturbed step keeps the invariant. -/
theorem inv_next {s' : State} {l : Label} (h : Inv s) (hu : Undisturbed ownUid s l)
    (hn : next ownUid s l = some s') : Inv s' := by
  cases l with
  | agent l =>
    have hagent (hne : l ≠ .takeApproval)
        (hm : (Agent.next ownUid s.agent l).map (fun agent ↦ { s with agent }) = some s') :
        Inv s' := by
      obtain ⟨agent, ha, rfl⟩ := Option.map_eq_some_iff.mp hm
      refine inv_agent h (step_of_next ha) hne ?_
      rintro i m rfl hlive
      exact hu hlive
    cases l with
    | takeApproval => cases hn
    | _ => exact hagent (by simp) hn
  | start w o =>
    cases o with
    | service =>
      cases hn
      exact inv_addClient h w .service (by simp)
    | helper1 i =>
      simp only [next] at hn
      split at hn
      next hc =>
        cases hn
        refine inv_addClient h w (.helper1 i) ?_
        rintro _ ⟨⟩
        exact pushed_of_connected h hc
      next => cases hn
  | query j delivered =>
    simp only [next] at hn
    split at hn
    next c hj =>
      split at hn
      next uid k hp =>
        split at hn
        next huid =>
          subst huid
          cases hn
          obtain ⟨hi, ht⟩ := inv_serve uid h hj (fun hlive ↦ hu hlive c k hj hp)
          refine inv_setClient hi hj (standing_answered (hi.standing j c hj) hp _ ?_)
          intro hans
          split at hans
          · exact ht (Option.some.inj hans)
          · cases hans
        next =>
          cases hn
          exact inv_setClient h hj (standing_answered (h.standing j c hj) hp _ (by simp))
      next => cases hn
    next => cases hn
  | queryFails j =>
    simp only [next] at hn
    split at hn
    next c hj =>
      split at hn
      next uid k hp =>
        cases hn
        exact inv_setClient h hj (standing_answered (h.standing j c hj) hp _ (by simp))
      next => cases hn
    next => cases hn
  | broker j resp =>
    simp only [next] at hn
    split at hn
    next c hj =>
      split at hn
      next sock req k hp =>
        cases hn
        exact inv_setClient h hj (standing_behind (h.standing j c hj) hp (by simp) _)
      next => cases hn
    next => cases hn
  | helper j v =>
    simp only [next] at hn
    split at hn
    next c hj =>
      split at hn
      next req k hp =>
        cases hn
        exact inv_setClient h hj (standing_behind (h.standing j c hj) hp (by simp) _)
      next => cases hn
    next => cases hn

end Steps

/-- The system starts. -/
theorem inv_init (ownUid : UInt32) : Inv (system ownUid).init := by
  constructor
  case control => exact control_init ownUid
  case decided => exact @decided_run ownUid [] {} rfl
  case owned => exact fun i hi ↦ by cases hi
  all_goals simp [system, Ledger.taken]

/-- In every undisturbed run the approvals that were returned are paired with their sessions: each
was consumed by a run inside the helper-1 of the session that pushed it, and no other run was let
in by the agent. -/
theorem approvals_paired {ownUid : UInt32} {ls : List Label} {s : State}
    (hu : (system ownUid).Meets (Undisturbed ownUid) {} ls) (h : (system ownUid).Run ls s) :
    s.consumed.map Consumed.serial = s.agent.shared.ledger.taken ∧ Paired s := by
  have hi : Inv s := (system ownUid).meets_invariant (Undisturbed ownUid) Inv
    (fun _ _ _ hi hc hn ↦ inv_next hi hc hn) (inv_init ownUid) hu h
  refine ⟨hi.served, hi.paired, ?_⟩
  intro j c hj hret
  rcases hi.standing j c hj with ⟨uid, hq⟩ | ha | ⟨-, n, hn⟩
  · rw [hret] at hq
    cases hq
  · rw [hret] at ha
    exact absurd rfl ha
  · obtain ⟨d, i, hd, ho, hp⟩ := hi.paired _ hn
    rw [hj] at hd
    cases hd
    exact ⟨i, n, ho, hn, hp⟩

/-- A run of the module for the agent's user, by service. -/
def userWorld (service : String) : World :=
  { promptWorld (fun _ ↦ none) with
    getUser := some "alice".toList
    passwdByName := fun _ ↦ some 1000
    serviceItem := some (CStr.ofText service) }

/-- A dialog is allowed, the session pushes and connects, and helper-1 asks the agent. -/
def handedOff : List Label :=
  (untilPush "cookie" ++ [Agent.Label.task 0 .step]).map .agent ++
    [.start (userWorld "polkit-1") (.helper1 0), .query 0 true]

/-- The state behind it. -/
def handedOffState : State := ((system 1000).exec {} handedOff).getD {}

/-- Nothing disturbs the hand-off, and its helper-1 is let in with its own approval. -/
theorem handedOff_paired : (system 1000).Run handedOff handedOffState ∧
    handedOffState.consumed = [⟨0, 0⟩] ∧ Paired handedOffState := by
  have hrun : (system 1000).Run handedOff handedOffState := rfl
  refine ⟨hrun, rfl, (approvals_paired ?_ hrun).2⟩
  -- Up to the push the queue is empty, and the moves behind it are no pushes.
  refine And.intro trivial (And.intro trivial (And.intro trivial ?_))
  refine And.intro ?_ (And.intro ?_ (And.intro ?_ (And.intro ?_ (And.intro trivial ?_))))
  · rintro ⟨a, ha, -⟩
    cases ha
  · rintro ⟨a, ha, -⟩
    cases ha
  · rintro ⟨a, ha, -⟩
    cases ha
  · intro _ t ht
    cases ht
    rfl
  · refine And.intro ?_ trivial
    intro _ c k hc _
    cases hc
    exact ⟨0, rfl, rfl⟩

/-- The approval of a dialog is pushed, and a run for another service asks the agent first. -/
def takenByService : List Label :=
  (untilPush "cookie").map .agent ++ [.start (userWorld "sudo") .service, .query 0 true]

/-- That run is let in with the approval of the session. -/
theorem service_takes_approval :
    ∃ s c, (system 1000).Run takenByService s ∧ s.clients 0 = some c ∧
      c.origin = .service ∧ pamService c.world = "sudo".toList ∧
      c.prog = .pure ⟨.success, .bypass⟩ ∧ s.consumed = [⟨0, 0⟩] ∧
      s.agent.shared.ledger.pusher 0 = some 0 ∧ s.agent.cookie 0 = some "cookie".toList ∧
      ¬ Paired s := by
  refine ⟨_, _, rfl, rfl, rfl, rfl, rfl, rfl, rfl, rfl, ?_⟩
  rintro ⟨hp, -⟩
  obtain ⟨c, i, hc, ho, -⟩ := hp ⟨0, 0⟩ (List.mem_singleton.mpr rfl)
  cases hc
  cases ho

end Sentinel.System.Bypass
