import Sentinel.Agent.Task
import Sentinel.Base.Transition

/-!
# The authentication agent

Crate `sentinel-polkit-agent`, `Agent` (`crates/sentinel-polkit-agent/src/agent.rs`) with the
queue's D-Bus service, as a transition system. `begin_authentication` is cut at its awaits: the
wait for `inflight`, the wait for the `sessions` lock in front of the spawn, the wait for the
task and the clean-up. `cancel_authentication` is cut between its drain and its abort.
-/

namespace Sentinel.Agent

open Sentinel.Base Sentinel.Shared

/-- Where a `begin_authentication` call stands. It holds the `inflight` guard from `ready` to the
end of `spawned`. -/
inductive Stage where
  | waiting
  | ready (inputs : AuthInputs)
  | spawned (task : Task)
  | refused (e : BeginError)
  | returned (task : Task)

/-- The call holds the `inflight` guard. -/
def Stage.holds : Stage → Bool
  | .ready _ => true
  | .spawned _ => true
  | _ => false

/-- The task of the call, once it was spawned. -/
def Stage.task : Stage → Option Task
  | .spawned t => some t
  | .returned t => some t
  | _ => none

/-- `JoinHandle::abort`. -/
def Stage.abort : Stage → Stage
  | .spawned t => .spawned { t with aborted := true }
  | g => g

/-- A `begin_authentication` call. -/
structure Call where
  request : BeginRequest
  stage : Stage := .waiting

/-- The agent. Calls are numbered as they come; `sessions` maps a cookie to the call whose task
handle is stored, `cancels` are the cancel calls behind their drain. -/
structure State where
  shared : Shared := {}
  calls : Nat → Option Call := fun _ ↦ none
  nextCall : Nat := 0
  inflight : Option Nat := none
  sessions : Str → Option Nat := fun _ ↦ none
  cancels : List Str := []

/-- The steps, with every choice of the environment. -/
inductive Label where
  | beginAuthentication (req : BeginRequest)
  | acquire (i : Nat) (env : Surroundings)
  | spawn (i : Nat)
  | task (i : Nat) (m : Move)
  | finish (i : Nat)
  | cancelDrain (cookie : Str)
  | cancelAbort (n : Nat)
  | takeApproval
  | tick (d : Nat)

namespace State

/-- The task of a call. -/
def task (s : State) (i : Nat) : Option Task := (s.calls i).bind (fun c ↦ c.stage.task)

/-- The cookie of a call. -/
def cookie (s : State) (i : Nat) : Option Str := (s.calls i).map (fun c ↦ c.request.cookie)

/-- Replace a call. -/
def setCall (s : State) (i : Nat) (c : Call) : State :=
  { s with calls := Function.update s.calls i (some c) }

/-- A call arrives. -/
def addCall (s : State) (req : BeginRequest) : State :=
  { s.setCall s.nextCall { request := req } with nextCall := s.nextCall + 1 }

/-- The session is spawned and its handle stored, `agent.rs:184-207`. -/
def spawn (s : State) (i : Nat) (c : Call) (inputs : AuthInputs) : State :=
  { s.setCall i { c with stage := .spawned (Task.spawn inputs) } with
    sessions := Function.update s.sessions c.request.cookie (some i) }

/-- The task is done: clean up and drop the guard, `agent.rs:209-221`. -/
def finish (s : State) (i : Nat) (c : Call) (t : Task) : State :=
  { s.setCall i { c with stage := .returned t } with
    sessions := Function.update s.sessions c.request.cookie none
    inflight := none }

/-- The second half of `cancel_authentication`, `agent.rs:236-239`. -/
def abort (s : State) (cookie : Str) : State :=
  { s with
    calls := fun j ↦
      if s.sessions cookie = some j then (s.calls j).map (fun c ↦ { c with stage := c.stage.abort })
      else s.calls j
    sessions := Function.update s.sessions cookie none }

end State

/-- One step. -/
def next (ownUid : UInt32) (s : State) : Label → Option State
  | .beginAuthentication req => some (s.addCall req)
  | .acquire i env =>
    match s.calls i with
    | some c =>
      match c.stage, s.inflight with
      | .waiting, none =>
        match beginInputs ownUid env c.request with
        | .ok inputs =>
          some { s.setCall i { c with stage := .ready inputs } with inflight := some i }
        | .error e => some (s.setCall i { c with stage := .refused e })
      | _, _ => none
    | none => none
  | .spawn i =>
    match s.calls i with
    | some c =>
      match c.stage with
      | .ready inputs => some (s.spawn i c inputs)
      | _ => none
    | none => none
  | .task i m =>
    match s.calls i with
    | some c =>
      match c.stage with
      | .spawned t =>
        if t.aborted then none
        else match t.move s.shared i m with
          | some (sh, t') => some { s.setCall i { c with stage := .spawned t' } with shared := sh }
          | none => none
      | _ => none
    | none => none
  | .finish i =>
    match s.calls i with
    | some c =>
      match c.stage with
      | .spawned t => if t.ended then some (s.finish i c t) else none
      | _ => none
    | none => none
  | .cancelDrain cookie =>
    some { s with shared := s.shared.drain, cancels := s.cancels ++ [cookie] }
  | .cancelAbort n =>
    match s.cancels[n]? with
    | some cookie => some ({ s with cancels := s.cancels.eraseIdx n }.abort cookie)
    | none => none
  | .takeApproval => some { s with shared := s.shared.takeApproval.2 }
  | .tick d => some { s with shared := { s.shared with now := s.shared.now + d } }

/-- The agent as a transition system. -/
def system (ownUid : UInt32) : Transition State Label := ⟨{}, next ownUid⟩

/-- A request offered to the user with uid 1000, without details. -/
def plainRequest (cookie : String) : BeginRequest where
  actionId := "org.freedesktop.policykit.exec".toList
  details := fun _ ↦ none
  cookie := cookie.toList
  identities := [⟨"unix-user".toList, fun k ↦
    if k = "uid".toList then some (some 1000) else none⟩]
  nulFree := by decide

/-- A host with that user, the default configuration and nothing to read in `/proc`. -/
def plainSurroundings : Surroundings where
  passwdByUid := fun _ ↦ some "alice".toList
  fs := fun _ ↦ {}
  document := {}

/-- A first call, up to the open dialog of its session. -/
def untilDialog (cookie : String) : List Label :=
  [.beginAuthentication (plainRequest cookie), .acquire 0 plainSurroundings, .spawn 0,
    .task 0 .step]

/-- A first call, allowed by its dialog, up to its push. -/
def untilPush (cookie : String) : List Label :=
  untilDialog cookie ++ [.task 0 (.dialog (some ⟨.allow, false⟩)), .task 0 .step]

/-! ### What a step can be -/

/-- The steps of `next`, each with its guards. -/
inductive Step (ownUid : UInt32) (s : State) : Label → State → Prop where
  | beginAuthentication (req : BeginRequest) :
      Step ownUid s (.beginAuthentication req) (s.addCall req)
  | acquire {i : Nat} {c : Call} {env : Surroundings} {inputs : AuthInputs}
      (hc : s.calls i = some c) (hg : c.stage = .waiting) (hf : s.inflight = none)
      (hb : beginInputs ownUid env c.request = .ok inputs) :
      Step ownUid s (.acquire i env)
        { s.setCall i { c with stage := .ready inputs } with inflight := some i }
  | refuse {i : Nat} {c : Call} {env : Surroundings} {e : BeginError}
      (hc : s.calls i = some c) (hg : c.stage = .waiting) (hf : s.inflight = none) :
      Step ownUid s (.acquire i env) (s.setCall i { c with stage := .refused e })
  | spawn {i : Nat} {c : Call} {inputs : AuthInputs} (hc : s.calls i = some c)
      (hg : c.stage = .ready inputs) : Step ownUid s (.spawn i) (s.spawn i c inputs)
  | task {i : Nat} {c : Call} {t t' : Task} {m : Move} {sh : Shared} (hc : s.calls i = some c)
      (hg : c.stage = .spawned t) (ha : t.aborted = false)
      (hm : t.move s.shared i m = some (sh, t')) :
      Step ownUid s (.task i m) { s.setCall i { c with stage := .spawned t' } with shared := sh }
  | finish {i : Nat} {c : Call} {t : Task} (hc : s.calls i = some c)
      (hg : c.stage = .spawned t) (he : t.ended = true) :
      Step ownUid s (.finish i) (s.finish i c t)
  | cancelDrain (cookie : Str) : Step ownUid s (.cancelDrain cookie)
      { s with shared := s.shared.drain, cancels := s.cancels ++ [cookie] }
  | cancelAbort {n : Nat} {cookie : Str} (hn : s.cancels[n]? = some cookie) :
      Step ownUid s (.cancelAbort n) ({ s with cancels := s.cancels.eraseIdx n }.abort cookie)
  | takeApproval : Step ownUid s .takeApproval { s with shared := s.shared.takeApproval.2 }
  | tick (d : Nat) :
      Step ownUid s (.tick d) { s with shared := { s.shared with now := s.shared.now + d } }

/-- Every step is one of these. -/
theorem step_of_next {ownUid : UInt32} {s s' : State} {l : Label}
    (h : next ownUid s l = some s') : Step ownUid s l s' := by
  cases l with
  | beginAuthentication req =>
    cases h
    exact .beginAuthentication req
  | acquire i env =>
    simp only [next] at h
    split at h
    next c hc =>
      split at h
      next hg hf =>
        split at h
        next inputs hb =>
          cases h
          exact .acquire hc hg hf hb
        next e _ =>
          cases h
          exact .refuse hc hg hf
      next => cases h
    next => cases h
  | spawn i =>
    simp only [next] at h
    split at h
    next c hc =>
      split at h
      next inputs hg =>
        cases h
        exact .spawn hc hg
      next => cases h
    next => cases h
  | task i m =>
    simp only [next] at h
    split at h
    next c hc =>
      split at h
      next t hg =>
        split at h
        next => cases h
        next ha =>
          split at h
          next sh t' hm =>
            cases h
            exact .task hc hg (by simpa using ha) hm
          next => cases h
      next => cases h
    next => cases h
  | finish i =>
    simp only [next] at h
    split at h
    next c hc =>
      split at h
      next t hg =>
        split at h
        next he =>
          cases h
          exact .finish hc hg he
        next => cases h
      next => cases h
    next => cases h
  | cancelDrain cookie =>
    cases h
    exact .cancelDrain cookie
  | cancelAbort n =>
    simp only [next] at h
    split at h
    next cookie hn =>
      cases h
      exact .cancelAbort hn
    next => cases h
  | takeApproval =>
    cases h
    exact .takeApproval
  | tick d =>
    cases h
    exact .tick d

/-- A replaced call is the new one or an old one. -/
theorem calls_setCall {s : State} {i j : Nat} {c d : Call}
    (h : (s.setCall i c).calls j = some d) : (j = i ∧ d = c) ∨ (j ≠ i ∧ s.calls j = some d) :=
  slot_update_cases h

/-! ### The guard and the handles -/

/-- The guard is held by one call, exactly as its stage says; a stored handle is that of a
spawned task, and a spawned task that was not aborted has its handle stored under its cookie. -/
structure Control (s : State) : Prop where
  unused : ∀ i, s.nextCall ≤ i → s.calls i = none
  guarded : ∀ i, s.inflight = some i → ∃ c, s.calls i = some c
  holds : ∀ i c, s.calls i = some c → (c.stage.holds = true ↔ s.inflight = some i)
  handle : ∀ k i, s.sessions k = some i →
    ∃ c t, s.calls i = some c ∧ c.stage = .spawned t ∧ c.request.cookie = k
  stored : ∀ i c t, s.calls i = some c → c.stage = .spawned t → t.aborted = false →
    s.sessions c.request.cookie = some i
  ended : ∀ i c t, s.calls i = some c → c.stage = .returned t → t.ended = true

/-- The stages of an aborted call. -/
theorem calls_abort {s : State} {cookie : Str} {j : Nat} {d : Call}
    (h : (s.abort cookie).calls j = some d) :
    (s.sessions cookie = some j ∧ ∃ c, s.calls j = some c ∧ d = { c with stage := c.stage.abort }) ∨
      (s.sessions cookie ≠ some j ∧ s.calls j = some d) := by
  simp only [State.abort] at h
  split at h
  next hs =>
    obtain ⟨c, hc, hd⟩ := Option.map_eq_some_iff.mp h
    exact Or.inl ⟨hs, c, hc, hd.symm⟩
  next hs => exact Or.inr ⟨hs, h⟩

/-- An abort keeps the guard. -/
theorem holds_abort (g : Stage) : g.abort.holds = g.holds := by
  cases g <;> rfl

section Control

variable {s : State}

/-- The agent starts. -/
theorem control_init (ownUid : UInt32) : Control (system ownUid).init := by
  constructor <;> simp [system]

private theorem lt_nextCall {i : Nat} {c : Call} (h : Control s) (hc : s.calls i = some c) :
    i < s.nextCall := by
  by_contra hge
  rw [h.unused i (by omega)] at hc
  cases hc

private theorem control_addCall (h : Control s) (req : BeginRequest) :
    Control (s.addCall req) := by
  have hnew : s.calls s.nextCall = none := h.unused _ (Nat.le_refl _)
  constructor
  case unused =>
    intro i hi
    simp only [State.addCall, State.setCall] at hi ⊢
    rw [Function.update_of_ne (by omega)]
    exact h.unused i (by omega)
  case guarded =>
    intro i hi
    obtain ⟨c, hc⟩ := h.guarded i hi
    refine ⟨c, ?_⟩
    simp only [State.addCall, State.setCall]
    rw [Function.update_of_ne (lt_nextCall h hc).ne]
    exact hc
  case holds =>
    intro i c hc
    obtain ⟨rfl, rfl⟩ | ⟨-, hc⟩ := calls_setCall hc
    · constructor
      · intro hh
        simp [Stage.holds] at hh
      · intro hi
        obtain ⟨d, hd⟩ := h.guarded _ hi
        rw [hnew] at hd
        cases hd
    · exact h.holds i c hc
  case handle =>
    intro k i hk
    obtain ⟨c, t, hc, hrest⟩ := h.handle k i hk
    refine ⟨c, t, ?_, hrest⟩
    simp only [State.addCall, State.setCall]
    rw [Function.update_of_ne (lt_nextCall h hc).ne]
    exact hc
  case stored =>
    intro i c t hc hg ha
    obtain ⟨rfl, rfl⟩ | ⟨-, hc⟩ := calls_setCall hc
    · cases hg
    · exact h.stored i c t hc hg ha
  case ended =>
    intro i c t hc hg
    obtain ⟨rfl, rfl⟩ | ⟨-, hc⟩ := calls_setCall hc
    · cases hg
    · exact h.ended i c t hc hg

/-- A call moves to another stage, with the guard and the handles as they should be then. -/
private theorem control_setCall {i : Nat} {c : Call} {g : Stage} {shared : Shared}
    {inflight : Option Nat} {sessions : Str → Option Nat} (h : Control s)
    (hc : s.calls i = some c) (hi : g.holds = true ↔ inflight = some i)
    (ho : ∀ j, j ≠ i → (inflight = some j ↔ s.inflight = some j))
    (hh : ∀ k j, sessions k = some j →
      (j = i ∧ ∃ t, g = .spawned t ∧ c.request.cookie = k) ∨ (j ≠ i ∧ s.sessions k = some j))
    (hs : ∀ t, g = .spawned t → t.aborted = false → sessions c.request.cookie = some i)
    (hk : ∀ j d t, j ≠ i → s.calls j = some d → d.stage = .spawned t →
      sessions d.request.cookie = s.sessions d.request.cookie)
    (he : ∀ t, g = .returned t → t.ended = true) :
    Control { s.setCall i { c with stage := g } with shared, inflight, sessions } := by
  have hlt := lt_nextCall h hc
  constructor
  case unused =>
    intro j hj
    have hji : j ≠ i := by
      simp only [State.setCall] at hj
      omega
    simp only [State.setCall, ne_eq, hji, not_false_eq_true, Function.update_of_ne]
    exact h.unused j hj
  case guarded =>
    intro j hj
    by_cases hji : j = i
    · exact ⟨{ c with stage := g }, by simp [State.setCall, hji]⟩
    · obtain ⟨d, hd⟩ := h.guarded j ((ho j hji).mp hj)
      exact ⟨d, by simp [State.setCall, hji, hd]⟩
  case holds =>
    intro j d hd
    obtain ⟨rfl, rfl⟩ | ⟨hji, hd⟩ := calls_setCall hd
    · exact hi
    · exact (h.holds j d hd).trans (ho j hji).symm
  case handle =>
    intro k j hkj
    rcases hh k j hkj with ⟨rfl, t, hg, hck⟩ | ⟨hji, hkj⟩
    · exact ⟨{ c with stage := g }, t, by simp [State.setCall], hg, hck⟩
    · obtain ⟨d, t, hd, hrest⟩ := h.handle k j hkj
      exact ⟨d, t, by simp [State.setCall, hji, hd], hrest⟩
  case stored =>
    intro j d t hd hg ha
    obtain ⟨rfl, rfl⟩ | ⟨hji, hd⟩ := calls_setCall hd
    · exact hs t hg ha
    · simp only
      rw [hk j d t hji hd hg]
      exact h.stored j d t hd hg ha
  case ended =>
    intro j d t hd hg
    obtain ⟨rfl, rfl⟩ | ⟨hji, hd⟩ := calls_setCall hd
    · exact he t hg
    · exact h.ended j d t hd hg

private theorem control_abort (h : Control s) (cookie : Str) : Control (s.abort cookie) := by
  constructor
  case unused =>
    intro i hi
    simp only [State.abort]
    split <;> simp [h.unused i hi]
  case guarded =>
    intro i hi
    obtain ⟨c, hc⟩ := h.guarded i hi
    simp only [State.abort]
    split <;> simp [hc]
  case holds =>
    intro i d hd
    rcases calls_abort hd with ⟨-, c, hc, rfl⟩ | ⟨-, hd⟩
    · simp only [holds_abort]
      exact h.holds i c hc
    · exact h.holds i d hd
  case handle =>
    intro k i hk
    have hkc : k ≠ cookie := by
      rintro rfl
      simp [State.abort] at hk
    simp only [State.abort, ne_eq, hkc, not_false_eq_true, Function.update_of_ne] at hk
    obtain ⟨c, t, hc, hg, hck⟩ := h.handle k i hk
    refine ⟨c, t, ?_, hg, hck⟩
    simp only [State.abort]
    rw [if_neg, hc]
    -- The handle under the cancelled cookie belongs to a call with that cookie.
    intro hs
    obtain ⟨c', t', hc', -, hck'⟩ := h.handle cookie i hs
    rw [hc] at hc'
    cases hc'
    exact hkc (hck.symm.trans hck')
  case stored =>
    intro i d t hd hg ha
    rcases calls_abort hd with ⟨-, c, hc, rfl⟩ | ⟨hs, hd⟩
    · cases hst : c.stage with
      | spawned t' =>
        simp only [hst, Stage.abort, Stage.spawned.injEq] at hg
        rw [← hg] at ha
        cases ha
      | _ => simp [hst, Stage.abort] at hg
    · have hst := h.stored i d t hd hg ha
      have hne : d.request.cookie ≠ cookie := by
        intro he
        rw [he] at hst
        exact hs hst
      simp only [State.abort, ne_eq, hne, not_false_eq_true, Function.update_of_ne]
      exact hst
  case ended =>
    intro i d t hd hg
    rcases calls_abort hd with ⟨-, c, hc, rfl⟩ | ⟨-, hd⟩
    · cases hst : c.stage with
      | returned t' =>
        simp only [hst, Stage.abort, Stage.returned.injEq] at hg
        rw [← hg]
        exact h.ended i c t' hc hst
      | _ => simp [hst, Stage.abort] at hg
    · exact h.ended i d t hd hg

private theorem control_frame {s' : State} (h : Control s) (hc : s'.calls = s.calls)
    (hn : s'.nextCall = s.nextCall) (hi : s'.inflight = s.inflight)
    (hs : s'.sessions = s.sessions) : Control s' := by
  obtain ⟨hu, hg, hh, hk, hst, he⟩ := h
  constructor
  · rw [hc, hn]; exact hu
  · rw [hc, hi]; exact hg
  · rw [hc, hi]; exact hh
  · rw [hc, hs]; exact hk
  · rw [hc, hs]; exact hst
  · rw [hc]; exact he

/-- One step keeps the guard and the handles in order. -/
theorem control_step {ownUid : UInt32} {l : Label} {s' : State} (h : Control s)
    (hl : Step ownUid s l s') : Control s' := by
  -- The guard's holder is the only call past `waiting`.
  have hone {i j : Nat} {c d : Call} (hc : s.calls i = some c) (hd : s.calls j = some d)
      (hci : c.stage.holds = true) (hdj : d.stage.holds = true) : j = i := by
    have hi := (h.holds i c hc).mp hci
    have hj := (h.holds j d hd).mp hdj
    rw [hi] at hj
    exact (Option.some.inj hj).symm
  -- A stored handle is never that of a call outside `spawned`.
  have hout {i j : Nat} {c : Call} {k : Str} (hc : s.calls i = some c)
      (hg : ∀ t, c.stage ≠ .spawned t) (hk : s.sessions k = some j) :
      j ≠ i ∧ s.sessions k = some j := by
    refine ⟨?_, hk⟩
    rintro rfl
    obtain ⟨d, t, hd, hst, -⟩ := h.handle k j hk
    rw [hc] at hd
    cases hd
    exact hg t hst
  cases hl with
  | beginAuthentication req => exact control_addCall h req
  | @acquire i c env inputs hc hg hf hb =>
    refine control_setCall h hc (by simp [Stage.holds]) ?_ ?_ (by simp) (fun _ _ _ _ _ _ ↦ rfl)
      (by simp)
    · intro j hj
      simp [hf, Ne.symm hj]
    · exact fun k j hk ↦ Or.inr (hout hc (by simp [hg]) hk)
  | @refuse i c env e hc hg hf =>
    refine control_setCall h hc (by simp [Stage.holds, hf]) (fun _ _ ↦ Iff.rfl) ?_ (by simp)
      (fun _ _ _ _ _ _ ↦ rfl) (by simp)
    exact fun k j hk ↦ Or.inr (hout hc (by simp [hg]) hk)
  | @spawn i c inputs hc hg =>
    have hci : c.stage.holds = true := by simp [hg, Stage.holds]
    refine control_setCall h hc (iff_of_true rfl ((h.holds i c hc).mp hci))
      (fun _ _ ↦ Iff.rfl) ?_ (by simp) ?_ (by simp)
    · intro k j hk
      by_cases hkc : k = c.request.cookie
      · simp only [hkc, Function.update_self, Option.some.injEq] at hk
        exact Or.inl ⟨hk.symm, _, rfl, hkc.symm⟩
      · rw [Function.update_of_ne hkc] at hk
        exact Or.inr (hout hc (by simp [hg]) hk)
    · intro j d t hji hd hst
      exact absurd (hone hc hd hci (by simp [hst, Stage.holds])) hji
  | @task i c t t' m sh hc hg ha hm =>
    have hci : c.stage.holds = true := by simp [hg, Stage.holds]
    refine control_setCall h hc (iff_of_true rfl ((h.holds i c hc).mp hci))
      (fun _ _ ↦ Iff.rfl) ?_ (fun _ _ _ ↦ h.stored i c t hc hg ha) (fun _ _ _ _ _ _ ↦ rfl)
      (by simp)
    intro k j hk
    by_cases hji : j = i
    · obtain ⟨d, u, hd, -, hdk⟩ := h.handle k j hk
      rw [hji, hc] at hd
      cases hd
      exact Or.inl ⟨hji, t', rfl, hdk⟩
    · exact Or.inr ⟨hji, hk⟩
  | @finish i c t hc hg he =>
    have hci : c.stage.holds = true := by simp [hg, Stage.holds]
    have hin := (h.holds i c hc).mp hci
    refine control_setCall h hc (by simp [Stage.holds]) ?_ ?_ (by simp) ?_ ?_
    · intro j hji
      simp [hin, Ne.symm hji]
    · intro k j hk
      by_cases hkc : k = c.request.cookie
      · simp [hkc] at hk
      · rw [Function.update_of_ne hkc] at hk
        refine Or.inr ⟨?_, hk⟩
        rintro rfl
        obtain ⟨d, u, hd, -, hdk⟩ := h.handle k j hk
        rw [hc] at hd
        cases hd
        exact hkc hdk.symm
    · intro j d u hji hd hst
      exact absurd (hone hc hd hci (by simp [hst, Stage.holds])) hji
    · intro u hu
      cases hu
      exact he
  | cancelDrain cookie => exact control_frame h rfl rfl rfl rfl
  | @cancelAbort n cookie hn =>
    have hf : Control { s with cancels := s.cancels.eraseIdx n } :=
      control_frame h rfl rfl rfl rfl
    exact control_abort hf cookie
  | takeApproval => exact control_frame h rfl rfl rfl rfl
  | tick d => exact control_frame h rfl rfl rfl rfl

/-- The guard and the handles are in order in every reachable state. -/
theorem control_run {ownUid : UInt32} {ls : List Label} (h : (system ownUid).Run ls s) :
    Control s :=
  (system ownUid).invariant Control (control_init ownUid)
    (fun _ _ _ hi hn ↦ control_step hi (step_of_next hn)) h

end Control

end Sentinel.Agent
