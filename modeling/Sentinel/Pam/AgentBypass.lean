import Sentinel.Base.Program
import Sentinel.Base.Str
import Sentinel.Base.Transition

/-!
# The bypass query on the system bus

Crate `pam-sentinel`, `query_agent` (`crates/pam-sentinel/src/agent_bypass.rs`). The query makes
two bus calls: it asks the bus for the uid that owns the agent's name, and then calls
`TakeApproval` on the name. A call to a name is delivered to whoever owns it at that moment, and
the name may change hands between any two calls. What follows is the query as a program over its
bus calls, and any number of queries on a bus whose name changes hands.
-/

namespace Sentinel.Pam.AgentBypass

open Sentinel.Base

/-- `AGENT_BUS_NAME`, `crates/sentinel-shared/src/lib.rs:71`. -/
def agentBusName : Str := "org.sentinel.Agent".toList

/-- `AGENT_OBJECT_PATH`, `crates/sentinel-shared/src/lib.rs:73`. -/
def agentObjectPath : Str := "/org/sentinel/Agent".toList

/-- `AGENT_INTERFACE`, `crates/sentinel-shared/src/lib.rs:75`. -/
def agentInterface : Str := "org.sentinel.Agent".toList

/-- What the query asks of the bus library: the connection, the two proxies and the two calls. -/
inductive BusCall where
  | system
  | dbusProxy
  | getConnectionUnixUser (name : Str)
  | proxy (name path interface : Str)
  | call (name path interface method : Str)
  deriving DecidableEq, Repr

/-- What a bus call returns when it does not fail. -/
abbrev BusCall.Value : BusCall → Type
  | .system => Unit
  | .dbusProxy => Unit
  | .getConnectionUnixUser _ => UInt32
  | .proxy _ _ _ => Unit
  | .call _ _ _ _ => Bool

/-- A query; no result is an error. -/
abbrev Query : Type := Program BusCall (fun e ↦ Option e.Value) (Option Bool)

/-- The `?` behind a bus call: an error ends the query. -/
def orFail {α : Type} (k : α → Query) : Option α → Query
  | some value => k value
  | none => .pure none

/-- A bus call with `?`. -/
def ask (e : BusCall) (k : e.Value → Query) : Query := .call e (orFail k)

/-- The call of the agent, `agent_bypass.rs:87-88`. -/
def takeApproval : Query :=
  ask (.call agentBusName agentObjectPath agentInterface "TakeApproval".toList)
    (fun approved ↦ .pure (some approved))

/-- What follows a passed owner check, `agent_bypass.rs:81-88`. -/
def vouched : Query :=
  ask (.proxy agentBusName agentObjectPath agentInterface) (fun _ ↦ takeApproval)

/-- The owner check, `agent_bypass.rs:71-79`. -/
def checkOwner (uid : UInt32) : Query :=
  ask (.getConnectionUnixUser agentBusName) (fun ownerUid ↦
    if ownerUid ≠ uid then .pure (some false) else vouched)

/-- `query_agent`, `agent_bypass.rs:65-89`. -/
def queryAgent (uid : UInt32) : Query :=
  ask .system (fun _ ↦ ask .dbusProxy (fun _ ↦ checkOwner uid))

/-- A call with `?` finds an approval when it does not fail and what follows finds one. -/
theorem eval_ask_iff (bus : (e : BusCall) → Option e.Value) (e : BusCall) (k : e.Value → Query) :
    (ask e k).eval bus = some true ↔ ∃ v, bus e = some v ∧ (k v).eval bus = some true := by
  rw [ask, Program.eval_call]
  cases bus e with
  | none =>
    constructor
    · intro h
      cases h
    · rintro ⟨v, hv, -⟩
      cases hv
  | some v =>
    constructor
    · intro h
      exact ⟨v, rfl, h⟩
    · rintro ⟨v', hv, h⟩
      cases hv
      exact h

/-- Under a bus that answers every call the query finds an approval exactly when nothing fails,
the name is owned by the uid and the call returns an approval. -/
theorem eval_queryAgent_iff (uid : UInt32) (bus : (e : BusCall) → Option e.Value) :
    (queryAgent uid).eval bus = some true ↔
      bus .system = some () ∧ bus .dbusProxy = some () ∧
        bus (.getConnectionUnixUser agentBusName) = some uid ∧
        bus (.proxy agentBusName agentObjectPath agentInterface) = some () ∧
        bus (.call agentBusName agentObjectPath agentInterface "TakeApproval".toList) =
          some true := by
  constructor
  · intro h
    obtain ⟨⟨⟩, hs, h⟩ := (eval_ask_iff bus _ _).mp h
    obtain ⟨⟨⟩, hd, h⟩ := (eval_ask_iff bus _ _).mp h
    obtain ⟨ownerUid, ho, h⟩ := (eval_ask_iff bus _ _).mp h
    by_cases hne : ownerUid ≠ uid
    · rw [if_pos hne] at h
      cases h
    · rw [if_neg hne] at h
      obtain ⟨⟨⟩, hp, h⟩ := (eval_ask_iff bus _ _).mp h
      obtain ⟨approved, ha, h⟩ := (eval_ask_iff bus _ _).mp h
      cases h
      rw [not_not] at hne
      exact ⟨hs, hd, hne ▸ ho, hp, ha⟩
  · rintro ⟨hs, hd, ho, hp, ha⟩
    refine (eval_ask_iff bus _ _).mpr ⟨(), hs, (eval_ask_iff bus _ _).mpr ⟨(), hd, ?_⟩⟩
    refine (eval_ask_iff bus _ _).mpr ⟨uid, ho, ?_⟩
    rw [if_neg (not_not.mpr rfl)]
    exact (eval_ask_iff bus _ _).mpr ⟨(), hp, (eval_ask_iff bus _ _).mpr ⟨true, ha, rfl⟩⟩

/-! ### Queries while the name changes hands -/

/-- A connection to the bus, with the uid of its process. -/
structure Connection where
  id : Nat
  uid : UInt32
  deriving DecidableEq, Repr

/-- A running query: the uid it is for, what it still has to do and the connection that its call
was delivered to. -/
structure Client where
  uid : UInt32
  prog : Query
  answeredBy : Option Connection := none

/-- The bus: the owner of the agent's name and the queries, numbered as they come. -/
structure State where
  owner : Option Connection := none
  clients : Nat → Option Client := fun _ ↦ none
  nextClient : Nat := 0

/-- The steps, with every choice of the environment: the name changes hands, a query starts, and
a query's next bus call is answered. -/
inductive Label where
  | own (c : Option Connection)
  | start (uid : UInt32)
  | ready (i : Nat) (ok : Bool)
  | check (i : Nat) (ok : Bool)
  | deliver (i : Nat) (reply : Option Bool)

namespace State

/-- Replace a query. -/
def setClient (s : State) (i : Nat) (q : Client) : State :=
  { s with clients := Function.update s.clients i (some q) }

/-- A query starts. -/
def addClient (s : State) (uid : UInt32) : State :=
  { s.setClient s.nextClient { uid, prog := queryAgent uid } with nextClient := s.nextClient + 1 }

/-- The owner of a name: only the agent's name is on this bus. -/
def ownerOf (s : State) (name : Str) : Option Connection :=
  if name = agentBusName then s.owner else none

end State

/-- One step. -/
def next (s : State) : Label → Option State
  | .own c => some { s with owner := c }
  | .start uid => some (s.addClient uid)
  | .ready i ok =>
    match s.clients i with
    | some q =>
      match q.prog with
      | .call .system k => some (s.setClient i { q with prog := k (if ok then some () else none) })
      | .call .dbusProxy k =>
        some (s.setClient i { q with prog := k (if ok then some () else none) })
      | .call (.proxy _ _ _) k =>
        some (s.setClient i { q with prog := k (if ok then some () else none) })
      | _ => none
    | none => none
  | .check i ok =>
    match s.clients i with
    | some q =>
      match q.prog with
      | .call (.getConnectionUnixUser name) k =>
        some (s.setClient i { q with
          prog := k (if ok then (s.ownerOf name).map Connection.uid else none) })
      | _ => none
    | none => none
  | .deliver i reply =>
    match s.clients i with
    | some q =>
      match q.prog with
      | .call (.call name _ _ _) k =>
        some (s.setClient i { q with
          prog := k (if (s.ownerOf name).isSome then reply else none)
          answeredBy := s.ownerOf name })
      | _ => none
    | none => none

/-- The bus as a transition system. -/
def system : Transition State Label := ⟨{}, next⟩

/-- Every query that found an approval had its call answered by a connection of its uid. -/
def AntiSquat (s : State) : Prop :=
  ∀ i q, s.clients i = some q → q.prog = .pure (some true) →
    ∃ c, q.answeredBy = some c ∧ c.uid = q.uid

/-- A query between its owner check and the answer to its call. -/
def pastCheck : Query → Bool
  | .call (.proxy _ _ _) _ => true
  | .call (.call _ _ _ _) _ => true
  | _ => false

/-- While a query is past its owner check, the name is not taken over by another uid. -/
def Steady (s : State) : Label → Prop
  | .own (some c) => ∀ i q, s.clients i = some q → pastCheck q.prog = true → c.uid = q.uid
  | _ => True

/-- Where a query for a uid can stand, by who owns the name: in front of its owner check, past it
with the name in the hands of the uid or of nobody, or returned, with an approval only from a
connection of the uid. -/
inductive Stand (owner : Option Connection) (uid : UInt32) : Query → Option Connection → Prop where
  | system (a : Option Connection) : Stand owner uid (queryAgent uid) a
  | dbusProxy (a : Option Connection) :
      Stand owner uid (ask .dbusProxy (fun _ ↦ checkOwner uid)) a
  | check (a : Option Connection) : Stand owner uid (checkOwner uid) a
  | vouched (a : Option Connection) (ho : ∀ c, owner = some c → c.uid = uid) :
      Stand owner uid vouched a
  | call (a : Option Connection) (ho : ∀ c, owner = some c → c.uid = uid) :
      Stand owner uid takeApproval a
  | failed (a : Option Connection) : Stand owner uid (.pure none) a
  | refused (a : Option Connection) : Stand owner uid (.pure (some false)) a
  | approved {c : Connection} (hc : c.uid = uid) : Stand owner uid (.pure (some true)) (some c)

/-- The name changes hands, but is not taken over from a query past its check. -/
theorem Stand.own {owner : Option Connection} {uid : UInt32} {prog : Query}
    {a : Option Connection} (h : Stand owner uid prog a) (c : Option Connection)
    (hs : ∀ d, c = some d → pastCheck prog = true → d.uid = uid) : Stand c uid prog a := by
  cases h with
  | system => exact .system a
  | dbusProxy => exact .dbusProxy a
  | check => exact .check a
  | vouched => exact .vouched a (fun d hd ↦ hs d hd rfl)
  | call => exact .call a (fun d hd ↦ hs d hd rfl)
  | failed => exact .failed a
  | refused => exact .refused a
  | approved hc => exact .approved hc

/-- The answer to the owner check: only the owner's own uid is vouched for. -/
theorem stand_checked {s : State} (uid : UInt32) (a : Option Connection) (ok : Bool) :
    Stand s.owner uid
      (orFail (fun ownerUid ↦ if ownerUid ≠ uid then .pure (some false) else vouched)
        (if ok then (s.ownerOf agentBusName).map Connection.uid else none)) a := by
  cases ok with
  | false => exact .failed a
  | true =>
    simp only [if_true, State.ownerOf]
    cases ho : s.owner with
    | none => exact .failed a
    | some c =>
      simp only [Option.map_some, orFail]
      by_cases hc : c.uid = uid
      · rw [if_neg (not_not.mpr hc)]
        refine .vouched a (fun d hd ↦ ?_)
        cases hd
        exact hc
      · rw [if_pos hc]
        exact .refused a

/-- The answer to the call: with the name in the hands of the uid, only the uid can approve. -/
theorem stand_delivered {s : State} {uid : UInt32} (ho : ∀ c, s.owner = some c → c.uid = uid)
    (reply : Option Bool) :
    Stand s.owner uid
      (orFail (fun approved ↦ .pure (some approved))
        (if (s.ownerOf agentBusName).isSome then reply else none)) (s.ownerOf agentBusName) := by
  simp only [State.ownerOf, if_true]
  cases hc : s.owner with
  | none => exact .failed none
  | some c =>
    match reply with
    | none => exact .failed _
    | some false => exact .refused _
    | some true => exact .approved (ho c hc)

/-- Every query stands somewhere. -/
def Inv (s : State) : Prop :=
  ∀ i q, s.clients i = some q → Stand s.owner q.uid q.prog q.answeredBy

private theorem inv_setClient {s : State} (h : Inv s) (i : Nat) {q : Client}
    (hq : Stand s.owner q.uid q.prog q.answeredBy) : Inv (s.setClient i q) := by
  intro j d hd
  obtain ⟨-, rfl⟩ | ⟨-, hd⟩ := slot_update_cases hd
  · exact hq
  · exact h j d hd

private theorem inv_ready {s s' : State} {i : Nat} {ok : Bool} (h : Inv s)
    (hn : next s (.ready i ok) = some s') : Inv s' := by
  simp only [next] at hn
  split at hn
  next q hc =>
    have hq := h i q hc
    obtain ⟨uid, prog, a⟩ := q
    change Stand s.owner uid prog a at hq
    cases hq with
    | system =>
      cases hn
      cases ok with
      | true => exact inv_setClient h i (.dbusProxy a)
      | false => exact inv_setClient h i (.failed a)
    | dbusProxy =>
      cases hn
      cases ok with
      | true => exact inv_setClient h i (.check a)
      | false => exact inv_setClient h i (.failed a)
    | vouched _ ho =>
      cases hn
      cases ok with
      | true => exact inv_setClient h i (.call a ho)
      | false => exact inv_setClient h i (.failed a)
    | _ => cases hn
  next => cases hn

private theorem inv_check {s s' : State} {i : Nat} {ok : Bool} (h : Inv s)
    (hn : next s (.check i ok) = some s') : Inv s' := by
  simp only [next] at hn
  split at hn
  next q hc =>
    have hq := h i q hc
    obtain ⟨uid, prog, a⟩ := q
    change Stand s.owner uid prog a at hq
    cases hq with
    | check =>
      cases hn
      exact inv_setClient h i (stand_checked uid a ok)
    | _ => cases hn
  next => cases hn

private theorem inv_deliver {s s' : State} {i : Nat} {reply : Option Bool} (h : Inv s)
    (hn : next s (.deliver i reply) = some s') : Inv s' := by
  simp only [next] at hn
  split at hn
  next q hc =>
    have hq := h i q hc
    obtain ⟨uid, prog, a⟩ := q
    change Stand s.owner uid prog a at hq
    cases hq with
    | call _ ho =>
      cases hn
      exact inv_setClient h i (stand_delivered ho reply)
    | _ => cases hn
  next => cases hn

/-- A step that takes the name from no query past its check keeps every query standing. -/
theorem inv_next {s s' : State} {l : Label} (h : Inv s) (hl : Steady s l)
    (hn : next s l = some s') : Inv s' := by
  cases l with
  | own c =>
    cases hn
    intro i q hq
    refine (h i q hq).own c (fun d hd hpast ↦ ?_)
    rw [hd] at hl
    exact hl i q hq hpast
  | start uid =>
    cases hn
    exact inv_setClient h s.nextClient (.system none)
  | ready i ok => exact inv_ready h hn
  | check i ok => exact inv_check h hn
  | deliver i reply => exact inv_deliver h hn

/-- In every run in which the name is taken over by no other uid while a query is between its
owner check and the answer to its call, an approval comes from a connection of the query's uid. -/
theorem query_answered_by_uid {ls : List Label} {s : State} (hl : system.Meets Steady {} ls)
    (h : system.Run ls s) : AntiSquat s := by
  have hi : Inv s := system.meets_invariant Steady Inv (fun _ _ _ hi hc hn ↦ inv_next hi hc hn)
    (fun i q hq ↦ by cases hq) hl h
  intro i q hq hp
  have hs := hi i q hq
  rw [hp] at hs
  cases ha : q.answeredBy with
  | none => rw [ha] at hs; cases hs
  | some c =>
    rw [ha] at hs
    cases hs with
    | approved hc => exact ⟨c, rfl, hc⟩

/-- The agent of uid 1000 owns the name, and a query for 1000 comes up to its owner check. -/
def untilCheck : List Label :=
  [.own (some ⟨0, 1000⟩), .start 1000, .ready 0 true, .ready 0 true, .check 0 true]

/-- The agent answers the call. -/
def answeredByAgent : List Label := untilCheck ++ [.ready 0 true, .deliver 0 (some true)]

/-- The state behind it. -/
def answeredState : State := (system.exec {} answeredByAgent).getD {}

/-- Nobody takes the name, and the approval is the agent's. -/
theorem answeredByAgent_steady : system.Run answeredByAgent answeredState ∧
    (∃ q, answeredState.clients 0 = some q ∧ q.prog = .pure (some true)) ∧
    AntiSquat answeredState := by
  have hrun : system.Run answeredByAgent answeredState := rfl
  refine ⟨hrun, ⟨_, rfl, rfl⟩, query_answered_by_uid ?_ hrun⟩
  refine And.intro ?_ (And.intro trivial (And.intro trivial (And.intro trivial
    (And.intro trivial (And.intro trivial (And.intro trivial trivial))))))
  intro i q hq
  cases hq

/-- The agent leaves behind the owner check, a connection of uid 1001 takes the name over and
answers the call. -/
def answeredBySquatter : List Label :=
  untilCheck ++ [.own none, .own (some ⟨1, 1001⟩), .ready 0 true, .deliver 0 (some true)]

/-- The query for 1000 finds the approval of uid 1001. -/
theorem squatter_approves :
    ∃ s q, system.Run answeredBySquatter s ∧ s.clients 0 = some q ∧ q.uid = 1000 ∧
      q.prog = .pure (some true) ∧ q.answeredBy = some ⟨1, 1001⟩ ∧ ¬ AntiSquat s := by
  refine ⟨_, _, rfl, rfl, rfl, rfl, rfl, ?_⟩
  intro h
  obtain ⟨c, hc, hu⟩ := h 0 _ rfl rfl
  cases hc
  revert hu
  decide

end Sentinel.Pam.AgentBypass
