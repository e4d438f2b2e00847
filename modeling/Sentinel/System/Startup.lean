import Mathlib.Data.List.Infix
import Sentinel.Pam.AgentBypass
import Sentinel.Pam.Authenticate

/-!
# How the agent comes up

Crate `sentinel-polkit-agent`: `run` with `is_agent_already_registered`,
`crates/sentinel-polkit-agent/src/main.rs:83-213`, and `resolve_session_id`,
`crates/sentinel-polkit-agent/src/subject.rs:30-50`. polkitd hands out requests from the moment it
has registered the agent, so whatever answers the PAM module stands before; and while a competitor
holds the registration, the agent tries again.
-/

namespace Sentinel.System.Startup

open Sentinel.Base
open Sentinel.Pam (envVar)
open Sentinel.Pam.AgentBypass (agentBusName agentObjectPath)

/-- What the process is started with: `--session-id`, its environment and its own
`/proc/self/sessionid`. -/
structure Launch where
  sessionIdArg : Option Str := none
  env : Str → Option Bytes := fun _ ↦ none
  sessionid : Option Bytes := none

/-- `resolve_session_id`, `subject.rs:30-50`; none is its error. -/
def resolveSessionId (l : Launch) : Option Str :=
  match l.sessionIdArg with
  | some s => some s
  | none =>
    match (envVar l.env "XDG_SESSION_ID").filter fun s ↦ s ≠ [] with
    | some s => some s
    | none => ((l.sessionid.bind fromUtf8).map trim).filter fun s ↦
        s ≠ [] && s ≠ "4294967295".toList

/-- `zbus::Error`, as far as it is told apart. -/
inductive BusError where
  | methodError (name : Str) (detail : Option Str)
  | other
  deriving DecidableEq, Repr

/-- `is_agent_already_registered`, `main.rs:203-213`. -/
def isAgentAlreadyRegistered : BusError → Bool
  | .methodError name detail =>
    ".Error.Failed".toList.isSuffixOf name &&
      detail.any fun d ↦ decide ("already exists".toList <:+: d)
  | .other => false

/-- `AGENT_OBJECT_PATH` of the binary, `main.rs:11`. -/
def polkitObjectPath : Str := "/com/github/sentinel/PolkitAgent".toList

/-- What `run` asks of the bus, of polkitd and of its runtime. -/
inductive Step where
  | system
  | publish (path : Str)
  | requestName (name : Str)
  | authorityProxy
  | register (sessionId path : Str)
  | sleep (ms : Nat)
  | signal (name : String)
  | awaitSignal
  | unregister (sessionId path : Str)
  deriving DecidableEq, Repr

/-- The answers: whether a step succeeded, and the error of a registration that did not. -/
abbrev Step.Reply : Step → Type
  | .register _ _ => Option BusError
  | .sleep _ => Unit
  | .awaitSignal => Unit
  | _ => Bool

/-- A start of the agent, which ends well or with an error. -/
abbrev Start : Type := Program Step Step.Reply Bool

/-- The `?` behind a step. -/
def orFail (k : Start) (ok : Bool) : Start := if ok then k else .pure false

/-- `REGISTER_RETRIES`, `main.rs:128`. -/
def registerRetries : Nat := 8

/-- `REGISTER_BACKOFF` in milliseconds, `main.rs:129`. -/
def registerBackoff : Nat := 500

/-- The registration loop, `main.rs:132-171`, with its attempts left. -/
def registerLoop (sessionId : Str) (registered : Start) : Nat → Start
  | 0 => .pure false
  | n + 1 =>
    .call (.register sessionId polkitObjectPath) fun
      | none => registered
      | some e =>
        if isAgentAlreadyRegistered e then
          .call (.sleep registerBackoff) fun _ ↦ registerLoop sessionId registered n
        else .pure false

/-- What follows the registration, `main.rs:173-190`. -/
def registered (sessionId : Str) : Start :=
  .call (.signal "SIGTERM") <| orFail <|
  .call (.signal "SIGINT") <| orFail <|
  .call .awaitSignal fun _ ↦
  .call (.unregister sessionId polkitObjectPath) fun _ ↦ .pure true

/-- What follows the subject, `main.rs:93-190`. -/
def serve (sessionId : Str) : Start :=
  .call (.publish polkitObjectPath) <| orFail <|
  .call (.publish agentObjectPath) <| orFail <|
  .call (.requestName agentBusName) <| orFail <|
  .call .authorityProxy <| orFail <|
  registerLoop sessionId (registered sessionId) registerRetries

/-- `run`, `main.rs:83-191`. -/
def run (l : Launch) : Start :=
  .call .system <| orFail <|
  match resolveSessionId l with
  | some sessionId => serve sessionId
  | none => .pure false

/-! ### Before polkitd is told -/

/-- A step with its answer. -/
abbrev Event : Type := Sigma Step.Reply

/-- A step that ends the start by its answer. A registration does so unless another agent is
registered, and what polkitd says to the withdrawal does not count. -/
def Event.fails : Event → Bool
  | ⟨.register _ _, answer⟩ => answer.any fun e ↦ !isAgentAlreadyRegistered e
  | ⟨.sleep _, _⟩ | ⟨.awaitSignal, _⟩ | ⟨.unregister _ _, _⟩ => false
  | ⟨.system, ok⟩ | ⟨.publish _, ok⟩ | ⟨.requestName _, ok⟩ | ⟨.authorityProxy, ok⟩
  | ⟨.signal _, ok⟩ => !ok

/-- The agent stands on the bus: under the name and at the path that the PAM module asks. -/
def opened : List Event :=
  [⟨.system, true⟩, ⟨.publish polkitObjectPath, true⟩, ⟨.publish agentObjectPath, true⟩,
    ⟨.requestName agentBusName, true⟩, ⟨.authorityProxy, true⟩]

/-- An attempt that polkitd has refused, and the backoff behind it. -/
def refused (sessionId : Str) (e : BusError) : List Event :=
  [⟨.register sessionId polkitObjectPath, some e⟩, ⟨.sleep registerBackoff, ()⟩]

/-- A step is taken only when none has failed, and polkitd is asked to register the agent of this
session only when that stands on the bus and has been refused fewer than eight times, each time for
a competitor. -/
structure Orderly (l : Launch) (tr : List Event) (step : Step) : Prop where
  clean : ∀ ev ∈ tr, ev.fails = false
  registers : ∀ sessionId path, step = .register sessionId path →
    resolveSessionId l = some sessionId ∧ path = polkitObjectPath ∧
      ∃ errors : List BusError, errors.length < registerRetries ∧
        tr = opened ++ errors.flatMap (refused sessionId)

section Order

variable {l : Launch} {tr : List Event} {sessionId : Str}

private theorem clean_concat (last : Event) (h : ∀ ev ∈ tr, ev.fails = false)
    (hlast : last.fails = false) : ∀ ev ∈ tr ++ [last], ev.fails = false := by
  intro ev hmem
  rcases List.mem_append.mp hmem with hmem | hmem
  · exact h ev hmem
  · rw [List.mem_singleton.mp hmem]
    exact hlast

private theorem orFail_behind {k : Start} {P : List Event → Step → Prop}
    {behind : Bool → List Event} (hk : k.EveryCallBehind P (behind true)) :
    ∀ ok, (orFail k ok).EveryCallBehind P (behind ok)
  | true => hk
  | false => trivial

private theorem registered_orderly (h : ∀ ev ∈ tr, ev.fails = false) :
    (registered sessionId).EveryCallBehind (Orderly l) tr := by
  have hterm := clean_concat ⟨.signal "SIGTERM", true⟩ h rfl
  have hint := clean_concat ⟨.signal "SIGINT", true⟩ hterm rfl
  have hwait := clean_concat ⟨.awaitSignal, ()⟩ hint rfl
  refine ⟨⟨h, nofun⟩, orFail_behind ?_⟩
  refine ⟨⟨hterm, nofun⟩, orFail_behind ?_⟩
  exact ⟨⟨hint, nofun⟩, fun _ ↦ ⟨⟨hwait, nofun⟩, fun _ ↦ trivial⟩⟩

/-- The loop goes on behind the attempts that were refused so far. -/
private theorem registerLoop_orderly (hl : resolveSessionId l = some sessionId) {n : Nat}
    (errors : List BusError) (hn : errors.length + n ≤ registerRetries)
    (h : ∀ ev ∈ opened ++ errors.flatMap (refused sessionId), ev.fails = false) :
    (registerLoop sessionId (registered sessionId) n).EveryCallBehind (Orderly l)
      (opened ++ errors.flatMap (refused sessionId)) := by
  induction n generalizing errors with
  | zero => trivial
  | succ n ih =>
    refine ⟨⟨h, ?_⟩, fun answer ↦ ?_⟩
    · rintro _ _ ⟨⟩
      exact ⟨hl, rfl, errors, by omega, rfl⟩
    · match answer with
      | none => exact registered_orderly (clean_concat _ h rfl)
      | some e =>
        dsimp only
        split
        next he =>
          have hasked := clean_concat ⟨.register sessionId polkitObjectPath, some e⟩ h
            (by simp [Event.fails, he])
          refine ⟨⟨hasked, nofun⟩, fun _ ↦ ?_⟩
          have hslept := clean_concat ⟨.sleep registerBackoff, ()⟩ hasked rfl
          have htr : opened ++ (errors ++ [e]).flatMap (refused sessionId) =
              opened ++ errors.flatMap (refused sessionId) ++
                [⟨.register sessionId polkitObjectPath, some e⟩] ++
                [⟨.sleep registerBackoff, ()⟩] := by
            simp [refused]
          have hlength : (errors ++ [e]).length + n ≤ registerRetries := by
            rw [List.length_append, List.length_singleton]
            omega
          rw [← htr] at hslept ⊢
          exact ih (errors ++ [e]) hlength hslept
        next => trivial

end Order

/-- Whatever the bus answers: a start ends at the first step that fails, and polkitd is told of the
agent only when the agent stands on the bus under the name and at the path that the PAM module asks,
and at most eight times, again only behind a competitor. -/
theorem start_orderly (l : Launch) : (run l).EveryCallBehind (Orderly l) [] := by
  refine ⟨⟨by decide, nofun⟩, orFail_behind ?_⟩
  cases hl : resolveSessionId l with
  | none => trivial
  | some sessionId =>
    refine ⟨⟨by decide, nofun⟩, orFail_behind ?_⟩
    refine ⟨⟨by decide, nofun⟩, orFail_behind ?_⟩
    refine ⟨⟨by decide, nofun⟩, orFail_behind ?_⟩
    refine ⟨⟨by decide, nofun⟩, orFail_behind ?_⟩
    have hopened : ∀ ev ∈ opened, ev.fails = false := by decide
    exact registerLoop_orderly hl [] (by decide) hopened

/-! ### Against a competitor -/

/-- A host by its clock in milliseconds: which steps succeed, and what polkitd says to a
registration at each time. Only the backoff takes time. -/
def answers (up : Step → Bool) (authority : Nat → Option BusError) :
    (e : Step) → Nat → e.Reply × Nat
  | .register _ _, t => (authority t, t)
  | .sleep ms, t => ((), t + ms)
  | .awaitSignal, t => ((), t)
  | .system, t => (up .system, t)
  | .publish path, t => (up (.publish path), t)
  | .requestName name, t => (up (.requestName name), t)
  | .authorityProxy, t => (up .authorityProxy, t)
  | .signal name, t => (up (.signal name), t)
  | .unregister sessionId path, t => (up (.unregister sessionId path), t)

/-- The agent gets through: at one of the attempts polkitd takes it, and at all before somebody else
is registered. -/
def GetsThrough (authority : Nat → Option BusError) (n t : Nat) : Prop :=
  ∃ k < n, authority (t + registerBackoff * k) = none ∧
    ∀ j < k, ∃ e, authority (t + registerBackoff * j) = some e ∧ isAgentAlreadyRegistered e = true

section Competitor

variable {up : Step → Bool} {authority : Nat → Option BusError} {sessionId : Str} {n t : Nat}

private theorem getsThrough_zero : ¬ GetsThrough authority 0 t := by
  rintro ⟨k, hk, -⟩
  omega

private theorem getsThrough_now (h : authority t = none) : GetsThrough authority (n + 1) t :=
  ⟨0, by omega, h, fun j hj ↦ absurd hj (Nat.not_lt_zero j)⟩

private theorem getsThrough_later {e : BusError} (h : authority t = some e) :
    GetsThrough authority (n + 1) t ↔
      isAgentAlreadyRegistered e = true ∧ GetsThrough authority n (t + registerBackoff) := by
  have hshift (k : Nat) :
      t + registerBackoff * (k + 1) = t + registerBackoff + registerBackoff * k := by
    rw [Nat.mul_succ]
    omega
  constructor
  · rintro ⟨k, hk, hfree, hheld⟩
    cases k with
    | zero =>
      rw [Nat.mul_zero, Nat.add_zero, h] at hfree
      cases hfree
    | succ k =>
      obtain ⟨e', he', hheld'⟩ := hheld 0 (Nat.succ_pos k)
      rw [Nat.mul_zero, Nat.add_zero, h] at he'
      cases he'
      refine ⟨hheld', k, by omega, hshift k ▸ hfree, fun j hj ↦ ?_⟩
      rw [← hshift]
      exact hheld (j + 1) (by omega)
  · rintro ⟨he, k, hk, hfree, hheld⟩
    refine ⟨k + 1, by omega, (hshift k).symm ▸ hfree, fun j hj ↦ ?_⟩
    cases j with
    | zero => exact ⟨e, h, he⟩
    | succ j =>
      rw [hshift]
      exact hheld j (by omega)

private theorem registerLoop_iff (k : Start)
    (hk : ∀ t, (k.evalState (answers up authority) t).1 = true ↔
      up (.signal "SIGTERM") = true ∧ up (.signal "SIGINT") = true) :
    ((registerLoop sessionId k n).evalState (answers up authority) t).1 = true ↔
      (up (.signal "SIGTERM") = true ∧ up (.signal "SIGINT") = true) ∧
        GetsThrough authority n t := by
  induction n generalizing t with
  | zero =>
    constructor
    · intro h
      cases h
    · rintro ⟨-, h⟩
      exact absurd h getsThrough_zero
  | succ n ih =>
    simp only [registerLoop, Program.evalState_call, answers]
    cases h : authority t with
    | none =>
      rw [hk]
      exact ⟨fun hup ↦ ⟨hup, getsThrough_now h⟩, fun hup ↦ hup.1⟩
    | some e =>
      rw [getsThrough_later h]
      dsimp only
      split
      next he =>
        simp only [Program.evalState_call, answers]
        refine Iff.trans ih ?_
        rw [he]
        tauto
      next he =>
        constructor
        · intro hf
          cases hf
        · rintro ⟨-, hheld, -⟩
          exact absurd hheld he

private theorem eval_orFail {k : Start} {ok : Bool} :
    ((orFail k ok).evalState (answers up authority) t).1 = true ↔
      ok = true ∧ (k.evalState (answers up authority) t).1 = true := by
  cases ok with
  | false => exact iff_of_false Bool.false_ne_true fun h ↦ Bool.false_ne_true h.1
  | true => exact (and_iff_right rfl).symm

private theorem eval_registered :
    ((registered sessionId).evalState (answers up authority) t).1 = true ↔
      up (.signal "SIGTERM") = true ∧ up (.signal "SIGINT") = true := by
  simp only [registered, Program.evalState_call, answers, eval_orFail]
  exact and_congr_right fun _ ↦ and_iff_left rfl

end Competitor

/-- What has to succeed besides the registration: the steps in front of it and the two signal
handlers. -/
def needed : List Step :=
  [.system, .publish polkitObjectPath, .publish agentObjectPath, .requestName agentBusName,
    .authorityProxy, .signal "SIGTERM", .signal "SIGINT"]

/-- The agent serves, and ends well, exactly when nothing else fails, it knows its session, and
polkitd takes it at one of eight attempts half a second apart, with nothing but competitors in front
of it. -/
theorem start_serves_iff (l : Launch) (up : Step → Bool) (authority : Nat → Option BusError)
    (t : Nat) :
    ((run l).evalState (answers up authority) t).1 = true ↔
      (∀ e ∈ needed, up e = true) ∧ (resolveSessionId l).isSome = true ∧
        GetsThrough authority registerRetries t := by
  simp only [run, Program.evalState_call, answers, eval_orFail, needed, List.forall_mem_cons,
    List.not_mem_nil, false_imp_iff, implies_true, and_true]
  cases resolveSessionId l with
  | none =>
    refine iff_of_false ?_ ?_
    · rintro ⟨-, h⟩
      cases h
    · rintro ⟨-, h, -⟩
      cases h
  | some sessionId =>
    simp only [serve, Program.evalState_call, answers, eval_orFail,
      registerLoop_iff _ fun _ ↦ eval_registered, Option.isSome_some, true_and]
    tauto

/-- What polkitd says while another agent is registered. -/
def held : BusError :=
  .methodError "org.freedesktop.PolicyKit1.Error.Failed".toList
    (some "An authentication agent already exists for the given subject".toList)

/-- A competitor that lets go of the registration is outlasted for three and a half seconds. -/
theorem outlasts_competitor_iff (lets : Nat) :
    GetsThrough (fun t ↦ if t < lets then some held else none) registerRetries 0 ↔
      lets ≤ 3500 := by
  have hheld : isAgentAlreadyRegistered held = true := by decide +kernel
  simp only [GetsThrough, registerRetries, registerBackoff, Nat.zero_add]
  constructor
  · rintro ⟨k, hk, hfree, -⟩
    split at hfree
    next => cases hfree
    next hge => omega
  · intro hle
    refine ⟨(lets + 499) / 500, by omega, if_neg (by omega), fun j hj ↦ ?_⟩
    exact ⟨held, if_pos (by omega), hheld⟩

end Sentinel.System.Startup
