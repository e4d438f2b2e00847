import Sentinel.Broker.Postcard
import Sentinel.Pam.Authenticate

/-!
# The remember decision and the environment of the host process

A host is a map from socket paths to the servers that listen there. A run is evaluated
against it with `roundtrip_at` over real frames. The broker's path is read from the
environment, so the environments under which only the broker at the default path can answer
are exactly those that name no other path.
-/

namespace Sentinel.Pam

open Sentinel.Base Sentinel.Shared Sentinel.Broker

/-- A server at a socket: what it sends back for the bytes it received. -/
abbrev Server : Type := Bytes → Bytes

/-- `roundtrip_at`, `broker_client.rs:37-43`: connect, write, read; none on any failure. -/
def roundtripOver (wire : Wire) (sockets : Str → Option Server) (sock : Str) (req : Request) :
    Option Response :=
  match sockets sock with
  | none => none
  | some server =>
    match writeFrame wire.request req with
    | .error _ => none
    | .ok frame => (readFrame wire.response (server frame)).1.toOption

/-- The answers of a host, an agent and a dialog helper. -/
def answers (wire : Wire) (sockets : Str → Option Server) (agent : UInt32 → Option Bool)
    (dialog : HelperRequest → Option Verdict) : (c : Call) → Answer c
  | .queryAgent uid => agent uid
  | .roundtrip sock req => roundtripOver wire sockets sock req
  | .runHelper req => dialog req

variable {wire : Wire} {sockets : Str → Option Server} {agent : UInt32 → Option Bool}
  {dialog : HelperRequest → Option Verdict}

/-- `check_remember` is the answer of the server at the resolved path. -/
theorem eval_checkRemember (env : Str → Option Bytes) (key : RememberKey) (ttl : UInt32) :
    (checkRemember env key ttl).eval (answers wire sockets agent dialog) =
      (roundtripOver wire sockets (sockPath env) (.checkRemember ⟨key, ttl⟩) ==
        some (.remember true)) := rfl

/-- A run returns through the remember window only on a fresh answer of the server at the path
the environment resolves to. -/
theorem eval_source_remember {w : World}
    (h : ((smAuthenticate w).eval (answers wire sockets agent dialog)).source = .remember) :
    ∃ p key, decideEarly w = .inr p ∧ p.key = some key ∧
      roundtripOver wire sockets (sockPath w.env)
        (.checkRemember ⟨key, p.cfg.rememberSeconds⟩) = some (.remember true) := by
  obtain ⟨p, hp, key, hk, -, hr⟩ := granted_of_source_remember h
  rw [(decideEarly_inr hp).1] at hr
  exact ⟨p, key, hp, hk, hr⟩

/-! ### Environments that name another socket -/

/-- `sudo id` from a login session with a display and a remember window, under any
environment. -/
def promptWorld (env : Str → Option Bytes) : World where
  getUser := none
  userItem := none
  serviceItem := some (CStr.ofText "sudo")
  passwdByName := fun _ ↦ none
  passwdByUid := fun _ ↦ none
  env
  runtimeDir := fun _ ↦ some [⟨toUtf8 "wayland-0".toList, true⟩]
  document :=
    { services := fun s ↦
        if s = "sudo".toList then some { rememberSeconds := some 300 } else none }
  host :=
    { fs := fun p ↦
        if p = 7 then { loginuid := some (toUtf8 "1000".toList),
                        sessionid := some (toUtf8 "3".toList) }
        else { exe := some (toUtf8 "/usr/bin/sudo".toList),
               cmdline := some (cmdlineBytes [toUtf8 "sudo".toList, toUtf8 "id".toList]) }
      pid := 8
      pid_pos := by decide }
  ppid := 7
  ownUid := 0

/-- The key of that request. -/
def promptKey : RememberKey := ⟨1000, 3, "sudo".toList, "id".toList⟩

private theorem detectForUser_promptWorld (env : Str → Option Bytes) (uid : UInt32) :
    detectForUser (promptWorld env) uid = true := by
  unfold detectForUser
  split <;> rfl

/-- It comes to its prompt. -/
theorem decideEarly_promptWorld (env : Str → Option Bytes) :
    ∃ p, decideEarly (promptWorld env) = .inr p ∧ p.env = env ∧ p.key = some promptKey ∧
      p.cfg.rememberSeconds = 300 := by
  unfold decideEarly
  simp only [detectForUser_promptWorld]
  exact ⟨_, rfl, rfl, rfl, rfl⟩

/-- A server that answers every request with a fresh grant. -/
def forgery (wire : Wire) : Server := fun _ ↦
  match writeFrame wire.response (.remember true) with
  | .ok frame => frame
  | .error _ => []

private theorem readFrame_forgery (wire : Wire) (frame : Bytes) :
    (readFrame wire.response (forgery wire frame)).1 = .ok (.remember true) := by
  obtain ⟨reply, hr⟩ := writeFrame_ok wire.response_documented (.remember true) (by decide)
  have hread := readFrame_writeFrame
    (wire.response_documented.inverts (.remember true)) hr []
  rw [List.append_nil] at hread
  have hf : forgery wire frame = reply := by
    unfold forgery
    rw [hr]
  rw [hf, hread]

private theorem roundtripOver_forgery (wire : Wire) {sockets : Str → Option Server} {sock : Str}
    (hs : sockets sock = some (forgery wire)) :
    roundtripOver wire sockets sock (.checkRemember ⟨promptKey, 300⟩) =
      some (.remember true) := by
  obtain ⟨frame, hf⟩ := writeFrame_ok wire.request_documented
    (.checkRemember ⟨promptKey, 300⟩) (by decide)
  simp only [roundtripOver, hs, hf, readFrame_forgery]
  rfl

/-- A forged answer at the resolved path is enough to return through the remember window. -/
private theorem eval_promptWorld (env : Str → Option Bytes)
    (hs : sockets (sockPath env) = some (forgery wire)) :
    (smAuthenticate (promptWorld env)).eval (answers wire sockets agent dialog) =
      ⟨.success, .remember⟩ := by
  obtain ⟨p, hd, he, hk, hw⟩ := decideEarly_promptWorld env
  have hb : ¬ Bypassed (answers wire sockets agent dialog) (promptWorld env) := by
    rintro ⟨uid, hu, -⟩
    cases hu
  have hg : Granted (answers wire sockets agent dialog) p := by
    refine ⟨promptKey, hk, by rw [hw]; decide, ?_⟩
    rw [he, hw]
    exact roundtripOver_forgery wire hs
  rw [eval_not_bypassed hb, afterBypass, hd]
  exact eval_rememberStage_granted hg

/-- Two environments give every remember check the same answer, and under both a return
through the remember window needs a fresh answer of the server at the default socket, exactly
when both resolve to that socket. -/
theorem remember_environment_iff (wire : Wire) (e e' : Str → Option Bytes) :
    ((∀ sockets agent dialog key ttl,
        (checkRemember e key ttl).eval (answers wire sockets agent dialog) =
          (checkRemember e' key ttl).eval (answers wire sockets agent dialog)) ∧
      (∀ (w : World) sockets agent dialog, w.env = e ∨ w.env = e' →
        (smAuthenticate w).eval (answers wire sockets agent dialog) = ⟨.success, .remember⟩ →
        ∃ p key, decideEarly w = .inr p ∧ p.key = some key ∧
          roundtripOver wire sockets defaultSock
            (.checkRemember ⟨key, p.cfg.rememberSeconds⟩) = some (.remember true))) ↔
      sockPath e = defaultSock ∧ sockPath e' = defaultSock := by
  constructor
  · rintro ⟨-, honly⟩
    -- Put a forging server at the resolved path and nothing anywhere else.
    have hdef : ∀ env, env = e ∨ env = e' → sockPath env = defaultSock := by
      intro env henv
      by_contra hne
      let sockets : Str → Option Server :=
        fun s ↦ if s = sockPath env then some (forgery wire) else none
      have hr : (smAuthenticate (promptWorld env)).eval
          (answers wire sockets (fun _ ↦ none) (fun _ ↦ none)) = ⟨.success, .remember⟩ :=
        eval_promptWorld env (if_pos rfl)
      obtain ⟨p, key, -, -, hreply⟩ := honly (promptWorld env) _ _ _ henv hr
      have hnone : sockets defaultSock = none := if_neg (Ne.symm hne)
      rw [roundtripOver, hnone] at hreply
      cases hreply
    exact ⟨hdef e (Or.inl rfl), hdef e' (Or.inr rfl)⟩
  · rintro ⟨he, he'⟩
    refine ⟨fun sockets agent dialog key ttl ↦ ?_, fun w sockets agent dialog henv hr ↦ ?_⟩
    · rw [eval_checkRemember, eval_checkRemember, he, he']
    · have hsock : sockPath w.env = defaultSock := by
        cases henv with
        | inl h => rw [h, he]
        | inr h => rw [h, he']
      rw [← hsock]
      exact eval_source_remember (by rw [hr])

/-- With `SENTINEL_BROKER_SOCK=/tmp/s` and a forging server there, and no broker at all, a
check finds a grant that the empty environment does not find, and `sudo id` is let in. -/
theorem remember_environment_forged :
    let e : Str → Option Bytes := fun name ↦
      if name = "SENTINEL_BROKER_SOCK".toList then some (toUtf8 "/tmp/s".toList) else none
    let sockets : Str → Option Server := fun s ↦
      if s = "/tmp/s".toList then some (forgery Postcard.wire) else none
    let h := answers Postcard.wire sockets (fun _ ↦ none) (fun _ ↦ none)
    (checkRemember e promptKey 300).eval h = true ∧
      (checkRemember (fun _ ↦ none) promptKey 300).eval h = false ∧
      (smAuthenticate (promptWorld e)).eval h = ⟨.success, .remember⟩ ∧
      sockets defaultSock = none := by
  decide

end Sentinel.Pam
