import Sentinel.Base.Transition
import Sentinel.Broker.Store
import Sentinel.Pam.Environment

/-!
# The terminal path: runs and the broker

Any number of `sm_authenticate` runs and one broker at the default socket, exchanging frames
that may be lost or overtake each other. A round trip is a connection of its own; a run that
gave up on one never sees a late reply, while the broker may still process its request. The
broker's clock only goes forward. Beside the store the state keeps the log of processed record
requests, which the theorem reads.
-/

namespace Sentinel.System.Terminal

open Sentinel.Base Sentinel.Shared Sentinel.Broker Sentinel.Pam

/-- A run in the system: its world, what it still has to do, the connection it waits on, the
window offered and the answer of its dialog, and the broker's time of its last reply. -/
structure Client where
  world : World
  prog : Run PamReturn
  conn : Option Nat := none
  verdict : Option (UInt32 × Option Verdict) := none
  answeredAt : Option Nat := none

/-- A request on its way to the broker. -/
structure Sent where
  run : Nat
  conn : Nat
  frame : Bytes

/-- A reply on its way back, with the broker's time. -/
structure Reply where
  run : Nat
  conn : Nat
  frame : Bytes
  time : Nat

/-- A processed record request. -/
structure Record where
  run : Nat
  key : RememberKey
  time : Nat

/-- The system. Runs and connections are numbered as they come. -/
structure State where
  now : Nat := 0
  runs : Nat → Option Client := fun _ ↦ none
  nextRun : Nat := 0
  nextConn : Nat := 0
  requests : List Sent := []
  replies : List Reply := []
  store : RememberStore := RememberStore.new
  records : List Record := []

/-- The steps, with every choice of the environment. -/
inductive Label where
  | start (w : World)
  | agent (i : Nat) (approved : Option Bool)
  | helper (i : Nat) (v : Option Verdict)
  | send (i : Nat)
  | fail (i : Nat)
  | process (n : Nat) (peer : Option UInt32)
  | loseRequest (n : Nat)
  | loseReply (n : Nat)
  | receive (n : Nat)
  | tick (d : Nat)

/-- The request a run waits for an answer to. -/
def Client.pending (c : Client) : Option Request :=
  match c.prog with
  | .call (.roundtrip _ req) _ => some req
  | _ => none

/-- Replace a run. -/
def State.setRun (s : State) (i : Nat) (c : Client) : State :=
  { s with runs := Function.update s.runs i (some c) }

/-- A run starts. -/
def State.addRun (s : State) (w : World) : State :=
  { s.setRun s.nextRun { world := w, prog := smAuthenticate w } with nextRun := s.nextRun + 1 }

/-- A run puts a frame on a connection of its own. -/
def State.post (s : State) (i : Nat) (c : Client) (frame : Bytes) : State :=
  { s.setRun i { c with conn := some s.nextConn } with
    nextConn := s.nextConn + 1
    requests := s.requests ++ [⟨i, s.nextConn, frame⟩] }

/-- Give a waiting run the answer to its round trip and close the connection. -/
def Client.answer (c : Client) (resp : Option Response) (time : Option Nat) : Option Client :=
  match c.prog with
  | .call (.roundtrip _ _) k => some { c with prog := k resp, conn := none, answeredAt := time }
  | _ => none

/-- The log entry of an accepted request. -/
def logged (run now : Nat) : Request → List Record
  | .recordRemember key => if key.isBindable then [⟨run, key, now⟩] else []
  | _ => []

/-- What the broker does with a request: the store, the log and the reply. -/
def State.serve (wire : Wire) (s : State) (q : Sent) (peer : Option UInt32) : State :=
  let (reply, store) := handle wire peer q.frame s.store s.now
  { s with
    store
    records := s.records ++
      (acceptRequest wire peer q.frame).toList.flatMap (logged q.run s.now)
    replies := s.replies ++ reply.toList.map (fun frame ↦ ⟨q.run, q.conn, frame, s.now⟩) }

/-- One step. -/
def next (wire : Wire) (s : State) : Label → Option State
  | .start w =>
    if w.env "SENTINEL_BROKER_SOCK".toList = none then
      some (s.addRun w)
    else none
  | .agent i approved =>
    match s.runs i with
    | some c =>
      match c.prog with
      | .call (.queryAgent _) k => some (s.setRun i { c with prog := k approved })
      | _ => none
    | none => none
  | .helper i v =>
    match s.runs i with
    | some c =>
      match c.prog with
      | .call (.runHelper req) k =>
        some (s.setRun i { c with prog := k v, verdict := some (req.rememberSecs, v) })
      | _ => none
    | none => none
  | .send i =>
    match s.runs i with
    | some c =>
      match c.prog, c.conn with
      | .call (.roundtrip sock req) _, none =>
        match writeFrame wire.request req with
        | .ok frame =>
          if sock = defaultSock then
            some (s.post i c frame)
          else none
        | .error _ => none
      | _, _ => none
    | none => none
  | .fail i =>
    match s.runs i with
    | some c => (c.answer none none).map (s.setRun i)
    | none => none
  | .process n peer =>
    match s.requests[n]? with
    | some q => some ({ s with requests := s.requests.eraseIdx n }.serve wire q peer)
    | none => none
  | .loseRequest n => some { s with requests := s.requests.eraseIdx n }
  | .loseReply n => some { s with replies := s.replies.eraseIdx n }
  | .receive n =>
    match s.replies[n]? with
    | some q =>
      match s.runs q.run with
      | some c =>
        if c.conn = some q.conn then
          (c.answer (readFrame wire.response q.frame).1.toOption (some q.time)).map
            ({ s with replies := s.replies.eraseIdx n }.setRun q.run)
        else none
      | none => none
    | none => none
  | .tick d => some { s with now := s.now + d }

/-- The system as a transition system. -/
def system (wire : Wire) : Transition State Label := ⟨{}, next wire⟩

/-! ### What the system keeps true -/

/-- A run whose user ticked the checkbox for a key. -/
def Opted (s : State) (run : Nat) (key : RememberKey) : Prop :=
  ∃ c p v, s.runs run = some c ∧ decideEarly c.world = .inr p ∧ p.key = some key ∧
    c.verdict = some (p.rememberSecs, v) ∧ optedIn v = true ∧ 0 < p.rememberSecs

/-- A run with a key. -/
def Asked (s : State) (run : Nat) (key : RememberKey) : Prop :=
  ∃ c p, s.runs run = some c ∧ decideEarly c.world = .inr p ∧ p.key = some key

/-- What a run can have asked. -/
def Origin (s : State) (run : Nat) : Request → Prop
  | .recordRemember key => Opted s run key
  | .checkRemember q => Asked s run q.key
  | .ping => True

/-- A processed record that makes a key fresh at a time. -/
def Backed (s : State) (key : RememberKey) (ttl : UInt32) (t : Nat) : Prop :=
  ∃ r ∈ s.records, r.key = key ∧ r.time ≤ t ∧ t - r.time < min (fromSecs ttl.toNat) maxRemember

/-- A run let in by the broker at a time, without a dialog. -/
def Granted (s : State) (c : Client) : Prop :=
  c.prog = .pure ⟨.success, .remember⟩ ∧ c.verdict = none ∧
    ∃ p key t, decideEarly c.world = .inr p ∧ p.key = some key ∧ c.answeredAt = some t ∧
      Backed s key p.cfg.rememberSeconds t

/-- The invariant. -/
structure Inv (wire : Wire) (s : State) : Prop where
  phase : ∀ i c, s.runs i = some c → Phase c.world c.prog c.verdict ∨ Granted s c
  idle : ∀ i c, s.runs i = some c → c.pending = none → c.conn = none
  unused : ∀ i, s.nextRun ≤ i → s.runs i = none
  sentConn : ∀ q ∈ s.requests, q.conn < s.nextConn
  replyConn : ∀ q ∈ s.replies, q.conn < s.nextConn
  sent : ∀ q ∈ s.requests, ∃ req, writeFrame wire.request req = .ok q.frame ∧
    Origin s q.run req ∧
    ∀ c, s.runs q.run = some c → c.conn = some q.conn → c.pending = some req
  replied : ∀ q ∈ s.replies, ∀ c, s.runs q.run = some c → c.conn = some q.conn →
    ∀ query, c.pending = some (.checkRemember query) →
      (readFrame wire.response q.frame).1 = .ok (.remember true) →
      Backed s query.key query.ttlSecs q.time
  records : ∀ r ∈ s.records, Opted s r.run r.key ∧ r.time ≤ s.now
  store : ∀ k t, s.store k = some t → ∃ r ∈ s.records, keystr r.key = k ∧ r.time = t

/-- Runs keep their world and the answer of their dialog, the log only grows. -/
structure Extends (s s' : State) : Prop where
  runs : ∀ i c, s.runs i = some c → ∃ c', s'.runs i = some c' ∧ c'.world = c.world ∧
    ∀ d, c.verdict = some d → c'.verdict = some d
  records : s.records ⊆ s'.records

section Extends

variable {s s' : State}

private theorem Opted.mono (h : Extends s s') {run : Nat} {key : RememberKey}
    (ho : Opted s run key) : Opted s' run key := by
  obtain ⟨c, p, v, hc, hp, hk, hv, hrest⟩ := ho
  obtain ⟨c', hc', hw, hv'⟩ := h.runs run c hc
  exact ⟨c', p, v, hc', by rw [hw]; exact hp, hk, hv' _ hv, hrest⟩

private theorem Origin.mono (h : Extends s s') {run : Nat} {req : Request}
    (ho : Origin s run req) : Origin s' run req := by
  cases req with
  | recordRemember key => exact Opted.mono h ho
  | checkRemember q =>
    obtain ⟨c, p, hc, hp, hk⟩ := ho
    obtain ⟨c', hc', hw, -⟩ := h.runs run c hc
    exact ⟨c', p, hc', by rw [hw]; exact hp, hk⟩
  | ping => trivial

private theorem Backed.mono (h : Extends s s') {key : RememberKey} {ttl : UInt32} {t : Nat}
    (hb : Backed s key ttl t) : Backed s' key ttl t := by
  obtain ⟨r, hr, hrest⟩ := hb
  exact ⟨r, h.records hr, hrest⟩

private theorem Granted.mono (h : Extends s s') {c : Client} (hg : Granted s c) :
    Granted s' c := by
  obtain ⟨hprog, hv, p, key, t, hp, hk, ht, hb⟩ := hg
  exact ⟨hprog, hv, p, key, t, hp, hk, ht, hb.mono h⟩

end Extends

private theorem extends_setRun {s : State} {i : Nat} {c c' : Client} (hc : s.runs i = some c)
    (hw : c'.world = c.world) (hv : ∀ d, c.verdict = some d → c'.verdict = some d) :
    Extends s (s.setRun i c') := by
  refine ⟨fun j d hd ↦ ?_, fun _ h ↦ h⟩
  by_cases hj : j = i
  · subst hj
    rw [hc] at hd
    cases hd
    exact ⟨c', by simp [State.setRun], hw, hv⟩
  · exact ⟨d, by simp [State.setRun, hj, hd], rfl, fun _ h ↦ h⟩

private theorem runs_setRun {s : State} {i j : Nat} {c d : Client}
    (h : (s.setRun i c).runs j = some d) : (j = i ∧ d = c) ∨ (j ≠ i ∧ s.runs j = some d) :=
  slot_update_cases h

section Steps

variable {wire : Wire} {s : State}

/-- A run, old or new, stands somewhere and waits on no connection. -/
private theorem inv_put {i n : Nat} {c : Client} (hi : Inv wire s)
    (he : Extends s { s.setRun i c with nextRun := n }) (hin : i < n) (hn : s.nextRun ≤ n)
    (hconn : c.conn = none) (hp : Phase c.world c.prog c.verdict ∨ Granted s c) :
    Inv wire { s.setRun i c with nextRun := n } := by
  constructor
  case phase =>
    intro j d hd
    obtain ⟨-, rfl⟩ | ⟨-, hd⟩ := runs_setRun hd
    · exact hp.imp_right (Granted.mono he)
    · exact (hi.phase j d hd).imp_right (Granted.mono he)
  case idle =>
    intro j d hd hpend
    obtain ⟨-, rfl⟩ | ⟨-, hd⟩ := runs_setRun hd
    · exact hconn
    · exact hi.idle j d hd hpend
  case unused =>
    intro j hj
    simp only at hj
    have hji : j ≠ i := by omega
    simp only [State.setRun, ne_eq, hji, not_false_eq_true, Function.update_of_ne]
    exact hi.unused j (by omega)
  case sentConn => exact hi.sentConn
  case replyConn => exact hi.replyConn
  case sent =>
    intro q hq
    obtain ⟨req, hf, ho, hpend⟩ := hi.sent q hq
    refine ⟨req, hf, ho.mono he, fun d hd hdc ↦ ?_⟩
    obtain ⟨-, rfl⟩ | ⟨-, hd⟩ := runs_setRun hd
    · rw [hconn] at hdc
      cases hdc
    · exact hpend d hd hdc
  case replied =>
    intro q hq d hd hdc query hpend hread
    obtain ⟨-, rfl⟩ | ⟨-, hd⟩ := runs_setRun hd
    · rw [hconn] at hdc
      cases hdc
    · exact (hi.replied q hq d hd hdc query hpend hread).mono he
  case records => exact fun r hr ↦ ⟨(hi.records r hr).1.mono he, (hi.records r hr).2⟩
  case store => exact hi.store

/-- A run moves on. -/
private theorem inv_setRun {i : Nat} {c c' : Client} (hi : Inv wire s) (hc : s.runs i = some c)
    (hw : c'.world = c.world) (hv : ∀ d, c.verdict = some d → c'.verdict = some d)
    (hn : c'.conn = none) (hp : Phase c'.world c'.prog c'.verdict ∨ Granted s c') :
    Inv wire (s.setRun i c') := by
  have hlt : i < s.nextRun := by
    by_contra hge
    rw [hi.unused i (by omega)] at hc
    cases hc
  exact inv_put hi (extends_setRun hc hw hv) hlt (Nat.le_refl _) hn hp

/-- A run starts. -/
private theorem inv_start (hi : Inv wire s) (w : World) :
    Inv wire (s.addRun w) := by
  refine inv_put hi ⟨fun j d hd ↦ ⟨d, ?_, rfl, fun _ h ↦ h⟩, fun _ h ↦ h⟩ (by omega) (by omega)
    rfl (Or.inl (phase_start w))
  have hj : j ≠ s.nextRun := by
    rintro rfl
    rw [hi.unused _ (Nat.le_refl _)] at hd
    cases hd
  simp [State.setRun, hj, hd]

/-- Messages are lost. -/
private theorem inv_lose {requests : List Sent} {replies : List Reply} (hi : Inv wire s)
    (hq : requests ⊆ s.requests) (hr : replies ⊆ s.replies) :
    Inv wire { s with requests := requests, replies := replies } where
  phase := hi.phase
  idle := hi.idle
  unused := hi.unused
  sentConn q h := hi.sentConn q (hq h)
  replyConn q h := hi.replyConn q (hr h)
  sent q h := hi.sent q (hq h)
  replied q h := hi.replied q (hr h)
  records := hi.records
  store := hi.store

/-- Time passes. -/
private theorem inv_tick (hi : Inv wire s) (d : Nat) : Inv wire { s with now := s.now + d } where
  phase := hi.phase
  idle := hi.idle
  unused := hi.unused
  sentConn := hi.sentConn
  replyConn := hi.replyConn
  sent := hi.sent
  replied := hi.replied
  records r hr := ⟨(hi.records r hr).1, Nat.le_add_right_of_le (hi.records r hr).2⟩
  store := hi.store

private theorem mem_post {i : Nat} {c : Client} {frame : Bytes} {q : Sent}
    (h : q ∈ (s.post i c frame).requests) : q ∈ s.requests ∨ q = ⟨i, s.nextConn, frame⟩ := by
  simpa [State.post] using h

/-- A run sends its request over a fresh connection. -/
private theorem inv_send {i : Nat} {c : Client} {req : Request} {frame : Bytes}
    (hi : Inv wire s) (hc : s.runs i = some c) (hreq : c.pending = some req)
    (hf : writeFrame wire.request req = .ok frame) (ho : Origin s i req) :
    Inv wire (s.post i c frame) := by
  have he : Extends s (s.post i c frame) :=
    ⟨(show Extends s (s.setRun i { c with conn := some s.nextConn }) from
      extends_setRun hc rfl fun _ h ↦ h).runs, fun _ h ↦ h⟩
  constructor
  case phase =>
    intro j d hd
    obtain ⟨rfl, rfl⟩ | ⟨-, hd⟩ := runs_setRun hd
    · exact (hi.phase j c hc).imp_right (Granted.mono he)
    · exact (hi.phase j d hd).imp_right (Granted.mono he)
  case idle =>
    intro j d hd hpend
    obtain ⟨-, rfl⟩ | ⟨-, hd⟩ := runs_setRun hd
    · have hn : c.pending = none := hpend
      rw [hreq] at hn
      cases hn
    · exact hi.idle j d hd hpend
  case unused =>
    intro j hj
    have hji : j ≠ i := by
      rintro rfl
      rw [hi.unused j hj] at hc
      cases hc
    exact (Function.update_of_ne hji _ _).trans (hi.unused j hj)
  case sentConn =>
    intro q hq
    obtain hq | rfl := mem_post hq
    · exact Nat.lt_succ_of_lt (hi.sentConn q hq)
    · exact Nat.lt_succ_self _
  case replyConn => exact fun q hq ↦ Nat.lt_succ_of_lt (hi.replyConn q hq)
  case sent =>
    intro q hq
    obtain hq | rfl := mem_post hq
    · obtain ⟨req', hf', ho', hpend⟩ := hi.sent q hq
      refine ⟨req', hf', ho'.mono he, fun d hd hdc ↦ ?_⟩
      obtain ⟨-, rfl⟩ | ⟨-, hd⟩ := runs_setRun hd
      · -- An older message cannot carry the fresh connection.
        have hlt := hi.sentConn q hq
        simp only [Option.some.injEq] at hdc
        omega
      · exact hpend d hd hdc
    · refine ⟨req, hf, ho.mono he, fun d hd _ ↦ ?_⟩
      obtain ⟨-, rfl⟩ | ⟨hne, -⟩ := runs_setRun hd
      · exact hreq
      · exact absurd rfl hne
  case replied =>
    intro q hq d hd hdc query hpend hread
    obtain ⟨-, rfl⟩ | ⟨-, hd⟩ := runs_setRun hd
    · have hlt := hi.replyConn q hq
      simp only [Option.some.injEq] at hdc
      omega
    · exact (hi.replied q hq d hd hdc query hpend hread).mono he
  case records => exact fun r hr ↦ ⟨(hi.records r hr).1.mono he, (hi.records r hr).2⟩
  case store => exact hi.store

/-- A fresh answer of the store is backed by a processed record of the very key. -/
private theorem backed_of_isFresh (hi : Inv wire s) {b : BoundKey} {ttl : UInt32}
    (hb : '\x00' ∉ b.key.service) (h : s.store.isFresh b ttl s.now = true) :
    Backed s b.key ttl s.now := by
  obtain ⟨t, ht, hlt⟩ := Window.Table.exists_of_isFresh h
  obtain ⟨r, hr, hkey, rfl⟩ := hi.store _ _ ht
  obtain ⟨⟨c, p, v, -, hp, hk, -⟩, hle⟩ := hi.records r hr
  exact ⟨r, hr, keystr_inj (nul_not_mem_service hp hk) hb hkey, hle, hlt⟩

private theorem mem_logged {run now : Nat} {req : Request} {r : Record}
    (h : r ∈ logged run now req) :
    ∃ key, req = .recordRemember key ∧ r = ⟨run, key, now⟩ := by
  unfold logged at h
  split at h
  next key =>
    split at h
    · exact ⟨key, rfl, by simpa using h⟩
    · cases h
  next => cases h

/-- The state behind an accepted request. -/
private def served (wire : Wire) (s : State) (q : Sent) (req : Request) : State :=
  { s with
    store := (dispatch req s.store s.now).2
    records := s.records ++ logged q.run s.now req
    replies := s.replies ++
      (writeFrame wire.response (dispatch req s.store s.now).1).toOption.toList.map
        (fun frame ↦ ⟨q.run, q.conn, frame, s.now⟩) }

private theorem serve_eq {q : Sent} {req : Request} (peer : Option UInt32)
    (hf : writeFrame wire.request req = .ok q.frame) :
    s.serve wire q peer = s ∨ s.serve wire q peer = served wire s q req := by
  have haccept := acceptRequest_writeFrame hf peer
  by_cases hpeer : peer = some 0
  · rw [if_pos hpeer] at haccept
    right
    simp [State.serve, served, handle, haccept]
  · rw [if_neg hpeer] at haccept
    left
    simp [State.serve, handle, haccept]

private theorem mem_replies_served {q : Sent} {req : Request} {r : Reply}
    (h : r ∈ (served wire s q req).replies) :
    r ∈ s.replies ∨ ∃ frame,
      writeFrame wire.response (dispatch req s.store s.now).1 = .ok frame ∧
        r = ⟨q.run, q.conn, frame, s.now⟩ := by
  obtain h | h := List.mem_append.mp h
  · exact Or.inl h
  · obtain ⟨frame, hm, rfl⟩ := List.mem_map.mp h
    refine Or.inr ⟨frame, ?_, rfl⟩
    cases hw : writeFrame wire.response (dispatch req s.store s.now).1 with
    | error e => rw [hw] at hm; cases hm
    | ok f =>
      rw [hw] at hm
      rw [List.mem_singleton.mp hm]

private theorem inv_served {q : Sent} {req : Request} (hi : Inv wire s)
    (hconn : q.conn < s.nextConn) (ho : Origin s q.run req)
    (hpend : ∀ c, s.runs q.run = some c → c.conn = some q.conn → c.pending = some req) :
    Inv wire (served wire s q req) := by
  have he : Extends s (served wire s q req) :=
    ⟨fun i c hc ↦ ⟨c, hc, rfl, fun _ h ↦ h⟩, List.subset_append_left _ _⟩
  constructor
  case phase => exact fun i c hc ↦ (hi.phase i c hc).imp_right (Granted.mono he)
  case idle => exact hi.idle
  case unused => exact hi.unused
  case sentConn => exact hi.sentConn
  case replyConn =>
    intro r hr
    obtain hr | ⟨frame, -, rfl⟩ := mem_replies_served hr
    · exact hi.replyConn r hr
    · exact hconn
  case sent =>
    intro r hr
    obtain ⟨req', hf', ho', hpend'⟩ := hi.sent r hr
    exact ⟨req', hf', ho'.mono he, hpend'⟩
  case replied =>
    intro r hr c hc hcc query hq hread
    obtain hr | ⟨frame, hw, rfl⟩ := mem_replies_served hr
    · exact (hi.replied r hr c hc hcc query hq hread).mono he
    · -- The reply answers the request the run still waits for.
      have hreq : req = .checkRemember query := by
        have := hpend c hc hcc
        rw [hq] at this
        exact (Option.some.inj this).symm
      have hback := readFrame_writeFrame
        (wire.response_documented.inverts (dispatch req s.store s.now).1) hw []
      rw [List.append_nil] at hback
      have hresp : (dispatch req s.store s.now).1 = .remember true := by
        rw [hback] at hread
        exact Except.ok.inj hread
      obtain ⟨query', b, hq', hbk, hfresh⟩ := dispatch_remember hresp
      obtain rfl : query' = query := by
        rw [hreq] at hq'
        exact (Request.checkRemember.inj hq').symm
      rw [hreq] at ho
      obtain ⟨c', p, -, hp, hk⟩ := ho
      rw [← hbk] at hk ⊢
      exact (backed_of_isFresh hi (nul_not_mem_service hp hk) hfresh).mono he
  case records =>
    intro r hr
    obtain hr | hr := List.mem_append.mp hr
    · exact ⟨(hi.records r hr).1.mono he, (hi.records r hr).2⟩
    · obtain ⟨key, rfl, rfl⟩ := mem_logged hr
      exact ⟨Opted.mono he ho, Nat.le_refl _⟩
  case store =>
    intro k t ht
    obtain ht | ⟨key, rfl, hbind, hk, rfl⟩ := dispatch_store ht
    · obtain ⟨r, hr, hrest⟩ := hi.store k t ht
      exact ⟨r, List.mem_append_left _ hr, hrest⟩
    · exact ⟨⟨q.run, key, s.now⟩, List.mem_append_right _ (by simp [logged, hbind]), hk, rfl⟩

/-- The broker handles a request. -/
private theorem inv_process {n : Nat} {q : Sent} (peer : Option UInt32) (hi : Inv wire s)
    (hq : s.requests[n]? = some q) :
    Inv wire ({ s with requests := s.requests.eraseIdx n }.serve wire q peer) := by
  have hmem := List.mem_of_getElem? hq
  obtain ⟨req, hf, ho, hpend⟩ := hi.sent q hmem
  have hl : Inv wire { s with requests := s.requests.eraseIdx n } :=
    inv_lose hi List.eraseIdx_subset (List.Subset.refl s.replies)
  obtain hs | hs := serve_eq (s := { s with requests := s.requests.eraseIdx n }) peer hf
  · rw [hs]
    exact hl
  · rw [hs]
    exact inv_served hl (hi.sentConn q hmem) ho hpend

/-- A run gets the answer to its round trip, or gives up on it. -/
private theorem inv_answer {i : Nat} {c c' : Client} {resp : Option Response}
    {time : Option Nat} (hi : Inv wire s) (hc : s.runs i = some c)
    (ha : c.answer resp time = some c')
    (hb : ∀ query, c.pending = some (.checkRemember query) → resp = some (.remember true) →
      ∃ t, time = some t ∧ Backed s query.key query.ttlSecs t) :
    Inv wire (s.setRun i c') := by
  obtain hph | ⟨hprog, -⟩ := hi.phase i c hc
  case inr =>
    rw [Client.answer, hprog] at ha
    cases ha
  obtain ⟨world, prog, conn, verdict, answeredAt⟩ := c
  change Phase world prog verdict at hph
  cases hph with
  | query uid => cases ha
  | dialog hp => cases ha
  | done hr => cases ha
  | record hp hk hv hs =>
    cases ha
    exact inv_setRun hi hc rfl (fun _ h ↦ h) rfl (Or.inl (.done (by simp)))
  | @check p key hp hk =>
    cases ha
    refine inv_setRun hi hc rfl (fun _ h ↦ h) rfl ?_
    by_cases hr : resp = some (.remember true)
    · obtain ⟨t, ht, hback⟩ := hb _ rfl hr
      exact Or.inr ⟨if_pos hr, rfl, p, key, t, hp, hk, ht, hback⟩
    · exact Or.inl (phase_checked hp hr)

/-- A run waits for the agent or the helper on no connection. -/
private theorem inv_move {i : Nat} {c c' : Client} (hi : Inv wire s) (hc : s.runs i = some c)
    (hpend : c.pending = none) (hw : c'.world = c.world) (hconn : c'.conn = c.conn)
    (hv : ∀ d, c.verdict = some d → c'.verdict = some d)
    (hp : Phase c'.world c'.prog c'.verdict) : Inv wire (s.setRun i c') :=
  inv_setRun hi hc hw hv (by rw [hconn, hi.idle i c hc hpend]) (Or.inl hp)

/-- What a run asks it is entitled to ask. -/
private theorem origin_pending {i : Nat} {c : Client} {req : Request} (hi : Inv wire s)
    (hc : s.runs i = some c) (hreq : c.pending = some req) : Origin s i req := by
  obtain hph | ⟨hprog, -⟩ := hi.phase i c hc
  case inr =>
    rw [Client.pending, hprog] at hreq
    cases hreq
  obtain ⟨world, prog, conn, verdict, answeredAt⟩ := c
  change Phase world prog verdict at hph
  cases hph with
  | query uid => cases hreq
  | dialog hp => cases hreq
  | done hr => cases hreq
  | @check p key hp hk =>
    cases hreq
    exact ⟨_, p, hc, hp, hk⟩
  | @record p key v hp hk hv hs =>
    cases hreq
    exact ⟨_, p, v, hc, hp, hk, rfl, hv, hs⟩

/-- Every step keeps the invariant. -/
theorem inv_next {l : Label} {s' : State} (hi : Inv wire s) (h : next wire s l = some s') :
    Inv wire s' := by
  cases l with
  | start w =>
    simp only [next] at h
    split at h
    · cases h
      exact inv_start hi w
    · cases h
  | agent i approved =>
    simp only [next] at h
    split at h
    next c hc =>
      split at h
      next uid k hprog =>
        cases h
        obtain hph | ⟨hg, -⟩ := hi.phase i c hc
        · obtain ⟨world, prog, conn, verdict, answeredAt⟩ := c
          change prog = _ at hprog
          change Phase world prog verdict at hph
          subst hprog
          cases hph with
          | query uid =>
            exact inv_move hi hc rfl rfl rfl (fun _ h ↦ h) (phase_queried world approved)
        · rw [hprog] at hg
          cases hg
      next => cases h
    next => cases h
  | helper i v =>
    simp only [next] at h
    split at h
    next c hc =>
      split at h
      next req k hprog =>
        cases h
        obtain hph | ⟨hg, -⟩ := hi.phase i c hc
        · obtain ⟨world, prog, conn, verdict, answeredAt⟩ := c
          change prog = _ at hprog
          change Phase world prog verdict at hph
          subst hprog
          cases hph with
          | @dialog p hp =>
            refine inv_move hi hc rfl rfl rfl (fun _ h ↦ by cases h) ?_
            simp only [(decideEarly_inr hp).2.2.2]
            exact phase_recorded hp v
        · rw [hprog] at hg
          cases hg
      next => cases h
    next => cases h
  | send i =>
    simp only [next] at h
    split at h
    next c hc =>
      split at h
      next sock req k hprog hconn =>
        split at h
        next frame hf =>
          split at h
          next =>
            cases h
            have hreq : c.pending = some req := by rw [Client.pending, hprog]
            exact inv_send hi hc hreq hf (origin_pending hi hc hreq)
          next => cases h
        next => cases h
      next => cases h
    next => cases h
  | fail i =>
    simp only [next] at h
    split at h
    next c hc =>
      obtain ⟨c', ha, rfl⟩ := Option.map_eq_some_iff.mp h
      exact inv_answer hi hc ha (fun query _ hr ↦ by cases hr)
    next => cases h
  | process n peer =>
    simp only [next] at h
    split at h
    next q hq =>
      cases h
      exact inv_process peer hi hq
    next => cases h
  | loseRequest n =>
    cases h
    exact inv_lose hi List.eraseIdx_subset (List.Subset.refl s.replies)
  | loseReply n =>
    cases h
    exact inv_lose hi (List.Subset.refl s.requests) List.eraseIdx_subset
  | receive n =>
    simp only [next] at h
    split at h
    next q hq =>
      split at h
      next c hc =>
        split at h
        next hconn =>
          obtain ⟨c', ha, rfl⟩ := Option.map_eq_some_iff.mp h
          refine inv_answer (inv_lose hi (List.Subset.refl s.requests) List.eraseIdx_subset) hc ha
            (fun query hpend hr ↦ ⟨q.time, rfl, ?_⟩)
          have hread : (readFrame wire.response q.frame).1 = .ok (.remember true) := by
            cases hx : (readFrame wire.response q.frame).1 with
            | error e => rw [hx] at hr; cases hr
            | ok resp =>
              rw [hx] at hr
              rw [Option.some.inj hr]
          exact hi.replied q (List.mem_of_getElem? hq) c hc hconn query hpend hread
        next => cases h
      next => cases h
    next => cases h
  | tick d =>
    cases h
    exact inv_tick hi d

end Steps

/-- The invariant holds in every reachable state. -/
theorem inv_run {wire : Wire} {ls : List Label} {s : State} (h : (system wire).Run ls s) :
    Inv wire s := by
  refine (system wire).invariant (Inv wire) ?_ (fun s l s' hi hn ↦ inv_next hi hn) h
  constructor <;> intros <;> first | rfl | contradiction

/-! ### Grants at the terminal -/

/-- The login uid a run keys its grant on. -/
def loginuid (w : World) : UInt32 := readProcU32 w.host.fs ProcDir.loginuid w.ppid

/-- The audit session a run keys its grant on. -/
def sessionid (w : World) : UInt32 := readProcU32 w.host.fs ProcDir.sessionid w.ppid

/-- The rememberable command of a run. -/
def rememberCommand (w : World) : Option Str :=
  (ProcessInfo.forPid w.host.fs w.host.pid).rememberCommand

/-- The elevated tokens of a run whose host is an elevation wrapper. -/
def wrapperTokens (w : World) : Option (List Str) :=
  match splitWhitespace ((readCmdline w.host.fs w.host.pid).getD []) with
  | [] => none
  | first :: rest => if isElevationTool first then some (skipOptions rest) else none

private theorem rememberCommand_wrapper {w : World} {command : Str} {ts : List Str}
    (hc : rememberCommand w = some command) (ht : wrapperTokens w = some ts) :
    command = joinSpace ts ∧ ∀ t ∈ ts, IsToken t := by
  unfold wrapperTokens at ht
  have htg := congrArg Prod.snd (forPid_targets w.host.fs w.host.pid)
  simp only at htg
  rw [rememberCommand, htg, targets] at hc
  split at ht
  · cases ht
  next first rest hs =>
    split at ht
    next htool =>
      cases ht
      refine ⟨?_, isToken_skipOptions hs⟩
      split at hc
      · cases hc
      · rw [hs] at hc
        simp only [htool, if_true] at hc
        cases hk : skipOptions rest with
        | nil => rw [hk] at hc; cases hc
        | cons p ps =>
          rw [hk, elevatedTargets] at hc
          split at hc
          · exact (Option.some.inj hc).symm
          · cases hc
    next => cases ht

private theorem head?_of_headD {c d : Str}
    (h : (splitWhitespace c).headD [] = (splitWhitespace d).headD []) :
    (splitWhitespace c).head? = (splitWhitespace d).head? := by
  cases hc : splitWhitespace c with
  | nil =>
    cases hd : splitWhitespace d with
    | nil => rfl
    | cons u us =>
      rw [hc, hd] at h
      exact absurd h.symm (isToken_of_mem_splitWhitespace (s := d) (by simp [hd])).1
  | cons t ts =>
    cases hd : splitWhitespace d with
    | nil =>
      rw [hc, hd] at h
      exact absurd h (isToken_of_mem_splitWhitespace (s := c) (by simp [hc])).1
    | cons u us =>
      rw [hc, hd] at h
      simpa using h

theorem optedIn_eq {v : Option Verdict} (h : optedIn v = true) :
    v = some ⟨.allow, true⟩ := by
  match v, h with
  | some ⟨.allow, true⟩, _ => rfl

/-- In every run of the system, a run let in through the remember window has a login session,
and another run of the same session and service, with the same key command, had its dialog
offered a window, was allowed with the checkbox ticked, and had its record processed inside
the window of the later run. -/
theorem terminal_remember_sound (wire : Wire) {ls : List Label} {s : State}
    (h : (system wire).Run ls s) {i : Nat} {c : Client} (hc : s.runs i = some c)
    (hret : c.prog = .pure ⟨.success, .remember⟩) :
    ∃ p t command, decideEarly c.world = .inr p ∧ c.answeredAt = some t ∧
      rememberCommand c.world = some command ∧
      loginuid c.world ≠ 4294967295 ∧ sessionid c.world ≠ 4294967295 ∧
      ∃ j d q command' r, j ≠ i ∧ s.runs j = some d ∧ decideEarly d.world = .inr q ∧
        rememberCommand d.world = some command' ∧
        loginuid d.world = loginuid c.world ∧ sessionid d.world = sessionid c.world ∧
        pamService d.world = pamService c.world ∧
        rememberKeyCommand command' q.cfg.rememberScope =
          rememberKeyCommand command p.cfg.rememberScope ∧
        d.verdict = some (q.rememberSecs, some ⟨.allow, true⟩) ∧ 0 < q.rememberSecs ∧
        r ∈ s.records ∧ r.run = j ∧ q.key = some r.key ∧ r.time ≤ t ∧
        t - r.time < min (fromSecs p.cfg.rememberSeconds.toNat) (fromSecs 900) ∧
        (p.cfg.rememberScope = .command → q.cfg.rememberScope = .command →
          ∀ ts us, wrapperTokens c.world = some ts → wrapperTokens d.world = some us →
            ts = us) ∧
        (p.cfg.rememberScope = .program → q.cfg.rememberScope = .program →
          (splitWhitespace command).head? = (splitWhitespace command').head?) := by
  have hi := inv_run h
  obtain hph | ⟨-, hv, p, key, t, hp, hk, ht, r, hr, hrk, hle, hlt⟩ := hi.phase i c hc
  case inl =>
    rw [hret] at hph
    cases hph with
    | done hr => exact absurd rfl hr
  obtain ⟨⟨d, q, v, hd, hq, hqk, hdv, hopt, hpos⟩, -⟩ := hi.records r hr
  obtain ⟨hl, hs, command, hcmd, hkey⟩ := decideEarly_key hp hk
  obtain ⟨-, -, command', hcmd', hkey'⟩ := decideEarly_key hq hqk
  rw [hrk, hkey] at hkey'
  obtain ⟨hl', hs', hsv', hc'⟩ := RememberKey.mk.inj hkey'
  refine ⟨p, t, command, hp, ht, hcmd, hl, hs, r.run, d, q, command', r, ?_, hd, hq, hcmd',
    hl'.symm, hs'.symm, hsv'.symm, hc'.symm, by rw [hdv, optedIn_eq hopt], hpos, hr, rfl,
    hqk, hle, hlt, ?_, ?_⟩
  · -- The recording run had a dialog, the run let in had none.
    rintro rfl
    rw [hc] at hd
    cases hd
    rw [hv] at hdv
    cases hdv
  · intro hsc hsq ts us hts hus
    obtain ⟨rfl, htok⟩ := rememberCommand_wrapper hcmd hts
    obtain ⟨rfl, hutok⟩ := rememberCommand_wrapper hcmd' hus
    rw [hsc, hsq, rememberKeyCommand, rememberKeyCommand, trim_joinSpace htok,
      trim_joinSpace hutok] at hc'
    exact (joinSpace_inj htok hutok).mp hc'
  · intro hsc hsq
    rw [hsc, hsq, rememberKeyCommand, rememberKeyCommand] at hc'
    exact head?_of_headD hc'

/-- `sudo id` twice from one session, the first time with the checkbox ticked. -/
def rememberedTwice : List Label :=
  [.start (promptWorld fun _ ↦ none), .send 0, .process 0 (some 0), .receive 0,
    .helper 0 (some ⟨.allow, true⟩), .send 0, .process 0 (some 0), .receive 0,
    .tick 1000000000,
    .start (promptWorld fun _ ↦ none), .send 1, .process 0 (some 0), .receive 0]

/-- The state behind it. -/
def rememberedState : State :=
  ((system Postcard.wire).exec {} rememberedTwice).getD {}

/-- The second run is let in, and the record that backs it is the first run's. -/
theorem rememberedTwice_backed :
    ∃ c t r, (system Postcard.wire).Run rememberedTwice rememberedState ∧
      rememberedState.runs 1 = some c ∧ c.prog = .pure ⟨.success, .remember⟩ ∧
      c.answeredAt = some t ∧ r ∈ rememberedState.records ∧ r.run ≠ 1 ∧
      t - r.time < fromSecs 900 := by
  have hrun : (system Postcard.wire).Run rememberedTwice rememberedState := rfl
  obtain ⟨c, hc⟩ : ∃ c, rememberedState.runs 1 = some c := ⟨_, rfl⟩
  have hret : c.prog = .pure ⟨.success, .remember⟩ := by
    cases hc
    rfl
  obtain ⟨p, t, command, -, ht, -, -, -, j, d, q, command', r, hj, -, -, -, -, -, -, -, -, -, hr,
    rfl, -, -, hlt, -⟩ := terminal_remember_sound Postcard.wire hrun hc hret
  exact ⟨c, t, r, hrun, hc, hret, ht, hr, hj, by omega⟩

end Sentinel.System.Terminal
