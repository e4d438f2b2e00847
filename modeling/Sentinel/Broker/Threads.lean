import Mathlib.Data.List.Nodup
import Sentinel.Base.Transition
import Sentinel.Broker.KeyStrings
import Sentinel.Broker.Postcard

/-!
# Connections served at once

Crate `sentinel-broker`: the accept loop of `crates/sentinel-broker/src/main.rs:60-72` and `handle`,
`crates/sentinel-broker/src/server.rs:25-44`, on a thread for each connection. The threads share the
store and lock it once, in `dispatch`. Whatever their interleaving, the broker answers as if it had
handled the connections one after the other, in an order that never turns round two connections of
which one was over before the other was accepted.
-/

namespace Sentinel.Broker.Threads

open Sentinel.Base

/-- Where the thread of a connection stands: it reads, it has its request, it has its response, or
it is over, with what it has sent. -/
inductive Thread where
  | accepted
  | heard (req : Request)
  | served (resp : Response)
  | closed (reply : Bytes)
  deriving DecidableEq

/-- A connection with the peer's uid, when the kernel tells it, and with what it has delivered. -/
structure Conn where
  peer : Option UInt32
  received : Bytes := []
  thread : Thread := .accepted

/-- A dispatched request. -/
structure Dispatch where
  conn : Nat
  request : Request
  time : Nat

/-- The broker: connections are numbered as they come, and a log keeps the dispatches. -/
structure State where
  now : Nat := 0
  conns : Nat → Option Conn := fun _ ↦ none
  nextConn : Nat := 0
  store : RememberStore := RememberStore.new
  dispatched : List Dispatch := []

/-- The steps, with every choice of the peers: `received` is what a connection has delivered when
its read ends, by a whole frame, by an error or by the timeout, and `sent` is how much of a frame
is written before an error or the timeout ends it. -/
inductive Label where
  | accept (peer : Option UInt32)
  | read (i : Nat) (received : Bytes)
  | dispatch (i : Nat)
  | write (i : Nat) (sent : Nat)
  | tick (d : Nat)

/-- A connection goes on. -/
def State.setConn (s : State) (i : Nat) (c : Conn) : State :=
  { s with conns := Function.update s.conns i (some c) }

/-- A connection is accepted, `main.rs:61-68`. -/
def State.accept (s : State) (peer : Option UInt32) : State :=
  { s.setConn s.nextConn { peer } with nextConn := s.nextConn + 1 }

/-- The peer check and the read of a thread, `server.rs:29-39`. -/
def State.read (wire : Wire) (s : State) (i : Nat) (c : Conn) (received : Bytes) : State :=
  s.setConn i
    { c with
      received
      thread :=
        match acceptRequest wire c.peer received with
        | some req => .heard req
        | none => .closed [] }

/-- The dispatch of a thread, `server.rs:40`: the store is locked once. -/
def State.dispatch (s : State) (i : Nat) (c : Conn) (req : Request) : State :=
  { s.setConn i { c with thread := .served (Broker.dispatch req s.store s.now).1 } with
    store := (Broker.dispatch req s.store s.now).2
    dispatched := s.dispatched ++ [⟨i, req, s.now⟩] }

/-- The bytes of a response on its connection, none when it is not encoded. -/
def replyBytes (wire : Wire) (resp : Response) : Bytes :=
  (writeFrame wire.response resp).toOption.getD []

/-- The write of a thread, `server.rs:41-43`. -/
def State.write (wire : Wire) (s : State) (i : Nat) (c : Conn) (resp : Response) (sent : Nat) :
    State :=
  s.setConn i { c with thread := .closed ((replyBytes wire resp).take sent) }

/-- One step. -/
def next (wire : Wire) (s : State) : Label → Option State
  | .accept peer => some (s.accept peer)
  | .read i received =>
    match s.conns i with
    | some c =>
      match c.thread with
      | .accepted => some (s.read wire i c received)
      | _ => none
    | none => none
  | .dispatch i =>
    match s.conns i with
    | some c =>
      match c.thread with
      | .heard req => some (s.dispatch i c req)
      | _ => none
    | none => none
  | .write i sent =>
    match s.conns i with
    | some c =>
      match c.thread with
      | .served resp => some (s.write wire i c resp sent)
      | _ => none
    | none => none
  | .tick d => some { s with now := s.now + d }

/-- The broker as a transition system. -/
def system (wire : Wire) : Transition State Label := ⟨{}, next wire⟩

/-! ### What a step can be -/

/-- The steps of `next`, each with its guards. -/
inductive Step (wire : Wire) (s : State) : State → Prop where
  | accept (peer : Option UInt32) : Step wire s (s.accept peer)
  | read {i : Nat} {c : Conn} (hc : s.conns i = some c) (ht : c.thread = .accepted)
      (received : Bytes) : Step wire s (s.read wire i c received)
  | dispatch {i : Nat} {c : Conn} {req : Request} (hc : s.conns i = some c)
      (ht : c.thread = .heard req) : Step wire s (s.dispatch i c req)
  | write {i : Nat} {c : Conn} {resp : Response} (hc : s.conns i = some c)
      (ht : c.thread = .served resp) (sent : Nat) : Step wire s (s.write wire i c resp sent)
  | tick (d : Nat) : Step wire s { s with now := s.now + d }

/-- Every step is one of these. -/
theorem step_of_next {wire : Wire} {s s' : State} {l : Label} (h : next wire s l = some s') :
    Step wire s s' := by
  cases l with
  | accept peer =>
    cases h
    exact .accept peer
  | read i received =>
    simp only [next] at h
    split at h
    next c hc =>
      split at h
      next ht =>
        cases h
        exact .read hc ht received
      next => cases h
    next => cases h
  | dispatch i =>
    simp only [next] at h
    split at h
    next c hc =>
      split at h
      next req ht =>
        cases h
        exact .dispatch hc ht
      next => cases h
    next => cases h
  | write i sent =>
    simp only [next] at h
    split at h
    next c hc =>
      split at h
      next resp ht =>
        cases h
        exact .write hc ht sent
      next => cases h
    next => cases h
  | tick d =>
    cases h
    exact .tick d

/-! ### One after the other -/

/-- The requests of a log with their times. -/
def trace (log : List Dispatch) : List (Request × Nat) := log.map fun d ↦ (d.request, d.time)

/-- The store in front of a place of a log, when its requests are dispatched one after the other. -/
def storeAt (log : List Dispatch) (n : Nat) : RememberStore := serveAll (trace (log.take n))

/-- A connection has its place in a log: there its request gets this response. -/
def PlacedAt (wire : Wire) (log : List Dispatch) (i : Nat) (c : Conn) (resp : Response) (n : Nat) :
    Prop :=
  ∃ d, log[n]? = some d ∧ d.conn = i ∧ acceptRequest wire c.peer c.received = some d.request ∧
    resp = (Broker.dispatch d.request (storeAt log n) d.time).1

/-- A connection has no place in a log. -/
def Unplaced (log : List Dispatch) (i : Nat) : Prop := ∀ d ∈ log, d.conn ≠ i

/-- What the stage of a thread says about the log. -/
def Stands (wire : Wire) (log : List Dispatch) (i : Nat) (c : Conn) : Prop :=
  match c.thread with
  | .accepted => Unplaced log i
  | .heard req => acceptRequest wire c.peer c.received = some req ∧ Unplaced log i
  | .served resp => ∃ n, PlacedAt wire log i c resp n
  | .closed reply =>
    (acceptRequest wire c.peer c.received = none ∧ reply = [] ∧ Unplaced log i) ∨
      ∃ resp n, PlacedAt wire log i c resp n ∧ reply <+: replyBytes wire resp

/-- The invariant. -/
structure Inv (wire : Wire) (s : State) : Prop where
  unused : ∀ i, s.nextConn ≤ i → s.conns i = none
  store : s.store = serveAll (trace s.dispatched)
  ordered : s.dispatched.Pairwise fun a b ↦ a.time ≤ b.time
  past : ∀ d ∈ s.dispatched, d.time ≤ s.now
  once : (s.dispatched.map fun d ↦ d.conn).Nodup
  known : ∀ i, s.conns i = none → Unplaced s.dispatched i
  stands : ∀ i c, s.conns i = some c → Stands wire s.dispatched i c

section Inv

variable {wire : Wire} {s s' : State}

private theorem serveAll_concat (log : List Dispatch) (d : Dispatch) :
    serveAll (trace (log ++ [d])) =
      (Broker.dispatch d.request (serveAll (trace log)) d.time).2 := by
  rw [trace, List.map_append, serveAll, List.foldl_append]
  rfl

private theorem Unplaced.concat {log : List Dispatch} {i : Nat} (h : Unplaced log i)
    {x : Dispatch} (hx : x.conn ≠ i) : Unplaced (log ++ [x]) i := by
  intro d hd
  rcases List.mem_append.mp hd with hd | hd
  · exact h d hd
  · rw [List.mem_singleton.mp hd]
    exact hx

private theorem PlacedAt.concat {log : List Dispatch} {i n : Nat} {c : Conn} {resp : Response}
    (h : PlacedAt wire log i c resp n) (x : Dispatch) :
    PlacedAt wire (log ++ [x]) i c resp n := by
  obtain ⟨d, hd, hi, hreq, hresp⟩ := h
  have hlt : n < log.length := (List.getElem?_eq_some_iff.mp hd).1
  refine ⟨d, by rw [List.getElem?_append_left hlt, hd], hi, hreq, ?_⟩
  rw [hresp, storeAt, storeAt, List.take_append_of_le_length hlt.le]

/-- A dispatch of another connection leaves a connection where it stands. -/
private theorem Stands.concat {log : List Dispatch} {i : Nat} {c : Conn} {x : Dispatch}
    (h : Stands wire log i c) (hx : x.conn ≠ i) : Stands wire (log ++ [x]) i c := by
  unfold Stands at h ⊢
  cases ht : c.thread with
  | accepted =>
    simp only [ht] at h
    exact Unplaced.concat h hx
  | heard req =>
    simp only [ht] at h
    exact ⟨h.1, h.2.concat hx⟩
  | served resp =>
    simp only [ht] at h
    obtain ⟨n, hn⟩ := h
    exact ⟨n, hn.concat x⟩
  | closed reply =>
    simp only [ht] at h
    rcases h with ⟨hnone, hempty, hold⟩ | ⟨resp, n, hn, hreply⟩
    · exact .inl ⟨hnone, hempty, hold.concat hx⟩
    · exact .inr ⟨resp, n, hn.concat x, hreply⟩

/-- The broker starts. -/
private theorem inv_init : Inv wire (system wire).init := by
  constructor <;> simp [system, trace, serveAll, Unplaced]

private theorem conns_setConn_of_ne {i j : Nat} (h : j ≠ i) (c : Conn) :
    (s.setConn i c).conns j = s.conns j :=
  Function.update_of_ne h _ _

private theorem Inv.lt_nextConn (hi : Inv wire s) {i : Nat} {c : Conn} (hc : s.conns i = some c) :
    i < s.nextConn := by
  by_contra hge
  rw [hi.unused i (by omega)] at hc
  cases hc

/-- A connection that stands where it should is put back, and nothing is dispatched. -/
private theorem Inv.setConn (hi : Inv wire s) {i : Nat} {c : Conn} (hlt : i < s.nextConn)
    (hc : Stands wire s.dispatched i c) : Inv wire (s.setConn i c) where
  unused j hj := by
    have hle : s.nextConn ≤ j := hj
    rw [conns_setConn_of_ne (by omega)]
    exact hi.unused j hle
  store := hi.store
  ordered := hi.ordered
  past := hi.past
  once := hi.once
  known j hj := by
    by_cases h : j = i
    · simp [State.setConn, h] at hj
    · rw [conns_setConn_of_ne h] at hj
      exact hi.known j hj
  stands j d hj := by
    rcases slot_update_cases hj with ⟨rfl, rfl⟩ | ⟨-, hj⟩
    · exact hc
    · exact hi.stands j d hj

/-- A new connection has no place yet. -/
private theorem Inv.accept (hi : Inv wire s) (peer : Option UInt32) :
    Inv wire (s.accept peer) := by
  have hmore : Inv wire { s with nextConn := s.nextConn + 1 } :=
    { hi with unused := fun i h ↦ hi.unused i (Nat.le_of_succ_le h) }
  refine Inv.setConn hmore (Nat.lt_succ_self s.nextConn) ?_
  exact hi.known s.nextConn (hi.unused s.nextConn (Nat.le_refl _))

/-- A read places nothing: the connection has its request, or it is over. -/
private theorem Inv.read (hi : Inv wire s) {i : Nat} {c : Conn} (hc : s.conns i = some c)
    (ht : c.thread = .accepted) (received : Bytes) : Inv wire (s.read wire i c received) := by
  have hold : Unplaced s.dispatched i := by
    have h := hi.stands i c hc
    rw [Stands, ht] at h
    exact h
  refine hi.setConn (hi.lt_nextConn hc) ?_
  cases ha : acceptRequest wire c.peer received with
  | none => exact .inl ⟨ha, rfl, hold⟩
  | some req => exact ⟨ha, hold⟩

/-- A dispatch gives its connection the last place of the log. -/
private theorem Inv.dispatch (hi : Inv wire s) {i : Nat} {c : Conn} {req : Request}
    (hc : s.conns i = some c) (ht : c.thread = .heard req) : Inv wire (s.dispatch i c req) := by
  obtain ⟨hreq, hold⟩ : acceptRequest wire c.peer c.received = some req ∧
      Unplaced s.dispatched i := by
    have h := hi.stands i c hc
    rw [Stands, ht] at h
    exact h
  exact {
    unused := by
      intro j hj
      have hle : s.nextConn ≤ j := hj
      have hlt := hi.lt_nextConn hc
      exact (conns_setConn_of_ne (by omega) _).trans (hi.unused j hle)
    store := by
      refine Eq.trans ?_ (serveAll_concat s.dispatched ⟨i, req, s.now⟩).symm
      rw [← hi.store]
      rfl
    ordered := by
      refine List.pairwise_append.mpr ⟨hi.ordered, List.pairwise_singleton _ _, ?_⟩
      intro d hd e he
      rw [List.mem_singleton.mp he]
      exact hi.past d hd
    past := by
      intro d hd
      rcases List.mem_append.mp hd with hd | hd
      · exact hi.past d hd
      · rw [List.mem_singleton.mp hd]
        exact Nat.le_refl _
    once := by
      have hnew : ∀ j ∈ s.dispatched.map fun d ↦ d.conn, j ≠ i := by
        intro j hj
        obtain ⟨d, hd, rfl⟩ := List.mem_map.mp hj
        exact hold d hd
      rw [State.dispatch, List.map_append, List.nodup_append]
      refine ⟨hi.once, List.nodup_singleton i, ?_⟩
      intro j hj k hk
      rw [List.mem_singleton.mp hk]
      exact hnew j hj
    known := by
      intro j hj
      have hne : j ≠ i := by
        rintro rfl
        simp [State.dispatch, State.setConn] at hj
      exact (hi.known j ((conns_setConn_of_ne hne _).symm.trans hj)).concat hne.symm
    stands := by
      intro j d hj
      rcases slot_update_cases hj with ⟨rfl, rfl⟩ | ⟨hne, hj⟩
      · refine ⟨s.dispatched.length, ⟨j, req, s.now⟩, List.getElem?_concat_length, rfl, hreq, ?_⟩
        rw [storeAt, State.dispatch, List.take_left, ← hi.store]
      · exact (hi.stands j d hj).concat hne.symm }

/-- A write places nothing: what it sends is of the response that the connection has. -/
private theorem Inv.write (hi : Inv wire s) {i : Nat} {c : Conn} {resp : Response}
    (hc : s.conns i = some c) (ht : c.thread = .served resp) (sent : Nat) :
    Inv wire (s.write wire i c resp sent) := by
  obtain ⟨n, hn⟩ : ∃ n, PlacedAt wire s.dispatched i c resp n := by
    have h := hi.stands i c hc
    rw [Stands, ht] at h
    exact h
  exact hi.setConn (hi.lt_nextConn hc) (.inr ⟨resp, n, hn, List.take_prefix _ _⟩)

/-- One step keeps the invariant. -/
private theorem inv_step (hi : Inv wire s) (h : Step wire s s') : Inv wire s' := by
  cases h with
  | accept peer => exact hi.accept peer
  | read hc ht received => exact hi.read hc ht received
  | dispatch hc ht => exact hi.dispatch hc ht
  | write hc ht sent => exact hi.write hc ht sent
  | tick d => exact { hi with past := fun e he ↦ Nat.le_add_right_of_le (hi.past e he) }

/-- Every run keeps the invariant. -/
private theorem inv_run {ls : List Label} (h : (system wire).Run ls s) : Inv wire s :=
  (system wire).invariant (Inv wire) inv_init (fun _ _ _ hi hn ↦ inv_step hi (step_of_next hn)) h

/-! ### In the order of time -/

/-- A connection is over. -/
def State.Over (s : State) (i : Nat) : Prop :=
  ∃ c reply, s.conns i = some c ∧ c.thread = .closed reply

/-- What a state keeps of an earlier one: the log has grown, but by no connection that was over. -/
structure Later (s u : State) : Prop where
  grown : ∃ new, u.dispatched = s.dispatched ++ new ∧ ∀ d ∈ new, ¬ s.Over d.conn
  stays : ∀ i, s.Over i → u.Over i

private theorem Over.setConn {i j : Nat} (h : s.Over j) (hi : ¬ s.Over i) (c : Conn) :
    (s.setConn i c).Over j := by
  have hne : j ≠ i := by
    rintro rfl
    exact hi h
  obtain ⟨d, reply, hd, ht⟩ := h
  exact ⟨d, reply, (conns_setConn_of_ne hne c).trans hd, ht⟩

private theorem not_over {i : Nat} {c : Conn} (hc : s.conns i = some c)
    (ht : ∀ reply, c.thread ≠ .closed reply) : ¬ s.Over i := by
  rintro ⟨d, reply, hd, hr⟩
  cases hc.symm.trans hd
  exact ht reply hr

/-- A step dispatches no connection that is over, and opens none again. -/
private theorem later_step (hi : Inv wire s) (h : Step wire s s') : Later s s' := by
  have hsame (i : Nat) (c : Conn) (hn : ¬ s.Over i) : Later s (s.setConn i c) :=
    ⟨⟨[], (List.append_nil _).symm, fun _ hd ↦ absurd hd List.not_mem_nil⟩,
      fun j hj ↦ Over.setConn hj hn c⟩
  cases h with
  | accept peer =>
    have hnew : ¬ s.Over s.nextConn := by
      rintro ⟨c, -, hc, -⟩
      exact absurd (hi.lt_nextConn hc) (Nat.lt_irrefl _)
    have hset := hsame s.nextConn { peer } hnew
    exact ⟨hset.grown, hset.stays⟩
  | read hc ht received => exact hsame _ _ (not_over hc (by simp [ht]))
  | @dispatch i c req hc ht =>
    have hopen := not_over hc (by simp [ht])
    refine ⟨⟨_, rfl, ?_⟩, fun j hj ↦ Over.setConn hj hopen _⟩
    intro d hd
    rw [List.mem_singleton.mp hd]
    exact hopen
  | write hc ht sent => exact hsame _ _ (not_over hc (by simp [ht]))
  | tick d =>
    exact ⟨⟨[], (List.append_nil _).symm, fun _ hd ↦ absurd hd List.not_mem_nil⟩, fun _ hj ↦ hj⟩

private theorem Later.trans {s u v : State} (h : Later s u) (h' : Later u v) : Later s v := by
  obtain ⟨new, hnew, hout⟩ := h.grown
  obtain ⟨more, hmore, hout'⟩ := h'.grown
  refine ⟨⟨new ++ more, by rw [hmore, hnew, List.append_assoc], ?_⟩, ?_⟩
  · intro d hd
    rcases List.mem_append.mp hd with hd | hd
    · exact hout d hd
    · exact fun hs ↦ hout' d hd (h.stays _ hs)
  · exact fun i hs ↦ h'.stays i (h.stays i hs)

private theorem later_exec {ms : List Label} {t : State} (hi : Inv wire s)
    (ht : (system wire).exec s ms = some t) : Later s t := by
  have hstart : Inv wire s ∧ Later s s :=
    ⟨hi, ⟨[], (List.append_nil _).symm, fun _ hd ↦ absurd hd List.not_mem_nil⟩, fun _ h ↦ h⟩
  refine ((system wire).exec_invariant (fun u ↦ Inv wire u ∧ Later s u) ?_ hstart ht).2
  rintro u l v ⟨hu, hl⟩ hn
  have hstep := step_of_next hn
  exact ⟨inv_step hu hstep, hl.trans (later_step hu hstep)⟩

/-- A place of the log that comes later comes behind. -/
private theorem lt_of_later {t : State} (hi : Inv wire s) (hl : Later s t) {m n : Nat}
    {d e : Dispatch} (hm : t.dispatched[m]? = some d) (hn : t.dispatched[n]? = some e)
    (hd : s.Over d.conn) (he : s.conns e.conn = none) : m < n := by
  obtain ⟨new, hnew, hout⟩ := hl.grown
  rw [hnew] at hm hn
  have hlt : m < s.dispatched.length := by
    by_contra hge
    rw [List.getElem?_append_right (by omega)] at hm
    exact hout d (List.mem_of_getElem? hm) hd
  have hge : s.dispatched.length ≤ n := by
    by_contra hlt
    rw [List.getElem?_append_left (by omega)] at hn
    exact hi.known _ he e (List.mem_of_getElem? hn) rfl
  omega

/-! ### The broker is linearizable -/

/-- A connection that is over was handled as `handle` does it alone: it was not heard, or it has one
place in the log, and sent a part of the answer that it gets there. -/
def Handled (wire : Wire) (log : List Dispatch) (i : Nat) (c : Conn) (reply : Bytes) : Prop :=
  ((∀ store now, handle wire c.peer c.received store now = (none, store)) ∧ reply = [] ∧
      Unplaced log i) ∨
    ∃ n d, (∀ k : Nat, (∃ e, log[k]? = some e ∧ e.conn = i) ↔ k = n) ∧ log[n]? = some d ∧
      reply <+: (handle wire c.peer c.received (storeAt log n) d.time).1.getD [] ∧
      storeAt log (n + 1) = (handle wire c.peer c.received (storeAt log n) d.time).2

private theorem handle_of_accept {c : Conn} {req : Request}
    (h : acceptRequest wire c.peer c.received = some req) (store : RememberStore) (now : Nat) :
    handle wire c.peer c.received store now =
      ((writeFrame wire.response (Broker.dispatch req store now).1).toOption,
        (Broker.dispatch req store now).2) := by
  rw [handle, h]

private theorem storeAt_succ {log : List Dispatch} {n : Nat} {d : Dispatch}
    (h : log[n]? = some d) :
    storeAt log (n + 1) = (Broker.dispatch d.request (storeAt log n) d.time).2 := by
  obtain ⟨hlt, rfl⟩ := List.getElem?_eq_some_iff.mp h
  rw [storeAt, List.take_succ_eq_append_getElem hlt, serveAll_concat]
  rfl

private theorem Inv.handled (hi : Inv wire s) {i : Nat} {c : Conn} {reply : Bytes}
    (hc : s.conns i = some c) (ht : c.thread = .closed reply) :
    Handled wire s.dispatched i c reply := by
  have hs := hi.stands i c hc
  rw [Stands, ht] at hs
  rcases hs with ⟨hnone, hempty, hold⟩ | ⟨resp, n, ⟨d, hd, hconn, hreq, rfl⟩, hreply⟩
  · refine .inl ⟨fun store now ↦ ?_, hempty, hold⟩
    rw [handle, hnone]
  · refine .inr ⟨n, d, ?_, hd, ?_, ?_⟩
    · intro k
      constructor
      · rintro ⟨e, he, hk⟩
        -- No connection is in the log twice.
        have hlt := (List.getElem?_eq_some_iff.mp he).1
        refine (List.getElem?_inj (by rw [List.length_map]; exact hlt) hi.once).mp ?_
        rw [List.getElem?_map, List.getElem?_map, he, hd, Option.map_some, Option.map_some, hk,
          hconn]
      · rintro rfl
        exact ⟨d, hd, hconn⟩
    · rw [handle_of_accept hreq]
      exact hreply
    · rw [handle_of_accept hreq, storeAt_succ hd]

/-- Whatever the interleaving of its threads, the broker is the one that handles connections one
after the other: in every run the store is the one behind the dispatches in their order, every
connection that is over was handled at one place of this order, if it was heard at all, and two
connections keep their order when one of them was over before the other was accepted. -/
theorem broker_linearizable {ls ms : List Label} {t : State} (hs : (system wire).Run ls s)
    (ht : (system wire).exec s ms = some t) :
    t.store = serveAll (trace t.dispatched) ∧
      t.dispatched.Pairwise (fun a b ↦ a.time ≤ b.time) ∧
      (∀ i c reply, t.conns i = some c → c.thread = .closed reply →
        Handled wire t.dispatched i c reply) ∧
      ∀ (m n : Nat) (d e : Dispatch), t.dispatched[m]? = some d → t.dispatched[n]? = some e →
        s.Over d.conn → s.conns e.conn = none → m < n := by
  have hi := inv_run hs
  have hti : Inv wire t :=
    (system wire).exec_invariant (Inv wire) (fun _ _ _ h hn ↦ inv_step h (step_of_next hn)) hi ht
  refine ⟨hti.store, hti.ordered, fun i c reply ↦ hti.handled, fun m n d e hm hn hd he ↦ ?_⟩
  exact lt_of_later hi (later_exec hi ht) hm hn hd he

end Inv

/-- The frame of a request. -/
private def frameOf (req : Request) : Bytes :=
  (writeFrame Postcard.wire.request req).toOption.getD []

private def racedKey : RememberKey := ⟨1000, 3, "su".toList, "id".toList⟩

/-- A check and a record on two connections: the record is dispatched first, and its answer is cut
short. -/
def racedStart : List Label :=
  [.accept (some 0), .accept (some 0), .read 0 (frameOf (.checkRemember ⟨racedKey, 60⟩)),
    .read 1 (frameOf (.recordRemember racedKey)), .dispatch 1, .tick 5, .write 1 3]

/-- The state behind it. -/
def racedState : State := ((system Postcard.wire).exec {} racedStart).getD {}

/-- Then the check, and a peer that is not heard. -/
def racedRest : List Label :=
  [.dispatch 0, .accept (some 1000), .read 2 (frameOf .ping), .write 0 64]

/-- The state behind it. -/
def racedEnd : State := ((system Postcard.wire).exec racedState racedRest).getD {}

/-- The check comes behind the record, and is answered as fresh. -/
theorem racedEnd_linearizable :
    ∃ c, racedEnd.conns 0 = some c ∧ c.thread = .closed [2, 0, 0, 0, 0, 1] ∧
      Handled Postcard.wire racedEnd.dispatched 0 c [2, 0, 0, 0, 0, 1] ∧
      racedEnd.store = serveAll (trace racedEnd.dispatched) := by
  have hs : (system Postcard.wire).Run racedStart racedState := rfl
  have ht : (system Postcard.wire).exec racedState racedRest = some racedEnd := rfl
  obtain ⟨hstore, -, hover, -⟩ := broker_linearizable hs ht
  have hthread : (racedEnd.conns 0).map (fun c ↦ c.thread) = some (.closed [2, 0, 0, 0, 0, 1]) := by
    decide +kernel
  obtain ⟨c, hc, hr⟩ := Option.map_eq_some_iff.mp hthread
  exact ⟨c, hc, hr, hover 0 c _ hc hr, hstore⟩

end Sentinel.Broker.Threads
