import Mathlib.Data.List.Basic
import Sentinel.Base.Window
import Sentinel.Broker.Proto

/-!
# The broker's grant store and request dispatch

Crate `sentinel-broker`, `crates/sentinel-broker/src/store.rs` and `server.rs`. The store is a
window table over flattened keys; every operation takes its clock reading. Keys whose service
has no NUL, as C strings from PAM have none, are told apart by their flattened form.
-/

namespace Sentinel.Broker

open Sentinel.Base

/-- `MAX_REMEMBER`, `store.rs:26`. -/
def maxRemember : Nat := fromSecs 900

/-- `RememberStore::keystr`, `store.rs:41-46`. -/
def keystr (k : RememberKey) : Str :=
  Nat.toDigits 10 k.loginuid.toNat ++ '\x00' :: (Nat.toDigits 10 k.sessionid.toNat ++
    '\x00' :: (k.service ++ '\x00' :: k.command))

/-- `RememberStore`, `store.rs:30-32`. -/
def RememberStore : Type := Window.Table Str

namespace RememberStore

/-- `RememberStore::new`, `store.rs:35-37`. -/
def new : RememberStore := Window.Table.empty

/-- `RememberStore::is_fresh`, `store.rs:51-59`. -/
def isFresh (m : RememberStore) (k : BoundKey) (ttlSecs : UInt32) (now : Nat) : Bool :=
  Window.Table.isFresh maxRemember m (keystr k.key) (fromSecs ttlSecs.toNat) now

/-- `RememberStore::record`, `store.rs:63-67`. -/
def record (m : RememberStore) (k : BoundKey) (now : Nat) : RememberStore :=
  Window.Table.record maxRemember m (keystr k.key) now

end RememberStore

/-- `dispatch`, `server.rs:69-88`, at one clock reading. -/
def dispatch (req : Request) (store : RememberStore) (now : Nat) : Response × RememberStore :=
  match req with
  | .ping => (.pong protocolVersion, store)
  | .checkRemember q =>
    (.remember (q.key.bind.any (fun k ↦ store.isFresh k q.ttlSecs now)), store)
  | .recordRemember key =>
    match key.bind with
    | some k => (.recorded, store.record k now)
    | none => (.error "unbindable key".toList, store)

/-- The request of a connection, `server.rs:29-39`: only root peers, whose credentials can be
read, are heard, and only whole frames. -/
def acceptRequest (wire : Wire) (peer : Option UInt32) (received : Bytes) : Option Request :=
  if peer = some 0 then (readFrame wire.request received).1.toOption else none

/-- `handle`, `server.rs:25-44`, with the peer check on: the bytes sent back, when any, and
the store. -/
def handle (wire : Wire) (peer : Option UInt32) (received : Bytes) (store : RememberStore)
    (now : Nat) : Option Bytes × RememberStore :=
  match acceptRequest wire peer received with
  | none => (none, store)
  | some req =>
    let (resp, store) := dispatch req store now
    ((writeFrame wire.response resp).toOption, store)

/-- A root peer's frame is accepted as the request it was written from, every other peer's is
not. -/
theorem acceptRequest_writeFrame {wire : Wire} {req : Request} {frame : Bytes}
    (h : writeFrame wire.request req = .ok frame) (peer : Option UInt32) :
    acceptRequest wire peer frame = if peer = some 0 then some req else none := by
  have hread := readFrame_writeFrame (wire.request_documented.inverts req) h []
  rw [List.append_nil] at hread
  rw [acceptRequest, hread]
  rfl

/-! ### Dispatch -/

/-- Only a check of a bindable key that the store holds fresh is answered as fresh. -/
theorem dispatch_remember {req : Request} {store : RememberStore} {now : Nat}
    (h : (dispatch req store now).1 = .remember true) :
    ∃ q b, req = .checkRemember q ∧ b.key = q.key ∧ store.isFresh b q.ttlSecs now = true := by
  cases req with
  | ping => cases h
  | recordRemember key =>
    unfold dispatch at h
    simp only at h
    split at h <;> cases h
  | checkRemember q =>
    have hf : q.key.bind.any (fun k ↦ store.isFresh k q.ttlSecs now) = true :=
      Response.remember.inj h
    obtain ⟨b, hb, hfresh⟩ := (Option.any_eq_true _ _).mp hf
    exact ⟨q, b, rfl, (RememberKey.bind_eq_some_iff _ _).mp hb, hfresh⟩

/-- A check of a bound key that the store holds fresh is answered as fresh. -/
theorem dispatch_fresh {store : RememberStore} {b : BoundKey} {ttlSecs : UInt32} {now : Nat}
    (h : store.isFresh b ttlSecs now = true) :
    (dispatch (.checkRemember ⟨b.key, ttlSecs⟩) store now).1 = .remember true := by
  have hany : b.key.bind.any (fun k ↦ store.isFresh k ttlSecs now) = true := by
    rw [(RememberKey.bind_eq_some_iff b.key b).mpr rfl, Option.any_some, h]
  exact congrArg Response.remember hany

/-- An entry of the store behind a request was there before or is the recorded key's. -/
theorem dispatch_store {req : Request} {store : RememberStore} {now : Nat} {k : Str} {t : Nat}
    (h : (dispatch req store now).2 k = some t) :
    store k = some t ∨
      ∃ key, req = .recordRemember key ∧ key.isBindable = true ∧ keystr key = k ∧ t = now := by
  cases req with
  | ping => exact Or.inl h
  | checkRemember q => exact Or.inl h
  | recordRemember key =>
    unfold dispatch at h
    simp only at h
    split at h
    next b hb =>
      have hk := (RememberKey.bind_eq_some_iff _ _).mp hb
      obtain ⟨hs, ht⟩ | hold := Window.Table.record_cases h
      · exact Or.inr ⟨key, rfl, by rw [← hk]; exact b.bindable, by rw [hs, hk], ht⟩
      · exact Or.inl hold
    next => exact Or.inl h

/-! ### Key strings -/

/-- A decimal field determines its number. -/
theorem toDigits_injective {m n : Nat} (h : Nat.toDigits 10 m = Nat.toDigits 10 n) : m = n := by
  rw [← Nat.ofDigitChars_toDigits (b := 10) (n := m) (by decide) (by decide), h,
    Nat.ofDigitChars_toDigits (by decide) (by decide)]

/-- Key strings agree when the numbers do and the texts behind them agree as a row. -/
theorem keystr_eq_iff_fields (j k : RememberKey) :
    keystr j = keystr k ↔ j.loginuid = k.loginuid ∧ j.sessionid = k.sessionid ∧
      j.service ++ '\x00' :: j.command = k.service ++ '\x00' :: k.command := by
  constructor
  · intro h
    obtain ⟨hl, h⟩ := append_sep_inj (nul_not_mem_toDigits _) (nul_not_mem_toDigits _) h
    obtain ⟨hs, h⟩ := append_sep_inj (nul_not_mem_toDigits _) (nul_not_mem_toDigits _) h
    exact ⟨UInt32.toNat_inj.mp (toDigits_injective hl),
      UInt32.toNat_inj.mp (toDigits_injective hs), h⟩
  · rintro ⟨hl, hs, h⟩
    rw [keystr, keystr, hl, hs, h]

/-- One key is the other with the end of its service, from a NUL on, moved in front of its
command. -/
def Spoofs (j k : RememberKey) : Prop :=
  j.loginuid = k.loginuid ∧ j.sessionid = k.sessionid ∧
    ∃ x, j.service = k.service ++ '\x00' :: x ∧ k.command = x ++ '\x00' :: j.command

/-- Only a key with a NUL in its service spoofs another one. -/
theorem nul_mem_of_spoofs {j k : RememberKey} (h : Spoofs j k) : '\x00' ∈ j.service := by
  obtain ⟨-, -, x, hs, -⟩ := h
  rw [hs]
  exact List.mem_append_right _ List.mem_cons_self

/-- Key strings agree when the keys do, or when one key spoofs the other. -/
theorem keystr_eq_iff (j k : RememberKey) :
    keystr j = keystr k ↔ j = k ∨ Spoofs j k ∨ Spoofs k j := by
  have hkey : j = k ↔ j.loginuid = k.loginuid ∧ j.sessionid = k.sessionid ∧
      j.service = k.service ∧ j.command = k.command := by
    cases j
    cases k
    rw [RememberKey.mk.injEq]
  rw [keystr_eq_iff_fields, hkey, append_sep_eq_iff, Spoofs, Spoofs, eq_comm (a := k.loginuid),
    eq_comm (a := k.sessionid)]
  simp only [and_or_left]

/-- Keys whose service has no NUL have distinct strings. -/
theorem keystr_inj {j k : RememberKey} (hj : '\x00' ∉ j.service) (hk : '\x00' ∉ k.service)
    (h : keystr j = keystr k) : j = k := by
  rcases (keystr_eq_iff j k).mp h with h | h | h
  · exact h
  · exact absurd (nul_mem_of_spoofs h) hj
  · exact absurd (nul_mem_of_spoofs h) hk

/-- A bound key as the PAM module can send it: services are C strings. -/
structure PamKey where
  bound : BoundKey
  nulFree : '\x00' ∉ bound.key.service
  deriving DecidableEq

/-- The string a PAM key is stored under. -/
def PamKey.str (k : PamKey) : Str := keystr k.bound.key

/-- PAM keys are told apart by their strings. -/
theorem PamKey.str_injective : Function.Injective PamKey.str := by
  intro j k h
  have hk := keystr_inj j.nulFree k.nulFree h
  obtain ⟨⟨jk, jb⟩, jn⟩ := j
  obtain ⟨⟨kk, kb⟩, kn⟩ := k
  simp only at hk
  subst hk
  rfl

end Sentinel.Broker
