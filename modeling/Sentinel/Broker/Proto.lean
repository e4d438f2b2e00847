import Mathlib.Algebra.Group.Nat.Defs
import Mathlib.Tactic.Common
import Sentinel.Base.Utf8

/-!
# The broker protocol

Crate `sentinel-broker-proto`, `crates/sentinel-broker-proto/src/lib.rs`. Messages are
encoded by the `postcard` package, taken here as a parameter with what the package documents:
decoding inverts encoding, and an encoding is its texts plus a few bytes. A frame is a
little-endian length and a body, bounded before the body is read.
-/

namespace Sentinel.Broker

open Sentinel.Base

/-- `PROTOCOL_VERSION`, `lib.rs:43`. -/
def protocolVersion : UInt16 := 1

/-- `MAX_FRAME_LEN`, `lib.rs:49`. -/
def maxFrameLen : Nat := 65536

/-- `RememberKey`, `lib.rs:56-61`. -/
structure RememberKey where
  loginuid : UInt32
  sessionid : UInt32
  service : Str
  command : Str
  deriving DecidableEq, Repr

/-- `RememberKey::is_bindable`, `lib.rs:70-72`. -/
def RememberKey.isBindable (k : RememberKey) : Bool :=
  k.loginuid != 4294967295 && k.sessionid != 4294967295 && !k.command.isEmpty

/-- `BoundKey`, `lib.rs:88-95`: a key that passed the check. -/
structure BoundKey where
  key : RememberKey
  bindable : key.isBindable = true
  deriving DecidableEq

/-- `RememberKey::bind`, `lib.rs:77-79`. -/
def RememberKey.bind (k : RememberKey) : Option BoundKey :=
  if h : k.isBindable = true then some ⟨k, h⟩ else none

/-- `RememberQuery`, `lib.rs:99-102`. -/
structure RememberQuery where
  key : RememberKey
  ttlSecs : UInt32
  deriving DecidableEq, Repr

/-- `Request`, `lib.rs:106-113`. -/
inductive Request where
  | checkRemember (q : RememberQuery)
  | recordRemember (k : RememberKey)
  | ping
  deriving DecidableEq, Repr

/-- `Response`, `lib.rs:117-127`. -/
inductive Response where
  | remember (fresh : Bool)
  | recorded
  | pong (protocol : UInt16)
  | error (text : Str)
  deriving DecidableEq, Repr

/-- `ProtoError`, `lib.rs:131-140`. -/
inductive ProtoError where
  | tooLarge (len : Nat)
  | encode
  | decode
  | io
  deriving DecidableEq, Repr

/-- What binding checked. -/
theorem RememberKey.bind_eq_some_iff (k : RememberKey) (b : BoundKey) :
    k.bind = some b ↔ b.key = k := by
  unfold RememberKey.bind
  constructor
  · intro h
    split at h
    · cases h
      rfl
    · cases h
  · rintro rfl
    rw [dif_pos b.bindable]

/-! ### Codecs -/

/-- `postcard::to_allocvec` and `postcard::from_bytes` at one message type. -/
structure Codec (α : Type) where
  toAllocvec : α → Option Bytes
  fromBytes : Bytes → Option α

/-- The texts of a request, in bytes. -/
def Request.textBytes : Request → Nat
  | .checkRemember q => (toUtf8 q.key.service).length + (toUtf8 q.key.command).length
  | .recordRemember k => (toUtf8 k.service).length + (toUtf8 k.command).length
  | .ping => 0

/-- The text of a response, in bytes. -/
def Response.textBytes : Response → Nat
  | .error text => (toUtf8 text).length
  | _ => 0

/-- A codec that the documentation of the package describes: every message whose texts can
be held in memory is encoded, the texts verbatim with at most 64 bytes around them, and what is
encoded is decoded back. -/
structure Codec.Documented {α : Type} (c : Codec α) (textBytes : α → Nat) : Prop where
  encodes : ∀ m, textBytes m < 2 ^ 63 →
    ∃ b, c.toAllocvec m = some b ∧ textBytes m ≤ b.length ∧ b.length ≤ textBytes m + 64
  inverts : ∀ m b, c.toAllocvec m = some b → c.fromBytes b = some m

/-- The two codecs of the wire. -/
structure Wire where
  request : Codec Request
  response : Codec Response
  request_documented : request.Documented Request.textBytes
  response_documented : response.Documented Response.textBytes

/-! ### Frames -/

/-- `u32::to_le_bytes`. -/
def toLeBytes (n : Nat) : Bytes :=
  [UInt8.ofNat (n % 256), UInt8.ofNat (n / 256 % 256), UInt8.ofNat (n / 65536 % 256),
    UInt8.ofNat (n / 16777216 % 256)]

/-- `u32::from_le_bytes`. -/
def fromLeBytes (a b c d : UInt8) : Nat :=
  a.toNat + 256 * b.toNat + 65536 * c.toNat + 16777216 * d.toNat

variable {α : Type}

/-- `write_frame`, `lib.rs:154-163`: the bytes put on the stream. -/
def writeFrame (c : Codec α) (msg : α) : Except ProtoError Bytes :=
  match c.toAllocvec msg with
  | none => .error .encode
  | some body =>
    if body.length > maxFrameLen then .error (.tooLarge body.length)
    else .ok (toLeBytes body.length ++ body)

/-- `read_frame`, `lib.rs:168-178`: the message and what is left of the stream. -/
def readFrame (c : Codec α) : Bytes → Except ProtoError α × Bytes
  | b₀ :: b₁ :: b₂ :: b₃ :: rest =>
    let len := fromLeBytes b₀ b₁ b₂ b₃
    if len > maxFrameLen then (.error (.tooLarge len), rest)
    else if rest.length < len then (.error .io, [])
    else
      match c.fromBytes (rest.take len) with
      | some msg => (.ok msg, rest.drop len)
      | none => (.error .decode, rest.drop len)
  | _ => (.error .io, [])

/-- A length that fits into four bytes is read back from them. -/
theorem fromLeBytes_toLeBytes {n : Nat} (h : n < 4294967296) (rest : Bytes) :
    ∃ a b c d, toLeBytes n ++ rest = a :: b :: c :: d :: rest ∧ fromLeBytes a b c d = n := by
  refine ⟨_, _, _, _, rfl, ?_⟩
  simp only [fromLeBytes, UInt8.toNat_ofNat']
  omega

/-- A written frame reads back, whatever follows it on the stream. -/
theorem readFrame_writeFrame {c : Codec α} {msg : α} {frame : Bytes}
    (hc : ∀ b, c.toAllocvec msg = some b → c.fromBytes b = some msg)
    (h : writeFrame c msg = .ok frame) (rest : Bytes) :
    readFrame c (frame ++ rest) = (.ok msg, rest) := by
  unfold writeFrame at h
  cases he : c.toAllocvec msg with
  | none => rw [he] at h; cases h
  | some body =>
    rw [he] at h
    simp only at h
    split at h
    next => cases h
    next hlen =>
      cases h
      have hl : body.length < 4294967296 := by unfold maxFrameLen at hlen; omega
      obtain ⟨b₀, b₁, b₂, b₃, hb, hn⟩ := fromLeBytes_toLeBytes hl (body ++ rest)
      rw [List.append_assoc, hb, readFrame]
      simp only [hn, hlen, if_false, List.length_append, List.take_left', List.drop_left',
        hc body he]
      rw [if_neg (by omega)]

/-- A documented codec writes every message that fits. -/
theorem writeFrame_ok {c : Codec α} {textBytes : α → Nat} (hc : c.Documented textBytes) (msg : α)
    (h : textBytes msg + 64 ≤ maxFrameLen) : ∃ frame, writeFrame c msg = .ok frame := by
  obtain ⟨b, hb, -, hle⟩ := hc.encodes msg (by unfold maxFrameLen at h; omega)
  refine ⟨toLeBytes b.length ++ b, ?_⟩
  rw [writeFrame, hb]
  simp only
  rw [if_neg (by omega)]

end Sentinel.Broker
