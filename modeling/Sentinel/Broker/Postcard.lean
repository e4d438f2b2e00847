import Sentinel.Broker.Proto

/-!
# The `postcard` wire format

The format the protocol's codec package documents: unsigned numbers as little-endian base-128
varints, texts as their byte length and UTF-8, an enum as its variant number. It is the wire
under which concrete runs are evaluated; the general results only use what `Wire` states.
-/

namespace Sentinel.Broker.Postcard

open Sentinel.Base

/-- A number in at most `k` base-128 digits, least significant first. -/
def encodeVarint : Nat → Nat → Bytes
  | 0, _ => []
  | k + 1, n =>
    if n < 128 then [UInt8.ofNat n]
    else UInt8.ofNat (n % 128 + 128) :: encodeVarint k (n / 128)

/-- A number of at most `k` base-128 digits and what follows it. -/
def decodeVarint : Nat → Bytes → Option (Nat × Bytes)
  | 0, _ => none
  | _ + 1, [] => none
  | k + 1, b :: rest =>
    if b.toNat < 128 then some (b.toNat, rest)
    else (decodeVarint k rest).map (fun r ↦ (b.toNat - 128 + 128 * r.1, r.2))

/-- A number of at most `k` digits that fits below `bound`. -/
def decodeBelow (k bound : Nat) (bs : Bytes) : Option (Nat × Bytes) :=
  (decodeVarint k bs).filter (fun r ↦ r.1 < bound)

/-- A text as length and UTF-8. -/
def encodeStr (s : Str) : Bytes := encodeVarint 10 (toUtf8 s).length ++ toUtf8 s

/-- A text and what follows it. -/
def decodeStr (bs : Bytes) : Option (Str × Bytes) := do
  let (n, rest) ← decodeVarint 10 bs
  if rest.length < n then none
  else
    let s ← fromUtf8 (rest.take n)
    return (s, rest.drop n)

/-- A `u32`. -/
def encodeU32 (n : UInt32) : Bytes := encodeVarint 5 n.toNat

/-- A `u32` and what follows it. -/
def decodeU32 (bs : Bytes) : Option (UInt32 × Bytes) :=
  (decodeBelow 5 4294967296 bs).map (fun r ↦ (UInt32.ofNat r.1, r.2))

/-- A remember key. -/
def encodeKey (k : RememberKey) : Bytes :=
  encodeU32 k.loginuid ++ (encodeU32 k.sessionid ++ (encodeStr k.service ++ encodeStr k.command))

/-- A remember key and what follows it. -/
def decodeKey (bs : Bytes) : Option (RememberKey × Bytes) := do
  let (loginuid, bs) ← decodeU32 bs
  let (sessionid, bs) ← decodeU32 bs
  let (service, bs) ← decodeStr bs
  let (command, bs) ← decodeStr bs
  return (⟨loginuid, sessionid, service, command⟩, bs)

/-- The body of a request. -/
def encodeRequest : Request → Bytes
  | .checkRemember q => 0 :: (encodeKey q.key ++ encodeU32 q.ttlSecs)
  | .recordRemember k => 1 :: encodeKey k
  | .ping => [2]

/-- A request from a body; bytes behind it are ignored. -/
def decodeRequest (bs : Bytes) : Option Request := do
  let (variant, bs) ← decodeU32 bs
  if variant = 0 then
    let (key, bs) ← decodeKey bs
    let (ttl, _) ← decodeU32 bs
    return .checkRemember ⟨key, ttl⟩
  else if variant = 1 then
    let (key, _) ← decodeKey bs
    return .recordRemember key
  else if variant = 2 then return .ping
  else none

/-- The body of a response. -/
def encodeResponse : Response → Bytes
  | .remember fresh => [0, if fresh then 1 else 0]
  | .recorded => [1]
  | .pong protocol => 2 :: encodeVarint 3 protocol.toNat
  | .error text => 3 :: encodeStr text

/-- A response from a body; bytes behind it are ignored. -/
def decodeResponse (bs : Bytes) : Option Response := do
  let (variant, bs) ← decodeU32 bs
  if variant = 0 then
    match bs with
    | b :: _ =>
      if b = 0 then return .remember false
      else if b = 1 then return .remember true
      else none
    | [] => none
  else if variant = 1 then return .recorded
  else if variant = 2 then
    let (n, _) ← decodeBelow 3 65536 bs
    return .pong (UInt16.ofNat n)
  else if variant = 3 then
    let (text, _) ← decodeStr bs
    return .error text
  else none

/-! ### Round trips -/

private theorem decodeVarint_encodeVarint {k n : Nat} (h : n < 128 ^ (k + 1)) (rest : Bytes) :
    decodeVarint (k + 1) (encodeVarint (k + 1) n ++ rest) = some (n, rest) := by
  induction k generalizing n with
  | zero =>
    have hb : (UInt8.ofNat n).toNat = n := by
      rw [UInt8.toNat_ofNat']
      omega
    rw [encodeVarint, if_pos (by omega), List.singleton_append, decodeVarint, hb,
      if_pos (by omega)]
  | succ k ih =>
    rw [encodeVarint]
    split
    next hn =>
      have hb : (UInt8.ofNat n).toNat = n := by
        rw [UInt8.toNat_ofNat']
        omega
      rw [List.singleton_append, decodeVarint, hb, if_pos hn]
    next hn =>
      have hb : (UInt8.ofNat (n % 128 + 128)).toNat = n % 128 + 128 := by
        rw [UInt8.toNat_ofNat']
        omega
      have hk : n / 128 < 128 ^ (k + 1) := by
        rw [Nat.div_lt_iff_lt_mul (by decide), ← Nat.pow_succ]
        exact h
      rw [List.cons_append, decodeVarint, hb, if_neg (by omega), ih hk, Option.map_some]
      congr 2
      omega

private theorem length_encodeVarint (k n : Nat) : (encodeVarint k n).length ≤ k := by
  induction k generalizing n with
  | zero => simp [encodeVarint]
  | succ k ih =>
    rw [encodeVarint]
    split
    · simp
    · simpa using ih (n / 128)

private theorem decodeU32_encodeU32 (n : UInt32) (rest : Bytes) :
    decodeU32 (encodeU32 n ++ rest) = some (n, rest) := by
  have hn : n.toNat < 4294967296 := n.toNat_lt
  rw [decodeU32, decodeBelow, encodeU32, decodeVarint_encodeVarint (by omega),
    Option.filter_some, if_pos (by simpa using hn), Option.map_some, UInt32.ofNat_toNat]

private theorem decodeStr_encodeStr {s : Str} (h : (toUtf8 s).length < 2 ^ 63) (rest : Bytes) :
    decodeStr (encodeStr s ++ rest) = some (s, rest) := by
  rw [decodeStr, encodeStr, List.append_assoc, decodeVarint_encodeVarint (by omega)]
  simp [fromUtf8_toUtf8]

private theorem decodeKey_encodeKey {k : RememberKey} (hs : (toUtf8 k.service).length < 2 ^ 63)
    (hc : (toUtf8 k.command).length < 2 ^ 63) (rest : Bytes) :
    decodeKey (encodeKey k ++ rest) = some (k, rest) := by
  simp only [decodeKey, encodeKey, List.append_assoc, decodeU32_encodeU32,
    decodeStr_encodeStr hs, decodeStr_encodeStr hc, Option.bind_eq_bind, Option.bind_some]
  rfl

private theorem decodeU32_variant (b : UInt8) (h : b.toNat < 128) (rest : Bytes) :
    decodeU32 (b :: rest) = some (UInt32.ofNat b.toNat, rest) := by
  have hb : b.toNat < 4294967296 := by omega
  rw [decodeU32, decodeBelow, decodeVarint, if_pos h, Option.filter_some,
    if_pos (by simpa using hb), Option.map_some]

private theorem decodeRequest_encodeRequest {r : Request} (h : r.textBytes < 2 ^ 63) :
    decodeRequest (encodeRequest r) = some r := by
  cases r with
  | ping => rfl
  | recordRemember k =>
    simp only [Request.textBytes] at h
    have hk := decodeKey_encodeKey (k := k) (by omega) (by omega) []
    rw [List.append_nil] at hk
    rw [decodeRequest, encodeRequest, decodeU32_variant 1 (by decide)]
    simp [hk]
  | checkRemember q =>
    simp only [Request.textBytes] at h
    have hk := decodeKey_encodeKey (k := q.key) (by omega) (by omega) (encodeU32 q.ttlSecs)
    have ht := decodeU32_encodeU32 q.ttlSecs []
    rw [List.append_nil] at ht
    rw [decodeRequest, encodeRequest, decodeU32_variant 0 (by decide)]
    simp [hk, ht]

private theorem decodeResponse_encodeResponse {r : Response} (h : r.textBytes < 2 ^ 63) :
    decodeResponse (encodeResponse r) = some r := by
  cases r with
  | remember fresh => cases fresh <;> rfl
  | recorded => rfl
  | pong protocol =>
    have hp : protocol.toNat < 65536 := protocol.toNat_lt
    have hv := decodeVarint_encodeVarint (k := 2) (n := protocol.toNat) (by omega) []
    rw [List.append_nil] at hv
    rw [decodeResponse, encodeResponse, decodeU32_variant 2 (by decide)]
    simp [decodeBelow, hv, Option.filter_some, hp]
  | error text =>
    simp only [Response.textBytes] at h
    have ht := decodeStr_encodeStr (s := text) h []
    rw [List.append_nil] at ht
    rw [decodeResponse, encodeResponse, decodeU32_variant 3 (by decide)]
    simp [ht]

/-! ### The wire -/

/-- A codec of the format; no text longer than the address space exists. -/
def codec {α : Type} (textBytes : α → Nat) (encode : α → Bytes) (decode : Bytes → Option α) :
    Codec α where
  toAllocvec m := if textBytes m < 2 ^ 63 then some (encode m) else none
  fromBytes := decode

private theorem documented_codec {α : Type} {textBytes : α → Nat} {encode : α → Bytes}
    {decode : Bytes → Option α} (hd : ∀ m, textBytes m < 2 ^ 63 → decode (encode m) = some m)
    (hl : ∀ m, textBytes m ≤ (encode m).length ∧ (encode m).length ≤ textBytes m + 64) :
    (codec textBytes encode decode).Documented textBytes where
  encodes m h := ⟨encode m, if_pos h, hl m⟩
  inverts m b h := by
    unfold codec at h ⊢
    simp only at h ⊢
    split at h
    next hm => cases h; exact hd m hm
    next => cases h

private theorem length_encodeKey (k : RememberKey) :
    (toUtf8 k.service).length + (toUtf8 k.command).length ≤ (encodeKey k).length ∧
      (encodeKey k).length ≤ (toUtf8 k.service).length + (toUtf8 k.command).length + 30 := by
  have h1 := length_encodeVarint 5 k.loginuid.toNat
  have h2 := length_encodeVarint 5 k.sessionid.toNat
  have h3 := length_encodeVarint 10 (toUtf8 k.service).length
  have h4 := length_encodeVarint 10 (toUtf8 k.command).length
  simp only [encodeKey, encodeU32, encodeStr, List.length_append]
  omega

/-- The wire of the package. -/
def wire : Wire where
  request := codec Request.textBytes encodeRequest decodeRequest
  response := codec Response.textBytes encodeResponse decodeResponse
  request_documented := by
    refine documented_codec (fun m ↦ decodeRequest_encodeRequest) (fun m ↦ ?_)
    cases m with
    | ping => decide
    | recordRemember k =>
      have := length_encodeKey k
      simp only [Request.textBytes, encodeRequest, List.length_cons]
      omega
    | checkRemember q =>
      have := length_encodeKey q.key
      have := length_encodeVarint 5 q.ttlSecs.toNat
      simp only [Request.textBytes, encodeRequest, encodeU32, List.length_cons,
        List.length_append]
      omega
  response_documented := by
    refine documented_codec (fun m ↦ decodeResponse_encodeResponse) (fun m ↦ ?_)
    cases m with
    | remember fresh => cases fresh <;> decide
    | recorded => decide
    | pong protocol =>
      have := length_encodeVarint 3 protocol.toNat
      simp only [Response.textBytes, encodeResponse, List.length_cons]
      omega
    | error text =>
      have := length_encodeVarint 10 (toUtf8 text).length
      simp only [Response.textBytes, encodeResponse, encodeStr, List.length_cons,
        List.length_append]
      omega

end Sentinel.Broker.Postcard
