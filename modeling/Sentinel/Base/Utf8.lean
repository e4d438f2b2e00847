import Mathlib.Data.List.Basic
import Sentinel.Base.Str

/-!
# UTF-8: encoding, strict decoding and replacement of malformed input

Bytes are lists of octets. One scan step reads a well-formed character or stops at
the maximal subpart of an ill-formed one. Strict decoding rejects the input at the
first malformed step; replacing decoding puts U+FFFD there and goes on behind it.
-/

namespace Sentinel.Base

/-- A byte sequence. -/
abbrev Bytes := List UInt8

/-- UTF-8 encoding of a text. -/
def toUtf8 (s : Str) : Bytes := s.flatMap String.utf8EncodeChar

/-- A continuation byte, `10xxxxxx`. -/
def isCont (b : UInt8) : Bool := 0x80 ≤ b.toNat && b.toNat ≤ 0xBF

/-- Length announced by a lead byte; zero for bytes that start no character. -/
def charWidth (b : UInt8) : Nat :=
  if b.toNat < 0x80 then 1
  else if 0xC2 ≤ b.toNat ∧ b.toNat ≤ 0xDF then 2
  else if 0xE0 ≤ b.toNat ∧ b.toNat ≤ 0xEF then 3
  else if 0xF0 ≤ b.toNat ∧ b.toNat ≤ 0xF4 then 4
  else 0

/-- Second byte allowed behind a three- or four-byte lead: no overlong form, no
surrogate and nothing above U+10FFFF. -/
def secondOk (b c : UInt8) : Bool :=
  if b.toNat = 0xE0 then 0xA0 ≤ c.toNat && c.toNat ≤ 0xBF
  else if b.toNat = 0xED then 0x80 ≤ c.toNat && c.toNat ≤ 0x9F
  else if b.toNat = 0xF0 then 0x90 ≤ c.toNat && c.toNat ≤ 0xBF
  else if b.toNat = 0xF4 then 0x80 ≤ c.toNat && c.toNat ≤ 0x8F
  else isCont c

/-- One step behind the lead byte `b`: the character and what follows it, or no
character and what follows the maximal ill-formed subpart. -/
def scanChar (b : UInt8) (rest : Bytes) : Option Char × Bytes :=
  match charWidth b, rest with
  | 1, rest => (some (Char.ofNat b.toNat), rest)
  | 2, c :: r =>
    if isCont c then (some (Char.ofNat (b.toNat % 32 * 64 + c.toNat % 64)), r)
    else (none, c :: r)
  | 3, c :: r =>
    if secondOk b c then
      match r with
      | d :: r' =>
        if isCont d then
          (some (Char.ofNat (b.toNat % 16 * 4096 + c.toNat % 64 * 64 + d.toNat % 64)), r')
        else (none, d :: r')
      | [] => (none, [])
    else (none, c :: r)
  | 4, c :: r =>
    if secondOk b c then
      match r with
      | d :: r' =>
        if isCont d then
          match r' with
          | e :: r'' =>
            if isCont e then
              (some (Char.ofNat (b.toNat % 8 * 262144 + c.toNat % 64 * 4096 +
                d.toNat % 64 * 64 + e.toNat % 64)), r'')
            else (none, e :: r'')
          | [] => (none, [])
        else (none, d :: r')
      | [] => (none, [])
    else (none, c :: r)
  | _, rest => (none, rest)

private def decodeFuel : Nat → Bytes → Option Str
  | 0, _ => some []
  | _ + 1, [] => some []
  | n + 1, b :: rest =>
    match scanChar b rest with
    | (some c, r) => (decodeFuel n r).map (c :: ·)
    | (none, _) => none

private def lossyFuel : Nat → Bytes → Str
  | 0, _ => []
  | _ + 1, [] => []
  | n + 1, b :: rest =>
    match scanChar b rest with
    | (some c, r) => c :: lossyFuel n r
    | (none, r) => '\uFFFD' :: lossyFuel n r

/-- Strict decoding. Every step consumes at least its lead byte, so the byte count
is enough fuel. -/
def fromUtf8 (bs : Bytes) : Option Str := decodeFuel bs.length bs

/-- Replacing decoding: one U+FFFD for every maximal ill-formed subpart. -/
def fromUtf8Lossy (bs : Bytes) : Str := lossyFuel bs.length bs

/-- Replacing decoding never swallows input whole. -/
theorem fromUtf8Lossy_eq_nil_iff (bs : Bytes) : fromUtf8Lossy bs = [] ↔ bs = [] := by
  cases bs with
  | nil => simp [fromUtf8Lossy, lossyFuel]
  | cons b rest =>
    simp only [fromUtf8Lossy, List.length_cons, lossyFuel, reduceCtorEq, iff_false]
    cases scanChar b rest with
    | mk c r => cases c <;> simp

/-! ### Scanning an encoded character -/

private theorem toNat_byte {n : Nat} (h : n < 256) : (UInt8.ofNat n).toNat = n := by
  rw [UInt8.toNat_ofNat']
  exact Nat.mod_eq_of_lt h

private theorem toNat_cont (n : Nat) : (UInt8.ofNat (n % 0x40 + 0x80)).toNat = n % 64 + 128 :=
  toNat_byte (by omega)

private theorem isCont_cont (n : Nat) : isCont (UInt8.ofNat (n % 0x40 + 0x80)) = true := by
  simp only [isCont, toNat_cont, Bool.and_eq_true, decide_eq_true_eq]
  omega

private theorem scan_one {v : Nat} (h : v ≤ 0x7F) (rest : Bytes) :
    scanChar (UInt8.ofNat v) rest = (some (Char.ofNat v), rest) := by
  have hb : (UInt8.ofNat v).toNat = v := toNat_byte (by omega)
  have hw : charWidth (UInt8.ofNat v) = 1 := by
    rw [charWidth, hb, if_pos (by omega)]
  simp only [scanChar, hw, hb]

private theorem scan_two {v : Nat} (h : 0x7F < v) (h' : v ≤ 0x7FF) (rest : Bytes) :
    scanChar (UInt8.ofNat (v / 64 % 0x20 + 0xC0)) (UInt8.ofNat (v % 0x40 + 0x80) :: rest) =
      (some (Char.ofNat v), rest) := by
  have hb : (UInt8.ofNat (v / 64 % 0x20 + 0xC0)).toNat = v / 64 + 0xC0 := by
    rw [toNat_byte (by omega)]
    omega
  have hw : charWidth (UInt8.ofNat (v / 64 % 0x20 + 0xC0)) = 2 := by
    rw [charWidth, hb, if_neg (by omega), if_pos (by omega)]
  have hv : (v / 64 + 0xC0) % 32 * 64 + (v % 64 + 128) % 64 = v := by omega
  simp only [scanChar, hw, isCont_cont, if_true, hb, toNat_cont, hv]

private theorem scan_three {v : Nat} (h : 0x7FF < v) (h' : v ≤ 0xFFFF)
    (hr : v < 0xD800 ∨ 0xDFFF < v) (rest : Bytes) :
    scanChar (UInt8.ofNat (v / 4096 % 0x10 + 0xE0))
        (UInt8.ofNat (v / 64 % 0x40 + 0x80) :: UInt8.ofNat (v % 0x40 + 0x80) :: rest) =
      (some (Char.ofNat v), rest) := by
  have hb : (UInt8.ofNat (v / 4096 % 0x10 + 0xE0)).toNat = v / 4096 + 0xE0 := by
    rw [toNat_byte (by omega)]
    omega
  have hw : charWidth (UInt8.ofNat (v / 4096 % 0x10 + 0xE0)) = 3 := by
    rw [charWidth, hb, if_neg (by omega), if_neg (by omega), if_pos (by omega)]
  -- The lead byte E0 excludes overlong forms, ED the surrogates.
  have hs : secondOk (UInt8.ofNat (v / 4096 % 0x10 + 0xE0))
      (UInt8.ofNat (v / 64 % 0x40 + 0x80)) = true := by
    simp only [secondOk, hb, toNat_cont, isCont_cont]
    split_ifs <;> simp only [Bool.and_eq_true, decide_eq_true_eq] <;> omega
  have hv : (v / 4096 + 0xE0) % 16 * 4096 + (v / 64 % 64 + 128) % 64 * 64 +
      (v % 64 + 128) % 64 = v := by omega
  simp only [scanChar, hw, hs, isCont_cont, if_true, hb, toNat_cont, hv]

private theorem scan_four {v : Nat} (h : 0xFFFF < v) (h' : v < 0x110000) (rest : Bytes) :
    scanChar (UInt8.ofNat (v / 262144 % 0x08 + 0xF0))
        (UInt8.ofNat (v / 4096 % 0x40 + 0x80) :: UInt8.ofNat (v / 64 % 0x40 + 0x80) ::
          UInt8.ofNat (v % 0x40 + 0x80) :: rest) =
      (some (Char.ofNat v), rest) := by
  have hb : (UInt8.ofNat (v / 262144 % 0x08 + 0xF0)).toNat = v / 262144 + 0xF0 := by
    rw [toNat_byte (by omega)]
    omega
  have hw : charWidth (UInt8.ofNat (v / 262144 % 0x08 + 0xF0)) = 4 := by
    rw [charWidth, hb, if_neg (by omega), if_neg (by omega), if_neg (by omega),
      if_pos (by omega)]
  -- The lead byte F0 excludes overlong forms, F4 everything above U+10FFFF.
  have hs : secondOk (UInt8.ofNat (v / 262144 % 0x08 + 0xF0))
      (UInt8.ofNat (v / 4096 % 0x40 + 0x80)) = true := by
    simp only [secondOk, hb, toNat_cont, isCont_cont]
    split_ifs <;> simp only [Bool.and_eq_true, decide_eq_true_eq] <;> omega
  have hv : (v / 262144 + 0xF0) % 8 * 262144 + (v / 4096 % 64 + 128) % 64 * 4096 +
      (v / 64 % 64 + 128) % 64 * 64 + (v % 64 + 128) % 64 = v := by omega
  simp only [scanChar, hw, hs, isCont_cont, if_true, hb, toNat_cont, hv]

private theorem scanChar_encode (c : Char) (rest : Bytes) :
    ∃ b bs, String.utf8EncodeChar c = b :: bs ∧ scanChar b (bs ++ rest) = (some c, rest) := by
  have hc : Char.ofNat c.val.toNat = c := Char.ofNat_toNat c
  have hv : c.val.toNat < 0xD800 ∨ 0xDFFF < c.val.toNat ∧ c.val.toNat < 0x110000 := c.valid
  unfold String.utf8EncodeChar
  dsimp only
  split_ifs with h1 h2 h3
  · exact ⟨_, _, rfl, by rw [List.nil_append, scan_one h1, hc]⟩
  · exact ⟨_, _, rfl, by
      rw [List.cons_append, List.nil_append, scan_two (by omega) h2, hc]⟩
  · exact ⟨_, _, rfl, by
      simp only [List.cons_append, List.nil_append]
      rw [scan_three (by omega) h3 (by omega), hc]⟩
  · exact ⟨_, _, rfl, by
      simp only [List.cons_append, List.nil_append]
      rw [scan_four (by omega) (by omega), hc]⟩

private theorem decodeFuel_toUtf8 (s : Str) (n : Nat) (h : (toUtf8 s).length ≤ n) :
    decodeFuel n (toUtf8 s) = some s := by
  induction s generalizing n with
  | nil => cases n <;> rfl
  | cons c cs ih =>
    obtain ⟨b, bs, he, hs⟩ := scanChar_encode c (toUtf8 cs)
    have hu : toUtf8 (c :: cs) = b :: (bs ++ toUtf8 cs) := by
      rw [toUtf8, List.flatMap_cons, he, List.cons_append, ← toUtf8]
    rw [hu] at h ⊢
    cases n with
    | zero => simp at h
    | succ n =>
      have hn : (toUtf8 cs).length ≤ n := by
        simp only [List.length_cons, List.length_append] at h
        omega
      rw [decodeFuel, hs]
      simp only [ih n hn, Option.map_some]

/-- A text has at least one and at most four bytes for each character. -/
theorem length_toUtf8_bounds (s : Str) :
    s.length ≤ (toUtf8 s).length ∧ (toUtf8 s).length ≤ 4 * s.length := by
  induction s with
  | nil => simp [toUtf8]
  | cons c cs ih =>
    have hlen : (toUtf8 (c :: cs)).length = c.utf8Size + (toUtf8 cs).length := by
      simp [toUtf8, String.length_utf8EncodeChar]
    have hpos := Char.utf8Size_pos c
    have hle := Char.utf8Size_le_four c
    rw [hlen, List.length_cons]
    omega

/-- Strict decoding inverts encoding. -/
theorem fromUtf8_toUtf8 (s : Str) : fromUtf8 (toUtf8 s) = some s :=
  decodeFuel_toUtf8 s _ (Nat.le_refl _)

private theorem lossyFuel_of_decodeFuel (n : Nat) (bs : Bytes) (s : Str)
    (h : decodeFuel n bs = some s) : lossyFuel n bs = s := by
  induction n generalizing bs s with
  | zero =>
    cases h
    rfl
  | succ n ih =>
    cases bs with
    | nil =>
      cases h
      rfl
    | cons b rest =>
      rw [decodeFuel] at h
      rw [lossyFuel]
      split at h
      next c r hs =>
        obtain ⟨t, ht, rfl⟩ := Option.map_eq_some_iff.mp h
        rw [ih r t ht]
      next => cases h

/-- Replacing decoding inverts encoding. -/
theorem fromUtf8Lossy_toUtf8 (s : Str) : fromUtf8Lossy (toUtf8 s) = s :=
  lossyFuel_of_decodeFuel _ _ s (fromUtf8_toUtf8 s)

/-! ### NUL -/

private theorem ofNat_ne_nul {n : Nat} (h : 0 < n) (hv : n < 0xD800 ∨ 0xDFFF < n ∧ n < 0x110000) :
    Char.ofNat n ≠ '\x00' := by
  have hn : n.isValidChar := hv
  have ht : (Char.ofNat n).toNat = n := by
    rw [Char.ofNat, dif_pos hn]
    rfl
  intro he
  rw [he] at ht
  change 0 = n at ht
  omega

private theorem secondOk_bounds {b c : UInt8} (h : secondOk b c = true) :
    0x80 ≤ c.toNat ∧ c.toNat ≤ 0xBF ∧ (b.toNat = 0xE0 → 0xA0 ≤ c.toNat) ∧
      (b.toNat = 0xED → c.toNat ≤ 0x9F) ∧ (b.toNat = 0xF0 → 0x90 ≤ c.toNat) ∧
      (b.toNat = 0xF4 → c.toNat ≤ 0x8F) := by
  simp only [secondOk, isCont] at h
  split_ifs at h <;> simp only [Bool.and_eq_true, decide_eq_true_eq] at h <;> omega

private theorem charWidth_bounds (b : UInt8) :
    (charWidth b = 1 → b.toNat < 0x80) ∧ (charWidth b = 2 → 0xC2 ≤ b.toNat ∧ b.toNat ≤ 0xDF) ∧
      (charWidth b = 3 → 0xE0 ≤ b.toNat ∧ b.toNat ≤ 0xEF) ∧
      (charWidth b = 4 → 0xF0 ≤ b.toNat ∧ b.toNat ≤ 0xF4) := by
  unfold charWidth
  split_ifs <;> simp <;> omega

/-- A scanned character is NUL only for a zero lead byte, and the scan resumes inside
the given bytes. -/
private theorem scanChar_some {b : UInt8} {rest r : Bytes} {c : Char}
    (h : scanChar b rest = (some c, r)) : (b ≠ 0 → c ≠ '\x00') ∧ r <:+ rest := by
  obtain ⟨h1, h2, h3, h4⟩ := charWidth_bounds b
  have hz : b ≠ 0 → 0 < b.toNat := by
    intro hb
    have : b.toNat ≠ 0 := fun hn ↦ hb (UInt8.toNat_inj.mp hn)
    omega
  unfold scanChar at h
  split at h
  next hw =>
    cases h
    exact ⟨fun hb ↦ ofNat_ne_nul (hz hb) (by have := h1 hw; omega), List.suffix_refl _⟩
  next hw =>
    split at h <;> cases h
    have := h2 hw
    exact ⟨fun _ ↦ ofNat_ne_nul (by omega) (by omega), List.suffix_cons _ _⟩
  next hw =>
    split at h
    next hs =>
      have := secondOk_bounds hs
      have := h3 hw
      split at h
      · split at h <;> cases h
        exact ⟨fun _ ↦ ofNat_ne_nul (by omega) (by omega),
          (List.suffix_cons _ _).trans (List.suffix_cons _ _)⟩
      · cases h
    next => cases h
  next hw =>
    split at h
    next hs =>
      have := secondOk_bounds hs
      have := h4 hw
      split at h
      · split at h
        · split at h
          · split at h <;> cases h
            exact ⟨fun _ ↦ ofNat_ne_nul (by omega) (by omega),
              ((List.suffix_cons _ _).trans (List.suffix_cons _ _)).trans (List.suffix_cons _ _)⟩
          · cases h
        · cases h
      · cases h
    next => cases h
  next => cases h

private theorem decodeFuel_nul (n : Nat) (bs : Bytes) (hb : 0 ∉ bs) (s : Str)
    (h : decodeFuel n bs = some s) : '\x00' ∉ s := by
  induction n generalizing bs s with
  | zero => cases h; simp
  | succ n ih =>
    cases bs with
    | nil => cases h; simp
    | cons b rest =>
      rw [decodeFuel] at h
      split at h
      · next c r hs =>
        obtain ⟨hc, hr⟩ := scanChar_some hs
        obtain ⟨t, ht, rfl⟩ := Option.map_eq_some_iff.mp h
        have hb0 : b ≠ 0 := fun e ↦ hb (by simp [e])
        have hbr : 0 ∉ r := fun hm ↦ hb (List.mem_cons_of_mem _ (hr.mem hm))
        have := ih r hbr t ht
        simp only [List.mem_cons, not_or]
        exact ⟨fun e ↦ hc hb0 e.symm, this⟩
      · cases h

/-- Bytes without a zero decode to text without NUL. -/
theorem nul_not_mem_of_fromUtf8 {bs : Bytes} {s : Str} (hb : 0 ∉ bs)
    (h : fromUtf8 bs = some s) : '\x00' ∉ s := decodeFuel_nul _ bs hb s h

/-! ### Cutting -/

/-- A scalar value is the number of its character. -/
theorem toNat_charOfNat {n : Nat} (hv : n < 0xD800 ∨ 0xDFFF < n ∧ n < 0x110000) :
    (Char.ofNat n).toNat = n := by
  rw [Char.ofNat, dif_pos (show n.isValidChar from hv)]
  rfl

private theorem isCont_bound {b : UInt8} (h : isCont b = true) : 0x80 ≤ b.toNat := by
  simp only [isCont, Bool.and_eq_true, decide_eq_true_eq] at h
  exact h.1

/-- A scanned character reads the same bytes whatever follows them: one byte below 0x80, or a
character from 0x80 on with no byte below. -/
private theorem scanChar_shape {b : UInt8} {rest r : Bytes} {c : Char}
    (h : scanChar b rest = (some c, r)) :
    ∃ cont, rest = cont ++ r ∧ (∀ more, scanChar b (cont ++ more) = (some c, more)) ∧
      ((b.toNat < 0x80 ∧ cont = [] ∧ c = Char.ofNat b.toNat) ∨
        (0x80 ≤ c.toNat ∧ ∀ x ∈ b :: cont, 0x80 ≤ x.toNat)) := by
  obtain ⟨h1, h2, h3, h4⟩ := charWidth_bounds b
  unfold scanChar at h
  split at h
  next hw =>
    cases h
    refine ⟨[], rfl, ?_, Or.inl ⟨h1 hw, rfl, rfl⟩⟩
    intro more
    simp only [scanChar, hw, List.nil_append]
  next x rest' hw =>
    split at h <;> cases h
    next hx =>
    have hb := h2 hw
    have hxb := isCont_bound hx
    refine ⟨[x], rfl, ?_, Or.inr ⟨?_, ?_⟩⟩
    · intro more
      simp only [scanChar, hw, List.singleton_append, hx, if_true]
    · rw [toNat_charOfNat (by omega)]
      omega
    · simp only [List.mem_cons, List.not_mem_nil, or_false, forall_eq_or_imp, forall_eq]
      omega
  next x rest' hw =>
    split at h
    next hs =>
      have hsb := secondOk_bounds hs
      have hb := h3 hw
      split at h
      next y tail =>
        split at h <;> cases h
        next hy =>
        have hyb := isCont_bound hy
        refine ⟨[x, y], rfl, ?_, Or.inr ⟨?_, ?_⟩⟩
        · intro more
          simp only [scanChar, hw, List.cons_append, List.nil_append, hs, hy, if_true]
        · rw [toNat_charOfNat (by omega)]
          omega
        · simp only [List.mem_cons, List.not_mem_nil, or_false, forall_eq_or_imp, forall_eq]
          omega
      next => cases h
    next => cases h
  next x rest' hw =>
    split at h
    next hs =>
      have hsb := secondOk_bounds hs
      have hb := h4 hw
      split at h
      next y tail =>
        split at h
        next hy =>
          have hyb := isCont_bound hy
          split at h
          next z more =>
            split at h <;> cases h
            next hz =>
            have hzb := isCont_bound hz
            refine ⟨[x, y, z], rfl, ?_, Or.inr ⟨?_, ?_⟩⟩
            · intro more
              simp only [scanChar, hw, List.cons_append, List.nil_append, hs, hy, hz, if_true]
            · rw [toNat_charOfNat (by omega)]
              omega
            · simp only [List.mem_cons, List.not_mem_nil, or_false, forall_eq_or_imp, forall_eq]
              omega
          next => cases h
        next => cases h
      next => cases h
    next => cases h
  next => cases h

private theorem decodeFuel_of_le (n m : Nat) (bs : Bytes) (hn : bs.length ≤ n)
    (hm : bs.length ≤ m) : decodeFuel n bs = decodeFuel m bs := by
  induction n generalizing m bs with
  | zero =>
    rw [List.eq_nil_of_length_eq_zero (Nat.le_zero.mp hn)]
    cases m <;> rfl
  | succ n ih =>
    cases bs with
    | nil => cases m <;> rfl
    | cons b rest =>
      cases m with
      | zero => simp at hm
      | succ m =>
        rw [decodeFuel, decodeFuel]
        split
        next c r hs =>
          have hr := (scanChar_some hs).2.length_le
          rw [List.length_cons] at hn hm
          rw [ih m r (by omega) (by omega)]
        next => rfl

/-- A decoded text with a first character: its bytes, and what follows them decodes to the rest. -/
private theorem fromUtf8_eq_cons {bs : Bytes} {c : Char} {s : Str}
    (h : fromUtf8 bs = some (c :: s)) :
    ∃ b cont r, bs = b :: (cont ++ r) ∧ fromUtf8 r = some s ∧
      (∀ more, scanChar b (cont ++ more) = (some c, more)) ∧
      ((b.toNat < 0x80 ∧ cont = [] ∧ c = Char.ofNat b.toNat) ∨
        (0x80 ≤ c.toNat ∧ ∀ x ∈ b :: cont, 0x80 ≤ x.toNat)) := by
  cases bs with
  | nil => cases h
  | cons b rest =>
    rw [fromUtf8, List.length_cons, decodeFuel] at h
    split at h
    next c' r hs =>
      obtain ⟨t, ht, he⟩ := Option.map_eq_some_iff.mp h
      cases he
      obtain ⟨cont, rfl, hscan, hshape⟩ := scanChar_shape hs
      refine ⟨b, cont, r, rfl, ?_, hscan, hshape⟩
      rw [← ht]
      exact decodeFuel_of_le _ _ r (Nat.le_refl _) (by simp)
    next => cases h

/-- A first character that is scanned, then the rest. -/
private theorem fromUtf8_cons_of_scan {b : UInt8} {cont : Bytes} {c : Char}
    (h : ∀ more, scanChar b (cont ++ more) = (some c, more)) (r : Bytes) :
    fromUtf8 (b :: (cont ++ r)) = (fromUtf8 r).map (c :: ·) := by
  rw [fromUtf8, List.length_cons, decodeFuel, h r]
  dsimp only
  rw [decodeFuel_of_le _ r.length r (by simp) (Nat.le_refl _)]
  rfl

/-- Only no bytes decode to the empty text. -/
theorem eq_nil_of_fromUtf8 {bs : Bytes} (h : fromUtf8 bs = some []) : bs = [] := by
  cases bs with
  | nil => rfl
  | cons b rest =>
    rw [fromUtf8, List.length_cons, decodeFuel] at h
    split at h
    next => simp at h
    next => cases h

/-- Behind bytes that decode, decoding goes on with what follows. -/
theorem fromUtf8_append {a : Bytes} {s : Str} (h : fromUtf8 a = some s) (b : Bytes) :
    fromUtf8 (a ++ b) = (fromUtf8 b).map (s ++ ·) := by
  induction s generalizing a with
  | nil =>
    rw [eq_nil_of_fromUtf8 h]
    simp
  | cons c s ih =>
    obtain ⟨x, cont, r, rfl, hr, hscan, -⟩ := fromUtf8_eq_cons h
    rw [List.cons_append, List.append_assoc, fromUtf8_cons_of_scan hscan, ih hr, Option.map_map]
    rfl

/-- The bytes in front of the first one of some bytes below 0x80 decode to the characters in front
of the first one of the same characters. -/
theorem fromUtf8_takeWhile {p : UInt8 → Bool} {q : Char → Bool} {bs : Bytes} {s : Str}
    (hlow : ∀ b, b.toNat < 0x80 → p b = q (Char.ofNat b.toNat))
    (hhigh : ∀ b, 0x80 ≤ b.toNat → p b = true) (hchar : ∀ c, 0x80 ≤ c.toNat → q c = true)
    (h : fromUtf8 bs = some s) : fromUtf8 (bs.takeWhile p) = some (s.takeWhile q) := by
  induction s generalizing bs with
  | nil =>
    rw [eq_nil_of_fromUtf8 h]
    rfl
  | cons c s ih =>
    obtain ⟨b, cont, r, rfl, hr, hscan, hshape⟩ := fromUtf8_eq_cons h
    have hmore := fromUtf8_cons_of_scan hscan (r.takeWhile p)
    rw [ih hr] at hmore
    rcases hshape with ⟨hb, rfl, rfl⟩ | ⟨hc, hall⟩
    · rw [List.nil_append, List.takeWhile_cons, List.takeWhile_cons, hlow b hb]
      split
      · exact hmore
      · rfl
    · have htake : (b :: (cont ++ r)).takeWhile p = b :: (cont ++ r.takeWhile p) := by
        rw [← List.cons_append, List.takeWhile_append_of_pos, List.cons_append]
        intro x hx
        exact hhigh x (hall x hx)
      rw [htake, hmore, List.takeWhile_cons, if_pos (hchar c hc)]
      rfl

/-! ### C strings -/

/-- A C string: bytes without a NUL. -/
structure CStr where
  bytes : Bytes
  nulFree : 0 ∉ bytes
  deriving DecidableEq

namespace CStr

/-- `String::from_utf8_lossy`. -/
def text (a : CStr) : Str := fromUtf8Lossy a.bytes

/-- `CStr::to_str`. -/
def toStr (a : CStr) : Option Str := fromUtf8 a.bytes

/-- A text cut at its first NUL. -/
def ofText (s : String) : CStr :=
  ⟨(toUtf8 s.toList).takeWhile (fun b ↦ b ≠ 0), fun h ↦ by simpa using List.mem_takeWhile_imp h⟩

/-- A decoded C string has no NUL. -/
theorem nul_not_mem_toStr {a : CStr} {s : Str} (h : a.toStr = some s) : '\x00' ∉ s :=
  nul_not_mem_of_fromUtf8 a.nulFree h

end CStr

end Sentinel.Base
