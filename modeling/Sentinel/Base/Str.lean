import Mathlib.Data.List.DropRight
import Mathlib.Data.List.Basic

/-!
# Character sequences, whitespace tokens and trimming

Text is the sequence of its Unicode scalar values. Whitespace is the Unicode
`White_Space` property, and the operations follow the standard library of the
modelled language: tokens are the maximal whitespace-free runs, joining puts one
space between neighbours, trimming removes whitespace at the ends only.
-/

namespace Sentinel.Base

/-- Text as its sequence of Unicode scalar values. -/
abbrev Str := List Char

/-- The Unicode `White_Space` property. -/
def isWhitespace (c : Char) : Bool :=
  let n := c.toNat
  (9 ≤ n && n ≤ 13) || n == 0x20 || n == 0x85 || n == 0xA0 || n == 0x1680 ||
    (0x2000 ≤ n && n ≤ 0x200A) || n == 0x2028 || n == 0x2029 || n == 0x202F ||
    n == 0x205F || n == 0x3000

/-- Put a character in front of the first token, or open one. -/
private def extendHead (c : Char) : List Str → List Str
  | [] => [[c]]
  | w :: ws => (c :: w) :: ws

/-- Whether a token ends in front of this text: it is empty or starts with whitespace. -/
private def atBoundary : Str → Bool
  | [] => true
  | d :: _ => isWhitespace d

/-- The maximal whitespace-free runs of a text, in order. -/
def splitWhitespace : Str → List Str
  | [] => []
  | c :: cs =>
    if isWhitespace c then splitWhitespace cs
    else if atBoundary cs then [c] :: splitWhitespace cs
    else extendHead c (splitWhitespace cs)

/-- Neighbouring words separated by one space. -/
def joinSpace : List Str → Str
  | [] => []
  | [w] => w
  | w :: v :: ws => w ++ ' ' :: joinSpace (v :: ws)

/-- Remove leading whitespace. -/
def trimStart (s : Str) : Str := s.dropWhile isWhitespace

/-- Remove trailing whitespace. -/
def trimEnd (s : Str) : Str := s.rdropWhile isWhitespace

/-- Remove whitespace at both ends. -/
def trim (s : Str) : Str := trimEnd (trimStart s)

/-- A token: a non-empty word without whitespace. -/
def IsToken (w : Str) : Prop := w ≠ [] ∧ ∀ c ∈ w, isWhitespace c = false

/-- A text of whitespace only, the empty text included. -/
def Blank (s : Str) : Prop := ∀ c ∈ s, isWhitespace c = true

/-- The space is whitespace. -/
@[simp] theorem isWhitespace_space : isWhitespace ' ' = true := by decide

/-! ### Tokens -/

/-- The empty text has no token. -/
@[simp] theorem splitWhitespace_nil : splitWhitespace [] = [] := rfl

/-- Leading whitespace does not change the tokens. -/
theorem splitWhitespace_cons_space {c : Char} (h : isWhitespace c = true) (cs : Str) :
    splitWhitespace (c :: cs) = splitWhitespace cs := by
  rw [splitWhitespace, if_pos h]

private theorem splitWhitespace_cons_last {c : Char} (h : isWhitespace c = false) :
    splitWhitespace [c] = [[c]] := by
  simp [splitWhitespace, atBoundary, h]

private theorem splitWhitespace_cons_end {c d : Char} (h : isWhitespace c = false)
    (hd : isWhitespace d = true) (ds : Str) :
    splitWhitespace (c :: d :: ds) = [c] :: splitWhitespace ds := by
  rw [splitWhitespace, if_neg (by simp [h]), atBoundary, if_pos hd,
    splitWhitespace_cons_space hd]

private theorem splitWhitespace_cons_more {c d : Char} (h : isWhitespace c = false)
    (hd : isWhitespace d = false) (ds : Str) :
    splitWhitespace (c :: d :: ds) = extendHead c (splitWhitespace (d :: ds)) := by
  rw [splitWhitespace, if_neg (by simp [h]), atBoundary, if_neg (by simp [hd])]

private theorem splitWhitespace_ne_nil {d : Char} (hd : isWhitespace d = false) (ds : Str) :
    splitWhitespace (d :: ds) ≠ [] := by
  cases ds with
  | nil => simp [splitWhitespace_cons_last hd]
  | cons e es =>
    cases he : isWhitespace e with
    | true => simp [splitWhitespace_cons_end hd he]
    | false =>
      rw [splitWhitespace_cons_more hd he]
      cases splitWhitespace (e :: es) <;> simp [extendHead]

/-- A text that starts outside whitespace starts with its first token. -/
theorem splitWhitespace_cons_word {c : Char} (h : isWhitespace c = false) (cs : Str) :
    ∃ w ts, splitWhitespace (c :: cs) = (c :: w) :: ts := by
  cases cs with
  | nil => exact ⟨[], [], splitWhitespace_cons_last h⟩
  | cons d ds =>
    cases hd : isWhitespace d with
    | true => exact ⟨[], _, splitWhitespace_cons_end h hd ds⟩
    | false =>
      rw [splitWhitespace_cons_more h hd]
      cases hs : splitWhitespace (d :: ds) with
      | nil => exact absurd hs (splitWhitespace_ne_nil hd ds)
      | cons w ts => exact ⟨w, ts, rfl⟩

/-- A whitespace character separates the tokens before it from those after it. -/
theorem splitWhitespace_append_space (a b : Str) {w : Char} (hw : isWhitespace w = true) :
    splitWhitespace (a ++ w :: b) = splitWhitespace a ++ splitWhitespace b := by
  induction a with
  | nil => rw [List.nil_append, splitWhitespace_cons_space hw, splitWhitespace_nil,
      List.nil_append]
  | cons c cs ih =>
    cases hc : isWhitespace c with
    | true =>
      rw [List.cons_append, splitWhitespace_cons_space hc, splitWhitespace_cons_space hc, ih]
    | false =>
      cases cs with
      | nil =>
        rw [List.cons_append, List.nil_append, splitWhitespace_cons_end hc hw,
          splitWhitespace_cons_last hc, List.singleton_append]
      | cons d ds =>
        cases hd : isWhitespace d with
        | true =>
          rw [List.cons_append, List.cons_append, splitWhitespace_cons_end hc hd,
            splitWhitespace_cons_end hc hd]
          rw [List.cons_append, splitWhitespace_cons_space hd,
            splitWhitespace_cons_space hd] at ih
          rw [ih, List.cons_append]
        | false =>
          rw [List.cons_append, List.cons_append, splitWhitespace_cons_more hc hd,
            splitWhitespace_cons_more hc hd, ← List.cons_append, ih]
          -- The left part keeps a first token, so the character joins that token.
          cases hs : splitWhitespace (d :: ds) with
          | nil => exact absurd hs (splitWhitespace_ne_nil hd ds)
          | cons t ts => simp [extendHead]

/-- A token is its own only token. -/
theorem splitWhitespace_token {w : Str} (h : IsToken w) : splitWhitespace w = [w] := by
  obtain ⟨hne, hws⟩ := h
  induction w with
  | nil => exact absurd rfl hne
  | cons c cs ih =>
    have hc : isWhitespace c = false := hws c (by simp)
    cases cs with
    | nil => exact splitWhitespace_cons_last hc
    | cons d ds =>
      have hd : isWhitespace d = false := hws d (by simp)
      have ht := ih (by simp) (fun x hx ↦ hws x (by simp [hx]))
      rw [splitWhitespace_cons_more hc hd, ht, extendHead]

/-- Every token found is a token. -/
theorem isToken_of_mem_splitWhitespace {s w : Str} (h : w ∈ splitWhitespace s) : IsToken w := by
  induction s generalizing w with
  | nil => simp at h
  | cons c cs ih =>
    cases hc : isWhitespace c with
    | true =>
      rw [splitWhitespace_cons_space hc] at h
      exact ih h
    | false =>
      cases cs with
      | nil =>
        rw [splitWhitespace_cons_last hc, List.mem_singleton] at h
        subst h
        exact ⟨by simp, by simp [hc]⟩
      | cons d ds =>
        cases hd : isWhitespace d with
        | true =>
          rw [splitWhitespace_cons_end hc hd] at h
          rcases List.mem_cons.mp h with rfl | h
          · exact ⟨by simp, by simp [hc]⟩
          · exact ih (by rw [splitWhitespace_cons_space hd]; exact h)
        | false =>
          rw [splitWhitespace_cons_more hc hd] at h
          cases hs : splitWhitespace (d :: ds) with
          | nil => exact absurd hs (splitWhitespace_ne_nil hd ds)
          | cons t ts =>
            rw [hs, extendHead] at h
            rcases List.mem_cons.mp h with rfl | h
            · obtain ⟨-, ht⟩ := ih (w := t) (by simp [hs])
              exact ⟨by simp, by simpa [hc] using ht⟩
            · exact ih (by simp [hs, h])

/-- Only blank text has no token. -/
theorem splitWhitespace_eq_nil_iff (s : Str) : splitWhitespace s = [] ↔ Blank s := by
  induction s with
  | nil => simp [Blank]
  | cons c cs ih =>
    cases hc : isWhitespace c with
    | true =>
      rw [splitWhitespace_cons_space hc, ih]
      simp [Blank, hc]
    | false =>
      constructor
      · intro h
        exact absurd h (splitWhitespace_ne_nil hc cs)
      · intro h
        have := h c (by simp)
        simp [hc] at this

/-! ### Cutting -/

/-- The place between two texts lies inside a word. -/
def CutsWord (a b : Str) : Prop :=
  (∃ c, a.getLast? = some c ∧ isWhitespace c = false) ∧
    ∃ d, b.head? = some d ∧ isWhitespace d = false

/-- A cut between words separates the tokens. -/
theorem splitWhitespace_append_of_not_cutsWord {a b : Str} (h : ¬ CutsWord a b) :
    splitWhitespace (a ++ b) = splitWhitespace a ++ splitWhitespace b := by
  cases b with
  | nil => rw [List.append_nil, splitWhitespace_nil, List.append_nil]
  | cons d ds =>
    cases hd : isWhitespace d with
    | true => rw [splitWhitespace_append_space a ds hd, splitWhitespace_cons_space hd]
    | false =>
      rcases List.eq_nil_or_concat' a with rfl | ⟨cs, c, rfl⟩
      · rfl
      · cases hc : isWhitespace c with
        | true =>
          rw [List.append_assoc, List.singleton_append, splitWhitespace_append_space cs _ hc,
            splitWhitespace_append_space cs [] hc, splitWhitespace_nil, List.append_nil]
        | false => exact absurd ⟨⟨c, List.getLast?_concat, hc⟩, d, rfl, hd⟩ h

/-- A cut inside a word leaves its two halves as the last and the first token. -/
theorem splitWhitespace_append_of_cutsWord {a b : Str} (h : CutsWord a b) :
    ∃ ts x y ys, splitWhitespace a = ts ++ [x] ∧ splitWhitespace b = y :: ys ∧
      splitWhitespace (a ++ b) = ts ++ (x ++ y) :: ys := by
  obtain ⟨⟨c, hlast, hc⟩, d, hhead, hd⟩ := h
  obtain ⟨ds, rfl⟩ : ∃ ds, b = d :: ds := List.head?_eq_some_iff.mp hhead
  obtain ⟨y, ys, hy⟩ : ∃ y ys, splitWhitespace (d :: ds) = y :: ys :=
    List.exists_cons_of_ne_nil (splitWhitespace_ne_nil hd ds)
  induction a with
  | nil => cases hlast
  | cons e es ih =>
    cases es with
    | nil =>
      obtain rfl : c = e := (Option.some.inj hlast).symm
      refine ⟨[], [c], y, ys, splitWhitespace_cons_last hc, hy, ?_⟩
      rw [List.singleton_append, splitWhitespace_cons_more hc hd, hy]
      rfl
    | cons f fs =>
      obtain ⟨ts, x, y', ys', hts, hy', happ⟩ := ih (by rwa [List.getLast?_cons_cons] at hlast)
      cases he : isWhitespace e with
      | true =>
        refine ⟨ts, x, y', ys', ?_, hy', ?_⟩
        · rw [splitWhitespace_cons_space he, hts]
        · rw [List.cons_append, splitWhitespace_cons_space he, happ]
      | false =>
        cases hf : isWhitespace f with
        | true =>
          rw [splitWhitespace_cons_space hf] at hts
          rw [List.cons_append, splitWhitespace_cons_space hf] at happ
          refine ⟨[e] :: ts, x, y', ys', ?_, hy', ?_⟩
          · rw [splitWhitespace_cons_end he hf, hts, List.cons_append]
          · rw [List.cons_append, List.cons_append, splitWhitespace_cons_end he hf, happ,
              List.cons_append]
        | false =>
          rw [splitWhitespace_cons_more he hf, List.cons_append, List.cons_append,
            splitWhitespace_cons_more he hf, ← List.cons_append, happ, hts]
          -- The character joins the first token, which is the cut one when there is no other.
          cases ts with
          | nil => exact ⟨[], e :: x, y', ys', rfl, hy', rfl⟩
          | cons t ts => exact ⟨(e :: t) :: ts, x, y', ys', rfl, hy', rfl⟩

/-! ### Joining -/

/-- Joining cuts at every boundary: the tokens of the words, in order. -/
theorem splitWhitespace_joinSpace (ws : List Str) :
    splitWhitespace (joinSpace ws) = ws.flatMap splitWhitespace := by
  induction ws with
  | nil => rfl
  | cons w rest ih =>
    cases rest with
    | nil => simp [joinSpace]
    | cons v ws =>
      rw [joinSpace, splitWhitespace_append_space _ _ isWhitespace_space, ih]
      rfl

/-- Joined tokens are recovered by splitting. -/
theorem splitWhitespace_joinSpace_tokens {ts : List Str} (h : ∀ t ∈ ts, IsToken t) :
    splitWhitespace (joinSpace ts) = ts := by
  rw [splitWhitespace_joinSpace]
  induction ts with
  | nil => rfl
  | cons t ts ih =>
    rw [List.flatMap_cons, splitWhitespace_token (h t (by simp)),
      ih (fun x hx ↦ h x (by simp [hx])), List.singleton_append]

/-- Joined tokens bind the token list. -/
theorem joinSpace_inj {ts us : List Str} (ht : ∀ t ∈ ts, IsToken t) (hu : ∀ u ∈ us, IsToken u) :
    joinSpace ts = joinSpace us ↔ ts = us := by
  constructor
  · intro h
    rw [← splitWhitespace_joinSpace_tokens ht, ← splitWhitespace_joinSpace_tokens hu, h]
  · intro h
    rw [h]

/-- A join has text as soon as one word has. -/
theorem joinSpace_eq_nil_iff {ts : List Str} (h : ∀ t ∈ ts, t ≠ []) :
    joinSpace ts = [] ↔ ts = [] := by
  constructor
  · intro hj
    cases ts with
    | nil => rfl
    | cons t rest =>
      cases rest with
      | nil => exact absurd hj (h t (by simp))
      | cons v vs => simp [joinSpace] at hj
  · intro ht
    rw [ht, joinSpace]

/-- A word in front of a join is separated by one space. -/
theorem joinSpace_cons (w : Str) {ws : List Str} (h : ws ≠ []) :
    joinSpace (w :: ws) = w ++ ' ' :: joinSpace ws := by
  cases ws with
  | nil => exact absurd rfl h
  | cons v vs => rfl

/-- A join of a non-empty front counts as one word in front of the rest. -/
theorem joinSpace_append {ws : List Str} (h : ws ≠ []) (vs : List Str) :
    joinSpace (ws ++ vs) = joinSpace (joinSpace ws :: vs) := by
  induction ws with
  | nil => exact absurd rfl h
  | cons w ws ih =>
    cases hws : ws with
    | nil => rfl
    | cons v ws' =>
      rw [hws] at ih
      rw [List.cons_append, joinSpace_cons w (by simp), ih (by simp), joinSpace_cons w (by simp)]
      cases vs with
      | nil => rfl
      | cons u us => simp [joinSpace]

/-! ### Trimming -/

/-- Leading whitespace is not part of any token. -/
theorem splitWhitespace_trimStart (s : Str) :
    splitWhitespace (trimStart s) = splitWhitespace s := by
  induction s with
  | nil => rfl
  | cons c cs ih =>
    cases hc : isWhitespace c with
    | true =>
      rw [splitWhitespace_cons_space hc, ← ih]
      simp [trimStart, hc]
    | false => simp [trimStart, hc]

/-- Trailing whitespace is not part of any token. -/
theorem splitWhitespace_trimEnd (s : Str) :
    splitWhitespace (trimEnd s) = splitWhitespace s := by
  induction s using List.reverseRecOn with
  | nil => simp [trimEnd]
  | append_singleton s c ih =>
    cases hc : isWhitespace c with
    | true =>
      rw [trimEnd, List.rdropWhile_concat_pos _ _ _ hc, ← trimEnd, ih,
        splitWhitespace_append_space s [] hc, splitWhitespace_nil, List.append_nil]
    | false => rw [trimEnd, List.rdropWhile_concat_neg _ _ _ (by simp [hc])]

/-- Trimming keeps the tokens. -/
theorem splitWhitespace_trim (s : Str) : splitWhitespace (trim s) = splitWhitespace s := by
  rw [trim, splitWhitespace_trimEnd, splitWhitespace_trimStart]

/-- A text that starts and ends outside whitespace is already trimmed. -/
theorem trim_eq_self {s : Str} (hh : ∀ c, s.head? = some c → isWhitespace c = false)
    (hl : ∀ c, s.getLast? = some c → isWhitespace c = false) : trim s = s := by
  have hs : trimStart s = s := by
    cases s with
    | nil => rfl
    | cons c cs => simp [trimStart, hh c rfl]
  rw [trim, hs, trimEnd, List.rdropWhile_eq_self_iff]
  intro hne
  simp [hl _ (List.getLast?_eq_some_getLast hne)]

/-- A trimmed text starts outside whitespace. -/
theorem isWhitespace_head_trim {s : Str} {c : Char} (h : (trim s).head? = some c) :
    isWhitespace c = false := by
  have hp : (trim s).head? = (trimStart s).head? := by
    obtain ⟨t, ht⟩ : trim s <+: trimStart s := List.rdropWhile_prefix _ _
    rw [← ht, List.head?_append, h]
    rfl
  have hn := List.head?_dropWhile_not isWhitespace s
  rw [← trimStart, ← hp, h] at hn
  exact hn

/-- A trimmed text ends outside whitespace. -/
theorem isWhitespace_getLast_trim {s : Str} {c : Char} (h : (trim s).getLast? = some c) :
    isWhitespace c = false := by
  have hne : trim s ≠ [] := by
    intro hnil
    rw [hnil] at h
    cases h
  have hn : ¬ isWhitespace ((trim s).getLast hne) := List.rdropWhile_last_not _ _ hne
  rw [List.getLast?_eq_some_getLast hne] at h
  cases h
  simpa using hn

private theorem joinSpace_head {t : Str} (ht : t ≠ []) (ts : List Str) :
    (joinSpace (t :: ts)).head? = t.head? := by
  cases t with
  | nil => exact absurd rfl ht
  | cons c cs => cases ts <;> simp [joinSpace]

private theorem joinSpace_ne_nil {t : Str} (ht : t ≠ []) (ts : List Str) :
    joinSpace (t :: ts) ≠ [] := by
  intro h
  have := joinSpace_head ht ts
  rw [h] at this
  cases t with
  | nil => exact ht rfl
  | cons c cs => simp at this

/-- Joined tokens have no whitespace at either end. -/
theorem trim_joinSpace {ts : List Str} (h : ∀ t ∈ ts, IsToken t) :
    trim (joinSpace ts) = joinSpace ts := by
  have hlast : ∀ c, (joinSpace ts).getLast? = some c → isWhitespace c = false := by
    induction ts with
    | nil => simp [joinSpace]
    | cons t rest ih =>
      intro c hc
      cases rest with
      | nil => exact (h t (by simp)).2 c (List.mem_of_getLast? hc)
      | cons v vs =>
        -- The last character stands in the last word, behind the separating space.
        have hv := joinSpace_ne_nil (h v (by simp)).1 vs
        rw [joinSpace, List.getLast?_append_cons,
          List.getLast?_cons_of_ne_nil hv] at hc
        exact ih (fun x hx ↦ h x (by simp [hx])) c hc
  apply trim_eq_self _ hlast
  intro c hc
  cases ts with
  | nil => simp [joinSpace] at hc
  | cons t rest =>
    rw [joinSpace_head (h t (by simp)).1] at hc
    exact (h t (by simp)).2 c (List.mem_of_mem_head? hc)

/-- A text that is not blank keeps its leading trim in front of any suffix. -/
theorem trimStart_append {s : Str} (h : ¬ Blank s) (t : Str) :
    trimStart (s ++ t) = trimStart s ++ t := by
  induction s with
  | nil => exact absurd (by simp [Blank]) h
  | cons c cs ih =>
    cases hc : isWhitespace c with
    | true =>
      have hcs : ¬ Blank cs := by
        intro hb
        apply h
        simpa [Blank, hc] using hb
      simpa [trimStart, hc] using ih hcs
    | false => simp [trimStart, hc]

/-- Blank text disappears under a leading trim. -/
theorem trimStart_append_blank {s : Str} (h : Blank s) (t : Str) :
    trimStart (s ++ t) = trimStart t := by
  induction s with
  | nil => rfl
  | cons c cs ih =>
    have hc : isWhitespace c = true := h c (by simp)
    simpa [trimStart, hc] using ih (fun x hx ↦ h x (by simp [hx]))

/-! ### Separated fields -/

/-- The first separator ends a field that has none. -/
theorem append_sep_inj {α : Type} [DecidableEq α] {sep : α} {a b c d : List α} (ha : sep ∉ a)
    (hc : sep ∉ c) (h : a ++ sep :: b = c ++ sep :: d) : a = c ∧ b = d := by
  have hs := congrArg (List.splitOn sep) h
  rw [List.splitOn_append_cons_self_of_not_mem ha,
    List.splitOn_append_cons_self_of_not_mem hc] at hs
  have hac : a = c := (List.cons.inj hs).1
  subst hac
  exact ⟨rfl, (List.cons.inj (List.append_cancel_left h)).2⟩

/-- Two fields with a separator agree as texts when the fields agree, or when a part of one first
field, behind a separator in it, stands in front of the other second field. -/
theorem append_sep_eq_iff {α : Type} {sep : α} {a b c d : List α} :
    a ++ sep :: b = c ++ sep :: d ↔
      (a = c ∧ b = d) ∨ (∃ x, a = c ++ sep :: x ∧ d = x ++ sep :: b) ∨
        ∃ x, c = a ++ sep :: x ∧ b = x ++ sep :: d := by
  constructor
  · intro h
    rcases List.append_eq_append_iff.mp h with ⟨x, rfl, hx⟩ | ⟨x, rfl, hx⟩
    · cases x with
      | nil =>
        rw [List.nil_append] at hx
        exact .inl ⟨(List.append_nil a).symm, (List.cons.inj hx).2⟩
      | cons s x =>
        obtain ⟨rfl, hb⟩ := List.cons.inj hx
        exact .inr (.inr ⟨x, rfl, hb⟩)
    · cases x with
      | nil =>
        rw [List.nil_append] at hx
        exact .inl ⟨List.append_nil c, (List.cons.inj hx).2.symm⟩
      | cons s x =>
        obtain ⟨rfl, hd⟩ := List.cons.inj hx
        exact .inr (.inl ⟨x, rfl, hd⟩)
  · rintro (⟨rfl, rfl⟩ | ⟨x, rfl, rfl⟩ | ⟨x, rfl, rfl⟩)
    · rfl
    · rw [List.append_assoc, List.cons_append]
    · rw [List.append_assoc, List.cons_append]

/-- A digit is no whitespace. -/
theorem isWhitespace_of_isDigit {c : Char} (h : c.isDigit = true) : isWhitespace c = false := by
  simp only [Char.isDigit, Bool.and_eq_true, decide_eq_true_eq, UInt32.le_iff_toNat_le] at h
  have hlow : 48 ≤ c.toNat := h.1
  have hhigh : c.toNat ≤ 57 := h.2
  simp only [isWhitespace, Bool.or_eq_false_iff, Bool.and_eq_false_iff, decide_eq_false_iff_not,
    beq_eq_false_iff_ne]
  omega

/-- A decimal number has nothing but digits. -/
theorem not_mem_toDigits {c : Char} (hc : c.isDigit = false) (n : Nat) :
    c ∉ Nat.toDigits 10 n := by
  intro h
  rw [Nat.isDigit_of_mem_toDigits (by decide) (by decide) h] at hc
  cases hc

/-- A decimal number has no NUL. -/
theorem nul_not_mem_toDigits (n : Nat) : '\x00' ∉ Nat.toDigits 10 n := not_mem_toDigits rfl n

end Sentinel.Base
