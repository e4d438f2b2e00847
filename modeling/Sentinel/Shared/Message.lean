import Sentinel.Shared.Config
import Mathlib.Logic.ExistsUnique

/-!
# Templates of the dialog texts

`format_message`, `crates/sentinel-shared/src/lib.rs:589-614`. A template is a row of segments,
with a lone percent sign at the end at most, in exactly one way; rendering replaces each segment
by its image and looks at no image again.
-/

namespace Sentinel.Shared

open Sentinel.Base

/-- One step's worth of a template. -/
inductive Segment where
  | char (c : Char) (plain : c ≠ '%')
  | user
  | service
  | process
  | percent
  | unknown (x : Char) (other : x ≠ 'u' ∧ x ≠ 's' ∧ x ≠ 'p' ∧ x ≠ '%')
  deriving DecidableEq, Repr

namespace Segment

/-- A segment in the template. -/
def text : Segment → Str
  | .char c _ => [c]
  | .user => ['%', 'u']
  | .service => ['%', 's']
  | .process => ['%', 'p']
  | .percent => ['%', '%']
  | .unknown x _ => ['%', x]

/-- A segment in the rendered text. -/
def image (user service process : Str) : Segment → Str
  | .char c _ => [c]
  | .user => user
  | .service => service
  | .process => process
  | .percent => ['%']
  | .unknown x _ => ['%', x]

/-- The segment of a percent sign with a character behind it. -/
def pair (x : Char) : Segment :=
  if hu : x = 'u' then .user
  else if hs : x = 's' then .service
  else if hp : x = 'p' then .process
  else if hx : x = '%' then .percent
  else .unknown x ⟨hu, hs, hp, hx⟩

/-- A pair is written with its percent sign. -/
@[simp] theorem text_pair (x : Char) : (pair x).text = ['%', x] := by
  unfold pair
  split_ifs with hu hs hp hx
  · rw [hu]; rfl
  · rw [hs]; rfl
  · rw [hp]; rfl
  · rw [hx]; rfl
  · rfl

/-- A segment is a character or a pair. -/
theorem char_or_pair (s : Segment) :
    (∃ c plain, s = .char c plain) ∨ ∃ x, s = pair x := by
  cases s with
  | char c plain => exact .inl ⟨c, plain, rfl⟩
  | user => exact .inr ⟨'u', rfl⟩
  | service => exact .inr ⟨'s', rfl⟩
  | process => exact .inr ⟨'p', rfl⟩
  | percent => exact .inr ⟨'%', rfl⟩
  | unknown x other =>
    refine .inr ⟨x, ?_⟩
    obtain ⟨hu, hs, hp, hx⟩ := other
    rw [pair, dif_neg hu, dif_neg hs, dif_neg hp, dif_neg hx]

end Segment

/-- A template taken apart: its segments, and whether a lone percent sign ends it. -/
structure Segments where
  segments : List Segment
  lone : Bool
  deriving DecidableEq, Repr

namespace Segments

/-- The end of a template. -/
def ending (lone : Bool) : Str := if lone then ['%'] else []

/-- The template. -/
def text (t : Segments) : Str := t.segments.flatMap Segment.text ++ ending t.lone

/-- The rendered text: the images in order. -/
def image (user service process : Str) (t : Segments) : Str :=
  t.segments.flatMap (Segment.image user service process) ++ ending t.lone

/-- A segment in front. -/
def cons (s : Segment) (t : Segments) : Segments := { t with segments := s :: t.segments }

/-- The template with a segment in front. -/
@[simp] theorem text_cons (s : Segment) (t : Segments) : (cons s t).text = s.text ++ t.text := by
  simp [text, cons]

/-- The rendered text with a segment in front. -/
@[simp] theorem image_cons (user service process : Str) (s : Segment) (t : Segments) :
    (cons s t).image user service process =
      s.image user service process ++ t.image user service process := by
  simp [image, cons]

/-- The segments of a template, read from the front. -/
def ofText : Str → Segments
  | [] => ⟨[], false⟩
  | c :: cs =>
    if h : c = '%' then
      match cs with
      | [] => ⟨[], true⟩
      | x :: cs => cons (.pair x) (ofText cs)
    else cons (.char c h) (ofText cs)

private theorem ofText_char {c : Char} (h : c ≠ '%') (cs : Str) :
    ofText (c :: cs) = cons (.char c h) (ofText cs) := by
  cases cs <;> simp [ofText, h]

private theorem ofText_pair (x : Char) (cs : Str) :
    ofText ('%' :: x :: cs) = cons (.pair x) (ofText cs) := rfl

/-- The segments make up the template. -/
theorem text_ofText (s : Str) : (ofText s).text = s := by
  induction s using ofText.induct with
  | case1 => rfl
  | case2 => rfl
  | case3 x cs ih =>
    rw [ofText_pair, text_cons, Segment.text_pair, ih]
    rfl
  | case4 c cs h ih =>
    rw [ofText_char h, text_cons, ih]
    rfl

/-- A template has no other segments than the ones read from it. -/
theorem ofText_text (t : Segments) : ofText t.text = t := by
  obtain ⟨segments, lone⟩ := t
  induction segments with
  | nil => cases lone <;> rfl
  | cons s segments ih =>
    have hc : (⟨s :: segments, lone⟩ : Segments) = cons s ⟨segments, lone⟩ := rfl
    rw [hc, text_cons]
    obtain ⟨c, plain, rfl⟩ | ⟨x, rfl⟩ := s.char_or_pair
    · rw [Segment.text, List.singleton_append, ofText_char plain, ih]
    · rw [Segment.text_pair, List.cons_append, List.singleton_append, ofText_pair, ih]

/-- A template has its segments in exactly one way. -/
theorem existsUnique_text (template : Str) : ∃! t : Segments, t.text = template := by
  refine ⟨ofText template, text_ofText template, ?_⟩
  intro t ht
  rw [← ht, ofText_text]

end Segments

/-! ### Rendering -/

section Rendering

variable (user service process : Str)

private theorem formatMessage_char {c : Char} (h : c ≠ '%') (cs : Str) :
    formatMessage user service process (c :: cs) =
      c :: formatMessage user service process cs := by
  rw [formatMessage]
  · exact fun hc _ ↦ h hc
  · exact fun _ _ hc _ ↦ h hc

private theorem formatMessage_pair (x : Char) (cs : Str) :
    formatMessage user service process ('%' :: x :: cs) =
      (Segment.pair x).image user service process ++ formatMessage user service process cs := by
  rw [formatMessage, Segment.pair]
  split_ifs <;> rfl

/-- Rendering replaces every segment by its image. -/
theorem formatMessage_text (t : Segments) :
    formatMessage user service process t.text = t.image user service process := by
  obtain ⟨segments, lone⟩ := t
  induction segments with
  | nil => cases lone <;> rfl
  | cons s segments ih =>
    have hc : (⟨s :: segments, lone⟩ : Segments) = .cons s ⟨segments, lone⟩ := rfl
    rw [hc, Segments.text_cons, Segments.image_cons, ← ih]
    obtain ⟨c, plain, rfl⟩ | ⟨x, rfl⟩ := s.char_or_pair
    · rw [Segment.text, List.singleton_append, formatMessage_char _ _ _ plain]
      rfl
    · rw [Segment.text_pair, List.cons_append, List.singleton_append, formatMessage_pair]

/-- Every percent sign doubled. -/
def doublePercent (s : Str) : Str := s.flatMap fun c ↦ if c = '%' then ['%', '%'] else [c]

/-- A text with its percent signs doubled renders to the text. -/
theorem formatMessage_doublePercent (s : Str) :
    formatMessage user service process (doublePercent s) = s := by
  induction s with
  | nil => rfl
  | cons c cs ih =>
    rw [doublePercent, List.flatMap_cons, ← doublePercent]
    by_cases h : c = '%'
    · rw [if_pos h, List.cons_append, List.singleton_append, formatMessage_pair, ih, h]
      rfl
    · rw [if_neg h, List.singleton_append, formatMessage_char _ _ _ h, ih]

end Rendering

/-- Rendering is substitution in a single pass: every template has its segments in exactly one
way, the rendered text is the row of their images whatever the substituted texts contain, and a
text with its percent signs doubled renders to itself. -/
theorem formatMessage_single_pass :
    (∀ template : Str, ∃! t : Segments, t.text = template) ∧
      (∀ (t : Segments) (user service process : Str),
        formatMessage user service process t.text = t.image user service process) ∧
      ∀ s user service process : Str,
        formatMessage user service process (doublePercent s) = s := by
  refine ⟨Segments.existsUnique_text, ?_, ?_⟩
  · intro t user service process
    exact formatMessage_text user service process t
  · intro s user service process
    exact formatMessage_doublePercent user service process s

/-- A process named like a token, and the percent signs that are no token. -/
example : formatMessage "eve".toList "su".toList "%u".toList "%p %% %x %%%".toList =
    "%u % %x %%".toList := by decide

end Sentinel.Shared
