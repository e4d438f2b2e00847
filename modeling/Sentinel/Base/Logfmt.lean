import Sentinel.Base.Str

/-!
# Reading logfmt records

A record is a row of `key=value` fields with whitespace between them. A value that starts with a
double quote extends to the next unescaped one, with `\"` and `\\` unescaped; any other value is
the verbatim run up to the next whitespace. The reader is a machine over the characters, so that
a record is read one region after the other.
-/

namespace Sentinel.Base.Logfmt

/-- A character that may stand in a key. -/
def isKeyChar (c : Char) : Bool := !isWhitespace c && c != '=' && c != '"'

/-- A key: not empty, without whitespace, equals sign and double quote. -/
structure Key where
  text : Str
  nonempty : text ≠ []
  chars : ∀ c ∈ text, isKeyChar c = true
  deriving DecidableEq, Repr

namespace Key

/-- A key of one character. -/
def single (c : Char) (h : isKeyChar c = true) : Key :=
  ⟨[c], List.cons_ne_nil c [], fun _ hd ↦ List.mem_singleton.mp hd ▸ h⟩

/-- A key with one more character. -/
def push (k : Key) (c : Char) (h : isKeyChar c = true) : Key where
  text := k.text ++ [c]
  nonempty := List.append_ne_nil_of_right_ne_nil _ (List.cons_ne_nil c [])
  chars := by
    intro d hd
    rcases List.mem_append.mp hd with hd | hd
    · exact k.chars d hd
    · exact List.mem_singleton.mp hd ▸ h

/-- A key is its text. -/
theorem ext {k l : Key} (h : k.text = l.text) : k = l := by
  cases k
  cases l
  congr

end Key

/-- Where the reader stands in a record. -/
inductive Place where
  | gap
  | key (k : Key)
  | value (k : Key)
  | bare (k : Key) (v : Str)
  | quoted (k : Key) (v : Str)
  | escaped (k : Key) (v : Str)
  | closed
  deriving DecidableEq, Repr

/-- The fields read so far and the place in the record. -/
structure Reader where
  fields : List (Key × Str)
  place : Place
  deriving DecidableEq, Repr

namespace Reader

/-- A finished field, with the place behind it. -/
def close (r : Reader) (k : Key) (v : Str) (place : Place) : Reader :=
  ⟨r.fields ++ [(k, v)], place⟩

/-- One character. -/
def step (r : Reader) (c : Char) : Option Reader :=
  match r.place with
  | .gap =>
    if isWhitespace c then some r
    else if h : isKeyChar c = true then some { r with place := .key (.single c h) }
    else none
  | .key k =>
    if c = '=' then some { r with place := .value k }
    else if h : isKeyChar c = true then some { r with place := .key (k.push c h) }
    else none
  | .value k =>
    if c = '"' then some { r with place := .quoted k [] }
    else if isWhitespace c then some (r.close k [] .gap)
    else some { r with place := .bare k [c] }
  | .bare k v =>
    if isWhitespace c then some (r.close k v .gap)
    else some { r with place := .bare k (v ++ [c]) }
  | .quoted k v =>
    if c = '"' then some (r.close k v .closed)
    else if c = '\\' then some { r with place := .escaped k v }
    else some { r with place := .quoted k (v ++ [c]) }
  | .escaped k v =>
    if c = '"' ∨ c = '\\' then some { r with place := .quoted k (v ++ [c]) }
    -- A backslash in front of any other character stands for itself.
    else some { r with place := .quoted k (v ++ ['\\', c]) }
  | .closed => if isWhitespace c then some { r with place := .gap } else none

/-- A row of characters. -/
def run (r : Reader) (s : Str) : Option Reader := s.foldlM step r

/-- The end of the record. -/
def finish (r : Reader) : Option (List (Key × Str)) :=
  match r.place with
  | .gap | .closed => some r.fields
  | .value k => some (r.fields ++ [(k, [])])
  | .bare k v => some (r.fields ++ [(k, v)])
  | .key _ | .quoted _ _ | .escaped _ _ => none

/-- Nothing is read from nothing. -/
@[simp] theorem run_nil (r : Reader) : r.run [] = some r := rfl

/-- The first character is read first. -/
theorem run_cons (r : Reader) (c : Char) (s : Str) :
    r.run (c :: s) = (r.step c).bind (fun r' ↦ r'.run s) := rfl

/-- Regions are read one after the other. -/
theorem run_append (r : Reader) (s t : Str) :
    r.run (s ++ t) = (r.run s).bind (fun r' ↦ r'.run t) := by
  rw [run, List.foldlM_append]
  rfl

private theorem step_gap {c : Char} (h : isKeyChar c = true) (fs : List (Key × Str)) :
    step ⟨fs, .gap⟩ c = some ⟨fs, .key (.single c h)⟩ := by
  have hws : isWhitespace c = false := by
    simp only [isKeyChar, Bool.and_eq_true, Bool.not_eq_true'] at h
    exact h.1.1
  simp [step, hws, h]

private theorem step_key {c : Char} (h : isKeyChar c = true) (fs : List (Key × Str)) (k : Key) :
    step ⟨fs, .key k⟩ c = some ⟨fs, .key (k.push c h)⟩ := by
  have heq : c ≠ '=' := by
    simp only [isKeyChar, Bool.and_eq_true, bne_iff_ne] at h
    exact h.1.2
  simp [step, heq, h]

/-- The rest of a key up to its equals sign. -/
theorem run_key {fs : List (Key × Str)} {k l : Key} {cs : Str} (h : l.text = k.text ++ cs)
    (s : Str) : run ⟨fs, .key k⟩ (cs ++ '=' :: s) = run ⟨fs, .value l⟩ s := by
  induction cs generalizing k with
  | nil =>
    rw [List.append_nil] at h
    rw [Key.ext h]
    rfl
  | cons c cs ih =>
    have hc : isKeyChar c = true := l.chars c (by simp [h])
    rw [List.cons_append, run_cons, step_key hc, Option.bind_some]
    apply ih
    rw [h, Key.push, List.append_assoc, List.singleton_append]

/-- A key with its equals sign is read between fields. -/
theorem run_gap_key (fs : List (Key × Str)) (k : Key) (s : Str) :
    run ⟨fs, .gap⟩ (k.text ++ '=' :: s) = run ⟨fs, .value k⟩ s := by
  obtain ⟨c, cs, hk⟩ := List.exists_cons_of_ne_nil k.nonempty
  have hc : isKeyChar c = true := k.chars c (by simp [hk])
  rw [hk, List.cons_append, run_cons, step_gap hc, Option.bind_some]
  apply run_key
  rw [hk, Key.single, List.singleton_append]

/-- A bare value starts outside whitespace and not with a double quote. -/
theorem step_value {c : Char} (hq : c ≠ '"') (hws : isWhitespace c = false)
    (fs : List (Key × Str)) (k : Key) :
    step ⟨fs, .value k⟩ c = some ⟨fs, .bare k [c]⟩ := by
  simp [step, hq, hws]

/-- A run without whitespace continues a bare value. -/
theorem run_bare {v : Str} (h : ∀ c ∈ v, isWhitespace c = false) (fs : List (Key × Str)) (k : Key)
    (a : Str) : run ⟨fs, .bare k a⟩ v = some ⟨fs, .bare k (a ++ v)⟩ := by
  induction v generalizing a with
  | nil => rw [run_nil, List.append_nil]
  | cons c cs ih =>
    have hs : step ⟨fs, .bare k a⟩ c = some ⟨fs, .bare k (a ++ [c])⟩ := by
      simp [step, h c List.mem_cons_self]
    rw [run_cons, hs, Option.bind_some, ih fun d hd ↦ h d (List.mem_cons_of_mem c hd),
      List.append_assoc, List.singleton_append]

/-- A character other than the double quote and the backslash stands for itself between
quotes. -/
theorem step_quoted {c : Char} (hq : c ≠ '"') (hb : c ≠ '\\') (fs : List (Key × Str)) (k : Key)
    (a : Str) : step ⟨fs, .quoted k a⟩ c = some ⟨fs, .quoted k (a ++ [c])⟩ := by
  simp [step, hq, hb]

/-! ### Whole records -/

/-- The record may end here or go on behind a space, with these fields. -/
structure Complete (r : Reader) (fs : List (Key × Str)) : Prop where
  finish : r.finish = some fs
  space : r.step ' ' = some ⟨fs, .gap⟩

/-- A bare value may end. -/
theorem complete_bare (fs : List (Key × Str)) (k : Key) (v : Str) :
    Complete ⟨fs, .bare k v⟩ (fs ++ [(k, v)]) := ⟨rfl, rfl⟩

/-- A closed value may end. -/
theorem complete_closed (fs : List (Key × Str)) : Complete ⟨fs, .closed⟩ fs := ⟨rfl, rfl⟩

end Reader

/-- The fields of a record. -/
def readRecord (s : Str) : Option (List (Key × Str)) :=
  (Reader.run ⟨[], .gap⟩ s).bind Reader.finish

/-- An encoding of values that the reader completes to the value, behind every key. -/
def Encodes (encode : Str → Str) : Prop :=
  ∀ fs k v, ∃ r : Reader, Reader.run ⟨fs, .value k⟩ (encode v) = some r ∧
    r.Complete (fs ++ [(k, v)])

/-- A field as text. -/
def fieldText (encode : Str → Str) (f : Key × Str) : Str := f.1.text ++ '=' :: encode f.2

/-- A record as text: the fields with one space between neighbours. -/
def recordText (encode : Str → Str) (fs : List (Key × Str)) : Str :=
  joinSpace (fs.map (fieldText encode))

private theorem run_fields {encode : Str → Str} (h : Encodes encode) (gs : List (Key × Str))
    (f : Key × Str) (fs : List (Key × Str)) :
    ∃ r : Reader, Reader.run ⟨gs, .gap⟩ (recordText encode (f :: fs)) = some r ∧
      r.Complete (gs ++ f :: fs) := by
  obtain ⟨r, hr, hc⟩ := h gs f.1 f.2
  have hf : Reader.run ⟨gs, .gap⟩ (fieldText encode f) = some r := by
    rw [fieldText, Reader.run_gap_key, hr]
  induction fs generalizing gs f r with
  | nil => exact ⟨r, hf, hc⟩
  | cons g fs ih =>
    -- The field is complete, so the separating space leads back into a gap.
    obtain ⟨r', hr', hc'⟩ := h (gs ++ [f]) g.1 g.2
    have hg : Reader.run ⟨gs ++ [f], .gap⟩ (fieldText encode g) = some r' := by
      rw [fieldText, Reader.run_gap_key, hr']
    obtain ⟨s, hs, hcs⟩ := ih (gs ++ [f]) g r' hr' hc' hg
    refine ⟨s, ?_, by simpa using hcs⟩
    rw [recordText, List.map_cons, List.map_cons, joinSpace, Reader.run_append, hf,
      Option.bind_some, Reader.run_cons, hc.space, Option.bind_some]
    exact hs

/-- A record whose values are so encoded is read back. -/
theorem readRecord_recordText {encode : Str → Str} (h : Encodes encode) (fs : List (Key × Str)) :
    readRecord (recordText encode fs) = some fs := by
  cases fs with
  | nil => rfl
  | cons f fs =>
    obtain ⟨r, hr, hc⟩ := run_fields h [] f fs
    rw [readRecord, hr]
    exact hc.finish

end Sentinel.Base.Logfmt
