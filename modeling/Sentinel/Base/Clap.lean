import Mathlib.Data.List.Nodup
import Sentinel.Base.Str

/-!
# Long-option command lines

A command line of long options, each followed by a value or standing alone. The parser is a
parameter: its laws say what `--name value` means, which words are no values, and that no option
stands twice. A rendered list of assignments parses back exactly when all its values are
accepted. A scan over the words is the instance.
-/

namespace Sentinel.Base.Clap

/-- The options of a program. -/
structure Grammar (O : Type) where
  name : O → Str
  takesValue : O → Bool

/-- A word that is taken as a value: one that begins with a hyphen is not, unless it is only
that. -/
def acceptable (v : Str) : Bool := !(v.head? == some '-' && 1 < v.length)

/-- The options found, with their values. -/
abbrev Matches (O : Type) : Type := List (O × Option Str)

variable {O : Type} [DecidableEq O]

/-- Put an option in front of the others; none stands twice. -/
def add (o : O) (v : Option Str) (m : Matches O) : Option (Matches O) :=
  if o ∈ m.map Prod.fst then none else some ((o, v) :: m)

/-- A parser of the words behind the program's name. -/
structure Parser (g : Grammar O) where
  parse : List Str → Option (Matches O)
  parse_nil : parse [] = some []
  parse_flag : ∀ o ws, g.takesValue o = false →
    parse (g.name o :: ws) = (parse ws).bind (add o none)
  parse_value : ∀ o v ws, g.takesValue o = true → acceptable v = true →
    parse (g.name o :: v :: ws) = (parse ws).bind (add o (some v))
  parse_hyphen : ∀ o v ws, g.takesValue o = true → acceptable v = false →
    parse (g.name o :: v :: ws) = none

/-- The words of one assignment. -/
def render (g : Grammar O) (a : O × Option Str) : List Str := g.name a.1 :: a.2.toList

/-- The value of an option. -/
def lookup (m : Matches O) (o : O) : Option Str := (m.find? (fun a ↦ a.1 = o)).bind Prod.snd

/-- Whether an option stands on the command line. -/
def present (m : Matches O) (o : O) : Bool := (m.find? (fun a ↦ a.1 = o)).isSome

/-- Every value is accepted. -/
def accepted (m : Matches O) : Bool := m.all (fun a ↦ a.2.all acceptable)

/-- A rendered list of assignments, each with a value when its option takes one and no option
twice, parses back exactly when every value is accepted. -/
theorem parse_render {g : Grammar O} (p : Parser g) {m : Matches O}
    (hv : ∀ a ∈ m, a.2.isSome = g.takesValue a.1) (hn : (m.map Prod.fst).Nodup) :
    p.parse (m.flatMap (render g)) =
      if accepted m then some m else none := by
  induction m with
  | nil => simp [p.parse_nil, accepted]
  | cons a m ih =>
    obtain ⟨o, v⟩ := a
    rw [List.map_cons, List.nodup_cons] at hn
    have ih := ih (fun b hb ↦ hv b (List.mem_cons_of_mem _ hb)) hn.2
    have ho : v.isSome = g.takesValue o := hv (o, v) List.mem_cons_self
    have hadd : add o v m = some ((o, v) :: m) := if_neg hn.1
    rw [List.flatMap_cons]
    cases v with
    | none =>
      have hflag := p.parse_flag o (m.flatMap (render g)) ho.symm
      rw [render, Option.toList_none, List.singleton_append, hflag, ih]
      have hacc : accepted ((o, none) :: m) = accepted m := by simp [accepted]
      rw [hacc]
      cases accepted m with
      | true => simpa using hadd
      | false => rfl
    | some v =>
      rw [render, Option.toList_some, List.cons_append, List.singleton_append]
      have hacc : accepted ((o, some v) :: m) = (acceptable v && accepted m) := by
        simp [accepted]
      rw [hacc]
      cases hv : acceptable v with
      | false => exact p.parse_hyphen o v _ ho.symm hv
      | true =>
        rw [p.parse_value o v _ ho.symm hv, ih]
        cases accepted m with
        | true => simpa using hadd
        | false => rfl

/-! ### Lines with omitted options -/

/-- The options of a command line in their order, each with its value when it is passed. -/
abbrev Line (O : Type) : Type := List (O × Option (Option Str))

/-- The assignments of a line. -/
def Line.passed (l : Line O) : Matches O :=
  l.filterMap (fun e ↦ e.2.map (fun v ↦ (e.1, v)))

omit [DecidableEq O] in
/-- The options passed stand in the order of the line. -/
theorem Line.passed_sublist (l : Line O) : (l.passed.map Prod.fst).Sublist (l.map Prod.fst) := by
  induction l with
  | nil => exact List.Sublist.slnil
  | cons e l ih =>
    obtain ⟨o, x⟩ := e
    cases x with
    | none => exact ih.cons o
    | some v => exact ih.cons_cons o

/-- The words of an option, none when it is left out. -/
def entryWords (g : Grammar O) : O × Option (Option Str) → List Str
  | (o, some v) => render g (o, v)
  | (_, none) => []

omit [DecidableEq O] in
/-- The words of a line, option by option. -/
theorem Line.flatMap_passed (g : Grammar O) (l : Line O) :
    l.passed.flatMap (render g) = l.flatMap (entryWords g) := by
  induction l with
  | nil => rfl
  | cons e l ih =>
    obtain ⟨o, x⟩ := e
    rw [List.flatMap_cons, ← ih]
    cases x with
    | none => rfl
    | some v => rfl

omit [DecidableEq O] in
/-- The values passed are accepted when each is. -/
theorem Line.accepted_passed (l : Line O) :
    accepted l.passed = l.all (fun e ↦ e.2.all (fun v ↦ v.all acceptable)) := by
  induction l with
  | nil => rfl
  | cons e l ih =>
    obtain ⟨o, x⟩ := e
    rw [List.all_cons, ← ih]
    cases x with
    | none => rfl
    | some v => rfl

/-- An option that is not on the line is not found. -/
theorem Line.find?_absent {l : Line O} {o : O} (h : o ∉ l.map Prod.fst) :
    l.passed.find? (fun a ↦ a.1 = o) = none := by
  apply List.find?_eq_none.mpr
  intro a ha
  have hm := (Line.passed_sublist l).subset (List.mem_map_of_mem (f := Prod.fst) ha)
  simp only [decide_eq_true_eq]
  rintro rfl
  exact h hm

/-- An option of a line is found as it was passed. -/
theorem Line.find?_passed {l : Line O} (hn : (l.map Prod.fst).Nodup) {o : O}
    {x : Option (Option Str)} (h : (o, x) ∈ l) :
    l.passed.find? (fun a ↦ a.1 = o) = x.map (fun v ↦ (o, v)) := by
  induction l with
  | nil => cases h
  | cons e l ih =>
    rw [List.map_cons, List.nodup_cons] at hn
    rcases List.mem_cons.mp h with rfl | hm
    · cases x with
      | none => exact Line.find?_absent (l := l) hn.1
      | some v => simp [Line.passed]
    · have hne : e.1 ≠ o := by
        rintro rfl
        exact hn.1 (List.mem_map.mpr ⟨_, hm, rfl⟩)
      have ih := ih hn.2 hm
      obtain ⟨o', x'⟩ := e
      cases x' with
      | none => exact ih
      | some v =>
        simp only [Line.passed, List.filterMap_cons, Option.map_some] at ih ⊢
        rw [List.find?_cons_of_neg (by simpa using hne)]
        exact ih

/-- The value of an option of a line. -/
theorem Line.lookup_passed {l : Line O} (hn : (l.map Prod.fst).Nodup) {o : O}
    {x : Option (Option Str)} (h : (o, x) ∈ l) : lookup l.passed o = x.join := by
  rw [lookup, Line.find?_passed hn h]
  cases x <;> rfl

/-- Whether an option of a line is passed. -/
theorem Line.present_passed {l : Line O} (hn : (l.map Prod.fst).Nodup) {o : O}
    {x : Option (Option Str)} (h : (o, x) ∈ l) : present l.passed o = x.isSome := by
  rw [present, Line.find?_passed hn h]
  cases x <;> rfl

/-- An option that is not on the line is not present. -/
theorem Line.present_absent {l : Line O} {o : O} (h : o ∉ l.map Prod.fst) :
    present l.passed o = false := by
  rw [present, Line.find?_absent h]
  rfl

/-- A line parses back exactly when every value it passes is accepted. -/
theorem Line.parse_passed {g : Grammar O} (p : Parser g) {l : Line O}
    (hv : ∀ e ∈ l, ∀ v, e.2 = some v → v.isSome = g.takesValue e.1)
    (hn : (l.map Prod.fst).Nodup) :
    p.parse (l.passed.flatMap (render g)) = if accepted l.passed then some l.passed else none := by
  apply parse_render p
  · intro a ha
    obtain ⟨e, he, hmap⟩ := List.mem_filterMap.mp ha
    obtain ⟨v, hv', rfl⟩ := Option.map_eq_some_iff.mp hmap
    exact hv e he v hv'
  · exact (Line.passed_sublist l).nodup hn

/-! ### A scan -/

/-- The parser that knows the given options and refuses every other word. -/
def scan (g : Grammar O) (options : List O) : List Str → Option (Matches O)
  | [] => some []
  | w :: ws =>
    match options.find? (fun o ↦ g.name o = w) with
    | none => none
    | some o =>
      if g.takesValue o then
        match ws with
        | [] => none
        | v :: rest =>
          if acceptable v then (scan g options rest).bind (add o (some v)) else none
      else (scan g options ws).bind (add o none)

/-- It is a parser when every option is known by its name. -/
def scanParser (g : Grammar O) (options : List O)
    (h : ∀ o, options.find? (fun o' ↦ g.name o' = g.name o) = some o) : Parser g where
  parse := scan g options
  parse_nil := rfl
  parse_flag := by
    intro o ws ho
    rw [scan, h o]
    simp [ho]
  parse_value := by
    intro o v ws ho hv
    rw [scan, h o]
    simp [ho, hv]
  parse_hyphen := by
    intro o v ws ho hv
    rw [scan, h o]
    simp [ho, hv]

end Sentinel.Base.Clap
