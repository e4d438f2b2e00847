import Sentinel.Base.Program

/-!
# Programs that keep a log

A run of an interaction program leaves a transcript, the calls it has made. Two judgements speak
about the transcripts of all runs, whatever the answers: what holds when a run ends, and what
holds at every point of one. A logged program writes records between its calls; erasing the
records leaves a program that makes the same calls.
-/

namespace Sentinel.Base

namespace Program

variable {E : Type} {A : E → Type} {α β : Type}

/-- Every run that starts behind a transcript ends with a property of its transcript and its
result, whatever the answers. -/
def Ends (P : List E → α → Prop) : Program E A α → List E → Prop
  | .pure a, tr => P tr a
  | .call e k, tr => ∀ r, (k r).Ends P (tr ++ [e])

/-- A property holds of the transcript at every point of every run: in front of each call and at the
end. -/
def Throughout (P : List E → Prop) : Program E A α → List E → Prop
  | .pure _, tr => P tr
  | .call e k, tr => P tr ∧ ∀ r, (k r).Throughout P (tr ++ [e])

/-- A returned value ends where it stands. -/
@[simp] theorem ends_pure (P : List E → α → Prop) (a : α) (tr : List E) :
    (Pure.pure a : Program E A α).Ends P tr ↔ P tr a := Iff.rfl

/-- A call may have every answer. -/
@[simp] theorem ends_call (P : List E → α → Prop) (e : E) (k : A e → Program E A α) (tr : List E) :
    (Program.call e k).Ends P tr ↔ ∀ r, (k r).Ends P (tr ++ [e]) := Iff.rfl

/-- Sequencing goes on at the end of the first program. -/
@[simp] theorem ends_bind (p : Program E A α) (f : α → Program E A β) (P : List E → β → Prop)
    (tr : List E) : (p >>= f).Ends P tr ↔ p.Ends (fun tr a ↦ (f a).Ends P tr) tr := by
  induction p generalizing tr with
  | pure a => exact Iff.rfl
  | call e k ih => exact forall_congr' fun r ↦ ih r (tr ++ [e])

/-- What holds at every end may be weakened. -/
theorem Ends.imp {P Q : List E → α → Prop} {p : Program E A α} {tr : List E} (hp : p.Ends P tr)
    (h : ∀ tr a, P tr a → Q tr a) : p.Ends Q tr := by
  induction p generalizing tr with
  | pure a => exact h tr a hp
  | call e k ih => exact fun r ↦ ih r (hp r)

/-- A returned value is the only point of its run. -/
@[simp] theorem throughout_pure (P : List E → Prop) (a : α) (tr : List E) :
    (Pure.pure a : Program E A α).Throughout P tr ↔ P tr := Iff.rfl

/-- A call stands at a point, and so does what follows it. -/
@[simp] theorem throughout_call (P : List E → Prop) (e : E) (k : A e → Program E A α)
    (tr : List E) :
    (Program.call e k).Throughout P tr ↔ P tr ∧ ∀ r, (k r).Throughout P (tr ++ [e]) := Iff.rfl

private theorem Throughout.here {P : List E → Prop} {p : Program E A α} {tr : List E}
    (h : p.Throughout P tr) : P tr := by
  cases p with
  | pure a => exact h
  | call e k => exact h.1

/-- The points of a sequence are those of its first program and of what follows its end. -/
@[simp] theorem throughout_bind (p : Program E A α) (f : α → Program E A β) (P : List E → Prop)
    (tr : List E) :
    (p >>= f).Throughout P tr ↔
      p.Throughout P tr ∧ p.Ends (fun tr a ↦ (f a).Throughout P tr) tr := by
  induction p generalizing tr with
  | pure a => exact ⟨fun h ↦ ⟨h.here, h⟩, fun h ↦ h.2⟩
  | call e k ih =>
    constructor
    · rintro ⟨hp, hk⟩
      exact ⟨⟨hp, fun r ↦ ((ih r _).mp (hk r)).1⟩, fun r ↦ ((ih r _).mp (hk r)).2⟩
    · rintro ⟨⟨hp, hk⟩, he⟩
      exact ⟨hp, fun r ↦ (ih r _).mpr ⟨hk r, he r⟩⟩

/-- A program that writes records of type `L` between its calls. -/
abbrev Logged (L E : Type) (A : E → Type) (α : Type) : Type :=
  Program (E ⊕ L) (Sum.elim A fun _ ↦ Unit) α

namespace Logged

variable {L : Type}

/-- A call. -/
def ask (e : E) : Logged L E A (A e) := .call (.inl e) .pure

/-- A record. -/
def log (l : L) : Logged L E A Unit := .call (.inr l) .pure

/-- A record, when it is asked for. -/
def logIf (b : Bool) (l : L) : Logged L E A Unit := if b then log l else Pure.pure ()

/-- The program without its records. -/
def erase : Logged L E A α → Program E A α
  | .pure a => .pure a
  | .call (.inl e) k => .call e fun r ↦ erase (k r)
  | .call (.inr _) k => erase (k ())

/-- The records of a transcript. -/
def records (tr : List (E ⊕ L)) : List L := tr.filterMap Sum.getRight?

/-- The calls of a transcript. -/
def calls (tr : List (E ⊕ L)) : List E := tr.filterMap Sum.getLeft?

/-- A returned value stays. -/
@[simp] theorem erase_pure (a : α) :
    erase (Pure.pure a : Logged L E A α) = (Pure.pure a : Program E A α) := rfl

/-- A call stays. -/
@[simp] theorem erase_ask (e : E) : erase (ask e : Logged L E A (A e)) = .call e .pure := rfl

/-- A record goes. -/
@[simp] theorem erase_log (l : L) :
    erase (log l : Logged L E A Unit) = (Pure.pure () : Program E A Unit) := rfl

/-- So does one that may not be asked for. -/
@[simp] theorem erase_logIf (b : Bool) (l : L) :
    erase (logIf b l : Logged L E A Unit) = (Pure.pure () : Program E A Unit) := by
  cases b <;> rfl

/-- Erasing passes through sequencing. -/
@[simp] theorem erase_bind (p : Logged L E A α) (f : α → Logged L E A β) :
    erase (p >>= f) = erase p >>= fun a ↦ erase (f a) := by
  induction p with
  | pure a => rfl
  | call e k ih =>
    match e with
    | .inl e => exact congrArg (Program.call e) (funext ih)
    | .inr l => exact ih ()

section Rules

variable {e : E} {l : L} {b : Bool} {tr : List (E ⊕ L)}

/-- A call may have every answer. -/
@[simp] theorem ends_ask (P : List (E ⊕ L) → A e → Prop) :
    (ask e : Logged L E A (A e)).Ends P tr ↔ ∀ r : A e, P (tr ++ [.inl e]) r := Iff.rfl

/-- A record is written. -/
@[simp] theorem ends_log (P : List (E ⊕ L) → Unit → Prop) :
    (log l : Logged L E A Unit).Ends P tr ↔ P (tr ++ [.inr l]) () :=
  ⟨fun h ↦ h (), fun h _ ↦ h⟩

/-- A record is written when it is asked for. -/
@[simp] theorem ends_logIf (P : List (E ⊕ L) → Unit → Prop) :
    (logIf b l : Logged L E A Unit).Ends P tr ↔ P (if b then tr ++ [.inr l] else tr) () := by
  cases b with
  | false => exact Iff.rfl
  | true => exact ends_log P

/-- A call has a point in front of it and one behind. -/
@[simp] theorem throughout_ask (P : List (E ⊕ L) → Prop) [Nonempty (A e)] :
    (ask e : Logged L E A (A e)).Throughout P tr ↔ P tr ∧ P (tr ++ [.inl e]) :=
  and_congr_right fun _ ↦ forall_const (A e)

/-- A record has a point in front of it and one behind. -/
@[simp] theorem throughout_log (P : List (E ⊕ L) → Prop) :
    (log l : Logged L E A Unit).Throughout P tr ↔ P tr ∧ P (tr ++ [.inr l]) :=
  and_congr_right fun _ ↦ forall_const Unit

/-- So has one that may not be asked for. -/
@[simp] theorem throughout_logIf (P : List (E ⊕ L) → Prop) :
    (logIf b l : Logged L E A Unit).Throughout P tr ↔
      P tr ∧ P (if b then tr ++ [.inr l] else tr) := by
  cases b with
  | false => exact (and_self_iff (a := P tr)).symm
  | true => exact throughout_log P

end Rules

/-- Records are collected in order. -/
@[simp] theorem records_append (tr tr' : List (E ⊕ L)) :
    records (tr ++ tr') = records tr ++ records tr' := List.filterMap_append

/-- An empty transcript has no records. -/
@[simp] theorem records_nil : records ([] : List (E ⊕ L)) = [] := rfl

/-- A call is no record. -/
@[simp] theorem records_inl (e : E) (tr : List (E ⊕ L)) : records (.inl e :: tr) = records tr := rfl

/-- A record is one. -/
@[simp] theorem records_inr (l : L) (tr : List (E ⊕ L)) :
    records (.inr l :: tr) = l :: records tr := rfl

/-- Calls are collected in order. -/
@[simp] theorem calls_append (tr tr' : List (E ⊕ L)) :
    calls (tr ++ tr') = calls tr ++ calls tr' := List.filterMap_append

/-- An empty transcript has no calls. -/
@[simp] theorem calls_nil : calls ([] : List (E ⊕ L)) = [] := rfl

/-- A call is one. -/
@[simp] theorem calls_inl (e : E) (tr : List (E ⊕ L)) :
    calls (.inl e :: tr) = e :: calls tr := rfl

/-- A record is no call. -/
@[simp] theorem calls_inr (l : L) (tr : List (E ⊕ L)) : calls (.inr l :: tr) = calls tr := rfl

end Logged

end Program

end Sentinel.Base
