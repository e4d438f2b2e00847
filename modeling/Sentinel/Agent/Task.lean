import Sentinel.Agent.ApprovalQueue
import Sentinel.Agent.Session

/-!
# Session tasks

A spawned `session::run` and what it shares with the rest of the agent: the clock, the
approval queue and the remember cache. A task moves from await to await; queue and cache
operations hold a lock and read the clock once, so each is one move. The dialog and helper-1
are started by one move and answered by another. Logs beside the shared state say who pushed,
who ticked the checkbox and who opened a dialog.
-/

namespace Sentinel.Agent

open Sentinel.Base Sentinel.Shared

/-- A processed `remember`: the call whose session made it, the key and the time. -/
structure Grant where
  call : Nat
  actionId : Str
  command : Str
  time : Nat
  deriving DecidableEq, Repr

/-- What the sessions of an agent share, with the logs. -/
structure Shared where
  now : Nat := 0
  ledger : Ledger := {}
  cache : RememberCache := RememberCache.new
  grants : List Grant := []
  dialogs : List Nat := []

/-- A session task: its inputs, what it still has to do, whether the dialog or helper-1 it
waits for was started, what it has learned and when it asked the cache. -/
structure Task where
  inputs : AuthInputs
  prog : Session
  outside : Bool := false
  learned : Learned := {}
  checkedAt : Option Nat := none
  aborted : Bool := false

/-- A task that will not move again. -/
def Task.ended (t : Task) : Bool :=
  match t.prog with
  | .pure _ => true
  | .call _ _ => t.aborted

/-- The task of a call as it is spawned, `agent.rs:186-202`. -/
def Task.spawn (inputs : AuthInputs) : Task := { inputs, prog := run inputs }

namespace Shared

/-- A session pushes an approval. -/
def push (sh : Shared) (call : Nat) (actionId : Str) : Shared :=
  { sh with ledger := sh.ledger.push call actionId sh.now }

/-- A session or a cancel drains the queue. -/
def drain (sh : Shared) : Shared := { sh with ledger := sh.ledger.drain }

/-- `TakeApproval` is processed. -/
def takeApproval (sh : Shared) : Bool × Shared :=
  ((sh.ledger.takeApproval sh.now).1,
    { sh with ledger := (sh.ledger.takeApproval sh.now).2 })

/-- A session records a grant. -/
def remember (sh : Shared) (call : Nat) (actionId command : Str) : Shared :=
  { sh with
    cache := sh.cache.remember actionId command sh.now
    grants := sh.grants ++ [⟨call, actionId, command, sh.now⟩] }

/-- A session opens a dialog. -/
def openDialog (sh : Shared) (call : Nat) : Shared := { sh with dialogs := sh.dialogs ++ [call] }

end Shared

/-- A move: the task goes on by itself, or an answer from outside arrives. -/
inductive Move where
  | step
  | dialog (v : Option Verdict)
  | helper1 (r : Option Bool)

/-- One move of the task of a call. -/
def Task.move (sh : Shared) (call : Nat) (t : Task) : Move → Option (Shared × Task)
  | .step =>
    match t.prog with
    | .pure _ => none
    | .call (.push actionId) k => some (sh.push call actionId, { t with prog := k () })
    | .call (.isFresh actionId command ttlSecs) k =>
      let fresh := sh.cache.isFresh actionId command ttlSecs sh.now
      some (sh, { t with
        prog := k fresh, learned := { t.learned with fresh }, checkedAt := some sh.now })
    | .call (.remember actionId command) k =>
      some (sh.remember call actionId command, { t with prog := k () })
    | .call .drain k => some (sh.drain, { t with prog := k () })
    | .call (.dialog _) _ =>
      if t.outside then none else some (sh.openDialog call, { t with outside := true })
    | .call (.helper1 _ _) _ => if t.outside then none else some (sh, { t with outside := true })
  | .dialog v =>
    match t.prog, t.outside with
    | .call (.dialog _) k, true =>
      some (sh, { t with
        prog := k v, outside := false, learned := { t.learned with dialog := some v } })
    | _, _ => none
  | .helper1 r =>
    match t.prog, t.outside with
    | .call (.helper1 _ _) k, true => some (sh, { t with prog := k r, outside := false })
    | _, _ => none

/-- What a move can be, with whether the session has pushed in front of it and behind it. -/
inductive Moved (sh : Shared) (call : Nat) (t : Task) : Shared → Task → Bool → Bool → Prop where
  | push (hp : ∃ k, t.prog = .call (.push t.inputs.actionId) k) :
      Moved sh call t (sh.push call t.inputs.actionId)
        { t with prog := awaitHelper1 t.inputs } false true
  | check (ht : t.learned = {}) (fresh : Bool)
      (hf : fresh = sh.cache.isFresh t.inputs.actionId t.inputs.rememberCommand
        t.inputs.rememberSecs sh.now) :
      Moved sh call t sh
        { t with prog := afterCheck t.inputs fresh, learned := { fresh }, checkedAt := some sh.now }
        false false
  | opened : Moved sh call t (sh.openDialog call) { t with outside := true } false false
  | dialog (ht : t.learned = {}) (v : Option Verdict) : Moved sh call t sh
      { t with prog := afterDialog t.inputs v, outside := false, learned := { dialog := some v } }
      false false
  | remember (ht : t.learned = { dialog := some (some ⟨.allow, true⟩) })
      (hs : 0 < t.inputs.rememberSecs) :
      Moved sh call t (sh.remember call t.inputs.actionId t.inputs.rememberCommand)
        { t with prog := handOff t.inputs } false false
  | connected : Moved sh call t sh { t with outside := true } true true
  | helper1 (r : Option Bool) : Moved sh call t sh
      { t with prog := afterHelper1 r, outside := false } true true
  | drain : Moved sh call t sh.drain { t with prog := .pure (some false) } true true

/-- A task in a place makes one of these moves, into a place. -/
theorem moved_of_move {sh sh' : Shared} {call : Nat} {t t' : Task} {m : Move} {b : Bool}
    (hp : Place t.inputs t.prog t.learned b) (h : t.move sh call m = some (sh', t')) :
    ∃ b', Moved sh call t sh' t' b b' ∧ Place t'.inputs t'.prog t'.learned b' := by
  obtain ⟨inputs, prog, outside, learned, checkedAt, aborted⟩ := t
  change Place inputs prog learned b at hp
  cases m with
  | step =>
    cases hp with
    | check hd hs =>
      cases h
      exact ⟨false, .check rfl _ rfl, place_afterCheck hd hs _⟩
    | dialog hd =>
      cases outside with
      | true => cases h
      | false =>
        cases h
        exact ⟨false, .opened, .dialog hd⟩
    | remember hd hs =>
      cases h
      exact ⟨false, .remember rfl hs, .push (Or.inr (Or.inr ⟨hd, rfl, _, rfl, rfl⟩))⟩
    | push hp =>
      cases h
      exact ⟨true, .push ⟨_, rfl⟩, .helper1 hp⟩
    | helper1 hp =>
      cases outside with
      | true => cases h
      | false =>
        cases h
        exact ⟨true, .connected, .helper1 hp⟩
    | drain hp =>
      cases h
      exact ⟨true, .drain, .done hp⟩
    | refused => cases h
    | done => cases h
  | dialog v =>
    cases hp with
    | dialog hd =>
      cases outside with
      | true =>
        cases h
        exact ⟨false, .dialog rfl v, place_afterDialog hd v⟩
      | false => cases h
    | _ => cases h
  | helper1 r =>
    cases hp with
    | helper1 hp =>
      cases outside with
      | true =>
        cases h
        exact ⟨true, .helper1 r, place_afterHelper1 hp r⟩
      | false => cases h
    | _ => cases h

section Moved

variable {sh sh' : Shared} {call : Nat} {t t' : Task} {b b' : Bool}

/-- A move keeps the inputs. -/
theorem Moved.inputs (h : Moved sh call t sh' t' b b') : t'.inputs = t.inputs := by
  cases h <;> rfl

/-- A move takes no time. -/
theorem Moved.now (h : Moved sh call t sh' t' b b') : sh'.now = sh.now := by
  cases h <;> rfl

/-- An answered dialog stays answered. -/
theorem Moved.answered (h : Moved sh call t sh' t' b b') {v : Option Verdict}
    (hv : t.learned.dialog = some v) : t'.learned.dialog = some v := by
  cases h with
  | check ht => simp [ht] at hv
  | dialog ht => simp [ht] at hv
  | _ => exact hv

/-- A move keeps the history sound. -/
theorem Moved.sound (h : Moved sh call t sh' t' b b') (hs : sh.ledger.Sound sh.now) :
    sh'.ledger.Sound sh'.now := by
  cases h with
  | push => exact hs.push _ _
  | drain => exact hs.drain
  | _ => exact hs

/-- A move only adds to the pushes. -/
theorem Moved.pushes (h : Moved sh call t sh' t' b b') :
    sh.ledger.pushes <+: sh'.ledger.pushes := by
  cases h with
  | push => exact List.prefix_append _ _
  | _ => exact List.prefix_refl _

/-- A move takes no approval. -/
theorem Moved.takes (h : Moved sh call t sh' t' b b') : sh'.ledger.takes = sh.ledger.takes := by
  cases h <;> rfl

/-- A session that has pushed has pushed for good. -/
theorem Moved.le (h : Moved sh call t sh' t' b b') (hb : b = true) : b' = true := by
  cases h <;> simp_all

/-- A move pushes for its own call only, and at most once. -/
theorem Moved.pushers (h : Moved sh call t sh' t' b b') :
    sh'.ledger.pushers = sh.ledger.pushers ++ (if b' && !b then [call] else []) := by
  cases h with
  | push => simp [Shared.push, Ledger.push, Ledger.pushers]
  | _ => simp [Shared.drain, Ledger.drain, Ledger.pushers, Shared.remember, Shared.openDialog]

end Moved

end Sentinel.Agent
