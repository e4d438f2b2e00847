import Mathlib.Algebra.BigOperators.Group.Finset.Piecewise
import Sentinel.Agent.Decisions

/-!
# Every call is answered

Whatever sessions, cancels, takings and ticks are mixed in: a `begin_authentication` call keeps the
agent busy for a bounded number of steps, and as long as a call is without an answer some step is
possible. When nothing is left to do, the guard is free and no task handle is left behind.
-/

namespace Sentinel.Agent

open Sentinel.Base Sentinel.Shared

/-- A step by which a call goes on, or by which it is told what it waits for. -/
def Label.isWork : Label → Bool
  | .acquire _ _ => true
  | .spawn _ => true
  | .task _ _ => true
  | .finish _ => true
  | _ => false

/-- A new call. -/
def Label.isBegin : Label → Bool
  | .beginAuthentication _ => true
  | _ => false

/-- The call has been answered. -/
def Stage.answered : Stage → Bool
  | .refused _ => true
  | .returned _ => true
  | _ => false

/-- The moves a session has in front of it at most. -/
def Session.remaining (outside : Bool) : Session → Nat
  | .call (.isFresh _ _ _) _ => 8
  | .call (.dialog _) _ => if outside then 6 else 7
  | .call (.remember _ _) _ => 5
  | .call (.push _) _ => 4
  | .call (.helper1 _ _) _ => if outside then 2 else 3
  | .call .drain _ => 1
  | .pure _ => 0

/-- The moves a task has in front of it at most. -/
def Task.remaining (t : Task) : Nat := Session.remaining t.outside t.prog

/-- The steps a call has in front of it at most. -/
def Stage.remaining : Stage → Nat
  | .waiting => 11
  | .ready _ => 10
  | .spawned t => t.remaining + 1
  | .refused _ => 0
  | .returned _ => 0

/-- The steps of one call slot. -/
def slotRemaining (c : Option Call) : Nat := (c.map fun c ↦ c.stage.remaining).getD 0

/-- The steps all calls have in front of them at most. -/
def State.remaining (s : State) : Nat := ∑ i ∈ Finset.range s.nextCall, slotRemaining (s.calls i)

/-! ### Sessions -/

private theorem remaining_afterCheck (i : AuthInputs) (fresh outside : Bool) :
    Session.remaining outside (afterCheck i fresh) ≤ 7 := by
  cases fresh with
  | true =>
    show 4 ≤ 7
    omega
  | false =>
    show (if outside then 6 else 7) ≤ 7
    split <;> omega

private theorem remaining_afterDialog (i : AuthInputs) (v : Option Verdict) (outside : Bool) :
    Session.remaining outside (afterDialog i v) ≤ 5 := by
  unfold afterDialog
  split
  · apply Nat.zero_le
  · split
    · apply Nat.zero_le
    · apply Nat.zero_le
    · split
      · apply Nat.le_refl
      · show 4 ≤ 5
        omega

private theorem remaining_awaitHelper1 (i : AuthInputs) (outside : Bool) :
    Session.remaining outside (awaitHelper1 i) ≤ 3 := by
  show (if outside then 2 else 3) ≤ 3
  split <;> omega

private theorem remaining_afterHelper1 (r : Option Bool) (outside : Bool) :
    Session.remaining outside (afterHelper1 r) ≤ 1 := by
  match r with
  | none => apply Nat.zero_le
  | some true => apply Nat.zero_le
  | some false => apply Nat.le_refl

private theorem remaining_run (i : AuthInputs) : (Task.spawn i).remaining ≤ 8 := by
  show Session.remaining false (run i) ≤ 8
  unfold run
  split
  · apply Nat.zero_le
  · show 4 ≤ 8
    omega
  · split
    · apply Nat.le_refl
    · show 7 ≤ 8
      omega

/-- Every move of a session leaves it less to do. -/
theorem remaining_move {sh sh' : Shared} {call : Nat} {t t' : Task} {m : Move} {b : Bool}
    (hp : Place t.inputs t.prog t.learned b) (h : t.move sh call m = some (sh', t')) :
    t'.remaining < t.remaining := by
  obtain ⟨inputs, prog, outside, learned, checkedAt, aborted⟩ := t
  change Place inputs prog learned b at hp
  cases m with
  | step =>
    cases hp with
    | check hd hs =>
      cases h
      exact Nat.lt_succ_of_le (remaining_afterCheck inputs _ outside)
    | dialog hd =>
      cases outside with
      | true => cases h
      | false =>
        cases h
        exact Nat.lt_succ_self 6
    | remember hd hs =>
      cases h
      exact Nat.lt_succ_self 4
    | push hp =>
      cases h
      exact Nat.lt_succ_of_le (remaining_awaitHelper1 inputs outside)
    | helper1 hp =>
      cases outside with
      | true => cases h
      | false =>
        cases h
        exact Nat.lt_succ_self 2
    | drain hp =>
      cases h
      exact Nat.lt_succ_self 0
    | refused => cases h
    | done => cases h
  | dialog v =>
    cases hp with
    | dialog hd =>
      cases outside with
      | true =>
        cases h
        exact Nat.lt_succ_of_le (remaining_afterDialog inputs v false)
      | false => cases h
    | _ => cases h
  | helper1 r =>
    cases hp with
    | helper1 hp =>
      cases outside with
      | true =>
        cases h
        exact Nat.lt_succ_of_le (remaining_afterHelper1 r false)
      | false => cases h
    | _ => cases h

/-- A task that has not ended can move, whatever it is answered. -/
theorem exists_move {t : Task} (sh : Shared) (call : Nat) (hend : t.ended = false) :
    t.aborted = false ∧ ∃ m, (t.move sh call m).isSome = true := by
  obtain ⟨inputs, prog, outside, learned, checkedAt, aborted⟩ := t
  cases prog with
  | pure r => cases hend
  | call e k =>
    refine ⟨hend, ?_⟩
    cases e with
    | push actionId => exact ⟨.step, rfl⟩
    | isFresh actionId command ttlSecs => exact ⟨.step, rfl⟩
    | remember actionId command => exact ⟨.step, rfl⟩
    | drain => exact ⟨.step, rfl⟩
    | dialog req =>
      cases outside with
      | false => exact ⟨.step, rfl⟩
      | true => exact ⟨.dialog none, rfl⟩
    | helper1 username cookie =>
      cases outside with
      | false => exact ⟨.step, rfl⟩
      | true => exact ⟨.helper1 none, rfl⟩

/-! ### Calls -/

section Calls

variable {s : State}

private theorem remaining_setCall {i : Nat} {c d : Call} (h : Control s)
    (hc : s.calls i = some c) :
    (s.setCall i d).remaining + c.stage.remaining = s.remaining + d.stage.remaining := by
  have hi : i ∈ Finset.range s.nextCall := by
    rw [Finset.mem_range]
    by_contra hge
    rw [h.unused i (by omega)] at hc
    cases hc
  have hslot : (fun j ↦ slotRemaining ((s.setCall i d).calls j)) =
      Function.update (fun j ↦ slotRemaining (s.calls j)) i d.stage.remaining :=
    Function.comp_update slotRemaining s.calls i (some d)
  have hold : slotRemaining (s.calls i) = c.stage.remaining := by
    rw [hc]
    rfl
  have hsplit := Finset.sum_erase_add _ (fun j ↦ slotRemaining (s.calls j)) hi
  rw [State.remaining, State.remaining, ← hsplit, hold]
  show (∑ j ∈ Finset.range s.nextCall, slotRemaining ((s.setCall i d).calls j)) + _ = _
  rw [hslot, Finset.sum_update_of_mem hi, Finset.sdiff_singleton_eq_erase]
  omega

private theorem remaining_work {i : Nat} {c d : Call} (h : Control s) (hc : s.calls i = some c)
    (hlt : d.stage.remaining < c.stage.remaining) :
    (s.setCall i d).remaining + 1 ≤ s.remaining := by
  have hset := remaining_setCall (d := d) h hc
  omega

private theorem remaining_addCall (req : BeginRequest) :
    (s.addCall req).remaining = s.remaining + 11 := by
  have hnew : slotRemaining ((s.addCall req).calls s.nextCall) = 11 := by
    show slotRemaining (Function.update s.calls s.nextCall _ s.nextCall) = 11
    rw [Function.update_self]
    rfl
  rw [State.remaining, State.remaining]
  show (∑ j ∈ Finset.range (s.nextCall + 1), slotRemaining ((s.addCall req).calls j)) = _
  rw [Finset.sum_range_succ, hnew]
  congr 1
  apply Finset.sum_congr rfl
  intro j hj
  show slotRemaining (Function.update s.calls s.nextCall _ j) = _
  rw [Function.update_of_ne (Finset.mem_range.mp hj).ne]

private theorem remaining_abort (cookie : Str) : (s.abort cookie).remaining = s.remaining := by
  apply Finset.sum_congr rfl
  intro j _
  have hstage (g : Stage) : g.abort.remaining = g.remaining := by cases g <;> rfl
  simp only [State.abort]
  split
  · cases s.calls j with
    | none => rfl
    | some c => exact hstage c.stage
  · rfl

/-- Work takes from what remains, and only a new call adds to it. -/
private theorem remaining_step {ownUid : UInt32} {l : Label} {s' : State} (hc : Control s)
    (hd : Decided s.task s.shared) (hl : Step ownUid s l s') :
    s'.remaining + l.isWork.toNat ≤ s.remaining + 11 * l.isBegin.toNat := by
  cases hl with
  | beginAuthentication req => exact (remaining_addCall req).le
  | @acquire i c env inputs hcall hg hf hb =>
    apply remaining_work (d := { c with stage := .ready inputs }) hc hcall
    rw [hg]
    show 10 < 11
    omega
  | @refuse i c env e hcall hg hf =>
    apply remaining_work (d := { c with stage := .refused e }) hc hcall
    rw [hg]
    show 0 < 11
    omega
  | @spawn i c inputs hcall hg =>
    apply remaining_work (d := { c with stage := .spawned (Task.spawn inputs) }) hc hcall
    rw [hg]
    show (Task.spawn inputs).remaining + 1 < 10
    have hrun := remaining_run inputs
    omega
  | @task i c t t' m sh hcall hg ha hm =>
    apply remaining_work (d := { c with stage := .spawned t' }) hc hcall
    rw [hg]
    show t'.remaining + 1 < t.remaining + 1
    have hmove := remaining_move (hd.place i t (by simp [State.task, hcall, hg, Stage.task])) hm
    omega
  | @finish i c t hcall hg hend =>
    apply remaining_work (d := { c with stage := .returned t }) hc hcall
    rw [hg]
    show 0 < t.remaining + 1
    omega
  | cancelDrain cookie => exact Nat.le_refl _
  | @cancelAbort n cookie hn => exact (remaining_abort cookie).le
  | takeApproval => exact Nat.le_refl _
  | tick d => exact Nat.le_refl _

private theorem waiting_of_not_holds {g : Stage} (hg : g.answered = false)
    (hfree : g.holds = false) : g = .waiting := by
  cases g with
  | waiting => rfl
  | ready inputs => cases hfree
  | spawned t => cases hfree
  | refused e => cases hg
  | returned t => cases hg

private theorem holds_of_answered {g : Stage} (hg : g.answered = true) : g.holds = false := by
  cases g with
  | waiting => cases hg
  | ready inputs => cases hg
  | spawned t => cases hg
  | refused e => rfl
  | returned t => rfl

/-- As long as a call is without an answer, some step of work is possible. -/
private theorem exists_work (ownUid : UInt32) {i : Nat} {c : Call} (h : Control s)
    (hc : s.calls i = some c) (hg : c.stage.answered = false) :
    ∃ l, l.isWork = true ∧ (next ownUid s l).isSome = true := by
  cases hf : s.inflight with
  | none =>
    -- Nobody holds the guard, so the call still waits for it.
    have hfree : c.stage.holds = false := by
      rw [Bool.eq_false_iff]
      intro hholds
      rw [(h.holds i c hc).mp hholds] at hf
      cases hf
    have hwaiting := waiting_of_not_holds hg hfree
    refine ⟨.acquire i plainSurroundings, rfl, ?_⟩
    simp only [next, hc, hwaiting, hf]
    split <;> rfl
  | some j =>
    -- Its holder can go on, or waits for an answer from outside.
    obtain ⟨d, hd⟩ := h.guarded j hf
    have hholds := (h.holds j d hd).mpr hf
    cases hs : d.stage with
    | ready inputs =>
      refine ⟨.spawn j, rfl, ?_⟩
      simp only [next, hd, hs, Option.isSome_some]
    | spawned t =>
      cases hend : t.ended with
      | true =>
        refine ⟨.finish j, rfl, ?_⟩
        simp only [next, hd, hs, hend, if_true, Option.isSome_some]
      | false =>
        obtain ⟨halive, m, hm⟩ := exists_move s.shared j hend
        obtain ⟨⟨sh, t'⟩, hmove⟩ := Option.isSome_iff_exists.mp hm
        refine ⟨.task j m, rfl, ?_⟩
        simp only [next, hd, hs, halive, Bool.false_eq_true, if_false, hmove, Option.isSome_some]
    | waiting => rw [hs] at hholds; cases hholds
    | refused e => rw [hs] at hholds; cases hholds
    | returned t => rw [hs] at hholds; cases hholds

end Calls

/-! ### Runs -/

/-- The agent is quiet: no step of work is possible. -/
def Quiet (ownUid : UInt32) (s : State) : Prop := ∀ l, l.isWork = true → next ownUid s l = none

private theorem exists_quiet {ownUid : UInt32} {ls : List Label} {s : State}
    (h : (system ownUid).Run ls s) :
    ∃ ms s', (∀ l ∈ ms, l.isWork = true) ∧ (system ownUid).exec s ms = some s' ∧
      Quiet ownUid s' := by
  -- By induction on what remains, which every step of work lowers.
  induction hn : s.remaining using Nat.strong_induction_on generalizing ls s with
  | _ n ih =>
    by_cases hquiet : Quiet ownUid s
    · exact ⟨[], s, by simp, rfl, hquiet⟩
    · simp only [Quiet, not_forall] at hquiet
      obtain ⟨l, hl, hsome⟩ := hquiet
      obtain ⟨t, ht⟩ := Option.ne_none_iff_exists'.mp hsome
      have hrun : (system ownUid).Run (ls ++ [l]) t :=
        (system ownUid).exec_concat_eq_some.mpr ⟨s, h, ht⟩
      have hstep := remaining_step (control_run h) (decided_run h) (step_of_next ht)
      have hbegin : l.isBegin = false := by cases l <;> first | rfl | cases hl
      rw [hl, hbegin] at hstep
      have hless : t.remaining < n := by
        change t.remaining + 1 ≤ s.remaining + 11 * 0 at hstep
        omega
      obtain ⟨ms, s', hms, hexec, hq⟩ := ih t.remaining hless hrun rfl
      refine ⟨l :: ms, s', ?_, (system ownUid).exec_cons ht hexec, hq⟩
      intro m hm
      rcases List.mem_cons.mp hm with rfl | hm
      · exact hl
      · exact hms m hm

/-- The agent is at rest exactly when every call has its answer. -/
theorem quiet_iff {ownUid : UInt32} {s : State} (h : Control s) :
    Quiet ownUid s ↔ ∀ i c, s.calls i = some c → c.stage.answered = true := by
  constructor
  · intro hquiet i c hc
    by_contra hg
    obtain ⟨l, hl, hn⟩ := exists_work ownUid h hc (eq_false_of_ne_true hg)
    rw [hquiet l hl] at hn
    cases hn
  · intro hanswered l hl
    rw [Option.eq_none_iff_forall_ne_some]
    intro s' hn
    have hbusy {i : Nat} {c : Call} {g : Stage} (hc : s.calls i = some c) (hg : c.stage = g)
        (hopen : g.answered = false) : False := by
      rw [← hg, hanswered i c hc] at hopen
      cases hopen
    cases step_of_next hn with
    | acquire hc hg => exact hbusy hc hg rfl
    | refuse hc hg => exact hbusy hc hg rfl
    | spawn hc hg => exact hbusy hc hg rfl
    | task hc hg => exact hbusy hc hg rfl
    | finish hc hg => exact hbusy hc hg rfl
    | _ => cases hl

/-- In every run the agent works for at most eleven steps a call; from wherever it is, work alone
brings it to rest; and it is at rest exactly when every call has its answer, with the guard free and
no handle left. -/
theorem agent_answers {ownUid : UInt32} {ls : List Label} {s : State}
    (h : (system ownUid).Run ls s) :
    ls.countP Label.isWork ≤ 11 * ls.countP Label.isBegin ∧
      (∃ ms s', (∀ l ∈ ms, l.isWork = true) ∧ (system ownUid).exec s ms = some s' ∧
        Quiet ownUid s') ∧
      (Quiet ownUid s ↔ ∀ i c, s.calls i = some c → c.stage.answered = true) ∧
      (Quiet ownUid s → s.inflight = none ∧ ∀ k, s.sessions k = none) := by
  have hcontrol := control_run h
  refine ⟨?_, exists_quiet h, quiet_iff hcontrol, ?_⟩
  · have hpaid := (system ownUid).run_paid State.remaining Label.isWork Label.isBegin 11
      (fun _ _ _ _ hrun hn ↦
        remaining_step (control_run hrun) (decided_run hrun) (step_of_next hn)) h
    have hinit : (system ownUid).init.remaining = 0 := rfl
    omega
  · intro hquiet
    have hanswered := (quiet_iff hcontrol).mp hquiet
    constructor
    · rw [Option.eq_none_iff_forall_ne_some]
      intro i hi
      obtain ⟨c, hc⟩ := hcontrol.guarded i hi
      have hholds := (hcontrol.holds i c hc).mpr hi
      rw [holds_of_answered (hanswered i c hc)] at hholds
      cases hholds
    · intro k
      rw [Option.eq_none_iff_forall_ne_some]
      intro i hi
      obtain ⟨c, t, hc, hs, -⟩ := hcontrol.handle k i hi
      have hdone := hanswered i c hc
      rw [hs] at hdone
      cases hdone

/-- A call that is allowed by its dialog and handed off to helper-1. -/
def allowedThrough : List Label :=
  untilPush "cookie" ++ [.task 0 .step, .task 0 (.helper1 (some true)), .finish 0]

/-- The state behind it. -/
def allowedThroughState : State := ((system 1000).exec {} allowedThrough).getD {}

/-- It takes eight steps of work, and the agent is at rest. -/
theorem allowedThrough_answers :
    (system 1000).Run allowedThrough allowedThroughState ∧
      allowedThrough.countP Label.isWork = 8 ∧ Quiet 1000 allowedThroughState ∧
      allowedThroughState.inflight = none := by
  have hrun : (system 1000).Run allowedThrough allowedThroughState := rfl
  obtain ⟨-, -, hanswered, hfree⟩ := agent_answers hrun
  have hquiet : Quiet 1000 allowedThroughState := by
    apply hanswered.mpr
    intro i c hc
    have hlt : i < 1 := by
      by_contra hge
      rw [(control_run hrun).unused i (Nat.le_of_not_lt hge)] at hc
      cases hc
    obtain rfl : i = 0 := by omega
    cases hc
    rfl
  exact ⟨hrun, rfl, hquiet, (hfree hquiet).1⟩

end Sentinel.Agent
