import Sentinel.Agent.Decisions

/-!
# Cancellation

What a call leaves in the logs is its footprint: its pushes, its dialogs and the approvals of
its session that were returned. A call is settled when its session will not do anything more,
and silent when besides no approval of its session can be returned. A silent call stays silent and
its footprint stays as it is; every other call can still leave something. A cancel silences the
calls of its cookie exactly when none of them is still on its way to a session and none has an
approval in the queue.
-/

namespace Sentinel.Agent

open Sentinel.Base Sentinel.Shared

/-- The pushes, the dialogs and the returned approvals of a call's session. -/
structure Footprint where
  pushes : List Push
  dialogs : List Nat
  taken : List Nat
  deriving DecidableEq, Repr

/-- The footprint of a call. -/
def Shared.footprint (sh : Shared) (i : Nat) : Footprint where
  pushes := sh.ledger.pushes.filter (fun p ↦ p.call = i)
  dialogs := sh.dialogs.filter (fun j ↦ j = i)
  taken := sh.ledger.taken.filter (fun n ↦ sh.ledger.pusher n = some i)

/-- No approval of the call's session can be returned. -/
def Shared.Spent (sh : Shared) (i : Nat) : Prop :=
  ∀ a ∈ sh.ledger.queue, sh.ledger.pusher a.serial = some i → a.expiresAt ≤ sh.now

/-- The session of the call will not do anything more: it has ended, or there will be none, or
one that policy denies. -/
def Call.settled (ownUid : UInt32) (c : Call) : Bool :=
  match c.stage with
  | .waiting => (pick c.request.identities ownUid).isNone
  | .ready inputs => inputs.decision == .deny
  | .spawned t => t.ended
  | .refused _ => true
  | .returned t => t.ended

/-- The call is settled and no approval of its session can be returned. -/
def Silent (ownUid : UInt32) (s : State) (i : Nat) : Prop :=
  (∃ c, s.calls i = some c ∧ c.settled ownUid = true) ∧ s.shared.Spent i

/-! ### What the steps leave alone -/

/-- A step on the shared state that is none of the call's business. -/
structure Apart (i : Nat) (sh sh' : Shared) : Prop where
  spent : sh.Spent i → sh'.Spent i
  footprint : sh.Spent i → sh'.footprint i = sh.footprint i

section Apart

variable {sh : Shared} {i j : Nat}

private theorem Apart.refl (i : Nat) (sh : Shared) : Apart i sh sh := ⟨id, fun _ ↦ rfl⟩

private theorem pusher_push_of_lt {l : Ledger} {n : Nat} (h : n < l.pushes.length) (call : Nat)
    (actionId : Str) (now : Nat) : (l.push call actionId now).pusher n = l.pusher n := by
  simp [Ledger.pusher, Ledger.push, List.getElem?_append_left h]

private theorem serial_lt {l : Ledger} {now : Nat} (h : l.Sound now) {a : Approval}
    (ha : a ∈ l.queue) : a.serial < l.pushes.length := by
  obtain ⟨p, hp, -⟩ := h.queued a ha
  exact (List.getElem?_eq_some_iff.mp hp).1

/-- Another session pushes. -/
private theorem apart_push (hs : sh.ledger.Sound sh.now) (hj : j ≠ i) (actionId : Str) :
    Apart i sh (sh.push j actionId) := by
  constructor
  · intro hsp a ha hpa
    rcases List.mem_append.mp ha with ha | ha
    · rw [Shared.push, pusher_push_of_lt (serial_lt hs ha)] at hpa
      exact hsp a ha hpa
    · rw [List.mem_singleton.mp ha] at hpa
      simp [Shared.push, Ledger.push, Ledger.pusher, hj] at hpa
  · intro _
    have htaken : (sh.push j actionId).ledger.taken.filter
        (fun n ↦ (sh.push j actionId).ledger.pusher n = some i) =
          sh.ledger.taken.filter (fun n ↦ sh.ledger.pusher n = some i) := by
      refine List.filter_congr (fun n hn ↦ ?_)
      rw [Shared.push, pusher_push_of_lt (hs.known n (List.mem_append_left _ hn))]
    simp only [Shared.footprint, htaken, Footprint.mk.injEq, and_true]
    exact ⟨by simp [Shared.push, Ledger.push, hj], rfl⟩

/-- Another session opens a dialog. -/
private theorem apart_openDialog (hj : j ≠ i) : Apart i sh (sh.openDialog j) := by
  have hd : (sh.dialogs ++ [j]).filter (fun k ↦ k = i) = sh.dialogs.filter (fun k ↦ k = i) := by
    simp [hj]
  exact ⟨id, fun _ ↦ congrArg (fun dialogs ↦ Footprint.mk _ dialogs _) hd⟩

/-- The queue is drained. -/
private theorem apart_drain : Apart i sh sh.drain :=
  ⟨fun _ _ ha ↦ by simp [Shared.drain, Ledger.drain, ApprovalQueue.drain] at ha, fun _ ↦ rfl⟩

/-- An approval is taken. -/
private theorem apart_takeApproval : Apart i sh sh.takeApproval.2 := by
  rcases Ledger.takeApproval_cases sh.ledger sh.now with
    ⟨-, he⟩ | ⟨dropped, a, rest, hq, hlive, -, he⟩
  · constructor
    · intro _ b hb
      simp [Shared.takeApproval, he] at hb
    · intro _
      simp [Shared.footprint, Shared.takeApproval, he, Ledger.taken, Ledger.pusher]
  · constructor
    · intro hsp b hb hpb
      simp only [Shared.takeApproval, he] at hb hpb
      exact hsp b (by simp [hq, hb]) hpb
    · intro hsp
      have hna : decide (sh.ledger.pusher a.serial = some i) = false := by
        refine decide_eq_false (fun hpa ↦ ?_)
        have := hsp a (by simp [hq]) hpa
        omega
      have ht : (sh.ledger.taken ++ [a.serial]).filter (fun n ↦ sh.ledger.pusher n = some i) =
          sh.ledger.taken.filter (fun n ↦ sh.ledger.pusher n = some i) := by
        rw [List.filter_append, List.filter_singleton, hna, cond_false, List.append_nil]
      simp only [Shared.footprint, Shared.takeApproval, he, Footprint.mk.injEq, true_and]
      rw [← ht]
      simp [Ledger.taken, Ledger.pusher]

/-- Another session moves. -/
private theorem apart_moved {sh' : Shared} {t t' : Task} {b b' : Bool}
    (hs : sh.ledger.Sound sh.now) (hj : j ≠ i) (hm : Moved sh j t sh' t' b b') :
    Apart i sh sh' := by
  cases hm with
  | push => exact apart_push hs hj _
  | opened => exact apart_openDialog hj
  | drain => exact apart_drain
  | remember ht hs => exact ⟨id, fun _ ↦ rfl⟩
  | _ => exact Apart.refl i sh

end Apart

/-- An ended task makes no move. -/
theorem move_of_ended {sh : Shared} {call : Nat} {t : Task} (he : t.ended = true)
    (ha : t.aborted = false) (m : Move) : t.move sh call m = none := by
  obtain ⟨inputs, prog, outside, learned, checkedAt, aborted⟩ := t
  cases prog with
  | pure r => cases m <;> rfl
  | call e k =>
    simp only [Task.ended] at he
    simp only at ha
    rw [ha] at he
    cases he

/-- A task denied by policy has ended as it is spawned. -/
theorem ended_spawn_of_deny {inputs : AuthInputs} (h : inputs.decision = .deny) :
    (Task.spawn inputs).ended = true := by
  simp [Task.spawn, Task.ended, run, h]

/-- Without an acceptable identity there are no inputs. -/
theorem beginInputs_of_pick {ownUid : UInt32} {env : Surroundings} {req : BeginRequest}
    (h : pick req.identities ownUid = none) :
    beginInputs ownUid env req = .error .noAcceptableIdentities := by
  simp [beginInputs, h]

/-- An aborted task has ended. -/
theorem ended_of_aborted {t : Task} (h : t.aborted = true) : t.ended = true := by
  unfold Task.ended
  split
  · rfl
  · exact h

private theorem settled_abort {ownUid : UInt32} {c : Call} (h : c.settled ownUid = true) :
    { c with stage := c.stage.abort }.settled ownUid = true := by
  obtain ⟨request, stage⟩ := c
  cases stage with
  | spawned t => exact ended_of_aborted rfl
  | _ => exact h

/-- A settled call stays settled. -/
private theorem settled_step {ownUid : UInt32} {s s' : State} {l : Label} {i : Nat}
    (hc : Control s) (hl : Step ownUid s l s')
    (h : ∃ c, s.calls i = some c ∧ c.settled ownUid = true) :
    ∃ c, s'.calls i = some c ∧ c.settled ownUid = true := by
  obtain ⟨c, hci, hset⟩ := h
  -- Where the step replaces a call, it is this one or another.
  have hput {j : Nat} {d d' : Call} (hj : s.calls j = some d)
      (hd : d.settled ownUid = true → d'.settled ownUid = true) :
      ∃ c, (s.setCall j d').calls i = some c ∧ c.settled ownUid = true := by
    by_cases hji : i = j
    · subst hji
      rw [hci] at hj
      cases hj
      exact ⟨d', by simp [State.setCall], hd hset⟩
    · exact ⟨c, by simp [State.setCall, hji, hci], hset⟩
  cases hl with
  | beginAuthentication req =>
    have hlt : i ≠ s.nextCall := by
      rintro rfl
      rw [hc.unused _ (Nat.le_refl _)] at hci
      cases hci
    exact ⟨c, by simp [State.addCall, State.setCall, hlt, hci], hset⟩
  | acquire hj hg hf hb =>
    refine hput hj (fun hs ↦ ?_)
    simp only [Call.settled, hg, Option.isNone_iff_eq_none] at hs
    rw [beginInputs_of_pick hs] at hb
    cases hb
  | refuse hj hg hf => exact hput hj (fun _ ↦ rfl)
  | spawn hj hg =>
    refine hput hj (fun hs ↦ ended_spawn_of_deny ?_)
    simpa [Call.settled, hg] using hs
  | task hj hg ha hm =>
    refine hput hj (fun hs ↦ ?_)
    simp only [Call.settled, hg] at hs
    rw [move_of_ended hs ha] at hm
    cases hm
  | finish hj hg he => exact hput hj (fun _ ↦ he)
  | cancelDrain cookie => exact ⟨c, hci, hset⟩
  | cancelAbort hn =>
    simp only [State.abort]
    split
    · exact ⟨{ c with stage := c.stage.abort }, by rw [hci]; rfl, settled_abort hset⟩
    · exact ⟨c, hci, hset⟩
  | takeApproval => exact ⟨c, hci, hset⟩
  | tick d => exact ⟨c, hci, hset⟩

/-- What a step does beside a settled call is none of its business. -/
private theorem apart_step {ownUid : UInt32} {s s' : State} {l : Label} {i : Nat}
    (hd : Decided s.task s.shared) (hl : Step ownUid s l s')
    (h : ∃ c, s.calls i = some c ∧ c.settled ownUid = true) : Apart i s.shared s'.shared := by
  obtain ⟨c, hci, hset⟩ := h
  cases hl with
  | @task j d t t' m sh hj hg ha hm =>
    have hji : j ≠ i := by
      rintro rfl
      rw [hci] at hj
      cases hj
      simp only [Call.settled, hg] at hset
      rw [move_of_ended hset ha] at hm
      cases hm
    have ht : s.task j = some t := by simp [State.task, hj, hg, Stage.task]
    obtain ⟨b', hmoved, -⟩ := moved_of_move (hd.place j t ht) hm
    exact apart_moved hd.sound hji hmoved
  | cancelDrain cookie => exact apart_drain
  | takeApproval => exact apart_takeApproval
  | tick d =>
    exact ⟨fun hsp a ha hpa ↦ (hsp a ha hpa).trans (Nat.le_add_right _ _), fun _ ↦ rfl⟩
  | _ => exact Apart.refl _ _

/-- A silent call stays silent and its footprint stays as it is. -/
theorem footprint_of_silent {ownUid : UInt32} {ls post : List Label} {t u : State} {i : Nat}
    (ht : (system ownUid).Run ls t) (hi : Silent ownUid t i)
    (hu : (system ownUid).exec t post = some u) :
    u.shared.footprint i = t.shared.footprint i := by
  have hinv := (system ownUid).exec_invariant
    (fun v ↦ (Control v ∧ Decided v.task v.shared) ∧ Silent ownUid v i ∧
      v.shared.footprint i = t.shared.footprint i)
    ?_ ⟨⟨control_run ht, decided_run ht⟩, hi, rfl⟩ hu
  · exact hinv.2.2
  · rintro v l w ⟨⟨hc, hd⟩, ⟨hset, hsp⟩, hf⟩ hn
    have hl := step_of_next hn
    have hap := apart_step hd hl hset
    exact ⟨⟨control_step hc hl, decided_change hd (change_of_step hc hl)⟩,
      ⟨settled_step hc hl hset, hap.spent hsp⟩, (hap.footprint hsp).trans hf⟩

/-! ### What an unsettled call can still do -/

section Reachable

variable (ownUid : UInt32) {s : State}

private theorem exec_next {t u : State} {l : Label} {ls : List Label}
    (hn : next ownUid s l = some t) (hu : (system ownUid).exec t ls = some u) :
    (system ownUid).exec s (l :: ls) = some u :=
  (system ownUid).exec_cons hn hu

/-- A state with a free guard, further on: no dialog was opened and waiting calls still wait. -/
private structure Freed (s t : State) : Prop where
  inflight : t.inflight = none
  dialogs : t.shared.dialogs = s.shared.dialogs
  waiting : ∀ i c, s.calls i = some c → c.stage = .waiting → t.calls i = some c

/-- Cancelling the session in flight frees the guard. -/
private theorem freed_of_spawned (hc : Control s) {j : Nat} {c : Call} {t : Task}
    (hj : s.calls j = some c) (hg : c.stage = .spawned t) :
    ∃ post u, (system ownUid).exec s post = some u ∧ Freed s u := by
  let k := c.request.cookie
  let s₁ : State := { s with shared := s.shared.drain, cancels := s.cancels ++ [k] }
  let s₂ : State := { s₁ with cancels := s₁.cancels.eraseIdx s.cancels.length }.abort k
  have h₂ : next ownUid s₁ (.cancelAbort s.cancels.length) = some s₂ := by
    simp [next, s₁, s₂]
  -- The session in flight is found by the cancel, or was aborted before.
  have hend : ∃ t', s₂.calls j = some { c with stage := .spawned t' } ∧ t'.ended = true := by
    by_cases hs : s.sessions k = some j
    · refine ⟨{ t with aborted := true }, ?_, ended_of_aborted rfl⟩
      simp [s₂, s₁, State.abort, hs, hj, hg, Stage.abort]
    · have ha : t.aborted = true := by
        by_contra hna
        exact hs (hc.stored j c t hj hg (by simpa using hna))
      exact ⟨t, by simp [s₂, s₁, State.abort, hs, hj, ← hg], ended_of_aborted ha⟩
  obtain ⟨t', hj', he⟩ := hend
  have h₃ : next ownUid s₂ (.finish j) =
      some (s₂.finish j { c with stage := .spawned t' } t') := by
    simp [next, hj', he]
  refine ⟨[.cancelDrain k, .cancelAbort s.cancels.length, .finish j],
    s₂.finish j { c with stage := .spawned t' } t',
    exec_next ownUid (t := s₁) rfl (exec_next ownUid h₂ (exec_next ownUid h₃ rfl)), rfl, rfl, ?_⟩
  intro i d hd hw
  have hij : i ≠ j := by
    rintro rfl
    rw [hj] at hd
    cases hd
    rw [hg] at hw
    cases hw
  have hs : s.sessions k ≠ some i := by
    intro hs
    obtain ⟨d', t'', hd', hst, -⟩ := hc.handle k i hs
    rw [hd] at hd'
    cases hd'
    rw [hw] at hst
    cases hst
  simp [State.finish, State.setCall, hij, s₂, s₁, State.abort, hs, hd]

/-- The guard can always be freed. -/
private theorem exists_freed (hc : Control s) :
    ∃ post u, (system ownUid).exec s post = some u ∧ Freed s u := by
  cases hin : s.inflight with
  | none => exact ⟨[], s, rfl, hin, rfl, fun _ _ h _ ↦ h⟩
  | some j =>
    obtain ⟨c, hj⟩ := hc.guarded j hin
    have hh := (hc.holds j c hj).mpr hin
    cases hg : c.stage with
    | ready inputs =>
      have hn : next ownUid s (.spawn j) = some (s.spawn j c inputs) := by simp [next, hj, hg]
      obtain ⟨post, u, hu, hfree⟩ := freed_of_spawned ownUid
        (control_step hc (step_of_next hn)) (j := j)
        (c := { c with stage := .spawned (Task.spawn inputs) }) (t := Task.spawn inputs)
        (by simp [State.spawn, State.setCall]) rfl
      refine ⟨_, u, exec_next ownUid hn hu, hfree.inflight, hfree.dialogs, fun i d hd hw ↦ ?_⟩
      have hij : i ≠ j := by
        rintro rfl
        rw [hj] at hd
        cases hd
        rw [hg] at hw
        cases hw
      exact hfree.waiting i d (by simp [State.spawn, State.setCall, hij, hd]) hw
    | spawned t => exact freed_of_spawned ownUid hc hj hg
    | waiting => simp [hg, Stage.holds] at hh
    | refused e => simp [hg, Stage.holds] at hh
    | returned t => simp [hg, Stage.holds] at hh

/-- A host where every user is known and every request asks, without a remember window. -/
def askingSurroundings : Surroundings where
  passwdByUid := fun _ ↦ some "alice".toList
  fs := fun _ ↦ {}
  document := { general := { rememberSeconds := 0 } }

/-- There an acceptable identity leads to a dialog. -/
private theorem beginInputs_asking {req : BeginRequest} {uid : UInt32}
    (h : pick req.identities ownUid = some uid) :
    ∃ inputs, beginInputs ownUid askingSurroundings req = .ok inputs ∧
      run inputs = dialogStage inputs := by
  refine ⟨_, by simp only [beginInputs, h]; rfl, ?_⟩
  have hd : ∀ i : AuthInputs, i.cfg = askingSurroundings.document.forService polkitPamService →
      run i = dialogStage i := by
    intro i hcfg
    have hdec : i.decision = .ask := by
      rw [AuthInputs.decision, hcfg]
      rfl
    have hsecs : i.rememberSecs = 0 := by
      rw [AuthInputs.rememberSecs, hcfg]
      split <;> rfl
    simp [run, hdec, hsecs]
  exact hd _ rfl

/-- A session in front of its dialog opens it. -/
private theorem exec_openDialog {i : Nat} {c : Call} {t : Task} {inputs : AuthInputs}
    (hi : s.calls i = some c) (hg : c.stage = .spawned t) (ha : t.aborted = false)
    (ho : t.outside = false) (hp : t.prog = dialogStage inputs) :
    ∃ u, (system ownUid).exec s [.task i .step] = some u ∧
      u.shared.dialogs = s.shared.dialogs ++ [i] := by
  have hn : next ownUid s (.task i .step) = some
      { s.setCall i { c with stage := .spawned { t with outside := true } } with
        shared := s.shared.openDialog i } := by
    simp [next, hi, hg, ha, Task.move, hp, dialogStage, ho]
  exact ⟨_, exec_next ownUid hn rfl, rfl⟩

/-- A session in front of its hand-off pushes. -/
private theorem exec_push {i : Nat} {c : Call} {t : Task} {inputs : AuthInputs}
    (hi : s.calls i = some c) (hg : c.stage = .spawned t) (ha : t.aborted = false)
    (hp : t.prog = handOff inputs) :
    ∃ u, (system ownUid).exec s [.task i .step] = some u ∧
      u.shared.ledger.pushes = s.shared.ledger.pushes ++ [⟨i, s.shared.now⟩] := by
  have hn : next ownUid s (.task i .step) = some
      { s.setCall i { c with stage := .spawned { t with prog := awaitHelper1 inputs } } with
        shared := s.shared.push i inputs.actionId } := by
    simp [next, hi, hg, ha, Task.move, hp, handOff]
  exact ⟨_, exec_next ownUid hn rfl, rfl⟩

/-- The call leaves something: a dialog or a push. -/
private def Marks (i : Nat) (s u : State) : Prop :=
  u.shared.dialogs = s.shared.dialogs ++ [i] ∨
    u.shared.ledger.pushes = s.shared.ledger.pushes ++ [⟨i, s.shared.now⟩]

/-- A waiting call with an acceptable identity can still open a dialog. -/
private theorem marks_of_waiting (hc : Control s) {i : Nat} {c : Call} (hi : s.calls i = some c)
    (hg : c.stage = .waiting) (hp : pick c.request.identities ownUid ≠ none) :
    ∃ post u, (system ownUid).exec s post = some u ∧ Marks i s u := by
  obtain ⟨uid, huid⟩ := Option.ne_none_iff_exists'.mp hp
  obtain ⟨pre, t, ht, hfree⟩ := exists_freed ownUid hc
  have hti := hfree.waiting i c hi hg
  obtain ⟨inputs, hb, hrun⟩ := beginInputs_asking ownUid huid
  let t₁ : State := { t.setCall i { c with stage := .ready inputs } with inflight := some i }
  have h₁ : next ownUid t (.acquire i askingSurroundings) = some t₁ := by
    simp [next, hti, hg, hfree.inflight, hb, t₁]
  let c₁ : Call := { c with stage := .ready inputs }
  have h₂ : next ownUid t₁ (.spawn i) = some (t₁.spawn i c₁ inputs) := by
    simp [next, t₁, State.setCall, c₁]
  obtain ⟨u, hu, hd⟩ := exec_openDialog ownUid (s := t₁.spawn i c₁ inputs) (i := i)
    (c := { c₁ with stage := .spawned (Task.spawn inputs) })
    (by simp [State.spawn, State.setCall]) rfl rfl rfl hrun
  refine ⟨pre ++ [.acquire i askingSurroundings, .spawn i, .task i .step], u, ?_, Or.inl ?_⟩
  · rw [Transition.exec_append, ht, Option.bind_some]
    exact exec_next ownUid h₁ (exec_next ownUid h₂ hu)
  · rw [hd, ← hfree.dialogs]
    rfl

/-- A session in front of the cache can still open a dialog or push. -/
private theorem marks_of_check {i : Nat} {c : Call} {t : Task} {inputs : AuthInputs}
    (hi : s.calls i = some c) (hg : c.stage = .spawned t) (ha : t.aborted = false)
    (ho : t.outside = false)
    (hp : t.prog = .call (.isFresh inputs.actionId inputs.rememberCommand inputs.rememberSecs)
      (afterCheck inputs)) :
    ∃ post u, (system ownUid).exec s post = some u ∧ Marks i s u := by
  generalize hf : s.shared.cache.isFresh inputs.actionId inputs.rememberCommand
    inputs.rememberSecs s.shared.now = fresh
  let t₁ : Task := { t with
    prog := afterCheck inputs fresh, learned := { t.learned with fresh }
    checkedAt := some s.shared.now }
  let v : State := s.setCall i { c with stage := .spawned t₁ }
  have h₁ : next ownUid s (.task i .step) = some v := by
    simp [next, hi, hg, ha, Task.move, hp, hf, v, t₁, State.setCall]
  have hv : v.calls i = some { c with stage := .spawned t₁ } := by simp [v, State.setCall]
  cases fresh with
  | true =>
    obtain ⟨u, hu, hm⟩ := exec_push ownUid hv rfl ha (show t₁.prog = handOff inputs from rfl)
    exact ⟨_, u, exec_next ownUid h₁ hu, Or.inr hm⟩
  | false =>
    obtain ⟨u, hu, hm⟩ :=
      exec_openDialog ownUid hv rfl ha ho (show t₁.prog = dialogStage inputs from rfl)
    exact ⟨_, u, exec_next ownUid h₁ hu, Or.inl hm⟩

/-- A call in front of its spawn that policy does not deny can still open a dialog or push. -/
private theorem marks_of_ready {i : Nat} {c : Call} {inputs : AuthInputs}
    (hi : s.calls i = some c) (hg : c.stage = .ready inputs) (hp : inputs.decision ≠ .deny) :
    ∃ post u, (system ownUid).exec s post = some u ∧ Marks i s u := by
  let t := s.spawn i c inputs
  let c₁ : Call := { c with stage := .spawned (Task.spawn inputs) }
  have h₁ : next ownUid s (.spawn i) = some t := by simp [next, hi, hg, t]
  have hti : t.calls i = some c₁ := by simp [t, State.spawn, State.setCall, c₁]
  cases hd : inputs.decision with
  | deny => exact absurd hd hp
  | allow =>
    have hrun : (Task.spawn inputs).prog = handOff inputs := by simp [Task.spawn, run, hd]
    obtain ⟨u, hu, hm⟩ := exec_push ownUid hti rfl rfl hrun
    exact ⟨_, u, exec_next ownUid h₁ hu, Or.inr hm⟩
  | ask =>
    by_cases hs : 0 < inputs.rememberSecs
    · have hrun : (Task.spawn inputs).prog =
          .call (.isFresh inputs.actionId inputs.rememberCommand inputs.rememberSecs)
            (afterCheck inputs) := by
        simp [Task.spawn, run, hd, hs]
      obtain ⟨post, u, hu, hm⟩ := marks_of_check ownUid hti rfl rfl rfl hrun
      exact ⟨_, u, exec_next ownUid h₁ hu, hm⟩
    · have hrun : (Task.spawn inputs).prog = dialogStage inputs := by
        simp [Task.spawn, run, hd, hs]
      obtain ⟨u, hu, hm⟩ := exec_openDialog ownUid hti rfl rfl rfl hrun
      exact ⟨_, u, exec_next ownUid h₁ hu, Or.inl hm⟩

/-- Every live approval can still be returned. -/
private theorem exists_taken {a : Approval} (ha : a ∈ s.shared.ledger.queue)
    (hlive : s.shared.now < a.expiresAt) :
    ∃ post u, (system ownUid).exec s post = some u ∧
      u.shared.ledger.pushes = s.shared.ledger.pushes ∧ a.serial ∈ u.shared.ledger.taken := by
  induction hn : s.shared.ledger.queue.length using Nat.strong_induction_on generalizing s with
  | _ n ih =>
    let t : State := { s with shared := s.shared.takeApproval.2 }
    have h₁ : next ownUid s .takeApproval = some t := rfl
    rcases Ledger.takeApproval_cases s.shared.ledger s.shared.now with
      ⟨hdead, -⟩ | ⟨dropped, b, rest, hq, -, hd, he⟩
    · exact absurd ⟨a, ha, hlive⟩ hdead
    · have hl : t.shared.ledger = { s.shared.ledger with
          queue := rest,
          takes := s.shared.ledger.takes ++ [⟨s.shared.now, true, some b.serial⟩] } := by
        simp [t, Shared.takeApproval, he]
      rw [hq, List.mem_append, List.mem_cons] at ha
      rcases ha with ha | rfl | ha
      · have := hd a ha
        omega
      · exact ⟨[.takeApproval], t, exec_next ownUid h₁ rfl, by rw [hl], by simp [hl, Ledger.taken]⟩
      · have hlt : t.shared.ledger.queue.length < n := by
          rw [← hn, hq, hl]
          simp only [List.length_append, List.length_cons]
          omega
        obtain ⟨post, u, hu, hp, hmem⟩ := ih _ hlt (s := t) (by rw [hl]; exact ha) hlive rfl
        exact ⟨_, u, exec_next ownUid h₁ hu, by rw [hp, hl], hmem⟩

end Reachable

/-! ### When a cancel is final -/

/-- Behind the cancel nothing more comes from the calls of the cookie that were received before:
no push, no dialog, and no approval of theirs is returned. -/
def CancelFinal (ownUid : UInt32) (s t : State) (cookie : Str) : Prop :=
  ∀ post u, (system ownUid).exec t post = some u →
    ∀ i c, s.calls i = some c → c.request.cookie = cookie →
      u.shared.footprint i = t.shared.footprint i

/-- In front of the abort every call of the cookie has a session or will do nothing more, and no
approval of such a session can be returned. -/
structure CancelLands (ownUid : UInt32) (s : State) (cookie : Str) : Prop where
  calls : ∀ i c, s.calls i = some c → c.request.cookie = cookie →
    (∃ t, c.stage = .spawned t) ∨ c.settled ownUid = true
  queue : ∀ a ∈ s.shared.ledger.queue, ∀ i, s.shared.ledger.pusher a.serial = some i →
    s.cookie i = some cookie → a.expiresAt ≤ s.shared.now

private theorem footprint_ne_of_marks {i : Nat} {s u : State} (h : Marks i s u) :
    u.shared.footprint i ≠ s.shared.footprint i := by
  intro he
  rcases h with h | h
  · have hd := congrArg Footprint.dialogs he
    simp [Shared.footprint, h] at hd
  · have hp := congrArg Footprint.pushes he
    simp [Shared.footprint, h] at hp

/-- The cancel leaves the shared state and every call without a session alone, and ends the
sessions of its cookie. -/
private theorem calls_cancelAbort {s t : State} {n : Nat} {cookie : Str} (hc : Control s)
    (ht : t = { s with cancels := s.cancels.eraseIdx n }.abort cookie) {i : Nat} {c : Call}
    (hi : s.calls i = some c) (hk : c.request.cookie = cookie) :
    ((∀ t, c.stage ≠ .spawned t) ∧ t.calls i = some c) ∨
      (∃ tk, c.stage = .spawned tk) ∧
        ∃ tk, t.calls i = some { c with stage := .spawned tk } ∧ tk.ended = true := by
  subst ht
  cases hg : c.stage with
  | spawned tk =>
    refine Or.inr ⟨⟨tk, rfl⟩, ?_⟩
    by_cases hs : s.sessions cookie = some i
    · refine ⟨{ tk with aborted := true }, ?_, ended_of_aborted rfl⟩
      simp [State.abort, hs, hi, hg, Stage.abort]
    · refine ⟨tk, by simp [State.abort, hs, hi, ← hg], ended_of_aborted ?_⟩
      by_contra hna
      exact hs (hk ▸ hc.stored i c tk hi hg (by simpa using hna))
  | _ =>
    refine Or.inl ⟨by simp, ?_⟩
    have hs : s.sessions cookie ≠ some i := by
      intro hs
      obtain ⟨d, tk, hd, hst, -⟩ := hc.handle cookie i hs
      rw [hi] at hd
      cases hd
      rw [hg] at hst
      cases hst
    simp [State.abort, hs, hi]

/-- A cancel in a reachable state is final exactly when it lands. -/
theorem cancel_final_iff {ownUid : UInt32} {pre : List Label} {s t : State} {n : Nat}
    {cookie : Str} (hs : (system ownUid).Run pre s) (hn : s.cancels[n]? = some cookie)
    (ht : (system ownUid).next s (.cancelAbort n) = some t) :
    CancelFinal ownUid s t cookie ↔ CancelLands ownUid s cookie := by
  have hc := control_run hs
  have hrun : (system ownUid).Run (pre ++ [.cancelAbort n]) t :=
    (system ownUid).exec_concat_eq_some.mpr ⟨s, hs, ht⟩
  have he : t = { s with cancels := s.cancels.eraseIdx n }.abort cookie := by
    have hnext : next ownUid s (.cancelAbort n) = some t := ht
    simpa [next, hn] using hnext.symm
  have hsh : t.shared = s.shared := by rw [he]; rfl
  constructor
  · intro hfinal
    constructor
    · intro i c hi hk
      rcases calls_cancelAbort hc he hi hk with ⟨hns, hti⟩ | ⟨hsp, -⟩
      · refine Or.inr ?_
        by_contra hset
        -- The call can still leave something, against the finality.
        have hmarks : ∃ post u, (system ownUid).exec t post = some u ∧ Marks i t u := by
          cases hg : c.stage with
          | waiting =>
            exact marks_of_waiting ownUid (control_run hrun) hti hg
              (by simpa [Call.settled, hg] using hset)
          | ready inputs =>
            exact marks_of_ready ownUid hti hg (by simpa [Call.settled, hg] using hset)
          | spawned tk => exact absurd hg (hns tk)
          | refused e => simp [Call.settled, hg] at hset
          | returned tk => simp [Call.settled, hg, hc.ended i c tk hi hg] at hset
        obtain ⟨post, u, hu, hm⟩ := hmarks
        exact footprint_ne_of_marks hm (hfinal post u hu i c hi hk)
      · exact Or.inl hsp
    · intro a ha i hpa hk
      by_contra hlive
      obtain ⟨c, hi, hck⟩ := Option.map_eq_some_iff.mp hk
      obtain ⟨post, u, hu, hp, hmem⟩ := exists_taken ownUid (s := t) (a := a)
        (by rw [hsh]; exact ha) (by rw [hsh]; omega)
      have hft := congrArg Footprint.taken (hfinal post u hu i c hi hck)
      have hin : a.serial ∈ (u.shared.footprint i).taken := by
        simp only [Shared.footprint, List.mem_filter, decide_eq_true_eq]
        exact ⟨hmem, by rw [Ledger.pusher, hp, hsh]; exact hpa⟩
      rw [hft] at hin
      -- A queued approval was not returned yet.
      have hout : a.serial ∈ s.shared.ledger.taken := hsh ▸ (List.mem_filter.mp hin).1
      have honce := (List.nodup_append.mp (decided_run hs).sound.once).2.2
      exact honce a.serial (List.mem_map.mpr ⟨a, ha, rfl⟩) a.serial
        (List.mem_append_left _ hout) rfl
  · intro hland post u hu i c hi hk
    refine footprint_of_silent hrun ⟨?_, ?_⟩ hu
    · rcases calls_cancelAbort hc he hi hk with ⟨hns, hti⟩ | ⟨-, tk, hti, hend⟩
      · refine ⟨c, hti, (hland.calls i c hi hk).resolve_left ?_⟩
        rintro ⟨tk, hg⟩
        exact hns tk hg
      · exact ⟨_, hti, hend⟩
    · rw [hsh]
      intro a ha hpa
      exact hland.queue a ha i hpa (by simp [State.cookie, hi, hk])

/-- A cancel that finds the session in front of its dialog, behind the drain. -/
def cancelledDialog : List Label := untilDialog "cookie" ++ [.cancelDrain "cookie".toList]

/-- The state in front of the abort. -/
def cancelledState : State := ((system 1000).exec {} cancelledDialog).getD {}

/-- The state behind the abort. -/
def abortedState : State := ((system 1000).next cancelledState (.cancelAbort 0)).getD {}

/-- That cancel is final. -/
theorem cancelledDialog_final : (system 1000).Run cancelledDialog cancelledState ∧
    CancelFinal 1000 cancelledState abortedState "cookie".toList := by
  have hrun : (system 1000).Run cancelledDialog cancelledState := rfl
  refine ⟨hrun, (cancel_final_iff (n := 0) hrun rfl rfl).mpr ⟨?_, ?_⟩⟩
  · intro i c hi _
    refine Or.inl ?_
    by_cases h0 : i = 0
    · subst h0
      cases hi
      exact ⟨_, rfl⟩
    · have hnone : cancelledState.calls i = none :=
        (control_run hrun).unused i (Nat.one_le_iff_ne_zero.mpr h0)
      rw [hnone] at hi
      cases hi
  · intro a ha
    cases ha

/-- Two calls, the second waiting for the guard behind the open dialog of the first, and the
cancel of the second behind its drain. -/
def cancelledWaiting : List Label :=
  untilDialog "first" ++
    [.beginAuthentication (plainRequest "second"), .cancelDrain "second".toList]

/-- The first dialog is denied and the guard goes on to the cancelled call. -/
def waitingGoesOn : List Label :=
  [.task 0 (.dialog (some ⟨.deny, false⟩)), .finish 0, .acquire 1 plainSurroundings, .spawn 1,
    .task 1 .step]

/-- A session pushes between the drain and the abort of its cancel. -/
def cancelledPush : List Label :=
  untilDialog "cookie" ++
    [.task 0 (.dialog (some ⟨.allow, false⟩)), .cancelDrain "cookie".toList, .task 0 .step]

/-- The cancel of a call that still waits for the guard does not keep its dialog from opening,
and an approval pushed between the two halves of a cancel is returned behind it. -/
theorem cancel_not_final :
    (∃ s t u, (system 1000).Run cancelledWaiting s ∧ s.cancels = ["second".toList] ∧
      (system 1000).next s (.cancelAbort 0) = some t ∧
      (system 1000).exec t waitingGoesOn = some u ∧ s.cookie 1 = some "second".toList ∧
      t.shared.footprint 1 = ⟨[], [], []⟩ ∧ u.shared.footprint 1 = ⟨[], [1], []⟩ ∧
      ¬ CancelFinal 1000 s t "second".toList) ∧
    (∃ s t u, (system 1000).Run cancelledPush s ∧ s.cancels = ["cookie".toList] ∧
      (system 1000).next s (.cancelAbort 0) = some t ∧
      (system 1000).exec t [.takeApproval] = some u ∧ s.cookie 0 = some "cookie".toList ∧
      t.shared.footprint 0 = ⟨[⟨0, 0⟩], [0], []⟩ ∧ u.shared.footprint 0 = ⟨[⟨0, 0⟩], [0], [0]⟩ ∧
      ¬ CancelFinal 1000 s t "cookie".toList) := by
  have hfinal {s t u : State} (post : List Label) (i : Nat) {cookie : Str} {p q : Footprint}
      (hu : (system 1000).exec t post = some u) (hk : s.cookie i = some cookie)
      (hp : t.shared.footprint i = p) (hq : u.shared.footprint i = q) (hne : q ≠ p) :
      ¬ CancelFinal 1000 s t cookie := by
    intro h
    obtain ⟨c, hi, hck⟩ := Option.map_eq_some_iff.mp hk
    exact hne (hq.symm.trans ((h post u hu i c hi hck).trans hp))
  constructor
  · refine ⟨_, _, _, rfl, rfl, rfl, rfl, rfl, rfl, rfl, ?_⟩
    exact hfinal waitingGoesOn 1 rfl rfl rfl rfl (by decide)
  · refine ⟨_, _, _, rfl, rfl, rfl, rfl, rfl, rfl, rfl, ?_⟩
    exact hfinal [.takeApproval] 0 rfl rfl rfl rfl (by decide)

end Sentinel.Agent
