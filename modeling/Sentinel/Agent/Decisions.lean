import Sentinel.Agent.Agent

/-!
# Every bypass is backed by a decision

Seen from the tasks, an agent step spawns a task, moves one, aborts some, or works on the
queue and the clock. Over these changes every push stays matched to a session that was decided
positively, every recorded grant to a ticked dialog, and every reply of `TakeApproval` to its own
push.
-/

namespace Sentinel.Agent

open Sentinel.Base Sentinel.Shared

/-! ### Steps seen from the tasks -/

/-- What a step can do to the tasks and to what they share. -/
inductive Change (tasks : Nat → Option Task) (sh : Shared) :
    (Nat → Option Task) → Shared → Prop where
  | same : Change tasks sh tasks sh
  | spawn {i : Nat} (inputs : AuthInputs) (hn : tasks i = none) :
      Change tasks sh (Function.update tasks i (some (Task.spawn inputs))) sh
  | move {i : Nat} {t t' : Task} {m : Move} {sh' : Shared} (ht : tasks i = some t)
      (hm : t.move sh i m = some (sh', t')) :
      Change tasks sh (Function.update tasks i (some t')) sh'
  | abort {tasks' : Nat → Option Task}
      (ht : ∀ i, tasks' i = tasks i ∨
        tasks' i = (tasks i).map (fun t ↦ { t with aborted := true })) :
      Change tasks sh tasks' sh
  | drain : Change tasks sh tasks sh.drain
  | take : Change tasks sh tasks sh.takeApproval.2
  | tick (d : Nat) : Change tasks sh tasks { sh with now := sh.now + d }

/-- The tasks behind a replaced call. -/
theorem task_setCall (s : State) (i : Nat) (c : Call) :
    (s.setCall i c).task = Function.update s.task i c.stage.task := by
  funext j
  by_cases hj : j = i
  · subst hj
    simp [State.task, State.setCall]
  · simp [State.task, State.setCall, hj]

/-- A call that keeps its task keeps all tasks. -/
private theorem task_setCall_same {s : State} {i : Nat} {c : Call} (h : s.task i = c.stage.task) :
    (s.setCall i c).task = s.task := by
  rw [task_setCall, ← h, Function.update_eq_self]

private theorem task_of_stage {s : State} {i : Nat} {c : Call} {g : Stage}
    (hc : s.calls i = some c) (hg : c.stage = g) : s.task i = g.task := by
  simp [State.task, hc, hg]

/-- Every step is a change. -/
theorem change_of_step {ownUid : UInt32} {s s' : State} {l : Label} (h : Control s)
    (hl : Step ownUid s l s') : Change s.task s.shared s'.task s'.shared := by
  cases hl with
  | beginAuthentication req =>
    have hn : s.task s.nextCall = none := by simp [State.task, h.unused _ (Nat.le_refl _)]
    have he : (s.addCall req).task = s.task := task_setCall_same hn
    rw [he]
    exact .same
  | @acquire i c env inputs hc hg hf hb =>
    have hn : s.task i = none := task_of_stage hc hg
    have he : (s.setCall i { c with stage := .ready inputs }).task = s.task := task_setCall_same hn
    exact he ▸ .same
  | @refuse i c env e hc hg hf =>
    have hn : s.task i = none := task_of_stage hc hg
    have he : (s.setCall i { c with stage := .refused e }).task = s.task := task_setCall_same hn
    exact he ▸ .same
  | @spawn i c inputs hc hg =>
    have he := task_setCall s i { c with stage := .spawned (Task.spawn inputs) }
    exact he ▸ .spawn inputs (task_of_stage hc hg)
  | @task i c t t' m sh hc hg ha hm =>
    have he := task_setCall s i { c with stage := .spawned t' }
    exact he ▸ .move (task_of_stage hc hg) hm
  | @finish i c t hc hg hend =>
    have ht : s.task i = some t := task_of_stage hc hg
    have he : (s.setCall i { c with stage := .returned t }).task = s.task := task_setCall_same ht
    exact he ▸ .same
  | cancelDrain cookie => exact .drain
  | @cancelAbort n cookie hn =>
    refine .abort (fun i ↦ ?_)
    simp only [State.task, State.abort]
    split
    next hs =>
      obtain ⟨c, t, hc, hg, -⟩ := h.handle cookie i hs
      exact Or.inr (by simp [hc, hg, Stage.abort, Stage.task])
    next => exact Or.inl rfl
  | takeApproval => exact .take
  | tick d => exact .tick d

/-! ### Decisions behind pushes and grants -/

/-- A recorded grant for the action and the key command of a request, inside its window at a
time. -/
def Backed (grants : List Grant) (i : AuthInputs) (t : Nat) : Prop :=
  ∃ g ∈ grants, g.actionId = i.actionId ∧ g.command = i.rememberCommand ∧ g.time ≤ t ∧
    t - g.time < min (fromSecs i.rememberSecs.toNat) maxRemember

/-- The session behind a grant offered a window, and its user allowed with the checkbox
ticked. -/
def Opted (tasks : Nat → Option Task) (g : Grant) : Prop :=
  ∃ t, tasks g.call = some t ∧ g.actionId = t.inputs.actionId ∧
    g.command = t.inputs.rememberCommand ∧ 0 < t.inputs.rememberSecs ∧
    t.learned.dialog = some (some ⟨.allow, true⟩)

/-- The invariant of tasks and shared state. -/
structure Decided (tasks : Nat → Option Task) (sh : Shared) : Prop where
  sound : sh.ledger.Sound sh.now
  once : sh.ledger.pushers.Nodup
  pusher : ∀ i ∈ sh.ledger.pushers, ∃ t, tasks i = some t
  place : ∀ i t, tasks i = some t →
    Place t.inputs t.prog t.learned (decide (i ∈ sh.ledger.pushers))
  fresh : ∀ i t, tasks i = some t → t.learned.fresh = true →
    ∃ n, t.checkedAt = some n ∧ Backed sh.grants t.inputs n
  cache : ∀ k n, sh.cache k = some n →
    ∃ g ∈ sh.grants, cacheKey g.actionId g.command = k ∧ g.time = n
  grants : ∀ g ∈ sh.grants, g.time ≤ sh.now ∧ Opted tasks g

section Decided

variable {tasks tasks' : Nat → Option Task} {sh sh' : Shared}

/-- A fresh answer of the cache comes from a recorded grant. -/
private theorem backed_of_isFresh (h : Decided tasks sh) {i : AuthInputs}
    (hf : sh.cache.isFresh i.actionId i.rememberCommand i.rememberSecs sh.now = true) :
    Backed sh.grants i sh.now := by
  obtain ⟨n, hn, hlt⟩ := Window.Table.exists_of_isFresh hf
  obtain ⟨g, hg, hk, rfl⟩ := h.cache _ n hn
  obtain ⟨hpast, t, -, ha, -⟩ := h.grants g hg
  obtain ⟨hka, hkc⟩ := cacheKey_inj (ha ▸ t.inputs.nulFree) i.nulFree hk
  exact ⟨g, hg, hka, hkc, hpast, hlt⟩

private theorem Backed.mono {grants grants' : List Grant} {i : AuthInputs} {n : Nat}
    (h : Backed grants i n) (hsub : grants ⊆ grants') : Backed grants' i n := by
  obtain ⟨g, hg, hrest⟩ := h
  exact ⟨g, hsub hg, hrest⟩

private theorem Opted.move {g : Grant} {i : Nat} {t t' : Task} {b b' : Bool}
    (h : Opted tasks g) (ht : tasks i = some t) (hm : Moved sh i t sh' t' b b') :
    Opted (Function.update tasks i (some t')) g := by
  obtain ⟨u, hu, ha, hc, hs, hv⟩ := h
  by_cases hi : g.call = i
  · rw [hi, ht] at hu
    cases hu
    refine ⟨t', by simp [hi], ?_⟩
    rw [hm.inputs]
    exact ⟨ha, hc, hs, hm.answered hv⟩
  · exact ⟨u, by simp [hi, hu], ha, hc, hs, hv⟩

/-- A move changes the cache and the grants together, for its own key, after a ticked dialog. -/
private theorem Moved.grants_cases {i : Nat} {t t' : Task} {b b' : Bool}
    (hm : Moved sh i t sh' t' b b') :
    (sh'.cache = sh.cache ∧ sh'.grants = sh.grants) ∨
    (t.learned.dialog = some (some ⟨.allow, true⟩) ∧ 0 < t.inputs.rememberSecs ∧
      sh' = sh.remember i t.inputs.actionId t.inputs.rememberCommand ∧ t'.learned = t.learned) := by
  cases hm with
  | remember ht hs => exact Or.inr ⟨by rw [ht], hs, rfl, rfl⟩
  | _ => exact Or.inl ⟨rfl, rfl⟩

private theorem grants_subset {i : Nat} {t t' : Task} {b b' : Bool}
    (hm : Moved sh i t sh' t' b b') : sh.grants ⊆ sh'.grants := by
  rcases hm.grants_cases with ⟨-, hg⟩ | ⟨-, -, rfl, -⟩
  · rw [hg]
    exact List.Subset.refl _
  · exact List.subset_append_left _ _

/-- What a task has from the cache after a move: as before, or the answer of this move. -/
private theorem fresh_move (h : Decided tasks sh) {i : Nat} {t t' : Task} {b b' : Bool}
    (ht : tasks i = some t) (hm : Moved sh i t sh' t' b b') (hf : t'.learned.fresh = true) :
    ∃ n, t'.checkedAt = some n ∧ Backed sh'.grants t'.inputs n := by
  have hkeep (hl : t.learned.fresh = true) (hc : t'.checkedAt = t.checkedAt) :
      ∃ n, t'.checkedAt = some n ∧ Backed sh'.grants t'.inputs n := by
    obtain ⟨n, hn, hb⟩ := h.fresh i t ht hl
    exact ⟨n, hc.trans hn, hm.inputs ▸ hb.mono (grants_subset hm)⟩
  cases hm with
  | check hl fresh hfresh =>
    simp only at hf
    rw [hf] at hfresh
    exact ⟨sh.now, rfl, backed_of_isFresh h hfresh.symm⟩
  | dialog hl v => cases hf
  | _ => exact hkeep hf rfl

/-- A move keeps the invariant. -/
private theorem decided_move (h : Decided tasks sh) {i : Nat} {t t' : Task} {m : Move}
    (ht : tasks i = some t) (hmove : t.move sh i m = some (sh', t')) :
    Decided (Function.update tasks i (some t')) sh' := by
  obtain ⟨b', hm, hp⟩ := moved_of_move (h.place i t ht) hmove
  have hpush := hm.pushers
  constructor
  case sound => exact hm.sound h.sound
  case once =>
    rw [hpush]
    split
    next hb =>
      simp only [Bool.and_eq_true, Bool.not_eq_true', decide_eq_false_iff_not] at hb
      exact List.nodup_append.mpr ⟨h.once, by simp, by
        rintro j hj _ hi rfl
        exact hb.2 (List.mem_singleton.mp hi ▸ hj)⟩
    next => simpa using h.once
  case pusher =>
    intro j hj
    by_cases hji : j = i
    · exact ⟨t', by simp [hji]⟩
    · have hj' : j ∈ sh.ledger.pushers := by
        rw [hpush, List.mem_append] at hj
        refine hj.resolve_right (fun hmem ↦ hji ?_)
        split at hmem
        · exact List.mem_singleton.mp hmem
        · cases hmem
      obtain ⟨u, hu⟩ := h.pusher j hj'
      exact ⟨u, by simp [hji, hu]⟩
  case place =>
    intro j u hu
    by_cases hji : j = i
    · subst hji
      simp only [Function.update_self, Option.some.injEq] at hu
      subst hu
      have hb : decide (j ∈ sh'.ledger.pushers) = b' := by
        rw [hpush]
        have hle := hm.le
        by_cases hmem : j ∈ sh.ledger.pushers <;> cases b' <;> simp_all
      rw [hb]
      exact hp
    · simp only [ne_eq, hji, not_false_eq_true, Function.update_of_ne] at hu
      have hb : decide (j ∈ sh'.ledger.pushers) = decide (j ∈ sh.ledger.pushers) := by
        rw [hpush]
        split <;> simp [hji]
      rw [hb]
      exact h.place j u hu
  case fresh =>
    intro j u hu hf
    by_cases hji : j = i
    · subst hji
      simp only [Function.update_self, Option.some.injEq] at hu
      subst hu
      exact fresh_move h ht hm hf
    · simp only [ne_eq, hji, not_false_eq_true, Function.update_of_ne] at hu
      obtain ⟨n, hn, hb⟩ := h.fresh j u hu hf
      exact ⟨n, hn, hb.mono (grants_subset hm)⟩
  case cache =>
    intro k n hk
    rcases hm.grants_cases with ⟨hc, hg⟩ | ⟨-, -, rfl, -⟩
    · rw [hc] at hk
      rw [hg]
      exact h.cache k n hk
    · rcases Window.Table.record_cases hk with ⟨rfl, rfl⟩ | hk
      · exact ⟨⟨i, t.inputs.actionId, t.inputs.rememberCommand, sh.now⟩, by simp [Shared.remember],
          rfl, rfl⟩
      · obtain ⟨g, hg, hrest⟩ := h.cache k n hk
        exact ⟨g, List.mem_append_left _ hg, hrest⟩
  case grants =>
    intro g hg
    rw [hm.now]
    rcases hm.grants_cases with ⟨-, he⟩ | ⟨hv, hs, rfl, hl⟩
    · rw [he] at hg
      exact ⟨(h.grants g hg).1, (h.grants g hg).2.move ht hm⟩
    · rcases List.mem_append.mp hg with hg | hg
      · exact ⟨(h.grants g hg).1, (h.grants g hg).2.move ht hm⟩
      · rw [List.mem_singleton.mp hg]
        refine ⟨Nat.le_refl _, t', by simp, ?_⟩
        rw [hm.inputs, hl]
        exact ⟨rfl, rfl, hs, hv⟩

/-- Tasks that differ only in their abort flags keep the invariant. -/
private theorem decided_abort (h : Decided tasks sh)
    (ht : ∀ i, tasks' i = tasks i ∨
      tasks' i = (tasks i).map (fun t ↦ { t with aborted := true })) : Decided tasks' sh := by
  have hback (i : Nat) (t' : Task) (hi : tasks' i = some t') :
      ∃ t, tasks i = some t ∧ t'.inputs = t.inputs ∧ t'.prog = t.prog ∧
        t'.learned = t.learned ∧ t'.checkedAt = t.checkedAt := by
    rcases ht i with he | he
    · exact ⟨t', he ▸ hi, rfl, rfl, rfl, rfl⟩
    · rw [he] at hi
      obtain ⟨t, hti, rfl⟩ := Option.map_eq_some_iff.mp hi
      exact ⟨t, hti, rfl, rfl, rfl, rfl⟩
  have hforth (i : Nat) (t : Task) (hi : tasks i = some t) :
      ∃ t', tasks' i = some t' ∧ t'.inputs = t.inputs ∧ t'.learned = t.learned := by
    rcases ht i with he | he
    · exact ⟨t, he.trans hi, rfl, rfl⟩
    · exact ⟨{ t with aborted := true }, by rw [he, hi]; rfl, rfl, rfl⟩
  constructor
  case sound => exact h.sound
  case once => exact h.once
  case pusher =>
    intro i hi
    obtain ⟨t, hti⟩ := h.pusher i hi
    obtain ⟨t', ht', -⟩ := hforth i t hti
    exact ⟨t', ht'⟩
  case place =>
    intro i t' hi
    obtain ⟨t, hti, hin, hprog, hl, -⟩ := hback i t' hi
    rw [hin, hprog, hl]
    exact h.place i t hti
  case fresh =>
    intro i t' hi hf
    obtain ⟨t, hti, hin, -, hl, hc⟩ := hback i t' hi
    rw [hin, hc]
    exact h.fresh i t hti (hl ▸ hf)
  case cache => exact h.cache
  case grants =>
    intro g hg
    obtain ⟨hpast, t, hti, ha, hc, hs, hv⟩ := h.grants g hg
    obtain ⟨t', ht', hin, hl⟩ := hforth g.call t hti
    refine ⟨hpast, t', ht', ?_⟩
    rw [hin, hl]
    exact ⟨ha, hc, hs, hv⟩

/-- A new task keeps the invariant: its call has not pushed. -/
private theorem decided_spawn (h : Decided tasks sh) {i : Nat} (inputs : AuthInputs)
    (hn : tasks i = none) : Decided (Function.update tasks i (some (Task.spawn inputs))) sh := by
  have hold (j : Nat) (t : Task) (hj : tasks j = some t) :
      Function.update tasks i (some (Task.spawn inputs)) j = some t := by
    have hji : j ≠ i := by
      rintro rfl
      rw [hn] at hj
      cases hj
    simp [hji, hj]
  constructor
  case sound => exact h.sound
  case once => exact h.once
  case pusher =>
    intro j hj
    obtain ⟨t, ht⟩ := h.pusher j hj
    exact ⟨t, hold j t ht⟩
  case place =>
    intro j t hj
    by_cases hji : j = i
    · subst hji
      simp only [Function.update_self, Option.some.injEq] at hj
      subst hj
      have hno : j ∉ sh.ledger.pushers := by
        intro hmem
        obtain ⟨t, ht⟩ := h.pusher j hmem
        rw [hn] at ht
        cases ht
      rw [decide_eq_false hno]
      exact place_run inputs
    · simp only [ne_eq, hji, not_false_eq_true, Function.update_of_ne] at hj
      exact h.place j t hj
  case fresh =>
    intro j t hj hf
    by_cases hji : j = i
    · subst hji
      simp only [Function.update_self, Option.some.injEq] at hj
      subst hj
      cases hf
    · simp only [ne_eq, hji, not_false_eq_true, Function.update_of_ne] at hj
      exact h.fresh j t hj hf
  case cache => exact h.cache
  case grants =>
    intro g hg
    obtain ⟨hpast, t, ht, hrest⟩ := h.grants g hg
    exact ⟨hpast, t, hold g.call t ht, hrest⟩

/-- A step on the queue or the clock keeps the invariant when the history stays sound. -/
private theorem decided_shared (h : Decided tasks sh) (hs : sh'.ledger.Sound sh'.now)
    (hp : sh'.ledger.pushes = sh.ledger.pushes) (hn : sh.now ≤ sh'.now)
    (hc : sh'.cache = sh.cache) (hg : sh'.grants = sh.grants) : Decided tasks sh' := by
  have hpush : sh'.ledger.pushers = sh.ledger.pushers := by rw [Ledger.pushers, hp, Ledger.pushers]
  constructor
  case sound => exact hs
  case once => rw [hpush]; exact h.once
  case pusher => rw [hpush]; exact h.pusher
  case place => rw [hpush]; exact h.place
  case fresh => rw [hg]; exact h.fresh
  case cache => rw [hc, hg]; exact h.cache
  case grants =>
    rw [hg]
    exact fun g hmem ↦ ⟨(h.grants g hmem).1.trans hn, (h.grants g hmem).2⟩

/-- A take pushes nothing. -/
theorem pushes_takeApproval (l : Ledger) (now : Nat) :
    (l.takeApproval now).2.pushes = l.pushes := by
  rcases Ledger.takeApproval_cases l now with ⟨-, he⟩ | ⟨_, _, _, -, -, -, he⟩ <;> rw [he]

/-- One change keeps the invariant. -/
theorem decided_change (h : Decided tasks sh) (hc : Change tasks sh tasks' sh') :
    Decided tasks' sh' := by
  cases hc with
  | same => exact h
  | spawn inputs hn => exact decided_spawn h inputs hn
  | move ht hm => exact decided_move h ht hm
  | abort ht => exact decided_abort h ht
  | drain => exact decided_shared h h.sound.drain rfl (Nat.le_refl _) rfl rfl
  | take =>
    exact decided_shared h h.sound.takeApproval (pushes_takeApproval _ _) (Nat.le_refl _) rfl rfl
  | tick d =>
    exact decided_shared h (h.sound.later (Nat.le_add_right _ _)) rfl (Nat.le_add_right _ _) rfl rfl

end Decided

/-- A step only adds to the pushes, and only `TakeApproval` adds to the takes. -/
theorem ledger_step {ownUid : UInt32} {s s' : State} {l : Label}
    (hd : Decided s.task s.shared) (hl : Step ownUid s l s') :
    s.shared.ledger.pushes <+: s'.shared.ledger.pushes ∧
      (l ≠ .takeApproval → s'.shared.ledger.takes = s.shared.ledger.takes) := by
  cases hl with
  | @task i c t t' m sh hc hg ha hm =>
    obtain ⟨b', hmoved, -⟩ := moved_of_move (hd.place i t (task_of_stage hc hg)) hm
    exact ⟨hmoved.pushes, fun _ ↦ hmoved.takes⟩
  | takeApproval =>
    refine ⟨?_, fun h ↦ absurd rfl h⟩
    have he : s.shared.takeApproval.2.ledger.pushes = s.shared.ledger.pushes :=
      pushes_takeApproval _ _
    simp only [he]
    exact List.prefix_refl _
  | _ => exact ⟨List.prefix_refl _, fun _ ↦ rfl⟩

/-- The invariant holds in every reachable state. -/
theorem decided_run {ownUid : UInt32} {ls : List Label} {s : State}
    (h : (system ownUid).Run ls s) : Decided s.task s.shared := by
  have hboth : Control s ∧ Decided s.task s.shared := by
    refine (system ownUid).invariant (fun s ↦ Control s ∧ Decided s.task s.shared)
      ⟨control_init ownUid, ?_⟩ ?_ h
    · constructor
      case sound => exact Ledger.sound_empty _
      all_goals simp [system, State.task, Ledger.pushers, RememberCache.new, Window.Table.empty]
    · rintro s l s' ⟨hc, hd⟩ hn
      have hl := step_of_next hn
      exact ⟨control_step hc hl, decided_change hd (change_of_step hc hl)⟩
  exact hboth.2

/-- The request of a session was decided positively: by policy, by a grant inside a positive
window at the time the cache was asked, or by an allowing dialog. -/
def DecidedPositively (s : State) (t : Task) : Prop :=
  t.inputs.decision = .allow ∨
    (t.inputs.decision = .ask ∧ 0 < t.inputs.rememberSecs ∧
      ∃ n, t.checkedAt = some n ∧ Backed s.shared.grants t.inputs n) ∨
    (t.inputs.decision = .ask ∧ ∃ v, t.learned.dialog = some (some v) ∧ v.outcome = .allow)

/-- The request of a session was decided negatively: by policy, or by a dialog that ended in
Deny, Timeout or an error. -/
def DecidedNegatively (t : Task) : Prop :=
  t.inputs.decision = .deny ∨ t.learned.dialog = some none ∨
    ∃ v, t.learned.dialog = some (some v) ∧ v.outcome ≠ .allow

private theorem Positive.not_negative {t : Task} (h : Positive t.inputs t.learned) :
    ¬ DecidedNegatively t := by
  rcases h with ⟨h, hn⟩ | ⟨h, -, -, hn⟩ | ⟨h, -, v, hn, hv⟩ <;>
    simp [DecidedNegatively, h, hn]
  exact hv

private theorem Decided.positive {s : State} {i : Nat} {t : Task}
    (h : Decided s.task s.shared) (ht : s.task i = some t) (hp : Positive t.inputs t.learned) :
    DecidedPositively s t := by
  rcases hp with ⟨hd, -⟩ | ⟨hd, hs, hf, -⟩ | ⟨hd, -, hv⟩
  · exact Or.inl hd
  · exact Or.inr (Or.inl ⟨hd, hs, h.fresh i t ht hf⟩)
  · exact Or.inr (Or.inr ⟨hd, hv⟩)

/-- In every reachable state: a take logs the reply it gives, and the true replies are matched to
distinct pushes, made less than a second before and not drained; every push was made by a session
whose request was decided positively, at most one by each; and a session decided negatively has not
pushed. -/
theorem bypass_backed {ownUid : UInt32} {ls : List Label} {s : State}
    (h : (system ownUid).Run ls s) :
    (∀ s', next ownUid s .takeApproval = some s' → ∃ serial, s'.shared.ledger.takes =
      s.shared.ledger.takes ++ [⟨s.shared.now, s.shared.takeApproval.1, serial⟩]) ∧
      (s.shared.ledger.allowed.map Take.serial).Nodup ∧
      (∀ x ∈ s.shared.ledger.allowed, ∃ n, x.serial = some n ∧ n ∉ s.shared.ledger.drained ∧
        ∃ p, s.shared.ledger.pushes[n]? = some p ∧ p.time ≤ x.time ∧
          x.time - p.time < fromSecs 1) ∧
      (∀ p ∈ s.shared.ledger.pushes,
        ∃ t, s.task p.call = some t ∧ DecidedPositively s t) ∧
      s.shared.ledger.pushers.Nodup ∧
      (∀ i t, s.task i = some t → DecidedNegatively t → i ∉ s.shared.ledger.pushers) := by
  have hi := decided_run h
  have hpush (i : Nat) (t : Task) (ht : s.task i = some t) (hm : i ∈ s.shared.ledger.pushers) :
      Positive t.inputs t.learned := by
    have hp := hi.place i t ht
    rw [decide_eq_true hm] at hp
    exact hp.positive
  have honce := (List.nodup_append.mp hi.sound.once).2.1
  refine ⟨?_, ?_, ?_, ?_, hi.once, ?_⟩
  · rintro s' ⟨⟩
    exact Ledger.takes_takeApproval _ _
  · rw [hi.sound.serials_allowed]
    exact (List.nodup_append.mp honce).1.map (Option.some_injective Nat)
  · intro x hx
    obtain ⟨hx, hreply⟩ := List.mem_filter.mp hx
    rw [hi.sound.backed x hx] at hreply
    obtain ⟨n, hn⟩ := Option.isSome_iff_exists.mp hreply
    obtain ⟨p, hp, hle, hlt⟩ := hi.sound.intime x hx n hn
    refine ⟨n, hn, ?_, p, hp, hle, by unfold defaultTtl at hlt; omega⟩
    have hmem : n ∈ s.shared.ledger.taken := List.mem_filterMap.mpr ⟨x, hx, hn⟩
    exact fun hd ↦ (List.nodup_append.mp honce).2.2 n hmem n hd rfl
  · intro p hp
    have hm : p.call ∈ s.shared.ledger.pushers := List.mem_map.mpr ⟨p, hp, rfl⟩
    obtain ⟨t, ht⟩ := hi.pusher p.call hm
    exact ⟨t, ht, hi.positive ht (hpush p.call t ht hm)⟩
  · intro i t ht hn hm
    exact (hpush i t ht hm).not_negative hn

/-- A dialog is allowed and the approval taken five milliseconds later. -/
def allowedOnce : List Label := untilPush "cookie" ++ [.tick 5000000, .takeApproval]

/-- The state behind it. -/
def allowedState : State := ((system 1000).exec {} allowedOnce).getD {}

/-- The reply is true, and backed by the dialog. -/
theorem allowedOnce_backed :
    (system 1000).Run allowedOnce allowedState ∧
      allowedState.shared.ledger.allowed = [⟨5000000, true, some 0⟩] ∧
      allowedState.shared.ledger.pushes = [⟨0, 0⟩] ∧
      ∃ t, allowedState.task 0 = some t ∧ DecidedPositively allowedState t := by
  have hrun : (system 1000).Run allowedOnce allowedState := rfl
  obtain ⟨-, -, -, hp, -, -⟩ := bypass_backed hrun
  exact ⟨hrun, rfl, rfl, hp ⟨0, 0⟩ (List.mem_singleton.mpr rfl)⟩

end Sentinel.Agent
