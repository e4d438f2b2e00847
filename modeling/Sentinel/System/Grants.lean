import Sentinel.Agent.Decisions
import Sentinel.Broker.Store
import Sentinel.Pam.Environment

/-!
# What the grant stores hold

The broker's store is fed by any number of `sm_authenticate` runs: each goes from call to call
with whatever answers, and the frames it sends are handled at any time, in any order and any
number of times. The agent's cache is fed by the sessions of the agent. Every run reads its own
configuration, so the remember scope may change from run to run. In both stores every key has a
command that may be remembered.
-/

namespace Sentinel.System.Grants

open Sentinel.Base Sentinel.Shared Sentinel.Broker Sentinel.Pam

/-! ### The broker and its runs -/

/-- The broker: its clock and store, the runs and the frames they sent. -/
structure State where
  now : Nat := 0
  runs : Nat → Option (Run PamReturn) := fun _ ↦ none
  frames : List Bytes := []
  store : RememberStore := RememberStore.new

/-- The steps, with every choice of the environment: a run starts in a slot, sends the request it
waits for, or is answered; the broker handles a frame; time passes. -/
inductive Label where
  | start (i : Nat) (w : World)
  | send (i : Nat)
  | answer (i : Nat) (answers : (c : Call) → Answer c)
  | handle (n : Nat) (peer : Option UInt32)
  | tick (d : Nat)

/-- One step. -/
def next (wire : Wire) (s : State) : Label → Option State
  | .start i w => some { s with runs := Function.update s.runs i (some (smAuthenticate w)) }
  | .send i =>
    match s.runs i with
    | some (.call (.roundtrip _ req) _) =>
      (writeFrame wire.request req).toOption.map (fun frame ↦
        { s with frames := s.frames ++ [frame] })
    | _ => none
  | .answer i answers =>
    match s.runs i with
    | some (.call c k) => some { s with runs := Function.update s.runs i (some (k (answers c))) }
    | _ => none
  | .handle n peer =>
    s.frames[n]?.map (fun frame ↦
      { s with store := (Broker.handle wire peer frame s.store s.now).2 })
  | .tick d => some { s with now := s.now + d }

/-- The broker as a transition system. -/
def system (wire : Wire) : Transition State Label := ⟨{}, next wire⟩

/-- A key a run may record: the service is a C string and the command may be remembered. -/
structure Recordable (key : RememberKey) : Prop where
  service : '\x00' ∉ key.service
  command : Rememberable key.command

/-- A request that records nothing but recordable keys. -/
def Sendable : Request → Prop
  | .recordRemember key => Recordable key
  | _ => True

/-- A call that records nothing but recordable keys. -/
def Sound : Call → Prop
  | .roundtrip _ req => Sendable req
  | _ => True

/-- The key of a prompt is recordable. -/
theorem recordable_of_prompt {w : World} {p : Prompt} {key : RememberKey}
    (hp : decideEarly w = .inr p) (hk : p.key = some key) : Recordable key := by
  obtain ⟨-, -, command, hc, hkey⟩ := decideEarly_key hp hk
  constructor
  case service => exact nul_not_mem_service hp hk
  case command =>
    rw [hkey]
    exact rememberable_keyCommand (eligible_of_rememberCommand hc) p.cfg.rememberScope

/-- The dialog stage calls the helper and then records at most the key of its prompt. -/
theorem everyCall_dialogStage {w : World} {p : Prompt} (hp : decideEarly w = .inr p) :
    (dialogStage p).EveryCall Sound := by
  rw [dialogStage_eq]
  refine ⟨trivial, fun v ↦ ?_⟩
  unfold recordStage
  cases hk : p.key with
  | none => trivial
  | some key =>
    simp only
    split
    · exact ⟨recordable_of_prompt hp hk, fun _ ↦ trivial⟩
    · trivial

/-- Behind the bypass every call is sound. -/
theorem everyCall_afterBypass (w : World) : (afterBypass w).EveryCall Sound := by
  unfold afterBypass
  cases hp : decideEarly w with
  | inl ret => trivial
  | inr p =>
    by_cases hs : 0 < p.cfg.rememberSeconds
    · cases hk : p.key with
      | none =>
        simp only [rememberStage_skip (Or.inl hk)]
        exact everyCall_dialogStage hp
      | some key =>
        simp only [rememberStage_check hk hs]
        refine ⟨trivial, fun resp ↦ ?_⟩
        unfold checkedStage
        split
        · trivial
        · exact everyCall_dialogStage hp
    · simp only [rememberStage_skip (Or.inr hs)]
      exact everyCall_dialogStage hp

/-- Every call of a run is sound, whatever the answers. -/
theorem everyCall_smAuthenticate (w : World) : (smAuthenticate w).EveryCall Sound := by
  rw [smAuthenticate_eq]
  split
  · exact everyCall_afterBypass w
  · refine ⟨trivial, fun approved ↦ ?_⟩
    unfold queriedStage
    split
    · trivial
    · exact everyCall_afterBypass w

/-- The invariant: what the runs still do, what was sent and what is stored is sound. -/
structure Inv (wire : Wire) (s : State) : Prop where
  runs : ∀ i p, s.runs i = some p → p.EveryCall Sound
  frames : ∀ frame ∈ s.frames, ∃ req, writeFrame wire.request req = .ok frame ∧ Sendable req
  store : ∀ k t, s.store k = some t → ∃ key, keystr key = k ∧ Recordable key

section Steps

variable {wire : Wire} {s s' : State}

private theorem inv_setRun {i : Nat} {p : Run PamReturn} (hi : Inv wire s)
    (hp : p.EveryCall Sound) :
    Inv wire { s with runs := Function.update s.runs i (some p) } := by
  refine { hi with runs := fun j q hq ↦ ?_ }
  obtain ⟨-, rfl⟩ | ⟨-, hq⟩ := slot_update_cases hq
  · exact hp
  · exact hi.runs j q hq

private theorem inv_send {i : Nat} (hi : Inv wire s) (hn : next wire s (.send i) = some s') :
    Inv wire s' := by
  simp only [next] at hn
  split at hn
  next sock req k hr =>
    cases hw : writeFrame wire.request req with
    | error e =>
      rw [hw] at hn
      cases hn
    | ok frame =>
      rw [hw] at hn
      cases hn
      refine { hi with frames := fun f hf ↦ ?_ }
      obtain hf | hf := List.mem_append.mp hf
      · exact hi.frames f hf
      · rw [List.mem_singleton.mp hf]
        exact ⟨req, hw, (hi.runs i _ hr).1⟩
  next => cases hn

private theorem inv_answer {i : Nat} {answers : (c : Call) → Answer c} (hi : Inv wire s)
    (hn : next wire s (.answer i answers) = some s') : Inv wire s' := by
  simp only [next] at hn
  split at hn
  next c k hr =>
    cases hn
    exact inv_setRun hi ((hi.runs i _ hr).2 (answers c))
  next => cases hn

/-- The broker handles a frame: what it stores was sent by a run. -/
private theorem inv_handle {n : Nat} {peer : Option UInt32} (hi : Inv wire s)
    (hn : next wire s (.handle n peer) = some s') : Inv wire s' := by
  obtain ⟨frame, hf, rfl⟩ := Option.map_eq_some_iff.mp hn
  obtain ⟨req, hw, hreq⟩ := hi.frames frame (List.mem_of_getElem? hf)
  refine { hi with store := fun k t hk ↦ ?_ }
  simp only [Broker.handle, acceptRequest_writeFrame hw] at hk
  by_cases hpeer : peer = some 0
  · rw [if_pos hpeer] at hk
    obtain hold | ⟨key, rfl, -, hkey, -⟩ := dispatch_store hk
    · exact hi.store k t hold
    · exact ⟨key, hkey, hreq⟩
  · rw [if_neg hpeer] at hk
    exact hi.store k t hk

end Steps

/-- The invariant holds in every reachable state. -/
theorem inv_run {wire : Wire} {ls : List Label} {s : State} (h : (system wire).Run ls s) :
    Inv wire s := by
  refine (system wire).invariant (Inv wire) ?_ ?_ h
  · constructor
    case runs => intro i p hp; cases hp
    case frames => intro frame hf; cases hf
    case store => intro k t hk; cases hk
  · intro s l s' hi hn
    cases l with
    | start i w =>
      cases hn
      exact inv_setRun hi (everyCall_smAuthenticate w)
    | send i => exact inv_send hi hn
    | answer i answers => exact inv_answer hi hn
    | handle n peer => exact inv_handle hi hn
    | tick d =>
      cases hn
      exact { hi with }

/-! ### Both stores -/

/-- The key of a grant of the agent may be remembered: its session offered a window. -/
theorem rememberable_of_opted {tasks : Nat → Option Agent.Task} {g : Agent.Grant}
    (h : Agent.Opted tasks g) : '\x00' ∉ g.actionId ∧ Rememberable g.command := by
  obtain ⟨t, -, ha, hc, hs, -⟩ := h
  have helig : rememberEligibleCommand (t.inputs.processCmdline.getD []) = true := by
    by_contra hno
    rw [Agent.AuthInputs.rememberSecs, if_neg hno] at hs
    exact absurd hs (by decide)
  constructor
  · rw [ha]
    exact t.inputs.nulFree
  · rw [hc]
    exact rememberable_keyCommand helig t.inputs.cfg.rememberScope

/-- In every reachable state of the broker and of the agent, whatever the runs and the scopes
they read, every stored key has a command that may be remembered: it is not empty, has no
whitespace at its ends, and its program is no gateway. -/
theorem stores_rememberable :
    (∀ (wire : Wire) (ls : List Label) (s : State), (system wire).Run ls s →
      ∀ k t, s.store k = some t →
        ∃ key : RememberKey, keystr key = k ∧ '\x00' ∉ key.service ∧ Rememberable key.command) ∧
    ∀ (ownUid : UInt32) (ls : List Agent.Label) (s : Agent.State),
      (Agent.system ownUid).Run ls s → ∀ k t, s.shared.cache k = some t →
        ∃ key : Agent.ActionKey, key.str = k ∧ Rememberable key.command := by
  constructor
  · intro wire ls s h k t hk
    obtain ⟨key, hkey, hrec⟩ := (inv_run h).store k t hk
    exact ⟨key, hkey, hrec.service, hrec.command⟩
  · intro ownUid ls s h k t hk
    obtain ⟨g, hg, hkey, -⟩ := (Agent.decided_run h).cache k t hk
    obtain ⟨hnul, hcmd⟩ := rememberable_of_opted ((Agent.decided_run h).grants g hg).2
    exact ⟨⟨g.actionId, g.command, hnul⟩, hkey, hcmd⟩

/-- `sudo id` with the checkbox ticked, recorded by the broker. -/
def tickedTerminal : List Label :=
  [.start 0 (promptWorld fun _ ↦ none),
    .answer 0 (fun
      | .queryAgent _ => none
      | .roundtrip _ _ => none
      | .runHelper _ => none),
    .answer 0 (fun
      | .queryAgent _ => none
      | .roundtrip _ _ => none
      | .runHelper _ => some ⟨.allow, true⟩),
    .send 0, .handle 0 (some 0)]

/-- The broker behind it. -/
def tickedBroker : State := ((system Postcard.wire).exec {} tickedTerminal).getD {}

/-- `pkexec id -u` with the checkbox ticked, under the program scope. -/
def tickedPolkit : List Agent.Label :=
  [.beginAuthentication
      { Agent.plainRequest "cookie" with
        details := fun name ↦
          if name = "command_line".toList then some "/usr/bin/id -u".toList else none },
    .acquire 0
      { Agent.plainSurroundings with document := { general := { rememberScope := .program } } },
    .spawn 0, .task 0 .step, .task 0 .step, .task 0 (.dialog (some ⟨.allow, true⟩)),
    .task 0 .step]

/-- The agent behind it. -/
def tickedAgent : Agent.State := ((Agent.system 1000).exec {} tickedPolkit).getD {}

/-- Both stores hold a grant, of `id` and of `/usr/bin/id`. -/
theorem ticked_rememberable :
    ((system Postcard.wire).Run tickedTerminal tickedBroker ∧
      tickedBroker.store (keystr promptKey) = some 0 ∧
      ∃ key : RememberKey, keystr key = keystr promptKey ∧ '\x00' ∉ key.service ∧
        Rememberable key.command) ∧
    (Agent.system 1000).Run tickedPolkit tickedAgent ∧
      ∃ k, k = Agent.cacheKey "org.freedesktop.policykit.exec".toList "/usr/bin/id".toList ∧
        tickedAgent.shared.cache k = some 0 ∧
        ∃ key : Agent.ActionKey, key.str = k ∧ Rememberable key.command := by
  have hb : (system Postcard.wire).Run tickedTerminal tickedBroker := rfl
  have ha : (Agent.system 1000).Run tickedPolkit tickedAgent := rfl
  have hstore : tickedBroker.store (keystr promptKey) = some 0 := by decide
  have hcache : tickedAgent.shared.cache
      (Agent.cacheKey "org.freedesktop.policykit.exec".toList "/usr/bin/id".toList) =
        some 0 := by decide
  exact ⟨⟨hb, hstore, stores_rememberable.1 _ _ _ hb _ _ hstore⟩, ha, _, rfl, hcache,
    stores_rememberable.2 _ _ _ ha _ _ hcache⟩

end Sentinel.System.Grants
