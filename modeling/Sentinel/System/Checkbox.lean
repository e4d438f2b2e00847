import Sentinel.Broker.Postcard
import Sentinel.Broker.Store
import Sentinel.Broker.Stream
import Sentinel.Pam.Environment

/-!
# A ticked checkbox and the next request

A run against a broker that can be reached: every round trip is one frame to it and one back, at
a time of the broker's clock. The checkbox is offered whenever the request has a key, but a tick
is recorded, and found again by the next identical request, only over frames that can be sent.
-/

namespace Sentinel.System.Checkbox

open Sentinel.Base Sentinel.Shared Sentinel.Broker Sentinel.Pam

/-! ### Round trips to the broker -/

/-- `roundtrip_at`, `broker_client.rs:37-43`, with the broker at the other end and a root peer on
this one: the answer and the store behind it. -/
def brokered (wire : Wire) (req : Request) (now : Nat) (store : RememberStore) :
    Option Response × RememberStore :=
  match writeFrame wire.request req with
  | .error _ => (none, store)
  | .ok frame =>
    let (reply, store) := handle wire (some 0) frame store now
    (reply.bind (fun bytes ↦ (readFrame wire.response bytes).1.toOption), store)

/-- Every answer of the broker can be sent. -/
theorem dispatch_fits (wire : Wire) (req : Request) (store : RememberStore) (now : Nat) :
    ∃ frame, writeFrame wire.response (dispatch req store now).1 = .ok frame := by
  apply writeFrame_ok wire.response_documented
  have hsmall : (dispatch req store now).1.textBytes ≤ 14 := by
    cases req with
    | ping => simp [dispatch, Response.textBytes]
    | checkRemember q => simp [dispatch, Response.textBytes]
    | recordRemember key =>
      rw [dispatch]
      cases key.bind with
      | some b => simp [Response.textBytes]
      | none =>
        change (toUtf8 "unbindable key".toList).length ≤ 14
        decide
  unfold maxFrameLen
  omega

/-- A request that fits is dispatched and answered. -/
theorem brokered_fits {wire : Wire} {req : Request} (h : Fits wire.request req) (now : Nat)
    (store : RememberStore) :
    brokered wire req now store =
      (some (dispatch req store now).1, (dispatch req store now).2) := by
  obtain ⟨frame, hf⟩ := h.writeFrame
  obtain ⟨reply, hr⟩ := dispatch_fits wire req store now
  have hread := readFrame_writeFrame
    (wire.response_documented.inverts (dispatch req store now).1) hr []
  rw [List.append_nil] at hread
  simp [brokered, hf, handle, acceptRequest_writeFrame hf, hr, hread, Except.toOption]

/-- A request that does not fit is lost. -/
theorem brokered_not_fits {wire : Wire} {req : Request} (h : ¬ Fits wire.request req) (now : Nat)
    (store : RememberStore) : brokered wire req now store = (none, store) := by
  obtain ⟨e, he⟩ := writeFrame_error h
  simp [brokered, he]

/-- A check leaves the store alone. -/
theorem brokered_check_store (wire : Wire) (q : RememberQuery) (now : Nat)
    (store : RememberStore) : (brokered wire (.checkRemember q) now store).2 = store := by
  by_cases hf : Fits wire.request (.checkRemember q)
  · rw [brokered_fits hf]
    rfl
  · rw [brokered_not_fits hf]

/-! ### Runs at the broker -/

/-- What one run meets: its agent, its dialog and the broker's clock at its check and its
record. -/
structure Visit where
  agent : UInt32 → Option Bool
  dialog : HelperRequest → Option Verdict
  checkAt : Nat
  recordAt : Nat

/-- The broker's store and the dialogs that were opened. -/
structure Desk where
  store : RememberStore
  dialogs : List HelperRequest := []

/-- The broker's clock at a request of a run. -/
def Visit.time (v : Visit) : Request → Nat
  | .recordRemember _ => v.recordAt
  | _ => v.checkAt

/-- The answers a run gets. -/
def Visit.answer (wire : Wire) (v : Visit) : (c : Call) → Desk → Answer c × Desk
  | .queryAgent uid, d => (v.agent uid, d)
  | .roundtrip _ req, d =>
    ((brokered wire req (v.time req) d.store).1,
      { d with store := (brokered wire req (v.time req) d.store).2 })
  | .runHelper req, d => (v.dialog req, { d with dialogs := d.dialogs ++ [req] })

/-- A whole run. -/
def authenticate (wire : Wire) (v : Visit) (w : World) (store : RememberStore) :
    PamReturn × Desk :=
  (smAuthenticate w).evalState (v.answer wire) { store }

/-- The agent of the user approves. -/
def Approved (v : Visit) (w : World) : Prop :=
  ∃ uid, (bypassUser w).bind w.passwdByName = some uid ∧ v.agent uid = some true

/-- The broker finds a grant for the prompt. -/
def Found (wire : Wire) (v : Visit) (p : Prompt) (store : RememberStore) : Prop :=
  ∃ key, p.key = some key ∧ 0 < p.cfg.rememberSeconds ∧
    (brokered wire (.checkRemember ⟨key, p.cfg.rememberSeconds⟩) v.checkAt store).1 =
      some (.remember true)

/-- The store behind a dialog: a tick is sent to the broker. -/
def recorded (wire : Wire) (v : Visit) (p : Prompt) (store : RememberStore) : RememberStore :=
  match p.key with
  | some key =>
    if optedIn (v.dialog (p.helper p.rememberSecs)) && 0 < p.rememberSecs then
      (brokered wire (.recordRemember key) v.recordAt store).2
    else store
  | none => store

section Runs

variable {wire : Wire} {v : Visit} {w : World} {p : Prompt} {store : RememberStore}

/-- The dialog stage opens one dialog and records its tick. -/
theorem evalState_dialogStage (p : Prompt) (store : RememberStore) :
    (dialogStage p).evalState (v.answer wire) { store } =
      (⟨dialogCode (v.dialog (p.helper p.rememberSecs)), .dialog⟩,
        { store := recorded wire v p store, dialogs := [p.helper p.rememberSecs] }) := by
  rw [dialogStage_eq, Program.evalState_call]
  simp only [Visit.answer, recordStage, recorded]
  cases p.key with
  | none => rfl
  | some key =>
    by_cases ho : (optedIn (v.dialog (p.helper p.rememberSecs)) && 0 < p.rememberSecs) = true
    · simp only [ho, if_true]
      rfl
    · simp only [ho]
      rfl

/-- A grant lets a run in without a dialog. -/
theorem evalState_found (h : Found wire v p store) :
    (rememberStage p).evalState (v.answer wire) { store } =
      (⟨.success, .remember⟩, { store }) := by
  obtain ⟨key, hk, hs, hr⟩ := h
  rw [rememberStage_check hk hs, Program.evalState_call]
  simp only [Visit.answer, Visit.time, hr, brokered_check_store, checkedStage, if_true]
  rfl

/-- Without one it comes to the dialog. -/
theorem evalState_not_found (h : ¬ Found wire v p store) :
    (rememberStage p).evalState (v.answer wire) { store } =
      (dialogStage p).evalState (v.answer wire) { store } := by
  by_cases hs : 0 < p.cfg.rememberSeconds
  · cases hk : p.key with
    | none => rw [rememberStage_skip (Or.inl hk)]
    | some key =>
      have hr : (brokered wire (.checkRemember ⟨key, p.cfg.rememberSeconds⟩) v.checkAt store).1 ≠
          some (.remember true) := fun hr ↦ h ⟨key, hk, hs, hr⟩
      rw [rememberStage_check hk hs, Program.evalState_call]
      simp only [Visit.answer, Visit.time, brokered_check_store, checkedStage, hr, if_false]
  · rw [rememberStage_skip (Or.inr hs)]

/-- Without an approval of the agent a run goes on behind the bypass. -/
theorem authenticate_not_approved (h : ¬ Approved v w) (store : RememberStore) :
    authenticate wire v w store = (afterBypass w).evalState (v.answer wire) { store } := by
  rw [authenticate, smAuthenticate_eq]
  cases hu : (bypassUser w).bind w.passwdByName with
  | none => rfl
  | some uid =>
    have ha : v.agent uid ≠ some true := fun ha ↦ h ⟨uid, hu, ha⟩
    simp only [Program.evalState_call, Visit.answer, queriedStage, ha, if_false]

/-- A run with a prompt and a grant is let in without a dialog. -/
theorem authenticate_found (ha : ¬ Approved v w) (hp : decideEarly w = .inr p)
    (hf : Found wire v p store) :
    authenticate wire v w store = (⟨.success, .remember⟩, { store }) := by
  rw [authenticate_not_approved ha, afterBypass, hp]
  exact evalState_found hf

/-- A run with a prompt and no grant opens its dialog. -/
theorem authenticate_not_found (ha : ¬ Approved v w) (hp : decideEarly w = .inr p)
    (hf : ¬ Found wire v p store) :
    authenticate wire v w store =
      (⟨dialogCode (v.dialog (p.helper p.rememberSecs)), .dialog⟩,
        { store := recorded wire v p store, dialogs := [p.helper p.rememberSecs] }) := by
  rw [authenticate_not_approved ha, afterBypass, hp]
  exact (evalState_not_found hf).trans (evalState_dialogStage p store)

/-- A run that opened a dialog was prompted, and its tick was sent to the broker. -/
theorem authenticate_dialogs {req : HelperRequest}
    (h : req ∈ (authenticate wire v w store).2.dialogs) :
    ∃ p, decideEarly w = .inr p ∧ req = p.helper p.rememberSecs ∧
      (authenticate wire v w store).2.store = recorded wire v p store := by
  by_cases ha : Approved v w
  · obtain ⟨uid, hu, ha⟩ := ha
    simp [authenticate, smAuthenticate_eq, hu, Visit.answer, queriedStage, ha, Program.evalState]
      at h
  · cases hp : decideEarly w with
    | inl ret => simp [authenticate_not_approved ha, afterBypass, hp] at h
    | inr p =>
      by_cases hf : Found wire v p store
      · rw [authenticate_found ha hp hf] at h
        cases h
      · rw [authenticate_not_found ha hp hf] at h
        refine ⟨p, rfl, List.mem_singleton.mp h, ?_⟩
        rw [authenticate_not_found ha hp hf]

end Runs

/-! ### From the tick to the next request -/

/-- A frame the broker handles for anybody. -/
structure Handled where
  time : Nat
  peer : Option UInt32
  frame : Bytes

/-- The store behind the frames of others. -/
def handleAll (wire : Wire) (store : RememberStore) (others : List Handled) : RememberStore :=
  others.foldl (fun m q ↦ (handle wire q.peer q.frame m q.time).2) store

/-- A frame keeps an entry that is inside the cap, or renews it. -/
theorem handle_keeps {wire : Wire} {store : RememberStore} {k : Str} {t : Nat}
    (h : store k = some t) (peer : Option UInt32) (frame : Bytes) {now : Nat}
    (hcap : now - t < maxRemember) (hle : t ≤ now) :
    ∃ t', (handle wire peer frame store now).2 k = some t' ∧ t ≤ t' ∧ t' ≤ now := by
  unfold handle
  cases acceptRequest wire peer frame with
  | none => exact ⟨t, h, Nat.le_refl t, hle⟩
  | some req =>
    cases req with
    | ping => exact ⟨t, h, Nat.le_refl t, hle⟩
    | checkRemember q => exact ⟨t, h, Nat.le_refl t, hle⟩
    | recordRemember key =>
      simp only [dispatch]
      cases key.bind with
      | none => exact ⟨t, h, Nat.le_refl t, hle⟩
      | some b => exact Window.Table.record_keeps h hcap hle

/-- The frames handled up to a time inside the cap keep an entry or renew it. -/
theorem handleAll_keeps (wire : Wire) {others : List Handled} {store : RememberStore} {k : Str}
    {t₀ t now : Nat} (h : store k = some t) (ht : t₀ ≤ t) (hcap : now - t₀ < maxRemember)
    (hle : ∀ q ∈ others, t ≤ q.time ∧ q.time ≤ now)
    (ho : others.Pairwise (fun a b ↦ a.time ≤ b.time)) :
    ∃ t', handleAll wire store others k = some t' ∧ t₀ ≤ t' := by
  induction others generalizing store t with
  | nil => exact ⟨t, h, ht⟩
  | cons q others ih =>
    obtain ⟨hq, hrest⟩ := List.pairwise_cons.mp ho
    obtain ⟨hqt, hqn⟩ := hle q List.mem_cons_self
    have hqcap : q.time - t < maxRemember := by omega
    obtain ⟨t', ht', hold, hnew⟩ := handle_keeps h q.peer q.frame hqcap hqt
    apply ih ht' (Nat.le_trans ht hold) _ hrest
    intro r hr
    have hqr := hq r hr
    exact ⟨Nat.le_trans hnew hqr, (hle r (List.mem_cons_of_mem _ hr)).2⟩

/-! ### The claim on a checkbox -/

/-- An identical later request: the same service, configuration, audit ids and command line, a
display, and a policy that still asks. -/
structure Repeats (w w' : World) : Prop where
  service : pamService w' = pamService w
  config : serviceConfig w' = serviceConfig w
  loginuid : readProcU32 w'.host.fs ProcDir.loginuid w'.ppid =
    readProcU32 w.host.fs ProcDir.loginuid w.ppid
  sessionid : readProcU32 w'.host.fs ProcDir.sessionid w'.ppid =
    readProcU32 w.host.fs ProcDir.sessionid w.ppid
  cmdline : readCmdline w'.host.fs w'.host.pid = readCmdline w.host.fs w.host.pid
  display : displayFound w' = true
  policy : checkPolicy (serviceConfig w') (ProcessInfo.forPid w'.host.fs w'.host.pid) = none

/-- Whatever the store was, whatever the broker handled for others since the record, and whoever
repeats the request inside the window: a ticked Allow of the dialog lets the repeated request in
without a dialog. -/
def Honoured (wire : Wire) (w : World) : Prop :=
  ∀ (store : RememberStore) (v v' : Visit) (req : HelperRequest) (others : List Handled)
    (w' : World),
    req ∈ (authenticate wire v w store).2.dialogs → 0 < req.rememberSecs →
    v.dialog req = some ⟨.allow, true⟩ →
    (∀ q ∈ others, v.recordAt ≤ q.time ∧ q.time ≤ v'.checkAt) →
    others.Pairwise (fun a b ↦ a.time ≤ b.time) →
    v.recordAt ≤ v'.checkAt →
    v'.checkAt - v.recordAt < min (fromSecs req.rememberSecs.toNat) (fromSecs 900) →
    Repeats w w' → ¬ Approved v' w' →
    authenticate wire v' w' (handleAll wire (authenticate wire v w store).2.store others) =
      (⟨.success, .remember⟩,
        { store := handleAll wire (authenticate wire v w store).2.store others })

/-- The record and the check of the request's key fit into frames. -/
def KeyFits (wire : Wire) (w : World) : Prop :=
  ∀ command, (ProcessInfo.forPid w.host.fs w.host.pid).rememberCommand = some command →
    ∀ key : RememberKey,
      key =
        { loginuid := readProcU32 w.host.fs ProcDir.loginuid w.ppid
          sessionid := readProcU32 w.host.fs ProcDir.sessionid w.ppid
          service := pamService w
          command := rememberKeyCommand command (serviceConfig w).rememberScope } →
      Fits wire.request (.recordRemember key) ∧
        Fits wire.request (.checkRemember ⟨key, (serviceConfig w).rememberSeconds⟩)

/-- The remembered command depends on the command line alone. -/
theorem rememberCommand_congr {fs fs' : Procfs} {pid pid' : Int}
    (h : readCmdline fs' pid' = readCmdline fs pid) :
    (ProcessInfo.forPid fs' pid').rememberCommand =
      (ProcessInfo.forPid fs pid).rememberCommand := by
  have ht := congrArg Prod.snd (forPid_targets fs pid)
  have ht' := congrArg Prod.snd (forPid_targets fs' pid')
  simp only at ht ht'
  rw [ht, ht', h]
  exact targets_remember _ _ _

/-- A repeated request comes to a prompt with the same key and window. -/
theorem decideEarly_repeats {w w' : World} {p : Prompt} (h : Repeats w w')
    (hp : decideEarly w = .inr p) :
    ∃ p', decideEarly w' = .inr p' ∧ p'.key = p.key ∧ p'.cfg = p.cfg := by
  obtain ⟨he, -, -, rfl⟩ := (decideEarly_eq_inr_iff w p).mp hp
  refine ⟨promptOf w', ?_, ?_, h.config⟩
  · apply (decideEarly_eq_inr_iff w' _).mpr
    exact ⟨by rw [h.config, he], h.display, h.policy, rfl⟩
  · simp only [promptOf, rememberKey, h.config, h.service, h.loginuid, h.sessionid,
      rememberCommand_congr h.cmdline]

/-- The key of a prompt fits when its record and its check do. -/
theorem keyFits_iff {wire : Wire} {w : World} {p : Prompt} {key : RememberKey}
    (hp : decideEarly w = .inr p) (hk : p.key = some key) :
    KeyFits wire w ↔
      Fits wire.request (.recordRemember key) ∧
        Fits wire.request (.checkRemember ⟨key, p.cfg.rememberSeconds⟩) := by
  obtain ⟨-, -, command, hc, hkey⟩ := decideEarly_key hp hk
  have hcfg : p.cfg = serviceConfig w := (decideEarly_inr hp).2.1
  rw [hcfg] at hkey ⊢
  constructor
  · intro hfits
    exact hfits command hc key hkey
  · rintro hfits command' hc' key' hkey'
    rw [hc] at hc'
    cases hc'
    rw [hkey', ← hkey]
    exact hfits

/-- An offered window belongs to a key. -/
theorem key_of_rememberSecs {p : Prompt} (h : 0 < p.rememberSecs) :
    ∃ key, p.key = some key ∧ p.rememberSecs = p.cfg.rememberSeconds := by
  unfold Prompt.rememberSecs at h ⊢
  cases hk : p.key with
  | none =>
    rw [hk] at h
    exact absurd h (by simp)
  | some key => exact ⟨key, rfl, rfl⟩

/-- The key of a prompt can be bound. -/
theorem bind_of_prompt {w : World} {p : Prompt} {key : RememberKey} (hp : decideEarly w = .inr p)
    (hk : p.key = some key) : ∃ b : BoundKey, b.key = key := by
  obtain ⟨hl, hs, command, hc, rfl⟩ := decideEarly_key hp hk
  have hne := (rememberable_keyCommand (eligible_of_rememberCommand hc)
    p.cfg.rememberScope).nonempty
  exact ⟨⟨_, by simpa [RememberKey.isBindable, hl, hs] using hne⟩, rfl⟩

/-- A tick that fits is in the store at the time of its record. -/
theorem recorded_lookup {wire : Wire} {v : Visit} {w : World} {p : Prompt} {key : RememberKey}
    (hp : decideEarly w = .inr p) (hk : p.key = some key) (hs : 0 < p.rememberSecs)
    (hv : v.dialog (p.helper p.rememberSecs) = some ⟨.allow, true⟩)
    (hf : Fits wire.request (.recordRemember key)) (store : RememberStore) :
    recorded wire v p store (keystr key) = some v.recordAt := by
  obtain ⟨b, hb⟩ := bind_of_prompt hp hk
  have hbind : key.bind = some b := (RememberKey.bind_eq_some_iff key b).mpr hb
  simp [recorded, hk, hv, hs, optedIn, Outcome.isAllow, brokered_fits hf, dispatch, hbind,
    RememberStore.record, Window.Table.record, Window.Table.insert, hb]

/-- A check that fits finds an entry inside the window. -/
theorem found_of_lookup {wire : Wire} {v : Visit} {p : Prompt} {b : BoundKey}
    {store : RememberStore} {t : Nat} (hk : p.key = some b.key)
    (hf : Fits wire.request (.checkRemember ⟨b.key, p.cfg.rememberSeconds⟩))
    (ht : store (keystr b.key) = some t)
    (hlt : v.checkAt - t < min (fromSecs p.cfg.rememberSeconds.toNat) maxRemember) :
    Found wire v p store := by
  have hpos : 0 < p.cfg.rememberSeconds := by
    rw [UInt32.lt_iff_toNat_lt, UInt32.toNat_zero]
    apply Nat.pos_of_ne_zero
    intro hz
    have hnone := (fromSecs_eq_zero_iff _).mpr hz
    omega
  have hfresh : store.isFresh b p.cfg.rememberSeconds v.checkAt = true :=
    Window.Table.isFresh_of_lookup ht hlt
  exact ⟨b.key, hk, hpos, by rw [brokered_fits hf, dispatch_fresh hfresh]⟩

/-- When the frames of the key can be sent, the checkbox is honoured. -/
theorem honoured_of_fits {wire : Wire} {w : World} (h : KeyFits wire w) : Honoured wire w := by
  intro store v v' req others w' hreq hpos hv hle ho hrec hwin hrep hna
  obtain ⟨p, hp, rfl, hstore⟩ := authenticate_dialogs hreq
  rw [(decideEarly_inr hp).2.2.2] at hpos hwin
  obtain ⟨key, hk, hsecs⟩ := key_of_rememberSecs hpos
  obtain ⟨b, rfl⟩ := bind_of_prompt hp hk
  obtain ⟨hfr, hfc⟩ := (keyFits_iff hp hk).mp h
  have hlookup := recorded_lookup hp hk hpos hv hfr store
  have hcap : v'.checkAt - v.recordAt < maxRemember := by
    unfold maxRemember
    omega
  obtain ⟨t, ht, hle'⟩ := handleAll_keeps wire hlookup (Nat.le_refl _) hcap hle ho
  obtain ⟨p', hp', hk', hcfg'⟩ := decideEarly_repeats hrep hp
  rw [hstore]
  apply authenticate_found hna hp'
  apply found_of_lookup (b := b) (by rw [hk', hk]) (by rw [hcfg']; exact hfc) ht
  rw [hcfg', ← hsecs]
  unfold maxRemember
  omega

/-- A run that meets no approval, an empty store and a user who ticks everything. -/
def tickingVisit : Visit := ⟨fun _ ↦ none, fun _ ↦ some ⟨.allow, true⟩, 0, 0⟩

private theorem not_found_new (wire : Wire) (v : Visit) (p : Prompt) :
    ¬ Found wire v p RememberStore.new := by
  rintro ⟨key, -, -, hr⟩
  by_cases hf : Fits wire.request (.checkRemember ⟨key, p.cfg.rememberSeconds⟩)
  · rw [brokered_fits hf, Option.some.injEq] at hr
    obtain ⟨q, b, -, -, hfresh⟩ := dispatch_remember hr
    obtain ⟨t, ht, -⟩ := Window.Table.exists_of_isFresh hfresh
    cases ht
  · rw [brokered_not_fits hf] at hr
    cases hr

/-- When a frame of the key cannot be sent, the tick is lost. -/
theorem not_honoured_of_not_fits {wire : Wire} {w : World} {p : Prompt}
    (hp : decideEarly w = .inr p) (hs : 0 < p.rememberSecs) (h : ¬ KeyFits wire w) :
    ¬ Honoured wire w := by
  intro hon
  obtain ⟨key, hk, hsecs⟩ := key_of_rememberSecs hs
  have hna : ¬ Approved tickingVisit w := by
    rintro ⟨uid, -, ha⟩
    cases ha
  have hfirst := authenticate_not_found hna hp (not_found_new wire tickingVisit p)
  -- The request repeats itself at once: the second run meets the store that the first one left.
  have hrep : Repeats w w := by
    obtain ⟨-, hd, hpol, -⟩ := (decideEarly_eq_inr_iff w p).mp hp
    exact ⟨rfl, rfl, rfl, rfl, rfl, hd, hpol⟩
  have hnow : tickingVisit.checkAt - tickingVisit.recordAt <
      min (fromSecs (p.helper p.rememberSecs).rememberSecs.toNat) (fromSecs 900) := by
    have hpos : fromSecs p.rememberSecs.toNat ≠ 0 := by
      rw [ne_eq, fromSecs_eq_zero_iff]
      exact Nat.ne_of_gt (UInt32.lt_iff_toNat_lt.mp hs)
    have hcap : fromSecs 900 ≠ 0 := by
      rw [ne_eq, fromSecs_eq_zero_iff]
      omega
    have hzero : tickingVisit.checkAt - tickingVisit.recordAt = 0 := rfl
    rw [(decideEarly_inr hp).2.2.2]
    omega
  have hsecond := hon RememberStore.new tickingVisit tickingVisit (p.helper p.rememberSecs) [] w
    (by rw [hfirst]; exact List.mem_singleton_self _)
    (by rw [(decideEarly_inr hp).2.2.2]; exact hs) rfl (by simp) List.Pairwise.nil
    (Nat.le_refl _)
    hnow hrep hna
  have hlost : ¬ Found wire tickingVisit p (recorded wire tickingVisit p RememberStore.new) := by
    by_cases hfr : Fits wire.request (.recordRemember key)
    · rintro ⟨key', hk', -, hr⟩
      rw [hk] at hk'
      cases hk'
      have hfc : ¬ Fits wire.request (.checkRemember ⟨key, p.cfg.rememberSeconds⟩) :=
        fun hfc ↦ h ((keyFits_iff hp hk).mpr ⟨hfr, hfc⟩)
      rw [brokered_not_fits hfc] at hr
      cases hr
    · have hsame : recorded wire tickingVisit p RememberStore.new = RememberStore.new := by
        simp only [recorded, hk, brokered_not_fits hfr]
        split <;> rfl
      rw [hsame]
      exact not_found_new wire tickingVisit p
  rw [hfirst] at hsecond
  simp only [handleAll, List.foldl_nil] at hsecond
  rw [authenticate_not_found hna hp hlost] at hsecond
  cases hsecond

/-- A request that offers the checkbox is honoured exactly when the record and the check of its
key fit into frames. -/
theorem checkbox_honoured_iff (wire : Wire) {w : World} {p : Prompt}
    (hp : decideEarly w = .inr p) (hs : 0 < p.rememberSecs) :
    Honoured wire w ↔ KeyFits wire w := by
  constructor
  · intro hon
    by_contra h
    exact not_honoured_of_not_fits hp hs h hon
  · exact honoured_of_fits

/-- A tick on `sudo id` is honoured. -/
theorem promptWorld_honoured :
    (promptOf (promptWorld fun _ ↦ none)).rememberSecs = 300 ∧
      Honoured Postcard.wire (promptWorld fun _ ↦ none) := by
  obtain ⟨p, hp, -, hk, hw⟩ := decideEarly_promptWorld (fun _ ↦ none)
  have hs : p.rememberSecs = 300 := by rw [Prompt.rememberSecs, hk, hw]; rfl
  obtain ⟨-, -, -, rfl⟩ := (decideEarly_eq_inr_iff _ _).mp hp
  refine ⟨hs, (checkbox_honoured_iff Postcard.wire hp (by rw [hs]; decide)).mpr ?_⟩
  apply (keyFits_iff hp hk).mpr
  constructor
  · exact fits_of_textBytes Postcard.wire.request_documented (by decide)
  · exact fits_of_textBytes Postcard.wire.request_documented (by decide)

/-! ### A long command line -/

/-- An argument of `n` letters. -/
def longArgument (n : Nat) : CStr where
  bytes := toUtf8 (List.replicate n 'a')
  nulFree := by
    intro h
    obtain ⟨c, hc, hb⟩ := List.mem_flatMap.mp h
    rw [List.eq_of_mem_replicate hc] at hb
    revert hb
    decide

/-- `sudo id aaa…`, everything else as for `sudo id`. -/
def longWorld (n : Nat) : World :=
  { promptWorld (fun _ ↦ none) with
    host := (promptWorld fun _ ↦ none).host.started
      [CStr.ofText "sudo", CStr.ofText "id", longArgument n] }

/-- The command the request is remembered by. -/
def longCommand (n : Nat) : Str := joinSpace ["id".toList, List.replicate n 'a']

private theorem isToken_letters {n : Nat} (h : 0 < n) : IsToken (List.replicate n 'a') := by
  constructor
  · intro hnil
    have hlen := congrArg List.length hnil
    rw [List.length_replicate] at hlen
    simp only [List.length_nil] at hlen
    omega
  · intro c hc
    rw [List.eq_of_mem_replicate hc]
    decide

private theorem argvTokens_long {n : Nat} (h : 0 < n) :
    argvTokens [CStr.ofText "id", longArgument n] = ["id".toList, List.replicate n 'a'] := by
  have hid : splitWhitespace (CStr.ofText "id").text = ["id".toList] := by decide
  have hlong : (longArgument n).text = List.replicate n 'a' := fromUtf8Lossy_toUtf8 _
  rw [argvTokens_cons, argvTokens_cons, argvTokens_nil, hid, hlong,
    splitWhitespace_token (isToken_letters h)]
  rfl

/-- It is remembered by the whole command. -/
theorem rememberCommand_longWorld {n : Nat} (h : 0 < n) :
    (ProcessInfo.forPid (longWorld n).host.fs (longWorld n).host.pid).rememberCommand =
      some (longCommand n) := by
  have ht := forPid_started (promptWorld fun _ ↦ none).host (CStr.ofText "sudo")
    [CStr.ofText "id", longArgument n]
  have hrole : role (CStr.ofText "sudo") = .options := by decide
  rw [hrole, Role.targets, argvTokens_long h, skipOptions_word (by decide), elevatedTargets,
    if_pos (by decide), Prod.mk.injEq] at ht
  exact ht.2

/-- The long request is prompted with the checkbox. -/
theorem decideEarly_longWorld {n : Nat} (h : 0 < n) :
    decideEarly (longWorld n) = .inr (promptOf (longWorld n)) ∧
      (promptOf (longWorld n)).rememberSecs = 300 := by
  constructor
  · exact (decideEarly_eq_inr_iff _ _).mpr ⟨rfl, rfl, rfl, rfl⟩
  · have hl : readProcU32 (longWorld n).host.fs ProcDir.loginuid (longWorld n).ppid = 1000 := rfl
    have hs : readProcU32 (longWorld n).host.fs ProcDir.sessionid (longWorld n).ppid = 3 := rfl
    have hk : (promptOf (longWorld n)).key.isSome = true := by
      simp only [promptOf, rememberKey, hl, hs, rememberCommand_longWorld h]
      rfl
    rw [Prompt.rememberSecs, if_pos hk]
    rfl

/-- Its record does not fit. -/
theorem longWorld_not_fits (wire : Wire) {n : Nat} (h : maxFrameLen < n) (hn : n < 2 ^ 60) :
    ¬ KeyFits wire (longWorld n) := by
  have hpos : 0 < n := by omega
  intro hfits
  obtain ⟨hrec, -⟩ := hfits (longCommand n) (rememberCommand_longWorld hpos) _ rfl
  have hcmd : rememberKeyCommand (longCommand n) (serviceConfig (longWorld n)).rememberScope =
      longCommand n := by
    have hid : splitWhitespace "id".toList = ["id".toList] := by decide
    apply trim_joinSpace
    simp only [List.mem_cons, List.not_mem_nil, or_false]
    rintro t (rfl | rfl)
    · apply isToken_of_mem_splitWhitespace
      rw [hid]
      exact List.mem_singleton_self _
    · exact isToken_letters hpos
  have hservice : pamService (longWorld n) = "sudo".toList := rfl
  have hlen : (longCommand n).length = n + 3 := by simp [longCommand, joinSpace]
  have hbounds := length_toUtf8_bounds (longCommand n)
  rw [hcmd, hservice] at hrec
  have hsudo : (toUtf8 "sudo".toList).length = 4 := by decide
  refine not_fits wire.request_documented ?_ ?_ hrec
  · simp only [Request.textBytes, hsudo]
    omega
  · simp only [Request.textBytes, hsudo]
    omega

/-- With an argument of 70000 letters the checkbox is offered for 300 seconds, and a tick on it
is lost. -/
theorem longWorld_not_honoured :
    decideEarly (longWorld 70000) = .inr (promptOf (longWorld 70000)) ∧
      (promptOf (longWorld 70000)).rememberSecs = 300 ∧
      ¬ Honoured Postcard.wire (longWorld 70000) := by
  obtain ⟨hp, hs⟩ := decideEarly_longWorld (n := 70000) (by omega)
  refine ⟨hp, hs, ?_⟩
  apply not_honoured_of_not_fits hp (by rw [hs]; decide)
  exact longWorld_not_fits Postcard.wire (by unfold maxFrameLen; omega) (by omega)

end Sentinel.System.Checkbox
