import Sentinel.Pam.AgentBypass
import Sentinel.Pam.Environment
import Sentinel.Pam.Helper

/-!
# Faults of the outside

A run depends on the bus, the broker and the helper, and each of them can fail at any of its
steps. One outside is a degraded form of another when it differs from it only in failures. A
failure changes which stages of the run come about, but it never turns a refusal into a success.
-/

namespace Sentinel.Pam

open Sentinel.Base Sentinel.Shared Sentinel.Broker Sentinel.Pam.AgentBypass Sentinel.Pam.Helper

/-- What is outside of a run: the bus under the agent query, the broker behind a socket and the
system calls of the helper run. -/
structure Outside where
  bus : (e : BusCall) → Option e.Value
  broker : Str → Request → Option Response
  helper : HelperRequest → HelperIo

/-- The answers of an outside. -/
def Outside.answer (o : Outside) : (c : Call) → Answer c
  | .queryAgent uid => (AgentBypass.queryAgent uid).eval o.bus
  | .roundtrip sock req => o.broker sock req
  | .runHelper req => (Helper.run (o.helper req) req).toOption

/-- The result of a run under an outside. -/
def Outside.authenticate (o : Outside) (w : World) : PamReturn := (smAuthenticate w).eval o.answer

/-- A helper run in which some of the system calls fail: no pipe, no fork, an error or the
deadline instead of a descriptor, an error, an interrupt or nothing instead of the bytes. -/
structure Helper.HelperIo.Degrades (io io' : HelperIo) : Prop where
  pipe : io'.pipe = io.pipe ∨ io'.pipe = false
  fork : io'.fork = io.fork ∨ io'.fork = false
  poll : ∀ t, io'.poll t = io.poll t ∨ io'.poll t = none ∨ io'.poll t = some 0
  read : io'.read = io.read ∨ io'.read = .error ∨ io'.read = .interrupted ∨ io'.read = .bytes []

/-- An outside in which some of the interactions fail. -/
structure Outside.Degrades (o o' : Outside) : Prop where
  bus : ∀ e, o'.bus e = o.bus e ∨ o'.bus e = none
  broker : ∀ sock req, o'.broker sock req = o.broker sock req ∨ o'.broker sock req = none
  helper : ∀ req, (o.helper req).Degrades (o'.helper req)

/-- An outcome other than the failure was there before. -/
theorem eq_of_degraded {α : Type} {x x' fail a : α} (h : x' = x ∨ x' = fail) (ha : x' = a)
    (hne : fail ≠ a) : x = a := by
  cases h with
  | inl h => rw [← h, ha]
  | inr h =>
    rw [h] at ha
    exact absurd ha hne

/-- A value that survives a failure was there before. -/
theorem eq_some_of_degraded {α : Type} {x x' : Option α} {a : α} (h : x' = x ∨ x' = none)
    (ha : x' = some a) : x = some a :=
  eq_of_degraded h ha (by simp)

/-- An approval found over a degraded bus is found over the bus. -/
theorem queryAgent_of_degraded {o o' : Outside} (h : o.Degrades o') {uid : UInt32}
    (ha : o'.answer (.queryAgent uid) = some true) : o.answer (.queryAgent uid) = some true := by
  obtain ⟨hs, hd, ho, hp, hc⟩ := (eval_queryAgent_iff uid o'.bus).mp ha
  apply (eval_queryAgent_iff uid o.bus).mpr
  exact ⟨eq_some_of_degraded (h.bus _) hs, eq_some_of_degraded (h.bus _) hd,
    eq_some_of_degraded (h.bus _) ho, eq_some_of_degraded (h.bus _) hp,
    eq_some_of_degraded (h.bus _) hc⟩

/-- A verdict of a degraded helper run is the verdict of the helper run. -/
theorem run_of_degraded {io io' : HelperIo} (h : io.Degrades io') {req : HelperRequest}
    {v : Verdict} (hv : Helper.run io' req = .ok v) : Helper.run io req = .ok v := by
  obtain ⟨hp, hf, ⟨n, hn, hn0⟩, bs, hb, hb0, hv⟩ := (run_eq_ok_iff io' req v).mp hv
  apply (run_eq_ok_iff io req v).mpr
  refine ⟨eq_of_degraded h.pipe hp (by decide), eq_of_degraded h.fork hf (by decide),
    ⟨n, ?_, hn0⟩, bs, ?_, hb0, hv⟩
  · rcases h.poll (parentPollTimeout req.cfg.timeout) with h | h | h
    · rw [← h, hn]
    · rw [h] at hn
      cases hn
    · rw [h] at hn
      cases hn
      exact absurd rfl hn0
  · rcases h.read with h | h | h | h
    · rw [← h, hb]
    · rw [h] at hb
      cases hb
    · rw [h] at hb
      cases hb
    · rw [h] at hb
      cases hb
      exact absurd rfl hb0

/-- A dialog succeeds on a verdict. -/
theorem dialogCode_success {v : Option Verdict} (h : dialogCode v = .success) :
    ∃ verdict, v = some verdict := by
  cases v with
  | none => cases h
  | some verdict => exact ⟨verdict, rfl⟩

/-- A dialog that succeeds over a degraded helper run succeeds over the helper run. -/
theorem dialogCode_of_degraded {o o' : Outside} (h : o.Degrades o') {req : HelperRequest}
    (hc : dialogCode (o'.answer (.runHelper req)) = .success) :
    dialogCode (o.answer (.runHelper req)) = .success := by
  obtain ⟨v, hv⟩ := dialogCode_success hc
  have hrun : Helper.run (o'.helper req) req = .ok v := by
    cases hr : Helper.run (o'.helper req) req with
    | error e => simp [Outside.answer, hr, Except.toOption] at hv
    | ok v' => simpa [Outside.answer, hr, Except.toOption] using hv
  have hans : o.answer (.runHelper req) = some v := by
    simp [Outside.answer, run_of_degraded (h.helper req) hrun, Except.toOption]
  rw [hans, ← hv]
  exact hc

/-- A run that succeeds although any of its interactions fail succeeds without the failures. -/
theorem authenticate_success_of_degraded {o o' : Outside} (h : o.Degrades o') (w : World)
    (hs : (o'.authenticate w).code = .success) : (o.authenticate w).code = .success := by
  apply (eval_success_iff o.answer w).mpr
  rcases (eval_success_iff o'.answer w).mp hs with ⟨uid, hu, ha⟩ | hret | ⟨p, hp, hg | hc⟩
  · exact Or.inl ⟨uid, hu, queryAgent_of_degraded h ha⟩
  · exact Or.inr (Or.inl hret)
  · obtain ⟨key, hk, hw, hr⟩ := hg
    have hr' : o.answer (.roundtrip (sockPath p.env)
        (.checkRemember ⟨key, p.cfg.rememberSeconds⟩)) = some (.remember true) :=
      eq_some_of_degraded (h.broker _ _) hr
    exact Or.inr (Or.inr ⟨p, hp, Or.inl ⟨key, hk, hw, hr'⟩⟩)
  · exact Or.inr (Or.inr ⟨p, hp, Or.inr (dialogCode_of_degraded h hc)⟩)

/-- A host whose broker holds every grant and whose helper answers Allow; there is no agent. -/
def grantingOutside : Outside where
  bus := fun _ ↦ none
  broker := fun _ _ ↦ some (.remember true)
  helper := fun _ ↦
    { pipe := true
      fork := true
      poll := fun _ ↦ some 1
      read := .bytes (toUtf8 "ALLOW\n".toList) }

/-- The same host without its broker. -/
def brokerlessOutside : Outside := { grantingOutside with broker := fun _ _ ↦ none }

/-- Without the broker `sudo id` is let in by the dialog, with it by the grant. -/
theorem brokerlessOutside_degrades :
    grantingOutside.Degrades brokerlessOutside ∧
      brokerlessOutside.authenticate (promptWorld fun _ ↦ none) = ⟨.success, .dialog⟩ ∧
      (grantingOutside.authenticate (promptWorld fun _ ↦ none)).code = .success := by
  have hd : grantingOutside.Degrades brokerlessOutside :=
    { bus := fun _ ↦ Or.inl rfl
      broker := fun _ _ ↦ Or.inr rfl
      helper := fun _ ↦
        { pipe := Or.inl rfl
          fork := Or.inl rfl
          poll := fun _ ↦ Or.inl rfl
          read := Or.inl rfl } }
  have hs : brokerlessOutside.authenticate (promptWorld fun _ ↦ none) = ⟨.success, .dialog⟩ := by
    decide
  exact ⟨hd, hs, authenticate_success_of_degraded hd _ (by rw [hs])⟩

end Sentinel.Pam
